import AgentContext.Indexing.SafeModule
import Mathlib.Algebra.Order.BigOperators.Group.List

/-!
# What shedding keeps

`safe_module` measures characters, one file at a time, against a running total; the runner counts bytes, and validates the
whole answer.

    Sound                  a file that the gate lets through, on its own or with others
    validateModule_all     a request whose files are all sound is let through
    reported_reduction     what a reduction leaves out is in its diagnostics
    run_total              the total passes the budget by no more than degraded answers
    safeModule_bounded     the bytes of the answer, where they exceed the characters by no more than the reserve
-/

namespace Indexing.Structural

open JsonDump Fallible List

/-! ## Sizes -/

theorem excess_dump (parsed : Answer) : excess parsed.dump =
    excess parsed.path.toList + excess parsed.language.toList + excess parsed.parserFingerprint.toList +
      (parsed.symbols.map fun symbol => excess symbol.dump).sum +
      (parsed.relations.map fun relation => excess relation.dump).sum +
      (parsed.references.map fun reference => excess reference.dump).sum +
      (parsed.diagnostics.map fun diagnostic => excess diagnostic.dump).sum := by
  have hnames : excess "path".toList = 0 ∧ excess "language".toList = 0 ∧ excess "parser_fingerprint".toList = 0 ∧
      excess "symbols".toList = 0 ∧ excess "relations".toList = 0 ∧ excess "references".toList = 0 ∧
      excess "diagnostics".toList = 0 := by decide
  obtain ⟨h1, h2, h3, h4, h5, h6, h7⟩ := hnames
  unfold Answer.dump
  simp only [excess_object, excess_array, excess_str, map_cons, map_nil, sum_cons, sum_nil,
    map_map, Function.comp_def, h1, h2, h3, h4, h5, h6, h7]
  omega

theorem excess_diagnostics (counts : String → Nat) :
    ((diagnostics counts).map fun diagnostic => excess diagnostic.dump).sum = 0 := by
  refine sum_eq_zero fun n hn => ?_
  obtain ⟨diagnostic, hmem, rfl⟩ := mem_map.1 hn
  obtain ⟨code, hcode, rfl⟩ := mem_map.1 hmem
  have hall : ∀ code ∈ diagnosticCodes, excess code.toList = 0 := by decide
  have hnames : excess "code".toList = 0 ∧ excess "count".toList = 0 := by decide
  unfold ParsedDiagnostic.dump
  simp only [excess_object, excess_str, excess_nat, map_cons, map_nil, sum_cons, sum_nil, hnames.1,
    hnames.2, hall code (mem_filter.1 hcode).1, Nat.add_zero]

theorem length_dump (parsed : Answer) : parsed.dump.length =
    96 + (str parsed.path).length + (str parsed.language).length + (str parsed.parserFingerprint).length +
      (array (parsed.symbols.map (·.dump))).length + (array (parsed.relations.map (·.dump))).length +
      (array (parsed.references.map (·.dump))).length + (array (parsed.diagnostics.map (·.dump))).length := by
  have hnames : (str "path").length = 6 ∧ (str "language").length = 10 ∧ (str "parser_fingerprint").length = 20 ∧
      (str "symbols").length = 9 ∧ (str "relations").length = 11 ∧ (str "references").length = 12 ∧
      (str "diagnostics").length = 13 := by simp [str, escapeChar]
  unfold Answer.dump
  rw [length_object]
  simp only [map_cons, map_nil, sum_cons, sum_nil, length_cons, length_nil]
  omega

theorem length_diagnostics (counts : String → Nat) : (array ((diagnostics counts).map (·.dump))).length ≤ 208 := by
  have hitem : ∀ code, (ParsedDiagnostic.dump ⟨code, min (counts code) maxDiagnosticCount⟩).length + 1 ≤
      (str code).length + 23 := by
    intro code
    have hnames : (str "code").length = 6 ∧ (str "count").length = 7 := by simp [str, escapeChar]
    have hcount : (nat (min (counts code) maxDiagnosticCount)).length ≤ 4 :=
      (Nat.length_toDigits_le_iff (by decide) (by decide)).2
        (Nat.lt_of_le_of_lt (Nat.min_le_right _ _) (by decide : maxDiagnosticCount < 10 ^ 4))
    unfold ParsedDiagnostic.dump
    rw [length_object]
    simp only [map_cons, map_nil, sum_cons, sum_nil, length_cons, length_nil]
    omega
  have hsome : ∀ codes : List String,
      ((codes.map fun code => (ParsedDiagnostic.dump ⟨code, min (counts code) maxDiagnosticCount⟩).length).sum +
        (codes.length - 1)) ≤ (codes.map fun code => (str code).length + 23).sum := by
    intro codes
    induction codes with
    | nil => exact Nat.le_refl _
    | cons code codes ih =>
      have hcode := hitem code
      rw [map_cons, sum_cons, length_cons, map_cons, sum_cons]
      omega
  have hall : (diagnosticCodes.map fun code => (str code).length + 23).sum = 206 := by
    simp [diagnosticCodes, str, escapeChar]
  have hle := ((filter_sublist (p := fun code => 0 < counts code) (l := diagnosticCodes)).map
    fun code => (str code).length + 23).sum_le_sum fun _ _ => Nat.zero_le _
  unfold diagnostics
  rw [length_array, map_map, map_map, length_map, length_map]
  exact Nat.add_le_add_right ((hsome _).trans (hle.trans hall.le)) 2

/-- A reference is longer than all diagnostics. -/
theorem length_reference (reference : ParsedReference) : 215 ≤ reference.dump.length := by
  have hnames : (str "source").length = 8 ∧ (str "kind").length = 6 ∧ (str "target_name").length = 13 ∧
      (str "relative_level").length = 16 ∧ (str "start_byte").length = 12 ∧ (str "end_byte").length = 10 ∧
      (str "qualifier").length = 11 ∧ (str "qualifier_start_byte").length = 22 ∧
      (str "qualifier_end_byte").length = 20 ∧ (str "alias").length = 7 ∧ (str "alias_start_byte").length = 18 ∧
      (str "alias_end_byte").length = 16 ∧ (str "evidence_kind").length = 15 ∧ (str "confidence").length = 12 := by
    simp [str, escapeChar]
  unfold ParsedReference.dump
  rw [length_object]
  simp only [map_cons, map_nil, sum_cons, sum_nil, length_cons, length_nil]
  omega

theorem length_relation (relation : StructuralRelation) : 99 ≤ relation.dump.length := by
  have hnames : (str "source_ref").length = 12 ∧ (str "target_ref").length = 12 ∧ (str "kind").length = 6 ∧
      (str "start_byte").length = 12 ∧ (str "end_byte").length = 10 ∧ (str "evidence_kind").length = 15 ∧
      (str evidenceKind).length = 13 := by simp [str, escapeChar, evidenceKind]
  have hsource := two_le_length_str relation.sourceRef
  have htarget := two_le_length_str relation.targetRef
  have hkind := two_le_length_str relation.kind.value
  unfold StructuralRelation.dump
  rw [length_object]
  simp only [map_cons, map_nil, sum_cons, sum_nil, length_cons, length_nil]
  omega

variable {answer : Answer}

section Reductions

variable {parsed refused : Answer}

theorem excess_shedReferences : excess (shedReferences parsed).dump ≤ excess parsed.dump := by
  rw [excess_dump, excess_dump]
  simp only [shedReferences, cappedBy, excess_diagnostics, map_nil, sum_nil]
  omega

theorem excess_shedRelations : excess (shedRelations parsed).dump ≤ excess parsed.dump := by
  rw [excess_dump, excess_dump]
  simp only [shedRelations, cappedBy, excess_diagnostics, map_nil, sum_nil]
  omega

theorem excess_degradedFile {source : SourceFile} {fingerprint reason : String} (hpath : parsed.path = source.path)
    (hlanguage : parsed.language = source.language) (hfingerprint : parsed.parserFingerprint = fingerprint) :
    excess (degradedFile source fingerprint reason).dump ≤ excess parsed.dump := by
  rw [excess_dump, excess_dump]
  simp only [degradedFile, excess_diagnostics, map_nil, sum_nil, hpath, hlanguage, hfingerprint]
  omega

theorem le_length_array {item : List Char} {items : List (List Char)} (h : item ∈ items) :
    item.length + 2 ≤ (array items).length := by
  have hle := le_sum_of_mem (mem_map_of_mem (f := List.length) h)
  rw [length_array]
  omega

theorem length_shedReferences (h : parsed.references ≠ []) :
    (shedReferences parsed).dump.length ≤ parsed.dump.length := by
  obtain ⟨reference, hreference⟩ := exists_mem_of_ne_nil _ h
  have hdropped := le_length_array (mem_map_of_mem (f := fun reference => reference.dump) hreference)
  have hlong := length_reference reference
  have hshort := length_diagnostics fun code =>
    if code = "references_capped" then countOf parsed code + parsed.references.length else countOf parsed code
  have hempty : (array ([] : List (List Char))).length = 2 := rfl
  rw [length_dump, length_dump parsed]
  simp only [shedReferences, cappedBy, map_nil, hempty]
  omega

theorem length_shedRelations (h : parsed.relations ≠ []) :
    (shedRelations parsed).dump.length ≤ parsed.dump.length + 109 := by
  obtain ⟨relation, hrelation⟩ := exists_mem_of_ne_nil _ h
  have hdropped := le_length_array (mem_map_of_mem (f := fun relation => relation.dump) hrelation)
  have hlong := length_relation relation
  have hshort := length_diagnostics fun code =>
    if code = "references_capped" then countOf parsed code + parsed.relations.length else countOf parsed code
  have hempty : (array ([] : List (List Char))).length = 2 := rfl
  rw [length_dump, length_dump parsed]
  simp only [shedRelations, cappedBy, map_nil, hempty]
  omega

@[simp] theorem shedReferences_relations : (shedReferences parsed).relations = parsed.relations := rfl

/-- The reductions of a file: the file, without references, without relations, degraded. -/
theorem mem_reductions (h : answer ∈ reductions parsed refused) :
    answer = parsed ∨ (parsed.references ≠ [] ∧ answer = shedReferences parsed) ∨
      (parsed.references = [] ∧ parsed.relations ≠ [] ∧ answer = shedRelations parsed) ∨
      (parsed.references ≠ [] ∧ parsed.relations ≠ [] ∧ answer = shedRelations (shedReferences parsed)) ∨
      answer = refused := by
  unfold reductions at h
  by_cases href : parsed.references = [] <;> by_cases hrel : parsed.relations = [] <;>
    simp [href, hrel] at h <;> tauto

theorem fit_mem (total : Nat) : fit total parsed refused ∈ reductions parsed refused := by
  unfold fit
  cases hfound : (reductions parsed refused).find? _ with
  | some reduced => exact List.mem_of_find?_eq_some hfound
  | none => exact mem_append_right _ (mem_singleton.2 rfl)

/-- A reduction is longer than the file by no more than the degraded answer. -/
theorem length_reduction (h : answer ∈ reductions parsed refused) :
    answer.dump.length ≤ parsed.dump.length + refused.dump.length := by
  have hrefused : 109 ≤ refused.dump.length := by
    have hpath := two_le_length_str refused.path
    have hlanguage := two_le_length_str refused.language
    have hfingerprint := two_le_length_str refused.parserFingerprint
    rw [length_dump, length_array, length_array, length_array, length_array]
    omega
  rcases mem_reductions h with rfl | ⟨href, rfl⟩ | ⟨-, hrel, rfl⟩ | ⟨href, hrel, rfl⟩ | rfl
  · exact Nat.le_add_right _ _
  · exact (length_shedReferences href).trans (Nat.le_add_right _ _)
  · exact (length_shedRelations hrel).trans (Nat.add_le_add_left hrefused _)
  · exact (@length_shedRelations (shedReferences parsed) hrel).trans
      (Nat.add_le_add (length_shedReferences href) hrefused)
  · exact Nat.le_add_left _ _

/-- A file takes the total over the budget by no more than its degraded answer. -/
theorem fit_total {total extra : Nat} (h : total ≤ outputBudget + extra) :
    total + (fit total parsed refused).dump.length ≤ outputBudget + (extra + refused.dump.length) := by
  unfold fit
  cases hfound : (reductions parsed refused).find? _ with
  | some reduced =>
    have hfits := List.find?_some hfound
    rw [decide_eq_true_eq] at hfits
    rw [Option.getD_some]
    omega
  | none =>
    rw [Option.getD_none]
    omega

end Reductions

theorem excess_dumpModule (files : List Answer) :
    excess (dumpModule files) = (files.map fun answer => excess answer.dump).sum := by
  have hnames : excess "protocol_version".toList = 0 ∧ excess "files".toList = 0 := by decide
  unfold dumpModule
  simp only [excess_object, excess_array, excess_nat, map_cons, map_nil, sum_cons, sum_nil,
    map_map, Function.comp_def, hnames.1, hnames.2, Nat.zero_add, Nat.add_zero]

theorem length_dumpModule (files : List Answer) : (dumpModule files).length =
    (dumpModule []).length + (files.map fun answer => answer.dump.length).sum + (files.length - 1) := by
  unfold dumpModule object array
  simp only [map_cons, map_nil, length_commas, length_cons, length_append, length_nil,
    sum_cons, sum_nil, map_map, Function.comp_def, length_map]
  omega

/-! ## What validation keeps -/

/-- A file that the gate lets through, where names of `finals` and `paths` may be repeated. -/
structure Sound (fingerprint : String) (source : SourceFile) (finals paths : List (List UInt8)) (parsed : Answer) : Prop where
  path : parsed.path = source.path
  language : parsed.language = source.language
  fingerprint : parsed.parserFingerprint = fingerprint
  text : validateFile parsed source.content = .ok (SourceText.of parsed.path source.content)
  bound : ∀ symbol ∈ parsed.symbols, (SourceText.of parsed.path source.content).prefixOk symbol.qualifiedName
    symbol.startByte symbol.endByte finals paths

variable {text : SourceText}

theorem validateFile_eq_ok {parsed : Answer} {content : List UInt8} : validateFile parsed content = .ok text ↔
      (parsed.symbols.length ≤ maxSymbolsPerFile ∧ parsed.relations.length ≤ maxRelationsPerFile ∧
        parsed.references.length ≤ maxReferencesPerFile) ∧
      text = SourceText.of parsed.path content ∧ ∃ declared sources referred,
        parsed.symbols.foldlM (checkSymbol text parsed.language) {} = .ok declared ∧
        parsed.relations.foldlM (checkRelation content.length declared) [] = .ok sources ∧
        parsed.references.foldlM (checkReference text declared) { nameBytes := declared.nameBytes } = .ok referred := by
  unfold validateFile
  split
  · next hmany =>
    constructor
    · intro h
      cases h
    · rintro ⟨⟨h1, h2, h3⟩, -⟩
      omega
  · next hfew =>
    simp only [not_or, not_lt] at hfew
    simp only [bind_eq_ok]
    constructor
    · rintro ⟨declared, hsymbols, sources, hrelations, referred, hreferences, heq⟩
      cases heq
      exact ⟨hfew, rfl, declared, sources, referred, hsymbols, hrelations, hreferences⟩
    · rintro ⟨-, rfl, declared, sources, referred, hsymbols, hrelations, hreferences⟩
      exact ⟨declared, hsymbols, sources, hrelations, referred, hreferences, rfl⟩

section Sound

variable {fingerprint : String} {source : SourceFile} {finals finals' paths paths' : List (List UInt8)}
  {parsed : Answer}

theorem prefixOk_mono {name : String} {start stop : Nat} (hfinals : finals ⊆ finals')
    (hpaths : paths ⊆ paths') (h : text.prefixOk name start stop finals paths) :
    text.prefixOk name start stop finals' paths' := by
  unfold SourceText.prefixOk at h ⊢
  rw [Bool.and_eq_true, decide_eq_true_eq, all_eq_true] at h ⊢
  have hfewer : ((segments name).dropLast.filter fun raw => decide (raw ∉ paths') && decide (raw ∉ finals')).Sublist
      ((segments name).dropLast.filter fun raw => decide (raw ∉ paths) && decide (raw ∉ finals)) := by
    refine monotone_filter_right _ fun raw hraw => ?_
    rw [Bool.and_eq_true, decide_eq_true_eq, decide_eq_true_eq] at hraw ⊢
    exact ⟨fun hin => hraw.1 (hpaths hin), fun hin => hraw.2 (hfinals hin)⟩
  exact ⟨fun raw hraw => h.1 raw (hfewer.subset hraw), hfewer.length_le.trans h.2⟩

section

variable (sound : Sound fingerprint source finals paths parsed)
include sound

/-- More names to repeat do no harm. -/
theorem Sound.mono (hfinals : finals ⊆ finals')
    (hpaths : paths ⊆ paths') : Sound fingerprint source finals' paths' parsed :=
  ⟨sound.path, sound.language, sound.fingerprint, sound.text,
    fun symbol hsymbol => prefixOk_mono hfinals hpaths (sound.bound symbol hsymbol)⟩

theorem Sound.shedReferences : Sound fingerprint source finals paths (shedReferences parsed) where
  path := sound.path
  language := sound.language
  fingerprint := sound.fingerprint
  bound := sound.bound
  text := by
    obtain ⟨⟨hsymbols, hrelations, -⟩, -, declared, sources, -, hdeclared, hsources, -⟩ :=
      validateFile_eq_ok.1 sound.text
    exact validateFile_eq_ok.2 ⟨⟨hsymbols, hrelations, Nat.zero_le _⟩, rfl, declared, sources, _, hdeclared, hsources,
      rfl⟩

theorem Sound.shedRelations : Sound fingerprint source finals paths (shedRelations parsed) where
  path := sound.path
  language := sound.language
  fingerprint := sound.fingerprint
  bound := sound.bound
  text := by
    obtain ⟨⟨hsymbols, -, hreferences⟩, -, declared, -, referred, hdeclared, -, hreferred⟩ :=
      validateFile_eq_ok.1 sound.text
    exact validateFile_eq_ok.2 ⟨⟨hsymbols, Nat.zero_le _, hreferences⟩, rfl, declared, [], referred, hdeclared, rfl,
      hreferred⟩

end

/-- A file without structure is let through under its names. -/
theorem sound_structureless (hpath : parsed.path = source.path) (hlanguage : parsed.language = source.language)
    (hfingerprint : parsed.parserFingerprint = fingerprint) (h : parsed.structureless) :
    Sound fingerprint source finals paths parsed where
  path := hpath
  language := hlanguage
  fingerprint := hfingerprint
  bound := by
    unfold ParsedFile.structureless at h
    simp only [Bool.and_eq_true, List.isEmpty_iff] at h
    rw [h.1.1]
    exact forall_mem_nil _
  text := by
    unfold ParsedFile.structureless at h
    simp only [Bool.and_eq_true, List.isEmpty_iff] at h
    obtain ⟨⟨hsymbols, hrelations⟩, hreferences⟩ := h
    refine validateFile_eq_ok.2 ⟨?_, rfl, {}, [], { nameBytes := 0 }, ?_, ?_, ?_⟩
    · rw [hsymbols, hrelations, hreferences]
      exact ⟨Nat.zero_le _, Nat.zero_le _, Nat.zero_le _⟩
    · rw [hsymbols]
      rfl
    · rw [hrelations]
      rfl
    · rw [hreferences]
      rfl

end Sound

/-! ## One file and all of them -/

section Module

variable {rehash : String → String → String} {fingerprint : String} {request : List SourceFile} {source : SourceFile}
  {seen : List (Answer × SourceText)} {parsed : Answer}
variable {finals paths : List (List UInt8)}

theorem checkFile_eq_ok {seen' : List (Answer × SourceText)} : checkFile request fingerprint seen parsed = .ok seen' ↔
      ∃ source, request.find? (·.path = parsed.path) = some source ∧ parsed.path ∉ seen.map (·.1.path) ∧
        parsed.language = source.language ∧ parsed.parserFingerprint = fingerprint ∧
        ∃ text, validateFile parsed source.content = .ok text ∧ seen' = seen ++ [(parsed, text)] := by
  unfold checkFile
  cases hfind : request.find? _ with
  | none =>
    constructor
    · intro h
      cases h
    · rintro ⟨_, h, -⟩
      cases h
  | some source =>
    simp only [Option.some.injEq, exists_eq_left']
    by_cases hseen : parsed.path ∈ seen.map (·.1.path)
    · simp [hseen]
    · by_cases hlanguage : parsed.language = source.language
      · by_cases hfingerprint : parsed.parserFingerprint = fingerprint
        · simp only [hseen, hlanguage, hfingerprint, if_false, ne_eq, not_true_eq_false, not_false_eq_true, true_and,
            bind_eq_ok]
          refine exists_congr fun text => and_congr_right fun _ => ?_
          rw [Except.ok.injEq, eq_comm]
        · simp [hseen, hlanguage, hfingerprint]
      · simp [hseen, hlanguage]

theorem finish_eq_ok : (∃ answer, finish rehash finals paths parsed text = .ok answer) ↔
    ∀ symbol ∈ parsed.symbols, text.prefixOk symbol.qualifiedName symbol.startByte symbol.endByte finals paths := by
  unfold finish
  split
  · next h =>
    obtain ⟨symbol, hmem, hnot⟩ := h
    constructor
    · rintro ⟨_, h⟩
      cases h
    · intro hall
      exact absurd (hall symbol hmem) hnot
  · next h =>
    simp only [not_exists, not_and, not_not] at h
    exact ⟨fun _ => h, fun _ => ⟨_, rfl⟩⟩

/-- What is let through alone. -/
theorem validateModule_single {answers : List Answer} (h : validateModule rehash [source] [parsed] fingerprint = .ok answers) :
    Sound fingerprint source (finalsOf [parsed]) (pathsOf [source]) parsed := by
  unfold validateModule at h
  obtain ⟨seen, hseen, hfinish⟩ := bind_eq_ok.1 h
  rw [foldlM_cons] at hseen
  obtain ⟨seen', hchecked, hnil⟩ := bind_eq_ok.1 hseen
  cases hnil
  obtain ⟨source', hfind, -, hlanguage, hfingerprint, text, htext, rfl⟩ := checkFile_eq_ok.1 hchecked
  have hpath : parsed.path = source.path := by
    have hsome := List.find?_some hfind
    rw [decide_eq_true_eq] at hsome
    rw [← hsome, mem_singleton.1 (List.mem_of_find?_eq_some hfind)]
  have hsource : source' = source := mem_singleton.1 (List.mem_of_find?_eq_some hfind)
  subst hsource
  obtain ⟨-, rfl, -⟩ := validateFile_eq_ok.1 htext
  refine ⟨hpath, hlanguage, hfingerprint, htext, ?_⟩
  split at hfinish
  · cases hfinish
  · obtain ⟨answer, -, hanswer⟩ := forall₂_left (mapM_eq_ok.1 hfinish) (parsed, SourceText.of parsed.path source'.content)
      (mem_append_right _ (mem_singleton.2 rfl))
    exact finish_eq_ok.1 ⟨answer, hanswer⟩

def withTexts (sources : List SourceFile) (files : List Answer) : List (Answer × SourceText) :=
  (sources.zip files).map fun (source, parsed) => (parsed, SourceText.of parsed.path source.content)

theorem checkFiles (hunique : (request.map (·.path)).Nodup) :
    ∀ {sources : List SourceFile} {files : List Answer} {seen : List (Answer × SourceText)},
      List.Forall₂ (fun source parsed => Sound fingerprint source finals paths parsed) sources files →
      sources ⊆ request → (sources.map (·.path)).Nodup → (∀ source ∈ sources, source.path ∉ seen.map (·.1.path)) →
      files.foldlM (checkFile request fingerprint) seen = .ok (seen ++ withTexts sources files) := by
  intro sources files seen h
  induction h generalizing seen with
  | nil =>
    intro _ _ _
    rw [withTexts, zip_nil_left, map_nil, append_nil]
    rfl
  | @cons source parsed sources files sound _ ih =>
    intro hsub hnodup hnew
    have hfind : request.find? (·.path = parsed.path) = some source := by
      rw [List.find?_eq_some_iff_append]
      obtain ⟨before, after, heq⟩ := append_of_mem (hsub mem_cons_self)
      refine ⟨by rw [decide_eq_true_eq, sound.path], before, after, heq, fun other hother => ?_⟩
      rw [heq, map_append, map_cons, nodup_append] at hunique
      have hne := hunique.2.2 other.path (mem_map.2 ⟨other, hother, rfl⟩) source.path mem_cons_self
      rw [sound.path]
      simpa using hne
    have hfile : checkFile request fingerprint seen parsed =
        .ok (seen ++ [(parsed, SourceText.of parsed.path source.content)]) :=
      checkFile_eq_ok.2 ⟨source, hfind, sound.path ▸ hnew source mem_cons_self, sound.language, sound.fingerprint,
        _, sound.text, rfl⟩
    rw [map_cons, nodup_cons] at hnodup
    rw [foldlM_cons, hfile, ok_bind, ih (fun s hs => hsub (mem_cons_of_mem _ hs)) hnodup.2 ?_]
    · rw [withTexts, withTexts, zip_cons_cons, map_cons, append_assoc, singleton_append]
    · intro other hother hin
      rw [map_append, mem_append, map_singleton, mem_singleton] at hin
      rcases hin with hin | hin
      · exact hnew other (mem_cons_of_mem _ hother) hin
      · exact hnodup.1 (sound.path ▸ hin ▸ mem_map.2 ⟨other, hother, rfl⟩)

/-- **Files that are let through one by one are let through together.** -/
theorem validateModule_all {files : List Answer} (hunique : (request.map (·.path)).Nodup)
    (sound : List.Forall₂ (fun source parsed => Sound fingerprint source (finalsOf [parsed]) (pathsOf [source]) parsed)
      request files) : ∃ answers, validateModule rehash request files fingerprint = .ok answers := by
  have hall : List.Forall₂ (fun source parsed => Sound fingerprint source (finalsOf files) (pathsOf request) parsed)
      request files := by
    obtain ⟨hlength, hsound⟩ := forall₂_iff_zip.1 sound
    refine forall₂_iff_zip.2 ⟨hlength, fun {source parsed} hmem => (hsound hmem).mono ?_ ?_⟩
    · intro raw hraw
      obtain ⟨_, hone, hname⟩ := mem_flatMap.1 hraw
      rw [mem_singleton.1 hone] at hname
      exact mem_flatMap.2 ⟨parsed, (of_mem_zip hmem).2, hname⟩
    · intro raw hraw
      obtain ⟨_, hone, hname⟩ := mem_flatMap.1 hraw
      rw [mem_singleton.1 hone] at hname
      exact mem_flatMap.2 ⟨source, (of_mem_zip hmem).1, hname⟩
  have hchecked : files.foldlM (checkFile request fingerprint) [] = .ok ([] ++ withTexts request files) :=
    checkFiles hunique hall (fun _ h => h) hunique fun _ _ => not_mem_nil
  have hfinished : ∀ x ∈ withTexts request files, ∃ answer,
      finish rehash (finalsOf files) (pathsOf request) x.1 x.2 = .ok answer ∧ True := by
    intro x hx
    obtain ⟨⟨source, parsed⟩, hmem, rfl⟩ := mem_map.1 hx
    obtain ⟨answer, hanswer⟩ := finish_eq_ok.2 ((forall₂_iff_zip.1 hall).2 hmem).bound
    exact ⟨answer, hanswer, trivial⟩
  obtain ⟨answers, hanswers, -⟩ := mapM_forall₂ hfinished
  have hevery : ¬ ∃ source ∈ request, source.path ∉ (withTexts request files).map (·.1.path) := by
    rintro ⟨source, hsource, hnot⟩
    obtain ⟨parsed, hparsed, hsound⟩ := forall₂_left hall source hsource
    have hfiles : ((withTexts request files).map (·.1)) = files := by
      rw [withTexts, map_map]
      exact map_snd_zip hall.length_eq.ge
    rw [← hfiles] at hparsed
    obtain ⟨x, hx, rfl⟩ := mem_map.1 hparsed
    exact hnot (mem_map.2 ⟨x, hx, hsound.path⟩)
  refine ⟨answers, ?_⟩
  unfold validateModule
  rw [hchecked, ok_bind, nil_append, if_neg hevery]
  exact hanswers

end Module

/-! ## A batch -/

/-- An answer without structure is to the file that was asked for. -/
def Named (fingerprint : String) (source : SourceFile) (outcome : FileOutcome) : Prop :=
  ∀ parsed, outcome = .parsed parsed → parsed.structureless →
    parsed.path = source.path ∧ parsed.language = source.language ∧ parsed.parserFingerprint = fingerprint

def Tells (answer : Answer) (code : String) : Prop := ∃ diagnostic ∈ answer.diagnostics, diagnostic.code = code

/-- What an answer has not of what was parsed, its diagnostics tell. -/
def Reported (outcome : FileOutcome) (answer : Answer) : Prop :=
  match outcome with
  | .parsed parsed =>
    (answer.symbols ≠ parsed.symbols → Tells answer "file_degraded" ∧ Tells answer "symbols_dropped") ∧
      (answer.relations ≠ parsed.relations ∨ answer.references ≠ parsed.references →
        Tells answer "references_capped" ∨ Tells answer "file_degraded" ∧ Tells answer "symbols_dropped")
  | .workBudgetExceeded =>
    Tells answer "file_degraded" ∧ (Tells answer "work_budget_exceeded" ∨ Tells answer "symbols_dropped")
  | .refused => Tells answer "file_degraded" ∧ Tells answer "symbols_dropped"

section Attempt

variable {rehash : String → String → String} {fingerprint : String} {source : SourceFile} {outcome : FileOutcome}
variable {reason : String}
variable {finals paths : List (List UInt8)} {parsed reduced : Answer}

theorem tells_diagnostics {counts : String → Nat} {code : String} (h : answer.diagnostics = diagnostics counts)
    (hcode : code ∈ diagnosticCodes) (hpos : 0 < counts code) : Tells answer code := by
  refine ⟨⟨code, min (counts code) maxDiagnosticCount⟩, ?_, rfl⟩
  rw [h]
  exact mem_map.2 ⟨code, mem_filter.2 ⟨hcode, decide_eq_true hpos⟩, rfl⟩

theorem tells_degradedFile (hreason : reason ∈ diagnosticCodes) :
    Tells (degradedFile source fingerprint reason) "file_degraded" ∧ Tells (degradedFile source fingerprint reason) reason :=
  ⟨tells_diagnostics rfl (by decide) (by rw [if_pos (Or.inl rfl)]; exact Nat.zero_lt_one),
    tells_diagnostics rfl hreason (by rw [if_pos (Or.inr rfl)]; exact Nat.zero_lt_one)⟩

theorem sound_degradedFile : Sound fingerprint source finals paths (degradedFile source fingerprint reason) :=
  sound_structureless rfl rfl rfl rfl

theorem attempt_parsed (parsed : Answer) : (attempt rehash fingerprint source (.parsed parsed) = parsed ∧
      (parsed.structureless ∨ ∃ answers, validateModule rehash [source] [parsed] fingerprint = .ok answers)) ∨
    attempt rehash fingerprint source (.parsed parsed) = degradedFile source fingerprint "symbols_dropped" := by
  show ((if _ then _ else _) = parsed ∧ _) ∨ (if _ then _ else _) = _
  by_cases hbare : parsed.structureless
  · exact .inl ⟨if_pos hbare, .inl hbare⟩
  · rw [if_neg hbare]
    cases hvalid : validateModule rehash [source] [parsed] fingerprint with
    | ok answers => exact .inl ⟨rfl, .inr ⟨answers, rfl⟩⟩
    | error code => exact .inr rfl

/-- What is attempted is let through, where answers without structure name their file. -/
theorem sound_attempt (named : Named fingerprint source outcome) :
    Sound fingerprint source (finalsOf [attempt rehash fingerprint source outcome]) (pathsOf [source])
      (attempt rehash fingerprint source outcome) := by
  cases outcome with
  | parsed parsed =>
    rcases @attempt_parsed rehash fingerprint source parsed with ⟨heq, hbare | ⟨answers, hvalid⟩⟩ | heq
    · obtain ⟨hpath, hlanguage, hfingerprint⟩ := named parsed rfl hbare
      rw [heq]
      exact sound_structureless hpath hlanguage hfingerprint hbare
    · rw [heq]
      exact validateModule_single hvalid
    · rw [heq]
      exact sound_degradedFile
  | workBudgetExceeded | refused => exact sound_degradedFile

theorem sound_reduction (sound : Sound fingerprint source (finalsOf [parsed]) (pathsOf [source]) parsed)
    (h : reduced ∈ reductions parsed (degradedFile source fingerprint "symbols_dropped")) :
    Sound fingerprint source (finalsOf [reduced]) (pathsOf [source]) reduced := by
  rcases mem_reductions h with rfl | ⟨-, rfl⟩ | ⟨-, -, rfl⟩ | ⟨-, -, rfl⟩ | rfl
  · exact sound
  · exact sound.shedReferences
  · exact sound.shedRelations
  · exact sound.shedReferences.shedRelations
  · exact sound_degradedFile

theorem excess_reduction (sound : Sound fingerprint source finals paths parsed)
    (h : reduced ∈ reductions parsed (degradedFile source fingerprint "symbols_dropped")) :
    excess reduced.dump ≤ excess parsed.dump := by
  rcases mem_reductions h with rfl | ⟨-, rfl⟩ | ⟨-, -, rfl⟩ | ⟨-, -, rfl⟩ | rfl
  · exact Nat.le_refl _
  · exact excess_shedReferences
  · exact excess_shedRelations
  · exact excess_shedRelations.trans excess_shedReferences
  · exact excess_degradedFile sound.path sound.language sound.fingerprint

theorem tells_cappedBy {answer parsed : Answer} {dropped : Nat} (h : answer.diagnostics = cappedBy parsed dropped)
    (hpos : 0 < dropped) : Tells answer "references_capped" :=
  tells_diagnostics h (by decide) (by rw [if_pos rfl]; omega)

theorem reductions_degradedFile {refused reduced : Answer}
    (h : reduced ∈ reductions (degradedFile source fingerprint reason) refused) :
    reduced = degradedFile source fingerprint reason ∨ reduced = refused := by
  rcases mem_reductions h with h | ⟨hne, -⟩ | ⟨-, hne, -⟩ | ⟨hne, -⟩ | h
  · exact .inl h
  · exact absurd rfl hne
  · exact absurd rfl hne
  · exact absurd rfl hne
  · exact .inr h

/-- **What is shed is reported.** -/
theorem reported_reduction {reduced : Answer} (h : reduced ∈ reductions (attempt rehash fingerprint source outcome)
      (degradedFile source fingerprint "symbols_dropped")) : Reported outcome reduced := by
  have hdropped : Tells (degradedFile source fingerprint "symbols_dropped") "file_degraded" ∧
      Tells (degradedFile source fingerprint "symbols_dropped") "symbols_dropped" := tells_degradedFile (by decide)
  cases outcome with
  | parsed parsed =>
    rcases @attempt_parsed rehash fingerprint source parsed with ⟨heq, -⟩ | heq
    · rw [heq] at h
      rcases mem_reductions h with rfl | ⟨href, rfl⟩ | ⟨-, hrel, rfl⟩ | ⟨href, hrel, rfl⟩ | rfl
      · exact ⟨fun hne => absurd rfl hne, fun hne => by simp at hne⟩
      · exact ⟨fun hne => absurd rfl hne, fun _ => .inl (tells_cappedBy rfl (length_pos_of_ne_nil href))⟩
      · exact ⟨fun hne => absurd rfl hne, fun _ => .inl (tells_cappedBy rfl (length_pos_of_ne_nil hrel))⟩
      · exact ⟨fun hne => absurd rfl hne, fun _ => .inl (tells_cappedBy rfl (length_pos_of_ne_nil hrel))⟩
      · exact ⟨fun _ => hdropped, fun _ => .inr hdropped⟩
    · rw [heq] at h
      rcases reductions_degradedFile h with rfl | rfl
      · exact ⟨fun _ => hdropped, fun _ => .inr hdropped⟩
      · exact ⟨fun _ => hdropped, fun _ => .inr hdropped⟩
  | workBudgetExceeded =>
    rcases reductions_degradedFile h with rfl | rfl
    · have hbudget := @tells_degradedFile fingerprint source "work_budget_exceeded" (by decide)
      exact ⟨hbudget.1, .inl hbudget.2⟩
    · exact ⟨hdropped.1, .inr hdropped.2⟩
  | refused =>
    rcases reductions_degradedFile h with rfl | rfl
    · exact hdropped
    · exact hdropped

end Attempt

/-! ## A run -/

section Run

variable {A : Type} {rehash : String → String → String} {newFile : A → A} {parseFile : ParseFile A} {fingerprint : String}

def outcomes (rehash : String → String → String) (newFile : A → A) (parseFile : ParseFile A) (fingerprint : String) :
    Batch A → List SourceFile → List (SourceFile × FileOutcome)
  | _, [] => []
  | batch, source :: rest =>
    (source, batch.outcome newFile parseFile source) ::
      outcomes rehash newFile parseFile fingerprint (batch.add rehash newFile parseFile fingerprint source) rest

section

variable (sources : List SourceFile) (batch : Batch A)
include sources batch

theorem run_files : ∃ answers,
    (sources.foldl (Batch.add rehash newFile parseFile fingerprint) batch).files = batch.files ++ answers ∧
      List.Forall₂ (fun x reduced => reduced ∈ reductions (attempt rehash fingerprint x.1 x.2)
        (degradedFile x.1 fingerprint "symbols_dropped"))
        (outcomes rehash newFile parseFile fingerprint batch sources) answers := by
  induction sources generalizing batch with
  | nil => exact ⟨[], (append_nil _).symm, .nil⟩
  | cons source sources ih =>
    obtain ⟨answers, heq, hall⟩ := ih (batch.add rehash newFile parseFile fingerprint source)
    refine ⟨_ :: answers, ?_, .cons (fit_mem batch.total) hall⟩
    rw [foldl_cons, heq, append_cons]
    rfl

/-- The total is that of the answers, and over the budget by no more than their degraded answers. -/
theorem run_total {extra : Nat}
    (hsum : batch.total = (batch.files.map fun answer => answer.dump.length).sum)
    (hover : batch.total ≤ outputBudget + extra) :
    (((sources.foldl (Batch.add rehash newFile parseFile fingerprint) batch).files.map fun answer =>
      answer.dump.length).sum ≤ outputBudget + (extra +
        (sources.map fun source => (degradedFile source fingerprint "symbols_dropped").dump.length).sum)) := by
  induction sources generalizing batch extra with
  | nil =>
    rw [foldl_nil, map_nil, sum_nil, Nat.add_zero, ← hsum]
    exact hover
  | cons source sources ih =>
    rw [foldl_cons, map_cons, sum_cons, ← Nat.add_assoc extra]
    refine ih _ ?_ (fit_total hover)
    unfold Batch.add
    rw [map_append, sum_append, ← hsum, map_singleton, sum_singleton]

theorem map_fst_outcomes :
    (outcomes rehash newFile parseFile fingerprint batch sources).map (·.1) = sources := by
  induction sources generalizing batch with
  | nil => rfl
  | cons source sources ih => rw [outcomes, map_cons, ih]

end

/-- The characters of what is attempted, up to the output budget. -/
def measured (rehash : String → String → String) (fingerprint : String) (run : List (SourceFile × FileOutcome)) : Nat :=
  min outputBudget (run.map fun x => (attempt rehash fingerprint x.1 x.2).dump.length).sum

/-- What the answers to a request hold over their characters, with the degraded answers and the commas. -/
def slack (rehash : String → String → String) (fingerprint : String) (run : List (SourceFile × FileOutcome)) : Nat :=
  (run.map fun x => excess (attempt rehash fingerprint x.1 x.2).dump).sum +
    (run.map fun x => (degradedFile x.1 fingerprint "symbols_dropped").dump.length).sum + run.length

/-- **Every file is answered, in order, and the answer is small enough and let through, and says what was shed**, where
answers without structure name their file and the UTF-8 bytes over the characters fit in what the runner reads beyond what
is measured. -/
theorem safeModule_bounded (request : ParseRequest) (adapter : A)
    (named : ∀ x ∈ outcomes rehash newFile parseFile fingerprint ⟨adapter, 0, 0, []⟩ request.files,
      Named fingerprint x.1 x.2)
    (fits : (dumpModule []).length +
      measured rehash fingerprint (outcomes rehash newFile parseFile fingerprint ⟨adapter, 0, 0, []⟩ request.files) +
      slack rehash fingerprint (outcomes rehash newFile parseFile fingerprint ⟨adapter, 0, 0, []⟩ request.files) ≤
        maxOutputBytes) :
    List.Forall₂ (fun source answer => answer.path = source.path) request.files
        (safeModule rehash newFile parseFile fingerprint adapter request.files).files ∧
      Utf8.size (dumpModule (safeModule rehash newFile parseFile fingerprint adapter request.files).files) ≤
        maxOutputBytes ∧
      (∃ answers, validateModule rehash request.files
        (safeModule rehash newFile parseFile fingerprint adapter request.files).files fingerprint = .ok answers) ∧
      List.Forall₂ (fun x answer => Reported x.2 answer)
        (outcomes rehash newFile parseFile fingerprint ⟨adapter, 0, 0, []⟩ request.files)
        (safeModule rehash newFile parseFile fingerprint adapter request.files).files := by
  obtain ⟨answers, hfiles, hreductions⟩ := @run_files A rehash newFile parseFile fingerprint request.files
    ⟨adapter, 0, 0, []⟩
  have htotal := @run_total A rehash newFile parseFile fingerprint request.files ⟨adapter, 0, 0, []⟩ 0 rfl
    (Nat.zero_le _)
  have hmap := @map_fst_outcomes A rehash newFile parseFile fingerprint request.files ⟨adapter, 0, 0, []⟩
  unfold safeModule
  rw [hfiles, List.nil_append] at htotal ⊢
  generalize outcomes rehash newFile parseFile fingerprint ⟨adapter, 0, 0, []⟩ request.files = run at *
  have hsound : List.Forall₂ (fun x reduced => Sound fingerprint x.1 (finalsOf [reduced]) (pathsOf [x.1]) reduced)
      run answers := by
    refine List.forall₂_iff_zip.2 ⟨hreductions.length_eq, fun {x reduced} hmem => ?_⟩
    exact sound_reduction (sound_attempt (named x (List.of_mem_zip hmem).1)) ((List.forall₂_iff_zip.1 hreductions).2 hmem)
  have hrequest : List.Forall₂ (fun source reduced =>
      Sound fingerprint source (finalsOf [reduced]) (pathsOf [source]) reduced) request.files answers := by
    rw [← hmap, List.forall₂_map_left_iff]
    exact hsound
  refine ⟨hrequest.imp fun _ _ sound => sound.path, ?_, validateModule_all request.unique hrequest,
    hreductions.imp fun _ _ h => reported_reduction h⟩
  have hexcess : (answers.map fun answer => excess answer.dump).sum ≤
      (run.map fun x => excess (attempt rehash fingerprint x.1 x.2).dump).sum := by
    have hle : List.Forall₂ (fun x reduced => excess reduced.dump ≤ excess (attempt rehash fingerprint x.1 x.2).dump)
        run answers :=
      List.forall₂_iff_zip.2 ⟨hreductions.length_eq, fun {x reduced} hmem =>
        excess_reduction (sound_attempt (named x (List.of_mem_zip hmem).1)) ((List.forall₂_iff_zip.1 hreductions).2 hmem)⟩
    refine List.Forall₂.sum_le_sum ?_
    rw [List.forall₂_map_left_iff, List.forall₂_map_right_iff]
    exact hle.flip
  have hcharacters : (answers.map fun answer => answer.dump.length).sum ≤
      (run.map fun x => (attempt rehash fingerprint x.1 x.2).dump.length).sum +
        (run.map fun x => (degradedFile x.1 fingerprint "symbols_dropped").dump.length).sum := by
    rw [← List.sum_map_add]
    refine List.Forall₂.sum_le_sum ?_
    rw [List.forall₂_map_left_iff, List.forall₂_map_right_iff]
    exact (hreductions.imp fun _ _ h => length_reduction h).flip
  have hlength : answers.length = run.length := hreductions.length_eq.symm
  have hdegraded : (request.files.map fun source => (degradedFile source fingerprint "symbols_dropped").dump.length).sum =
      (run.map fun x => (degradedFile x.1 fingerprint "symbols_dropped").dump.length).sum := by
    rw [← hmap, List.map_map]
    rfl
  rw [size_eq, excess_dumpModule, length_dumpModule]
  unfold measured slack at fits
  omega

end Run

end Indexing.Structural
