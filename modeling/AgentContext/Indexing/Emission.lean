import AgentContext.Indexing.Shedding

/-!
# The order in which symbols are emitted

`_finish` of `indexing/tree_sitter/base.py` numbers the symbols of a file and the declarations of one name.  A symbol is
known by its name, its kind and that number, the disambiguator; the number must not come from where the adapter put it.

    rank                  how many declarations of its name and kind begin before a symbol
    Reordered             the same symbols in another order, under other refs
    validateModule_files  what is returned of a file
    emission_free         the keys are distinct, and the same whatever the order is
-/

namespace Indexing.Structural

open Fallible List

/-! ## Declarations and keys -/

def ParsedSymbol.declaration (symbol : ParsedSymbol) : String × SymbolKind × Nat × Nat :=
  (symbol.qualifiedName, symbol.kind, symbol.startByte, symbol.endByte)

/-- What a symbol is stored under, in its file. -/
def ParsedSymbol.key (symbol : ParsedSymbol) : String × SymbolKind × String :=
  (symbol.qualifiedName, symbol.kind, symbol.disambiguator)

def ParsedSymbol.rename (names : String → String) (symbol : ParsedSymbol) : ParsedSymbol :=
  { symbol with ref := names symbol.ref }

def StructuralRelation.rename (names : String → String) (relation : StructuralRelation) : StructuralRelation :=
  { relation with sourceRef := names relation.sourceRef, targetRef := names relation.targetRef }

def ParsedReference.rename (names : String → String) (reference : ParsedReference) : ParsedReference :=
  { reference with source := reference.source.map names }

/-- An answer that lists the symbols of another in some order, with other refs. -/
structure Reordered (names : String → String) (parsed parsed' : Answer) : Prop where
  path : parsed'.path = parsed.path
  language : parsed'.language = parsed.language
  fingerprint : parsed'.parserFingerprint = parsed.parserFingerprint
  diagnostics : parsed'.diagnostics = parsed.diagnostics
  symbols : parsed'.symbols.Perm (parsed.symbols.map (·.rename names))
  relations : parsed'.relations = parsed.relations.map (·.rename names)
  references : parsed'.references = parsed.references.map (·.rename names)

/-- A symbol is declared before another of its name and kind. -/
def Before (other symbol : ParsedSymbol) : Prop :=
  other.qualifiedName = symbol.qualifiedName ∧ other.kind = symbol.kind ∧
    toLex (other.startByte, other.endByte) < toLex (symbol.startByte, symbol.endByte)

instance (other symbol : ParsedSymbol) : Decidable (Before other symbol) := inferInstanceAs (Decidable (_ ∧ _ ∧ _))

/-- The declarations of a name and kind before a symbol. -/
def rank (symbols : List ParsedSymbol) (symbol : ParsedSymbol) : Nat := (symbols.filter (Before · symbol)).length

/-- A symbol as it is returned. -/
def stamp (rehash : String → String → String) (symbols : List ParsedSymbol) (symbol : ParsedSymbol) : ParsedSymbol :=
  { symbol with
    ref := numberOf symbols symbol.ref
    disambiguator := toString (rank symbols symbol)
    signatureDigest := rehash "signature_digest" symbol.signatureDigest
    semanticFingerprint := rehash "semantic_fingerprint" symbol.semanticFingerprint }

/-! ## What the gate lets through -/

/-- A file that is let through: no ref and no declaration twice, and no ref that is not one of its symbols. -/
structure Accepted (parsed : Answer) : Prop where
  refs : (parsed.symbols.map (·.ref)).Nodup
  declarations : (parsed.symbols.map (·.declaration)).Nodup
  relations : ∀ relation ∈ parsed.relations, relation.sourceRef ∈ parsed.symbols.map (·.ref) ∧
    relation.targetRef ∈ parsed.symbols.map (·.ref)
  references : ∀ reference ∈ parsed.references, ∀ source ∈ reference.source, source ∈ parsed.symbols.map (·.ref)

variable {rehash : String → String → String} {text : SourceText} {parsed parsed' : Answer} {symbols : List ParsedSymbol}
variable {symbol : ParsedSymbol} {s t : ParsedSymbol}

/-- The variables of the loop over symbols hold the symbols done. -/
def Declared.Holds (before : List ParsedSymbol) (declared : Declared) : Prop :=
  declared.refs.map (·.1) = before.map (·.ref) ∧ declared.declarations = before.map (·.declaration) ∧
    (before.map (·.ref)).Nodup ∧ (before.map (·.declaration)).Nodup

theorem checkSymbol_holds {language : String} {before : List ParsedSymbol} {declared declared' : Declared}
    (holds : declared.Holds before) (h : checkSymbol text language declared symbol = .ok declared') :
    declared'.Holds (before ++ [symbol]) := by
  obtain ⟨hrefs, hdeclarations, hnodup, hnodup'⟩ := holds
  unfold checkSymbol at h
  split at h
  · cases h
  · split at h
    · cases h
    · obtain ⟨nameBytes, -, h⟩ := bind_eq_ok.1 h
      dsimp only at h
      split at h
      · cases h
      · split at h
        · cases h
        · next hnew =>
          cases h
          obtain ⟨href, hdeclaration⟩ := not_or.1 hnew
          rw [hrefs] at href
          rw [hdeclarations] at hdeclaration
          refine ⟨by rw [map_append, map_append, hrefs]; rfl, by rw [map_append, hdeclarations]; rfl, ?_, ?_⟩
          · rw [map_append]
            exact hnodup.append (nodup_singleton _) (disjoint_singleton.2 href)
          · rw [map_append]
            exact hnodup'.append (nodup_singleton _) (disjoint_singleton.2 hdeclaration)

theorem checkRelation_refs {size : Nat} {declared : Declared} {sources sources' : List String}
    {relation : StructuralRelation} (h : checkRelation size declared sources relation = .ok sources') :
    relation.sourceRef ∈ declared.refs.map (·.1) ∧ relation.targetRef ∈ declared.refs.map (·.1) := by
  unfold checkRelation at h
  split at h
  · cases h
  · split at h
    · cases h
    · split at h
      · cases h
      · next hknown =>
        rw [not_or, not_not, not_not] at hknown
        exact hknown

theorem checkReference_source {declared : Declared} {referred referred' : Referred} {reference : ParsedReference}
    (h : checkReference text declared referred reference = .ok referred') :
    ∀ source ∈ reference.source, source ∈ declared.refs.map (·.1) := by
  intro source hsource
  unfold checkReference at h
  split at h
  · cases h
  · obtain ⟨range, hrange, -⟩ := bind_eq_ok.1 h
    rw [Option.mem_def.1 hsource, sourceRange] at hrange
    split at hrange
    · cases hrange
    · next found hfound =>
      obtain ⟨pair, hpair, heq⟩ := lookup_isSome_iff.1 (Option.isSome_of_eq_some hfound)
      exact mem_map.2 ⟨pair, hpair, (beq_iff_eq.1 heq).symm⟩

theorem validateFile_accepted {content : List UInt8} (h : validateFile parsed content = .ok text) : Accepted parsed := by
  obtain ⟨-, -, declared, sources, referred, hsymbols, hrelations, hreferences⟩ := validateFile_eq_ok.1 h
  obtain ⟨hrefs, -, hnodup, hnodup'⟩ := foldlM_run (P := fun before declared => Declared.Holds before declared)
    (fun holds hturn => checkSymbol_holds holds hturn) ⟨rfl, rfl, nodup_nil, nodup_nil⟩ hsymbols
  refine ⟨hnodup, hnodup', ?_, ?_⟩
  · rw [← hrefs]
    refine foldlM_run (P := fun before _ => ∀ relation ∈ before, relation.sourceRef ∈ declared.refs.map (·.1) ∧
      relation.targetRef ∈ declared.refs.map (·.1)) (fun holds hturn => ?_) (forall_mem_nil _) hrelations
    exact forall_mem_append.2 ⟨holds, forall_mem_singleton.2 (checkRelation_refs hturn)⟩
  · rw [← hrefs]
    refine foldlM_run (P := fun before _ => ∀ reference ∈ before, ∀ source ∈ reference.source,
      source ∈ declared.refs.map (·.1)) (fun holds hturn => ?_) (forall_mem_nil _) hreferences
    exact forall_mem_append.2 ⟨holds, forall_mem_singleton.2 (checkReference_source hturn)⟩

/-! ## The numbers -/

theorem numberOf_of_getElem? (hrefs : (symbols.map (·.ref)).Nodup) {n : Nat} (h : symbols[n]? = some symbol) :
    numberOf symbols symbol.ref = toString n := by
  obtain ⟨hn, heq⟩ := List.getElem?_eq_some_iff.1 h
  have hfirst : symbols.findIdx (·.ref = symbol.ref) = n := by
    refine (findIdx_eq hn).2 ⟨by simp [heq], fun j hj => ?_⟩
    have hne := nodup_iff_injective_getElem.1 hrefs
    have := (pairwise_iff_getElem.1 hrefs) j n (by simpa using Nat.lt_trans hj hn) (by simpa using hn) hj
    simpa [heq] using this
  rw [numberOf, hfirst]

theorem numberOf_injective (hrefs : (symbols.map (·.ref)).Nodup) (hs : s ∈ symbols) (ht : t ∈ symbols)
    (h : numberOf symbols s.ref = numberOf symbols t.ref) : s = t := by
  obtain ⟨m, hm⟩ := List.getElem?_of_mem hs
  obtain ⟨n, hn⟩ := List.getElem?_of_mem ht
  rw [numberOf_of_getElem? hrefs hm, numberOf_of_getElem? hrefs hn] at h
  rw [Text.toString_injective h, hn] at hm
  exact (Option.some.inj hm).symm

/-- Where no declaration is there twice, ties by position do not arise. -/
theorem ordinal_eq (hdeclarations : (symbols.map (·.declaration)).Nodup) {n : Nat} (h : symbols[n]? = some symbol) :
    ordinal symbols n symbol = rank symbols symbol := by
  have hsame : ∀ pair ∈ symbols.zipIdx, decide (pair.1.qualifiedName = symbol.qualifiedName ∧ pair.1.kind = symbol.kind ∧
      toLex (pair.1.startByte, toLex (pair.1.endByte, pair.2)) < toLex (symbol.startByte, toLex (symbol.endByte, n))) =
      decide (Before pair.1 symbol) := by
    rintro ⟨other, m⟩ hmem
    have hm := mem_zipIdx_iff_getElem?.1 hmem
    refine decide_eq_decide.2 (and_congr_right fun hname => and_congr_right fun hkind => ?_)
    simp only [Prod.Lex.toLex_lt_toLex]
    refine or_congr_right (and_congr_right fun hstart => ⟨fun hend => hend.elim id fun ⟨hend, hlt⟩ => ?_, .inl⟩)
    -- the same declaration is at one place only
    have hone : (symbols.map (·.declaration))[m]? = (symbols.map (·.declaration))[n]? := by
      rw [List.getElem?_map, List.getElem?_map, hm, h]
      simp only [Option.map_some, ParsedSymbol.declaration]
      rw [hname, hkind, hstart, hend]
    have hlength : m < (symbols.map (·.declaration)).length := by
      rw [length_map]
      exact (List.getElem?_eq_some_iff.1 hm).1
    exact absurd ((List.getElem?_inj hlength hdeclarations).1 hone) (Nat.ne_of_lt hlt)
  unfold ordinal rank
  rw [filter_congr hsame, ← length_map (f := Prod.fst), ← zipIdx_map_fst 0 symbols, filter_map]
  rw [zipIdx_map_fst]
  rfl

theorem rank_perm {symbols' : List ParsedSymbol} (h : symbols.Perm symbols') (symbol : ParsedSymbol) :
    rank symbols symbol = rank symbols' symbol := (h.filter _).length_eq

theorem rank_rename (names : String → String) (symbol : ParsedSymbol) :
    rank (symbols.map (·.rename names)) (symbol.rename names) = rank symbols symbol := by
  unfold rank
  rw [filter_map, length_map]
  rfl

/-- The ranks of two declarations of one name and kind are in the order of the declarations. -/
theorem rank_lt (hs : s ∈ symbols) (h : Before s t) : rank symbols s < rank symbols t := by
  obtain ⟨hname, hkind, hlt⟩ := h
  have hself : ¬ Before s s := fun h => absurd h.2.2 (lt_irrefl _)
  have hmore : ∀ other, Before other s → Before other t :=
    fun other hother => ⟨hother.1.trans hname, hother.2.1.trans hkind, hother.2.2.trans hlt⟩
  obtain ⟨front, back, rfl⟩ := append_of_mem hs
  have hpart : ∀ part : List ParsedSymbol, (part.filter (Before · s)).length ≤ (part.filter (Before · t)).length :=
    fun part => (monotone_filter_right part fun other h =>
      decide_eq_true (hmore other (of_decide_eq_true h))).length_le
  have hfront := hpart front
  have hback := hpart back
  unfold rank
  rw [filter_append, filter_append, filter_cons_of_neg (by simpa using hself),
    filter_cons_of_pos (by simpa using ⟨hname, hkind, hlt⟩), length_append, length_append, length_cons]
  omega

theorem key_injective (hdeclarations : (symbols.map (·.declaration)).Nodup) (hs : s ∈ symbols) (ht : t ∈ symbols)
    (h : (stamp rehash symbols s).key = (stamp rehash symbols t).key) : s = t := by
  obtain ⟨hname, h⟩ := Prod.mk.inj h
  obtain ⟨hkind, hrank⟩ := Prod.mk.inj h
  have hrank : rank symbols s = rank symbols t := Text.toString_injective hrank
  rcases lt_trichotomy (toLex (s.startByte, s.endByte)) (toLex (t.startByte, t.endByte)) with hlt | heq | hlt
  · exact absurd hrank (Nat.ne_of_lt (rank_lt hs ⟨hname, hkind, hlt⟩))
  · obtain ⟨hstart, hend⟩ := Prod.mk.inj (toLex.injective heq)
    refine inj_on_of_nodup_map hdeclarations hs ht ?_
    show (s.qualifiedName, s.kind, s.startByte, s.endByte) = (t.qualifiedName, t.kind, t.startByte, t.endByte)
    rw [show s.qualifiedName = t.qualifiedName from hname, show s.kind = t.kind from hkind, hstart, hend]
  · exact absurd hrank.symm (Nat.ne_of_lt (rank_lt ht ⟨hname.symm, hkind.symm, hlt⟩))

/-! ## What is returned -/

/-- What is returned of a file. -/
def stamped (rehash : String → String → String) (parsed : Answer) : Answer :=
  { parsed with
    symbols := parsed.symbols.map (stamp rehash parsed.symbols)
    relations := parsed.relations.map (·.rename (numberOf parsed.symbols))
    references := parsed.references.map (·.rename (numberOf parsed.symbols)) }

theorem map_zipIdx_stamp (accepted : Accepted parsed) :
    (parsed.symbols.zipIdx.map fun (symbol, number) =>
      { symbol with
        ref := toString number
        disambiguator := toString (ordinal parsed.symbols number symbol)
        signatureDigest := rehash "signature_digest" symbol.signatureDigest
        semanticFingerprint := rehash "semantic_fingerprint" symbol.semanticFingerprint }) =
      parsed.symbols.map (stamp rehash parsed.symbols) := by
  have hfirst : parsed.symbols.map (stamp rehash parsed.symbols) =
      parsed.symbols.zipIdx.map fun pair => stamp rehash parsed.symbols pair.1 := by
    conv_lhs => arg 2; rw [← zipIdx_map_fst 0 parsed.symbols]
    exact map_map
  rw [hfirst]
  refine map_congr_left ?_
  rintro ⟨symbol, n⟩ hmem
  have hn := mem_zipIdx_iff_getElem?.1 hmem
  dsimp only
  rw [stamp, numberOf_of_getElem? accepted.refs hn, ← ordinal_eq accepted.declarations hn]

theorem finish_stamped {finals paths : List (List UInt8)} {answer : Answer} (accepted : Accepted parsed)
    (h : finish rehash finals paths parsed text = .ok answer) : answer = stamped rehash parsed := by
  unfold finish at h
  split at h
  · cases h
  · rw [map_zipIdx_stamp accepted] at h
    cases h
    rfl

theorem validateModule_files {request : List SourceFile} {files answers : List Answer} {fingerprint : String}
    (h : validateModule rehash request files fingerprint = .ok answers) :
    List.Forall₂ (fun parsed answer => Accepted parsed ∧ answer = stamped rehash parsed) files answers := by
  unfold validateModule at h
  obtain ⟨seen, hseen, hfinish⟩ := bind_eq_ok.1 h
  obtain ⟨hfiles, haccepted⟩ := foldlM_run
    (P := fun before (seen : List (Answer × SourceText)) => seen.map (·.1) = before ∧ ∀ pair ∈ seen, Accepted pair.1)
    (fun holds hturn => by
      obtain ⟨source, -, -, -, -, text, htext, rfl⟩ := checkFile_eq_ok.1 hturn
      refine ⟨by rw [map_append, holds.1]; rfl, forall_mem_append.2 ⟨holds.2, ?_⟩⟩
      exact forall_mem_singleton.2 (validateFile_accepted htext)) ⟨rfl, forall_mem_nil _⟩ hseen
  split at hfinish
  · cases hfinish
  · rw [← hfiles, forall₂_map_left_iff]
    refine ((forall₂_and_left _ _).2 ⟨haccepted, mapM_eq_ok.1 hfinish⟩).imp ?_
    rintro ⟨parsed, text⟩ answer ⟨accepted, hanswer⟩
    exact ⟨accepted, finish_stamped accepted hanswer⟩

/-- The keys of a file are distinct. -/
theorem stamped_keys (accepted : Accepted parsed) : ((stamped rehash parsed).symbols.map (·.key)).Nodup := by
  show ((parsed.symbols.map (stamp rehash parsed.symbols)).map (·.key)).Nodup
  rw [map_map]
  exact List.Nodup.map_on (fun s hs t ht h => key_injective accepted.declarations hs ht h) accepted.declarations.of_map

/-- The same symbols in another order are returned with the same keys, and the relations and references of them. -/
theorem stamped_reordered {names : String → String} (accepted : Accepted parsed)
    (reordered : Reordered names parsed parsed') :
    ∃ numbers, Reordered numbers (stamped rehash parsed) (stamped rehash parsed') := by
  -- the new number of a symbol, read off its old one
  obtain ⟨numbers, hnumbers⟩ : ∃ numbers : String → String, ∀ ref ∈ parsed.symbols.map (·.ref),
      numbers (numberOf parsed.symbols ref) = numberOf parsed'.symbols (names ref) := by
    have hinj : Set.InjOn (numberOf parsed.symbols) {ref | ref ∈ parsed.symbols.map (·.ref)} := by
      intro ref href ref' href' heq
      obtain ⟨s, hs, rfl⟩ := mem_map.1 href
      obtain ⟨t, ht, rfl⟩ := mem_map.1 href'
      rw [numberOf_injective accepted.refs hs ht heq]
    refine ⟨fun number => numberOf parsed'.symbols (names (Function.invFunOn (numberOf parsed.symbols)
      {ref | ref ∈ parsed.symbols.map (·.ref)} number)), fun ref href => ?_⟩
    exact congrArg (fun r => numberOf parsed'.symbols (names r)) (hinj.leftInvOn_invFunOn href)
  refine ⟨numbers, reordered.path, reordered.language, reordered.fingerprint, reordered.diagnostics, ?_, ?_, ?_⟩
  · show (parsed'.symbols.map _).Perm ((parsed.symbols.map _).map _)
    refine (reordered.symbols.map _).trans (List.Perm.of_eq ?_)
    rw [map_map, map_map]
    refine map_congr_left fun symbol hsymbol => ?_
    have href := hnumbers symbol.ref (mem_map_of_mem hsymbol)
    have hrank := (rank_perm reordered.symbols (symbol.rename names)).trans (rank_rename names symbol)
    show stamp rehash parsed'.symbols (symbol.rename names) = (stamp rehash parsed.symbols symbol).rename numbers
    rw [stamp, hrank]
    unfold ParsedSymbol.rename
    rw [← href]
    rfl
  · show parsed'.relations.map _ = (parsed.relations.map _).map _
    rw [reordered.relations, map_map, map_map]
    refine map_congr_left fun relation hrelation => ?_
    obtain ⟨hsource, htarget⟩ := accepted.relations relation hrelation
    show (relation.rename names).rename _ = (relation.rename _).rename _
    unfold StructuralRelation.rename
    dsimp only
    rw [hnumbers _ hsource, hnumbers _ htarget]
  · show parsed'.references.map _ = (parsed.references.map _).map _
    rw [reordered.references, map_map, map_map]
    refine map_congr_left fun reference hreference => ?_
    have hsource := accepted.references reference hreference
    show (reference.rename names).rename _ = (reference.rename _).rename _
    unfold ParsedReference.rename
    dsimp only
    cases hname : reference.source with
    | none => rfl
    | some source =>
      rw [Option.map_some, Option.map_some, Option.map_some, Option.map_some, hnumbers source (hsource source hname)]

theorem disambiguator_eq {numbers : String → String} {answer answer' : Answer}
    (hdeclarations : (answer.symbols.map (·.declaration)).Nodup) (reordered : Reordered numbers answer answer')
    {s s' : ParsedSymbol} (hs : s ∈ answer.symbols) (hs' : s' ∈ answer'.symbols) (h : s.declaration = s'.declaration) :
    s.disambiguator = s'.disambiguator := by
  obtain ⟨t, ht, rfl⟩ := mem_map.1 (reordered.symbols.mem_iff.1 hs')
  rw [inj_on_of_nodup_map hdeclarations hs ht h]
  rfl

theorem stamped_declarations (accepted : Accepted parsed) :
    ((stamped rehash parsed).symbols.map (·.declaration)).Nodup := by
  show ((parsed.symbols.map _).map _).Nodup
  rw [map_map]
  exact accepted.declarations

/-- **The keys of a file are distinct, and do not depend on the order of emission.** Of two answers to a request that are
let through, and list the same symbols in some order and under some refs, the same symbols, relations and references are
returned, with the same disambiguator for each declaration. -/
theorem emission_free {request : List SourceFile} {files answers : List Answer} {fingerprint : String}
    (h : validateModule rehash request files fingerprint = .ok answers) :
    (∀ answer ∈ answers, (answer.symbols.map (·.key)).Nodup) ∧
    ∀ files' answers', validateModule rehash request files' fingerprint = .ok answers' →
      List.Forall₂ (fun parsed parsed' => ∃ names, Reordered names parsed parsed') files files' →
      List.Forall₂ (fun answer answer' => (∃ numbers, Reordered numbers answer answer') ∧
        ∀ s ∈ answer.symbols, ∀ s' ∈ answer'.symbols, s.declaration = s'.declaration →
          s.disambiguator = s'.disambiguator) answers answers' := by
  have hfiles := validateModule_files h
  refine ⟨fun answer hanswer => ?_, fun files' answers' h' hreordered => ?_⟩
  · obtain ⟨parsed, -, accepted, rfl⟩ := forall₂_right hfiles answer hanswer
    exact stamped_keys accepted
  · have hfiles' := validateModule_files h'
    clear h h'
    induction hreordered generalizing answers answers' with
    | nil =>
      cases hfiles
      cases hfiles'
      exact .nil
    | cons hpair _ ih =>
      obtain ⟨names, reordered⟩ := hpair
      cases hfiles with
      | cons hhead htail =>
        cases hfiles' with
        | cons hhead' htail' =>
          obtain ⟨accepted, rfl⟩ := hhead
          obtain ⟨-, rfl⟩ := hhead'
          obtain ⟨numbers, hnumbers⟩ := stamped_reordered accepted reordered
          exact .cons ⟨⟨numbers, hnumbers⟩, fun s hs s' hs' =>
            disambiguator_eq (stamped_declarations accepted) hnumbers hs hs'⟩ (ih htail _ htail')

/-! ## One name twice -/

def twice : List SourceFile := [⟨"a.py", "python", ['e', 'C', 'B', '4']⟩]

def declared (ref : String) (start stop : Nat) : ParsedSymbol :=
  ⟨ref, "python", "x", .variable, "", start, stop, "", "d", "d"⟩

def listed (symbols : List ParsedSymbol) : Answer := ⟨"a.py", "python", "f", symbols, [], [], []⟩

theorem listed_accepted : validateModule (fun _ v => v) twice [listed [declared "0" 0 1, declared "1" 2 3]] "f" =
    .ok [stamped (fun _ v => v) (listed [declared "0" 0 1, declared "1" 2 3])] := rfl

theorem swapped_accepted : validateModule (fun _ v => v) twice [listed [declared "9" 2 3, declared "7" 0 1]] "f" =
    .ok [stamped (fun _ v => v) (listed [declared "9" 2 3, declared "7" 0 1])] := rfl

/-- `x x`, its two declarations listed either way. -/
theorem emission_free_twice : List.Forall₂ (fun answer answer' => (∃ numbers, Reordered numbers answer answer') ∧
    ∀ s ∈ answer.symbols, ∀ s' ∈ answer'.symbols, s.declaration = s'.declaration → s.disambiguator = s'.disambiguator)
    [stamped (fun _ v => v) (listed [declared "0" 0 1, declared "1" 2 3])]
    [stamped (fun _ v => v) (listed [declared "9" 2 3, declared "7" 0 1])] := by
  refine (emission_free listed_accepted).2 _ _ swapped_accepted (.cons ⟨fun ref => if ref = "0" then "7" else "9", ?_⟩ .nil)
  refine ⟨rfl, rfl, rfl, rfl, ?_, rfl, rfl⟩
  rw [← List.isPerm_iff]
  decide +kernel

end Indexing.Structural
