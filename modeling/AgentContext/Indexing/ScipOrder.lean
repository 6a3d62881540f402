import AgentContext.Indexing.ScipState

/-!
# The order of the documents of a SCIP index

What `import_scip` returns of an index in another order of its documents.  A document shows the ids of its own scope,
unless another one asked for the same key in a scope with another language.  The external symbols are imported in the
scope of the last document: the locals among them that conflict there are not reported.

    importDocuments_eq  the documents of a run, and the importer after it
    externals_pass      the external symbols, after any documents
    importSlices_iff    the order of the documents does not matter, exactly when
-/

namespace AgentContext.Scip

open Fallible Memo List

variable {I : Type} [DecidableEq I] {context : Context I}
variable {diagnostics : DocumentMessage → List ImportDiagnostic} {importer : Importer I}
variable {parse : List UInt8 → Option DocumentMessage} {documents : List DocumentMessage}

/-! ## The documents -/

/-- The document has a path that an index may have. -/
def Acceptable (document : DocumentMessage) : Prop :=
  ¬(Utf8.size document.relativePath.toList > maxPathBytes ∨ !Indexing.isSafeRepoPath document.relativePath)

instance : DecidablePred Acceptable := fun _ => inferInstanceAs (Decidable ¬_)

/-- The documents that are imported, of some with distinct paths. -/
def accepted (documents : List DocumentMessage) : List DocumentMessage := documents.filter (Acceptable ·)

variable (context) in
/-- What a document returns and reports, whatever was imported before. -/
def Gives (document : DocumentMessage) (result : (Key I → I) → SemanticDocument I)
    (diagnostics : List ImportDiagnostic) : Prop :=
  (∀ f, (result f).path = document.relativePath) ∧
    (∀ f g, result f = result g ↔ ∀ key ∈ context.shown document, f key = g key) ∧
    ∀ importer : Importer I, importer.document context document =
      .ok (result (answer ((context.scope document).own context) importer.ids), importer.left context document diagnostics)

variable (context) in
/-- The documents of a run, with the ids found so far. -/
def readAll (result : DocumentMessage → (Key I → I) → SemanticDocument I) :
    List (Key I × I) → List DocumentMessage → List (SemanticDocument I)
  | _, [] => []
  | ids, document :: rest =>
    result document (answer ((context.scope document).own context) ids) ::
      readAll result (noteAll ((context.scope document).own context) ids (context.asked document)) rest

variable (context) in
/-- The importer after a document of a run. -/
def Importer.passed (diagnostics : DocumentMessage → List ImportDiagnostic) (importer : Importer I)
    (document : DocumentMessage) : Importer I :=
  if Acceptable document then importer.left context document (diagnostics document)
  else importer.diagnose .unsafePath none

variable {slices : List (List UInt8)} {document : DocumentMessage} {seen : List String}

theorem not_seen (hnew : document.relativePath ∉ (slices.filterMap parse).map (·.relativePath))
    (hseen : ∀ other ∈ document :: slices.filterMap parse, other.relativePath ∉ seen) :
    ∀ other ∈ slices.filterMap parse, other.relativePath ∉ document.relativePath :: seen :=
  fun other ho hmem => (mem_cons.1 hmem).elim (fun heq => hnew (mem_map.2 ⟨other, ho, heq⟩))
    (hseen other (mem_cons_of_mem _ ho))

theorem importDocuments_eq {result : DocumentMessage → (Key I → I) → SemanticDocument I} (hparse : ∀ slice ∈ slices, (parse slice).isSome)
    (hpaths : ((slices.filterMap parse).map (·.relativePath)).Nodup)
    (hseen : ∀ document ∈ slices.filterMap parse, document.relativePath ∉ seen)
    (hgives : ∀ document ∈ slices.filterMap parse, Acceptable document →
      Gives context document (result document) (diagnostics document)) :
    importDocuments context parse importer seen slices =
      .ok (readAll context result importer.ids (accepted (slices.filterMap parse)),
        (slices.filterMap parse).foldl (Importer.passed context diagnostics) importer) := by
  induction slices generalizing importer seen with
  | nil => rfl
  | cons slice slices ih =>
    obtain ⟨hsome, hslices⟩ := forall_mem_cons.1 hparse
    obtain ⟨document, hslice⟩ := Option.isSome_iff_exists.1 hsome
    rw [filterMap_cons_some hslice] at hpaths hseen hgives ⊢
    obtain ⟨hnew, hrest⟩ := nodup_cons.1 hpaths
    have hgives' := fun other ho => hgives other (mem_cons_of_mem _ ho)
    rw [importDocuments, hslice, foldl_cons, Importer.passed, accepted, filter_cons]
    dsimp only
    by_cases hpath : Acceptable document
    · rw [if_neg hpath, if_neg (hseen document mem_cons_self), (hgives document mem_cons_self hpath).2.2, ok_bind]
      dsimp only
      rw [ih hslices hrest (not_seen hnew hseen) hgives', ok_bind, if_pos hpath, if_pos (decide_eq_true hpath)]
      rfl
    · rw [if_pos (not_not.1 hpath), if_neg hpath, if_neg (by simpa using hpath),
        ih hslices hrest (fun other ho => hseen other (mem_cons_of_mem _ ho)) hgives']
      rfl

/-- A run that returns went through all its documents. -/
theorem gives_of_importDocuments {out : List (SemanticDocument I) × Importer I}
    (h : importDocuments context parse importer seen slices = .ok out)
    (hpaths : ((slices.filterMap parse).map (·.relativePath)).Nodup)
    (hseen : ∀ document ∈ slices.filterMap parse, document.relativePath ∉ seen) :
    (∀ slice ∈ slices, (parse slice).isSome) ∧ ∀ document ∈ slices.filterMap parse, Acceptable document →
      ∃ result diagnostics, Gives context document result diagnostics := by
  induction slices generalizing importer seen out with
  | nil => exact ⟨forall_mem_nil _, forall_mem_nil _⟩
  | cons slice slices ih =>
    rw [importDocuments] at h
    cases hslice : parse slice with
    | none => rw [hslice] at h; cases h
    | some document =>
      rw [hslice] at h
      dsimp only at h
      rw [filterMap_cons_some hslice] at hpaths hseen ⊢
      obtain ⟨hnew, hrest⟩ := nodup_cons.1 hpaths
      have hfirst : (parse slice).isSome := by rw [hslice]; rfl
      by_cases hpath : Acceptable document
      · rw [if_neg hpath, if_neg (hseen document mem_cons_self)] at h
        rcases document_reads context document with ⟨reason, hfails⟩ | ⟨result, diagnostics, hdocument⟩
        · rw [hfails] at h
          cases h
        rw [hdocument.2.2, ok_bind] at h
        obtain ⟨out', hrun, -⟩ := bind_eq_ok.1 h
        obtain ⟨hparsed, hall⟩ := ih hrun hrest (not_seen hnew hseen)
        exact ⟨forall_mem_cons.2 ⟨hfirst, hparsed⟩,
          forall_mem_cons.2 ⟨fun _ => ⟨result, diagnostics, hdocument⟩, hall⟩⟩
      · rw [if_pos (not_not.1 hpath)] at h
        obtain ⟨hparsed, hall⟩ := ih h hrest fun other ho => hseen other (mem_cons_of_mem _ ho)
        exact ⟨forall_mem_cons.2 ⟨hfirst, hparsed⟩, forall_mem_cons.2 ⟨fun hacc => absurd hacc hpath, hall⟩⟩

def reported (diagnostics : DocumentMessage → List ImportDiagnostic) (document : DocumentMessage) : List ImportDiagnostic :=
  if Acceptable document then diagnostics document else [⟨.unsafePath, none, none⟩]

theorem passed_diagnostics : (documents.foldl (Importer.passed context diagnostics) importer).diagnostics =
      importer.diagnostics ++ documents.flatMap (reported diagnostics) := by
  induction documents generalizing importer with
  | nil => rw [flatMap_nil, append_nil]; rfl
  | cons document documents ih =>
    rw [foldl_cons, ih, flatMap_cons, ← append_assoc]
    unfold Importer.passed reported
    split <;> rfl

variable (context) in
/-- The locals that are left as conflicting ones after documents, `initial` before them. -/
def leftConflicting (initial : List String) (documents : List DocumentMessage) : List String :=
  ((accepted documents).getLast?.map fun document => conflictingSymbols context document.symbols).getD initial

theorem passed_conflicting : (documents.foldl (Importer.passed context diagnostics) importer).conflicting =
      leftConflicting context importer.conflicting documents := by
  induction documents generalizing importer with
  | nil => rfl
  | cons document documents ih =>
    rw [foldl_cons, ih]
    unfold leftConflicting accepted Importer.passed
    rw [filter_cons]
    by_cases hpath : Acceptable document
    · rw [if_pos hpath, if_pos (decide_eq_true hpath), List.getLast?_cons]
      cases (documents.filter (Acceptable ·)).getLast? <;> rfl
    · rw [if_neg hpath, if_neg (by simpa using hpath)]
      rfl

/-! ## The external symbols -/

variable (context) in
/-- The ids of global symbols are those of their names, and only locals conflict. -/
def Importer.Sound (importer : Importer I) : Prop :=
  (∀ symbol ∈ importer.conflicting, isLocal symbol = true) ∧
    ∀ key id, importer.ids.lookup key = some id → isLocal key.1 = false → id = context.derive ["symbol_scip", key.1]

/-- A local symbol, where an external one is asked for. -/
def stray (symbol : String) : List String := if isValidSymbol symbol ∧ isLocal symbol then [symbol] else []

/-- The locals that external symbol information names; relationships of a symbol without an id are not looked at. -/
def SymbolMessage.strays (info : SymbolMessage) : List String :=
  stray info.symbol ++ if isValidSymbol info.symbol ∧ ¬isLocal info.symbol then
    info.relationships.flatMap fun related => stray related.symbol
  else []

def reportStrays (conflicting strays : List String) : List ImportDiagnostic :=
  (strays.filter (· ∉ conflicting)).map fun _ => ⟨.invalidSymbol, none, none⟩

theorem reportStrays_append {conflicting strays strays' : List String} : reportStrays conflicting (strays ++ strays') =
    reportStrays conflicting strays ++ reportStrays conflicting strays' := by
  unfold reportStrays
  rw [filter_append, map_append]

theorem length_reportStrays {conflicting strays : List String} :
    (reportStrays conflicting strays).length = (strays.filter (· ∉ conflicting)).length := length_map ..

variable (context) in
/-- An importer after a part of the external symbols. -/
structure Importer.Outside (importer : Importer I) (fixed : List ImportDiagnostic) (strays : List String)
    (importer' : Importer I) : Prop where
  conflicting : importer'.conflicting = importer.conflicting
  sound : importer'.Sound context
  diagnostics : importer'.diagnostics.Perm
    (importer.diagnostics ++ (fixed ++ reportStrays importer.conflicting strays))

variable (context) in
/-- A part of the external symbols: it fails, or returns the same whatever documents were imported. -/
inductive Apart {R : Type} (strays : List String) (part : Importer I → Except ImportReason (R × Importer I)) : Prop where
  | refuses (reason : ImportReason) (h : ∀ importer : Importer I, importer.Sound context → part importer = .error reason)
  | returns (result : R) (fixed : List ImportDiagnostic) (h : ∀ importer : Importer I, importer.Sound context →
      ∃ importer', part importer = .ok (result, importer') ∧ importer.Outside context fixed strays importer')

theorem Importer.Outside.nil (h : importer.Sound context) : importer.Outside context [] [] importer :=
  ⟨rfl, h, by rw [reportStrays, filter_nil, map_nil, append_nil, append_nil]⟩

variable {strays strays' : List String}

theorem Importer.Outside.trans {importer importer' importer'' : Importer I} {fixed fixed' : List ImportDiagnostic} (h : importer.Outside context fixed strays importer')
    (h' : importer'.Outside context fixed' strays' importer'') :
    importer.Outside context (fixed ++ fixed') (strays ++ strays') importer'' := by
  refine ⟨h'.conflicting.trans h.conflicting, h'.sound, perm_iff_count.2 fun item => ?_⟩
  have hfirst := h.diagnostics.count_eq item
  have hsecond := h'.diagnostics.count_eq item
  rw [h.conflicting] at hsecond
  rw [reportStrays_append]
  simp only [count_append] at hfirst hsecond ⊢
  omega

theorem Importer.Outside.diagnose (h : importer.Sound context) (code : DiagnosticCode) (path : Option String)
    (index : Option Nat) : importer.Outside context [⟨code, path, index⟩] [] (importer.diagnose code path index) :=
  ⟨rfl, h, .refl _⟩

theorem identify_apart (context : Context I) (symbol : String) :
    (∀ importer : Importer I, importer.identify context symbol "" none none none = .error .symbolTooLong) ∨
    (¬(isValidSymbol symbol ∧ ¬isLocal symbol) ∧ ∃ fixed, ∀ importer : Importer I, importer.Sound context →
      ∃ importer', importer.identify context symbol "" none none none = .ok (none, importer') ∧
        importer.Outside context fixed (stray symbol) importer') ∨
    ((isValidSymbol symbol ∧ ¬isLocal symbol) ∧ ∀ importer : Importer I, importer.Sound context →
      ∃ importer', importer.identify context symbol "" none none none =
        .ok (some (context.derive ["symbol_scip", symbol]), importer') ∧ importer.Outside context [] [] importer') := by
  by_cases hlong : Utf8.size symbol.toList > context.limits.maxSymbolLength
  · exact .inl fun importer => if_pos hlong
  refine .inr ?_
  by_cases hvalid : isValidSymbol symbol = true
  swap
  · refine .inl ⟨fun h => hvalid h.1, [⟨.invalidSymbol, none, none⟩], fun importer hsound =>
      ⟨importer.diagnose .invalidSymbol none none, ?_, ?_⟩⟩
    · unfold Importer.identify
      rw [if_neg hlong, if_pos (by simpa using hvalid)]
    · rw [stray, if_neg fun h => hvalid h.1]
      exact .diagnose hsound ..
  by_cases hlocal : isLocal symbol = true
  · refine .inl ⟨fun h => h.2 hlocal, [], fun importer hsound => ?_⟩
    have hstray : stray symbol = [symbol] := if_pos ⟨hvalid, hlocal⟩
    unfold Importer.identify
    rw [if_neg hlong, if_neg (by simpa using hvalid), hstray]
    by_cases hconflict : symbol ∈ importer.conflicting
    · rw [if_pos hconflict]
      refine ⟨importer, rfl, rfl, hsound, ?_⟩
      rw [reportStrays, filter_cons, if_neg (by simpa using hconflict), filter_nil, map_nil, append_nil,
        append_nil]
    · rw [if_neg hconflict]
      refine ⟨importer.diagnose .invalidSymbol none none, ?_, rfl, hsound, ?_⟩
      · dsimp only
        rw [if_pos (by rw [hlocal]; rfl)]
        rfl
      · rw [reportStrays, filter_cons, if_pos (by simpa using hconflict)]
        exact .refl _
  · refine .inr ⟨⟨hvalid, hlocal⟩, fun importer hsound => ?_⟩
    have hconflict : symbol ∉ importer.conflicting := fun h => hlocal (hsound.1 symbol h)
    have hempty : symbol ≠ "" := by
      rintro rfl
      exact absurd hvalid Bool.false_ne_true
    have hown : context.symbolLogicalId symbol "" context.noFile symbol
        ((importer.declaredKinds.lookup symbol).getD unknownKind) = context.derive ["symbol_scip", symbol] :=
      if_pos ⟨hempty, hlocal⟩
    have hlocal' : isLocal symbol = false := Bool.eq_false_iff.2 hlocal
    unfold Importer.identify
    rw [if_neg hlong, if_neg (by simpa using hvalid), if_neg hconflict]
    simp only [hlocal', Bool.false_and, Bool.false_eq_true, if_false, Option.getD_none]
    cases hfound : importer.ids.lookup (symbol, none, (importer.declaredKinds.lookup symbol).getD unknownKind) with
    | some found =>
      refine ⟨importer, ?_, .nil hsound⟩
      rw [hsound.2 _ _ hfound hlocal']
    | none =>
      refine ⟨{ importer with ids := ((symbol, none, (importer.declaredKinds.lookup symbol).getD unknownKind),
        context.derive ["symbol_scip", symbol]) :: importer.ids }, by rw [hown], rfl, ⟨hsound.1, fun key id hkey hglobal => ?_⟩, by simp [reportStrays]⟩
      rw [lookup_cons] at hkey
      split at hkey
      · next heq => rw [← Option.some.inj hkey, beq_iff_eq.1 heq]
      · exact hsound.2 key id hkey hglobal

omit [DecidableEq I] in
theorem map_fst_id {R : Type} (out : Except ImportReason (R × Importer I)) :
    (out.map fun out => (id out.1, out.2)) = out := by cases out <;> rfl

/-- A part after a step that may report something. -/
theorem Apart.after {R R' : Type} {first : Importer I → Importer I → Prop}
    {fixed : List ImportDiagnostic} {part : Importer I → Except ImportReason (R × Importer I)}
    {whole : Importer I → Except ImportReason (R' × Importer I)} (rest : Apart context strays' part) (keep : R → R')
    (hfirst : ∀ importer : Importer I, importer.Sound context →
      ∃ importer', first importer importer' ∧ importer.Outside context fixed strays importer')
    (hwhole : ∀ {importer importer'}, first importer importer' →
      whole importer = (part importer').map fun out => (keep out.1, out.2)) :
    Apart context (strays ++ strays') whole := by
  cases rest with
  | refuses reason hrest =>
    refine .refuses reason fun importer hsound => ?_
    obtain ⟨importer', hstep, hout⟩ := hfirst importer hsound
    rw [hwhole hstep, hrest importer' hout.sound]
    rfl
  | returns kept fixed' hrest =>
    refine .returns (keep kept) (fixed ++ fixed') fun importer hsound => ?_
    obtain ⟨importer', hstep, hout⟩ := hfirst importer hsound
    obtain ⟨importer'', hothers, hout'⟩ := hrest importer' hout.sound
    exact ⟨importer'', by rw [hwhole hstep, hothers]; rfl, hout.trans hout'⟩

theorem relationships_apart (context : Context I) (source : String) (sourceId : I) (items : List RelationshipMessage) :
    Apart context (items.flatMap fun related => stray related.symbol)
      fun importer => importer.relationships context source sourceId "" none none items := by
  induction items with
  | nil => exact .returns [] [] fun importer hsound => ⟨importer, rfl, .nil hsound⟩
  | cons related items ih =>
    rw [flatMap_cons]
    rcases identify_apart context related.symbol with
      hlong | ⟨-, fixed, hnone⟩ | ⟨⟨hvalid, hglobal⟩, hsome⟩
    · refine .refuses .symbolTooLong fun importer _ => ?_
      rw [Importer.relationships, hlong]
      rfl
    · refine ih.after id hnone fun hfirst => ?_
      rw [Importer.relationships, hfirst, ok_bind]
      exact (map_fst_id _).symm
    · rw [show stray related.symbol = [] from if_neg fun h => hglobal h.2]
      by_cases hkinds : relationshipKinds related = []
      · have hreported : ∀ importer : Importer I, importer.Sound context →
            ∃ importer', importer' = importer.diagnose .emptyRelationship none ∧
              importer.Outside context [⟨.emptyRelationship, none, none⟩] [] importer' :=
          fun importer hsound => ⟨_, rfl, .diagnose hsound ..⟩
        have hrest : Apart context _ fun importer => (importer.diagnose .emptyRelationship none).relationships context source
            sourceId "" none none items := ih.after id hreported fun hstep => by rw [hstep, map_fst_id]
        refine hrest.after id hsome fun hfirst => ?_
        rw [Importer.relationships, hfirst, ok_bind, map_fst_id]
        exact if_pos hkinds
      · refine ih.after (⟨source, sourceId, related.symbol, context.derive ["symbol_scip", related.symbol],
          relationshipKinds related⟩ :: ·) hsome fun {_ importer'} hfirst => ?_
        rw [Importer.relationships, hfirst, ok_bind]
        dsimp only
        rw [if_neg hkinds]
        cases importer'.relationships context source sourceId "" none none items <;> rfl

theorem symbol_apart (context : Context I) (info : SymbolMessage) :
    Apart context info.strays fun importer => importer.symbol context info none "" none := by
  by_cases hmany : info.relationships.length > context.limits.maxRelationshipsPerSymbol
  · refine .refuses (.scan .tooManyRelationships) fun importer _ => ?_
    unfold Importer.symbol
    rw [if_pos hmany]
  unfold SymbolMessage.strays
  rcases identify_apart context info.symbol with hlong | ⟨hother, fixed, hnone⟩ | ⟨hglobal, hsome⟩
  · refine .refuses .symbolTooLong fun importer _ => ?_
    unfold Importer.symbol
    rw [if_neg hmany, hlong]
    rfl
  · rw [if_neg hother, append_nil]
    refine .returns none fixed fun importer hsound => ?_
    obtain ⟨importer', hfirst, hout⟩ := hnone importer hsound
    refine ⟨importer', ?_, hout⟩
    unfold Importer.symbol
    rw [if_neg hmany, hfirst]
    rfl
  · have hstray : stray info.symbol = [] := if_neg fun h => hglobal.2 h.2
    rw [if_pos hglobal, hstray]
    refine (relationships_apart context info.symbol (context.derive ["symbol_scip", info.symbol]) info.relationships).after
      (fun kept => some (context.semanticSymbol info none (context.derive ["symbol_scip", info.symbol]) kept)) hsome
      fun {_ importer'} hfirst => ?_
    unfold Importer.symbol
    rw [if_neg hmany, hfirst, ok_bind]
    dsimp only
    cases importer'.relationships context info.symbol (context.derive ["symbol_scip", info.symbol]) "" none none
      info.relationships <;> rfl

theorem externalSymbol_apart (context : Context I) (parse : List UInt8 → Option SymbolMessage) (slice : List UInt8) :
    Apart context ((parse slice).toList.flatMap SymbolMessage.strays)
      fun importer => importer.externalSymbol context parse slice := by
  unfold Importer.externalSymbol
  cases parse slice with
  | none => exact .refuses (.scan .malformed) fun _ _ => rfl
  | some info =>
    rw [Option.toList_some, flatMap_singleton]
    exact symbol_apart context info

theorem collect_apart {α β : Type} {turn : Importer I → α → Except ImportReason (Option β × Importer I)}
    {strays : α → List String} (h : ∀ item, Apart context (strays item) (turn · item)) (items : List α) :
    Apart context (items.flatMap strays) (collect turn · items) := by
  induction items with
  | nil => exact .returns [] [] fun importer hsound => ⟨importer, rfl, .nil hsound⟩
  | cons item items ih =>
    rw [flatMap_cons]
    cases h item with
    | refuses reason hitem => exact .refuses reason fun importer hsound => by rw [collect, hitem importer hsound]; rfl
    | returns kept fixed hitem =>
      refine ih.after (kept.toList ++ ·) hitem fun {_ importer'} hfirst => ?_
      rw [collect, hfirst, ok_bind]
      dsimp only
      cases collect turn importer' items <;> rfl

/-! ## What is left after the documents -/

omit [DecidableEq I] in
theorem asked_valid {key : Key I} (h : key ∈ context.asked document) : isValidSymbol key.1 = true := by
  have hkey (symbol : String) (h : (context.scope document).key symbol = some key) : isValidSymbol key.1 = true := by
    unfold Scope.key at h
    split at h
    · next hvalid => exact Option.some.inj h ▸ hvalid.1
    · cases h
  rcases mem_append.1 h with hoccurs | hsymbol
  · unfold Context.occurrences at hoccurs
    split at hoccurs
    · cases hoccurs
    obtain ⟨occurrence, -, hmem⟩ := mem_flatMap.1 hoccurs
    unfold Context.occurring at hmem
    split at hmem
    · exact hkey _ (Option.mem_toList.1 hmem)
    · cases hmem
  · obtain ⟨info, -, hmem⟩ := mem_flatMap.1 hsymbol
    unfold Scope.asked at hmem
    split at hmem
    · cases hmem
    · next own hown =>
      rcases mem_cons.1 hmem with rfl | htarget
      · exact hkey _ hown
      · obtain ⟨related, -, hrelated⟩ := mem_filterMap.1 htarget
        exact hkey _ hrelated

theorem left_sound (h : importer.Sound context) (document : DocumentMessage) (diagnostics : List ImportDiagnostic) :
    (importer.left context document diagnostics).Sound context := by
  refine ⟨fun symbol hsymbol => ?_, fun key id hkey hglobal => ?_⟩
  · obtain ⟨info, hinfo, rfl⟩ := mem_map.1 (mem_dedup.1 hsymbol)
    exact (Bool.and_eq_true _ _ ▸ (mem_filter.1 hinfo).2).1
  · rw [Importer.left, lookup_noteAll] at hkey
    split at hkey
    · next hasked =>
      have hvalid := asked_valid hasked
      obtain rfl := Option.some.inj hkey
      unfold answer
      cases hfound : importer.ids.lookup key with
      | some found => exact h.2 key found hfound hglobal
      | none =>
        have hempty : key.1 ≠ "" := by
          intro heq
          rw [heq] at hvalid
          exact absurd hvalid Bool.false_ne_true
        exact if_pos ⟨hempty, by rw [hglobal]; exact Bool.false_ne_true⟩
    · exact h.2 key id hkey hglobal

theorem passed_sound (h : importer.Sound context) :
    (documents.foldl (Importer.passed context diagnostics) importer).Sound context := by
  induction documents generalizing importer with
  | nil => exact h
  | cons document documents ih =>
    refine ih ?_
    unfold Importer.passed
    split
    · exact left_sound h document _
    · exact h

theorem sound_begin : ({} : Importer I).Sound context := ⟨forall_mem_nil _, fun _ _ h => by cases h⟩

theorem importSlices_eq {parseSymbol : List UInt8 → Option SymbolMessage}
    {result : DocumentMessage → (Key I → I) → SemanticDocument I} {slices externals : List (List UInt8)}
    {symbols : List (SemanticSymbol I)} {fixed : List ImportDiagnostic} {strays : List String}
    (hparse : ∀ slice ∈ slices, (parse slice).isSome)
    (hpaths : ((slices.filterMap parse).map (·.relativePath)).Nodup)
    (hgives : ∀ document ∈ slices.filterMap parse, Acceptable document →
      Gives context document (result document) (diagnostics document))
    (hexternals : ∀ importer : Importer I, importer.Sound context → ∃ importer',
      collect (fun importer slice => importer.externalSymbol context parseSymbol slice) importer externals =
        .ok (symbols, importer') ∧ importer.Outside context fixed strays importer') :
    ∃ all, importSlices context parse parseSymbol slices externals =
      .ok ⟨readAll context result [] (accepted (slices.filterMap parse)), symbols, all⟩ ∧
      all.Perm ((slices.filterMap parse).flatMap (reported diagnostics) ++
        (fixed ++ reportStrays (leftConflicting context [] (slices.filterMap parse)) strays)) := by
  obtain ⟨importer', hcollect, hout⟩ := hexternals _ (passed_sound sound_begin)
  refine ⟨importer'.diagnostics, ?_, ?_⟩
  · unfold importSlices
    rw [importDocuments_eq hparse hpaths (fun _ _ => not_mem_nil) hgives, ok_bind]
    dsimp only
    rw [hcollect]
    rfl
  · have hperm := hout.diagnostics
    rw [passed_diagnostics, passed_conflicting] at hperm
    exact hperm

/-! ## Other orders -/

section Orders

variable {result : DocumentMessage → (Key I → I) → SemanticDocument I}
  {diagnostics : DocumentMessage → List ImportDiagnostic} {documents : List DocumentMessage}

theorem readAll_paths (h : ∀ document ∈ documents, ∀ f, (result document f).path = document.relativePath)
    (ids : List (Key I × I)) : (readAll context result ids documents).map (·.path) = documents.map (·.relativePath) := by
  induction documents generalizing ids with
  | nil => rfl
  | cons document documents ih =>
    rw [readAll, map_cons, map_cons, h document mem_cons_self,
      ih fun other ho => h other (mem_cons_of_mem _ ho)]

theorem readAll_own {ids : List (Key I × I)}
    (hshown : ∀ document ∈ documents, ∀ f g, result document f = result document g ↔
      ∀ key ∈ context.shown document, f key = g key)
    (hagree : ∀ document ∈ documents, ∀ other ∈ documents, ∀ key ∈ context.asked document, key ∈ context.shown other →
      (context.scope document).own context key = (context.scope other).own context key)
    (hids : ∀ document ∈ documents, ∀ key ∈ context.shown document,
      answer ((context.scope document).own context) ids key = (context.scope document).own context key) :
    readAll context result ids documents =
      documents.map fun document => result document ((context.scope document).own context) := by
  induction documents generalizing ids with
  | nil => rfl
  | cons document documents ih =>
    rw [readAll, map_cons, (hshown document mem_cons_self _ _).2 (hids document mem_cons_self)]
    congr 1
    refine ih (fun other ho => hshown other (mem_cons_of_mem _ ho))
      (fun first hf other ho => hagree first (mem_cons_of_mem _ hf) other (mem_cons_of_mem _ ho)) ?_
    intro other ho key hkey
    have hother := hids other (mem_cons_of_mem _ ho) key hkey
    by_cases hasked : key ∈ context.asked document
    · -- the id in the memo is the other's own, whoever asked first
      rw [answer, lookup_noteAll, if_pos hasked, Option.getD_some]
      have hfirst := hagree document mem_cons_self other (mem_cons_of_mem _ ho) key hasked hkey
      unfold answer at hother ⊢
      cases hfound : ids.lookup key with
      | none => exact hfirst
      | some found => rw [hfound] at hother; exact hother
    · rw [answer, lookup_noteAll, if_neg hasked]
      exact hother

/-- Two documents that are read alike in both orders agree on the keys they share. -/
theorem own_of_perm {first second : DocumentMessage} (hshown : ∀ f g, result second f = result second g ↔
      ∀ key ∈ context.shown second, f key = g key)
    (hpath : ∀ document ∈ first :: second :: documents, ∀ f, (result document f).path = document.relativePath)
    (hpaths : ((first :: second :: documents).map (·.relativePath)).Nodup)
    (hperm : (readAll context result [] (first :: second :: documents)).Perm
      (readAll context result [] (second :: first :: documents)))
    {key : Key I} (hasked : key ∈ context.asked first) (hkey : key ∈ context.shown second) :
    (context.scope first).own context key = (context.scope second).own context key := by
  have hafter : result second (answer ((context.scope second).own context)
      (noteAll ((context.scope first).own context) [] (context.asked first))) ∈
      readAll context result [] (first :: second :: documents) := mem_cons_of_mem _ mem_cons_self
  have halone : result second (answer ((context.scope second).own context) []) ∈
      readAll context result [] (first :: second :: documents) := hperm.mem_iff.2 mem_cons_self
  have hsame := inj_on_of_nodup_map (by rwa [readAll_paths hpath]) hafter halone
    ((hpath second (mem_cons_of_mem _ mem_cons_self) _).trans
      (hpath second (mem_cons_of_mem _ mem_cons_self) _).symm)
  have hvalue := (hshown _ _).1 hsame key hkey
  rw [answer, lookup_noteAll, if_pos hasked] at hvalue
  exact hvalue

omit [DecidableEq I] in
theorem leftConflicting_concat {initial : List String} (h : Acceptable document) :
    leftConflicting context initial (documents ++ [document]) = conflictingSymbols context document.symbols := by
  unfold leftConflicting accepted
  rw [filter_append, filter_cons, if_pos (decide_eq_true h), filter_nil, List.getLast?_concat]
  rfl

omit [DecidableEq I] in
theorem leftConflicting_of (context : Context I) (initial : List String) (documents : List DocumentMessage) : (accepted documents = [] ∧
    leftConflicting context initial documents = initial) ∨ ∃ document ∈ accepted documents,
      leftConflicting context initial documents = conflictingSymbols context document.symbols := by
  unfold leftConflicting
  cases hlast : (accepted documents).getLast? with
  | none => exact .inl ⟨List.getLast?_eq_none_iff.1 hlast, rfl⟩
  | some document => exact .inr ⟨document, mem_of_getLast? hlast, rfl⟩

/-- An index with two of its documents first, or one last. -/
theorem perm_firsts {parse : List UInt8 → Option DocumentMessage} {first second : DocumentMessage}
    (hfirst : first ∈ slices.filterMap parse) (hsecond : second ∈ slices.filterMap parse) (hne : first ≠ second) :
    ∃ slice slice' rest, parse slice = some first ∧ parse slice' = some second ∧
      slices.Perm (slice :: slice' :: rest) := by
  obtain ⟨slice, hslice, hparse⟩ := mem_filterMap.1 hfirst
  obtain ⟨slice', hslice', hparse'⟩ := mem_filterMap.1 hsecond
  have hslices : slice' ≠ slice := fun heq => hne (Option.some.inj (hparse.symm.trans (heq ▸ hparse')))
  exact ⟨slice, slice', (slices.erase slice).erase slice', hparse, hparse', (perm_cons_erase hslice).trans
    ((perm_cons_erase ((mem_erase_of_ne hslices).2 hslice')).cons _)⟩

theorem perm_last {parse : List UInt8 → Option DocumentMessage} {last : DocumentMessage}
    (h : last ∈ slices.filterMap parse) : ∃ slice rest, parse slice = some last ∧ slices.Perm (rest ++ [slice]) := by
  obtain ⟨slice, hslice, hparse⟩ := mem_filterMap.1 h
  exact ⟨slice, slices.erase slice, hparse, (perm_cons_erase hslice).trans (perm_append_singleton _ _).symm⟩

theorem reportStrays_congr {conflicting conflicting' strays : List String}
    (h : (strays.filter (· ∉ conflicting)).length = (strays.filter (· ∉ conflicting')).length) :
    reportStrays conflicting strays = reportStrays conflicting' strays := by
  unfold reportStrays
  rw [map_const', map_const', h]

end Orders

variable (context) in
/-- How many of the locals that the external symbols name are reported after a document. -/
def strayCount (parse : List UInt8 → Option SymbolMessage) (externals : List (List UInt8)) (document : DocumentMessage) :
    Nat :=
  ((externals.flatMap fun slice => (parse slice).toList.flatMap SymbolMessage.strays).filter
    (· ∉ conflictingSymbols context document.symbols)).length

/-- The documents of an index in another order give the same, exactly when
(1) all of them leave equally many of the locals that the external symbols name unreported, as conflicting ones,
(2) where one asks for a key of which the id shows in another, both have the same id for it. -/
theorem importSlices_iff (context : Context I) (parse : List UInt8 → Option DocumentMessage)
    (parseSymbol : List UInt8 → Option SymbolMessage) (slices externals : List (List UInt8)) (out : Imported I)
    (hpaths : ((slices.filterMap parse).map (·.relativePath)).Nodup)
    (hout : importSlices context parse parseSymbol slices externals = .ok out) :
    (∀ slices', slices.Perm slices' → ∃ out', importSlices context parse parseSymbol slices' externals = .ok out' ∧
      out.documents.Perm out'.documents ∧ out.externalSymbols = out'.externalSymbols ∧
      out.diagnostics.Perm out'.diagnostics) ↔
    (∀ document ∈ accepted (slices.filterMap parse), ∀ other ∈ accepted (slices.filterMap parse),
      strayCount context parseSymbol externals document = strayCount context parseSymbol externals other) ∧
    ∀ document ∈ accepted (slices.filterMap parse), ∀ other ∈ accepted (slices.filterMap parse),
      ∀ key ∈ context.asked document, key ∈ context.shown other →
        (context.scope document).own context key = (context.scope other).own context key := by
  obtain ⟨⟨read, importer⟩, hrun, hrest⟩ := bind_eq_ok.1 hout
  obtain ⟨hparse, hgiven⟩ := gives_of_importDocuments hrun hpaths fun _ _ => List.not_mem_nil
  have hgiven' (document : DocumentMessage) : ∃ (result : (Key I → I) → SemanticDocument I)
      (diagnostics : List ImportDiagnostic), document ∈ slices.filterMap parse → Acceptable document →
        Gives context document result diagnostics := by
    by_cases h : document ∈ slices.filterMap parse ∧ Acceptable document
    · obtain ⟨result, diagnostics, hdocument⟩ := hgiven document h.1 h.2
      exact ⟨result, diagnostics, fun _ _ => hdocument⟩
    · exact ⟨fun _ => ⟨"", "", .unknown, none, [], []⟩, [], fun hmem hacc => absurd ⟨hmem, hacc⟩ h⟩
  choose result diagnostics hgives using hgiven'
  obtain ⟨⟨symbols, importer'⟩, hcollect, -⟩ := bind_eq_ok.1 hrest
  rw [importDocuments_eq hparse hpaths (fun _ _ => List.not_mem_nil) hgives] at hrun
  obtain ⟨-, rfl⟩ := Prod.mk.inj (Except.ok.inj hrun)
  have hapart := collect_apart (externalSymbol_apart context parseSymbol) externals
  cases hapart with
  | refuses reason hfails => rw [hfails _ (passed_sound sound_begin)] at hcollect; cases hcollect
  | returns symbols fixed hexternals =>
    have hall (slices' : List (List UInt8)) (hperm : slices.Perm slices') :=
      @importSlices_eq I _ context diagnostics parse parseSymbol result slices' externals symbols fixed _
        (fun slice hs => hparse slice (hperm.mem_iff.2 hs))
        (((hperm.filterMap parse).map _).nodup_iff.1 hpaths)
        (fun document hd => hgives document ((hperm.filterMap parse).mem_iff.2 hd)) hexternals
    have hshown (document : DocumentMessage) (h : document ∈ accepted (slices.filterMap parse)) :=
      (hgives document (List.mem_filter.1 h).1 (of_decide_eq_true (List.mem_filter.1 h).2)).2.1
    have hpath (document : DocumentMessage) (h : document ∈ accepted (slices.filterMap parse)) :=
      (hgives document (List.mem_filter.1 h).1 (of_decide_eq_true (List.mem_filter.1 h).2)).1
    constructor
    · intro horders
      constructor
      · intro document hdocument other hother
        have hcount (last : DocumentMessage) (hlast : last ∈ accepted (slices.filterMap parse)) : out.diagnostics.length =
            ((slices.filterMap parse).flatMap (reported diagnostics)).length +
              (fixed.length + strayCount context parseSymbol externals last) := by
          obtain ⟨slice, rest, hslice, hperm⟩ := perm_last (List.mem_filter.1 hlast).1
          obtain ⟨out', hout', -, -, hreports⟩ := horders _ hperm
          obtain ⟨all, heq, hdiagnostics⟩ := hall _ hperm
          obtain rfl := Except.ok.inj (hout'.symm.trans heq)
          rw [hreports.length_eq, hdiagnostics.length_eq, List.length_append, List.length_append, length_reportStrays,
            ← ((hperm.filterMap parse).flatMap_right _).length_eq, List.filterMap_append, List.filterMap_cons_some hslice,
            List.filterMap_nil, leftConflicting_concat (of_decide_eq_true (List.mem_filter.1 hlast).2)]
          rfl
        have hfirst := hcount document hdocument
        have hsecond := hcount other hother
        omega
      · intro document hdocument other hother key hasked hkey
        by_cases hsame : document = other
        · rw [hsame]
        obtain ⟨slice, slice', rest, hslice, hslice', hperm⟩ :=
          perm_firsts (List.mem_filter.1 hdocument).1 (List.mem_filter.1 hother).1 hsame
        have hperm' := hperm.trans (.swap _ _ _)
        obtain ⟨out₁, hout₁, hdocuments₁, -⟩ := horders _ hperm
        obtain ⟨out₂, hout₂, hdocuments₂, -⟩ := horders _ hperm'
        obtain ⟨all₁, heq₁, -⟩ := hall _ hperm
        obtain ⟨all₂, heq₂, -⟩ := hall _ hperm'
        obtain rfl := Except.ok.inj (hout₁.symm.trans heq₁)
        obtain rfl := Except.ok.inj (hout₂.symm.trans heq₂)
        have hfirsts (one two : DocumentMessage) (raw raw' : List UInt8) (hraw : parse raw = some one)
            (hraw' : parse raw' = some two) (hone : one ∈ accepted (slices.filterMap parse))
            (htwo : two ∈ accepted (slices.filterMap parse)) : accepted ((raw :: raw' :: rest).filterMap parse) =
              one :: two :: accepted (rest.filterMap parse) := by
          rw [List.filterMap_cons_some hraw, List.filterMap_cons_some hraw', accepted, List.filter_cons,
            if_pos (List.mem_filter.1 hone).2, List.filter_cons, if_pos (List.mem_filter.1 htwo).2]
          rfl
        have haccepted : (accepted (slices.filterMap parse)).Perm _ := (hperm.filterMap parse).filter _
        rw [← accepted, hfirsts document other slice slice' hslice hslice' hdocument hother] at haccepted
        rw [hfirsts document other slice slice' hslice hslice' hdocument hother] at hdocuments₁
        rw [hfirsts other document slice' slice hslice' hslice hother hdocument] at hdocuments₂
        exact own_of_perm (hshown other hother) (fun one ho => hpath one (haccepted.mem_iff.2 ho))
          ((haccepted.map _).nodup_iff.1 (hpaths.sublist (List.filter_sublist.map _)))
          (hdocuments₁.symm.trans hdocuments₂) hasked hkey
    · rintro ⟨hcounts, hagree⟩ slices' hperm
      obtain ⟨all, heq, hdiagnostics⟩ := hall slices' hperm
      obtain ⟨all₀, heq₀, hdiagnostics₀⟩ := hall slices (.refl _)
      obtain rfl := Except.ok.inj (hout.symm.trans heq₀)
      have hdocuments : (accepted (slices.filterMap parse)).Perm (accepted (slices'.filterMap parse)) :=
        (hperm.filterMap parse).filter _
      refine ⟨_, heq, ?_, rfl, ?_⟩
      · rw [readAll_own hshown hagree fun _ _ _ _ => rfl, readAll_own
          (fun document hd => hshown document (hdocuments.mem_iff.2 hd))
          (fun document hd other ho => hagree document (hdocuments.mem_iff.2 hd) other (hdocuments.mem_iff.2 ho))
          fun _ _ _ _ => rfl]
        exact hdocuments.map _
      · refine (hdiagnostics₀.trans (.append ((hperm.filterMap parse).flatMap_right _) (.of_eq ?_))).trans hdiagnostics.symm
        congr 1
        rcases leftConflicting_of context [] (slices.filterMap parse) with
          ⟨hnone, hleft⟩ | ⟨document, hdocument, hleft⟩ <;>
        rcases leftConflicting_of context [] (slices'.filterMap parse) with
          ⟨hnone', hleft'⟩ | ⟨other, hother, hleft'⟩
        · rw [hleft, hleft']
        · exact absurd (hdocuments.mem_iff.2 hother) (hnone ▸ List.not_mem_nil)
        · exact absurd (hdocuments.mem_iff.1 hdocument) (hnone' ▸ List.not_mem_nil)
        · rw [hleft, hleft']
          exact reportStrays_congr (hcounts document hdocument other (hdocuments.mem_iff.2 hother))

/-! ## An index of two documents -/

/-- `DEFAULT_LIMITS`. -/
def defaultLimits : ImportLimits where
  maxIndexBytes := 67108864
  maxDocuments := 100000
  maxOccurrencesPerDocument := 500000
  maxSymbolsPerDocument := 100000
  maxTotalOccurrences := 2000000
  maxTotalSymbols := 1000000
  maxRepeatedItemsPerMessage := 1000
  maxTotalElements := 25000000
  maxNestingDepth := 8
  maxExternalSymbols := 500000
  maxRelationshipsPerSymbol := 10000
  maxToolArguments := 256
  maxSymbolLength := 4096

/-- An import without files, sources and names of kinds other than two. -/
def plainContext : Context String where
  limits := defaultLimits
  fileIds := fun _ => none
  sources := fun _ => none
  derive := Indexing.encodeComponents
  idText := id
  sha256 := id
  kindName := fun kind => if kind = 7 then some "Class" else if kind = 17 then some "Function" else none
  noFile := ""

/-- `local 1`, of a kind, or of none. -/
def localSymbol (kind : Int) : SymbolMessage := ⟨"local 1", [], [], kind, "", "", ""⟩

/-- The wire format of `localSymbol`, for the kinds 7 and 17 and without one. -/
def localSlice (kind : List UInt8) : List UInt8 := [10, 7, 108, 111, 99, 97, 108, 32, 49] ++ kind

/-- A document at `a` that declares `local 1` as a class and as a function. -/
def conflictSlice : List UInt8 := [10, 1, 97, 26, 11] ++ localSlice [40, 7] ++ [26, 11] ++ localSlice [40, 17]

/-- An empty document at `b`. -/
def emptySlice : List UInt8 := [10, 1, 98]

def parseDocuments (slice : List UInt8) : Option DocumentMessage :=
  if slice = conflictSlice then some ⟨"a", "", "", 0, [], [localSymbol 7, localSymbol 17]⟩
  else if slice = emptySlice then some ⟨"b", "", "", 0, [], []⟩
  else none

def parseLocal (slice : List UInt8) : Option SymbolMessage := if slice = localSlice [] then some (localSymbol 0) else none

/-- An external `local 1` is reported where the last document has no conflicting one, else dropped. -/
theorem importSlices_orders : ((([conflictSlice, emptySlice].filterMap parseDocuments).map (·.relativePath)).Nodup) ∧
    ∃ out out', importSlices plainContext parseDocuments parseLocal [conflictSlice, emptySlice] [localSlice []] = .ok out ∧
      importSlices plainContext parseDocuments parseLocal [emptySlice, conflictSlice] [localSlice []] = .ok out' ∧
      ¬out.diagnostics.Perm out'.diagnostics := by
  refine ⟨by decide +kernel,
    ⟨[⟨"a", "", .unspecified, none, [], []⟩, ⟨"b", "", .unspecified, none, [], []⟩], [],
      [⟨.conflictingLocalDeclaration, some "a", none⟩, ⟨.invalidSymbol, none, none⟩]⟩,
    ⟨[⟨"b", "", .unspecified, none, [], []⟩, ⟨"a", "", .unspecified, none, [], []⟩], [],
      [⟨.conflictingLocalDeclaration, some "a", none⟩]⟩, rfl, rfl, fun h => ?_⟩
  exact absurd h.length_eq (by decide)

/-- Without external symbols the two documents may stand in any order. -/
theorem importSlices_iff_documents :
    ∃ out', importSlices plainContext parseDocuments parseLocal [emptySlice, conflictSlice] [] = .ok out' ∧
      [⟨"a", "", .unspecified, none, [], []⟩, ⟨"b", "", .unspecified, none, [], []⟩].Perm out'.documents ∧
      [] = out'.externalSymbols ∧ [⟨.conflictingLocalDeclaration, some "a", none⟩].Perm out'.diagnostics :=
  (importSlices_iff plainContext parseDocuments parseLocal [conflictSlice, emptySlice] []
    ⟨[⟨"a", "", .unspecified, none, [], []⟩, ⟨"b", "", .unspecified, none, [], []⟩], [],
      [⟨.conflictingLocalDeclaration, some "a", none⟩]⟩ (by decide +kernel) rfl).2
    ⟨by decide +kernel, by decide +kernel⟩ [emptySlice, conflictSlice] (.swap _ _ _)

end AgentContext.Scip
