import AgentContext.Indexing.ScipImport
import AgentContext.Lib.Fallible
import AgentContext.Lib.Memo

/-!
# What an importer carries from one document to the next

`_Importer` of `scip.py` keeps the kinds and the conflicting locals of the current document, and the ids of all.  A loop
of it returns a function of the ids that it finds for its keys, and asks for the same keys whatever it finds:

    Reading           such a part of an import: the keys it asks for, and those that show in what it returns
    symbol_reads      symbol information is one
    occurrences_read  the occurrences of a document are one
    document_reads    a document is one, whatever was imported before it
-/

namespace AgentContext.Scip

open Fallible Memo List

section State

variable {I : Type} [DecidableEq I] (context : Context I)

/-! ## Names of symbols -/

/-- What the name of a symbol depends on: the declarations and the file of a document. -/
structure Scope (I : Type) where
  conflicting : List String
  declaredKinds : List (String × String)
  language : String
  fileId : Option I
  path : Option String

def Scope.key (scope : Scope I) (symbol : String) : Option (Key I) :=
  if isValidSymbol symbol ∧ symbol ∉ scope.conflicting ∧ ¬(isLocal symbol ∧ scope.fileId = none) then
    some (symbol, if isLocal symbol then scope.fileId else none, (scope.declaredKinds.lookup symbol).getD unknownKind)
  else none

/-- The id of a key that was not asked for before. -/
def Scope.own (scope : Scope I) (key : Key I) : I :=
  context.symbolLogicalId key.1 scope.language (scope.fileId.getD context.noFile) key.1 key.2.2

def Scope.targets (scope : Scope I) (items : List RelationshipMessage) : List (Key I) :=
  items.filterMap fun related => scope.key related.symbol

/-- The relationships that say something; the others are dropped. -/
def telling (items : List RelationshipMessage) : List RelationshipMessage :=
  items.filter fun related => relationshipKinds related ≠ []

/-- The keys a symbol asks for: its own, then those of its relationships. -/
def Scope.asked (scope : Scope I) (info : SymbolMessage) : List (Key I) :=
  match scope.key info.symbol with
  | none => []
  | some key => key :: scope.targets info.relationships

def Scope.shown (scope : Scope I) (info : SymbolMessage) : List (Key I) :=
  match scope.key info.symbol with
  | none => []
  | some key => key :: scope.targets (telling info.relationships)

/-- The importer is at work on the scope. -/
def Importer.In (scope : Scope I) (importer : Importer I) : Prop :=
  importer.conflicting = scope.conflicting ∧ importer.declaredKinds = scope.declaredKinds

/-- The importer after some diagnostics, and after some keys were asked for. -/
def Importer.after (own : Key I → I) (importer : Importer I) (diagnostics : List ImportDiagnostic) (keys : List (Key I)) :
    Importer I :=
  { importer with diagnostics := importer.diagnostics ++ diagnostics, ids := noteAll own importer.ids keys }

variable {context} {scope : Scope I} {importer : Importer I} {own : Key I → I}
variable {diagnostics : List ImportDiagnostic} {keys : List (Key I)}

omit [DecidableEq I] in
theorem targets_none {related : RelationshipMessage} {items : List RelationshipMessage} (h : scope.key related.symbol = none) :
    scope.targets (related :: items) = scope.targets items := by
  unfold Scope.targets
  rw [filterMap_cons, h]

omit [DecidableEq I] in
theorem targets_some {related : RelationshipMessage} {items : List RelationshipMessage} {key : Key I}
    (h : scope.key related.symbol = some key) : scope.targets (related :: items) = key :: scope.targets items := by
  unfold Scope.targets
  rw [filterMap_cons, h]

theorem telling_cons {related : RelationshipMessage} {items : List RelationshipMessage} :
    telling (related :: items) = if relationshipKinds related = [] then telling items else related :: telling items := by
  unfold telling
  rw [filter_cons]
  split <;> split <;> simp_all

theorem after_in (h : importer.In scope) : (importer.after own diagnostics keys).In scope := h

theorem after_after {diagnostics diagnostics' : List ImportDiagnostic} {keys keys' : List (Key I)} :
    (importer.after own diagnostics keys).after own diagnostics' keys' =
      importer.after own (diagnostics ++ diagnostics') (keys ++ keys') := by
  unfold Importer.after
  rw [append_assoc, noteAll_append]

theorem after_nil : importer.after own [] [] = importer := by
  unfold Importer.after
  rw [append_nil, noteAll_nil]

theorem after_diagnose {code : DiagnosticCode} {path : Option String} {index : Option Nat} :
    importer.diagnose code path index = importer.after own [⟨code, path, index⟩] [] := rfl

theorem after_ids : answer own (importer.after own diagnostics keys).ids = answer own importer.ids :=
  funext fun _ => answer_noteAll

theorem identify_cases (context : Context I) (scope : Scope I) (symbol : String) (position : Option Nat) :
    (Utf8.size symbol.toList > context.limits.maxSymbolLength ∧ ∀ importer : Importer I, importer.In scope →
      importer.identify context symbol scope.language scope.fileId scope.path position = .error .symbolTooLong) ∨
    (scope.key symbol = none ∧ ∃ diagnostics, ∀ importer : Importer I, importer.In scope →
      importer.identify context symbol scope.language scope.fileId scope.path position =
        .ok (none, importer.after (scope.own context) diagnostics [])) ∨
    ∃ key, scope.key symbol = some key ∧ ∀ importer : Importer I, importer.In scope →
      importer.identify context symbol scope.language scope.fileId scope.path position =
        .ok (some (answer (scope.own context) importer.ids key), importer.after (scope.own context) [] [key]) := by
  by_cases hlong : Utf8.size symbol.toList > context.limits.maxSymbolLength
  · exact .inl ⟨hlong, fun importer _ => if_pos hlong⟩
  refine .inr ?_
  by_cases hvalid : isValidSymbol symbol = true
  swap
  · refine .inl ⟨if_neg fun h => hvalid h.1, [⟨.invalidSymbol, scope.path, position⟩], fun importer _ => ?_⟩
    unfold Importer.identify
    rw [if_neg hlong, if_pos (by simpa using hvalid)]
    rfl
  by_cases hconflict : symbol ∈ scope.conflicting
  · refine .inl ⟨if_neg fun h => h.2.1 hconflict, [], fun importer hin => ?_⟩
    unfold Importer.identify
    rw [if_neg hlong, if_neg (by simpa using hvalid), if_pos (hin.1 ▸ hconflict), after_nil]
  by_cases hfile : isLocal symbol = true ∧ scope.fileId = none
  · have hfile' : (isLocal symbol && scope.fileId.isNone) = true := by simpa using hfile
    refine .inl ⟨if_neg fun h => h.2.2 hfile, [⟨if scope.path.isNone then .invalidSymbol else
      .localSymbolWithoutFileIdentity, scope.path, position⟩], fun importer hin => ?_⟩
    unfold Importer.identify
    rw [if_neg hlong, if_neg (by simpa using hvalid), if_neg (hin.1 ▸ hconflict)]
    dsimp only
    rw [if_pos hfile']
    split <;> rfl
  · refine .inr ⟨_, if_pos ⟨hvalid, hconflict, hfile⟩, fun importer hin => ?_⟩
    have hfile' : ¬(isLocal symbol && scope.fileId.isNone) = true := by simpa using hfile
    obtain ⟨diagnostics, declaredKinds, ids, conflicting⟩ := importer
    obtain ⟨rfl, rfl⟩ := hin
    unfold Importer.identify Importer.after
    rw [if_neg hlong, if_neg (by simpa using hvalid), if_neg hconflict]
    dsimp only
    rw [if_neg hfile', noteAll_singleton, append_nil]
    unfold answer Memo.note
    split <;> next hfound =>
      simp only [hfound, Option.getD_some, Option.getD_none, Option.isSome_some, Option.isSome_none, Bool.false_eq_true,
        if_true, if_false, Scope.own]

/-! ## Parts of an import -/

variable (context) in
/-- A part of an import, in a scope: it fails, or returns a function of the ids that it finds; what it asks for, what shows
and what it reports do not depend on them. -/
inductive Reading {R : Type} (scope : Scope I) (size : R → Nat) (asked shown : List (Key I))
    (part : Importer I → Except ImportReason (R × Importer I)) : Prop where
  | refuses (reason : ImportReason) (h : ∀ importer : Importer I, importer.In scope → part importer = .error reason)
  | returns (result : (Key I → I) → R) (diagnostics : List ImportDiagnostic)
      (hsize : ∀ f g, size (result f) = size (result g))
      (hshown : ∀ f g, result f = result g ↔ ∀ key ∈ shown, f key = g key)
      (h : ∀ importer : Importer I, importer.In scope → part importer =
        .ok (result (answer (scope.own context) importer.ids), importer.after (scope.own context) diagnostics asked))

theorem toList_inj {β : Type} {kept kept' : Option β} (h : kept.toList = kept'.toList) : kept = kept' :=
  Option.ext fun b => by rw [← Option.mem_toList, h, Option.mem_toList]

theorem Reading.nothing {β : Type} (diagnostics : List ImportDiagnostic)
    {part : Importer I → Except ImportReason (Option β × Importer I)}
    (h : ∀ importer : Importer I, importer.In scope →
      part importer = .ok (none, importer.after (scope.own context) diagnostics [])) :
    Reading context scope (fun kept => kept.toList.length) [] [] part :=
  .returns (fun _ => none) diagnostics (fun _ _ => rfl) (fun _ _ => ⟨fun _ => forall_mem_nil _, fun _ => rfl⟩) h

/-- A loop over parts is a part. -/
theorem Reading.collect {α β : Type} {turn : Importer I → α → Except ImportReason (Option β × Importer I)}
    {asked shown : α → List (Key I)} {items : List α}
    (h : ∀ item ∈ items, Reading context scope (fun kept => kept.toList.length) (asked item) (shown item) (turn · item)) :
    Reading context scope List.length (items.flatMap asked) (items.flatMap shown) (Scip.collect turn · items) := by
  induction items with
  | nil =>
    exact .returns (fun _ => []) [] (fun _ _ => rfl) (fun _ _ => ⟨fun _ => forall_mem_nil _, fun _ => rfl⟩)
      fun importer _ => by rw [flatMap_nil, after_nil]; rfl
  | cons item items ih =>
    cases h item mem_cons_self with
    | refuses reason hitem => exact .refuses reason fun importer hin => by rw [Scip.collect, hitem importer hin]; rfl
    | returns result diagnostics hsize hshown hitem =>
      cases ih fun other ho => h other (mem_cons_of_mem _ ho) with
      | refuses reason hrest =>
        refine .refuses reason fun importer hin => ?_
        rw [Scip.collect, hitem importer hin, ok_bind]
        dsimp only
        rw [hrest _ (after_in hin)]
        rfl
      | returns result' diagnostics' hsize' hshown' hrest =>
        refine .returns (fun f => (result f).toList ++ result' f) (diagnostics ++ diagnostics') ?_ ?_ ?_
        · intro f g
          rw [length_append, length_append, hsize f g, hsize' f g]
        · intro f g
          rw [flatMap_cons, forall_mem_append]
          constructor
          · intro heq
            obtain ⟨hfirst, hothers⟩ := append_inj heq (hsize f g)
            exact ⟨(hshown f g).1 (toList_inj hfirst), (hshown' f g).1 hothers⟩
          · rintro ⟨hfirst, hothers⟩
            rw [(hshown f g).2 hfirst, (hshown' f g).2 hothers]
        · intro importer hin
          rw [Scip.collect, hitem importer hin, ok_bind]
          dsimp only
          rw [hrest _ (after_in hin), ok_bind, after_ids, after_after]
          rfl

/-- The loop over relationships, whatever the id of the symbol is. -/
theorem relationships_reads (context : Context I) (scope : Scope I) (source : String) (items : List RelationshipMessage) :
    (∃ reason, ∀ sourceId, ∀ importer : Importer I, importer.In scope →
      importer.relationships context source sourceId scope.language scope.fileId scope.path items = .error reason) ∨
    ∃ (result : I → (Key I → I) → List (SemanticRelationship I)) (diagnostics : List ImportDiagnostic),
      (∀ sourceId f g, result sourceId f = result sourceId g ↔ ∀ key ∈ scope.targets (telling items), f key = g key) ∧
      ∀ sourceId, ∀ importer : Importer I, importer.In scope →
        importer.relationships context source sourceId scope.language scope.fileId scope.path items =
          .ok (result sourceId (answer (scope.own context) importer.ids), importer.after (scope.own context) diagnostics
            (scope.targets items)) := by
  induction items with
  | nil =>
    refine .inr ⟨fun _ _ => [], [], fun _ _ _ => ⟨fun _ => forall_mem_nil _, fun _ => rfl⟩, fun sourceId importer _ => ?_⟩
    exact congrArg (fun importer => Except.ok ([], importer)) after_nil.symm
  | cons related items ih =>
    rcases identify_cases context scope related.symbol none with
      ⟨-, hlong⟩ | ⟨hkey, dropped, hnone⟩ | ⟨key, hkey, hsome⟩
    · refine .inl ⟨.symbolTooLong, fun sourceId importer hin => ?_⟩
      rw [Importer.relationships, hlong importer hin]
      rfl
    · -- a relationship of which the symbol has no id
      rcases ih with ⟨reason, hrest⟩ | ⟨result, diagnostics, hshown, hrest⟩
      · refine .inl ⟨reason, fun sourceId importer hin => ?_⟩
        rw [Importer.relationships, hnone importer hin, ok_bind]
        exact hrest sourceId _ (after_in hin)
      · refine .inr ⟨result, dropped ++ diagnostics, fun sourceId f g => ?_, fun sourceId importer hin => ?_⟩
        · rw [hshown, telling_cons]
          split
          · rfl
          · rw [targets_none hkey]
        · rw [Importer.relationships, hnone importer hin, ok_bind]
          dsimp only
          rw [hrest sourceId _ (after_in hin), after_ids, after_after, targets_none hkey, nil_append]
    · by_cases hkinds : relationshipKinds related = []
      · -- one that says nothing
        rcases ih with ⟨reason, hrest⟩ | ⟨result, diagnostics, hshown, hrest⟩
        · refine .inl ⟨reason, fun sourceId importer hin => ?_⟩
          rw [Importer.relationships, hsome importer hin, ok_bind]
          dsimp only
          rw [if_pos hkinds]
          exact hrest sourceId _ (after_in hin)
        · refine .inr ⟨result, ⟨.emptyRelationship, scope.path, none⟩ :: diagnostics, fun sourceId f g => ?_,
            fun sourceId importer hin => ?_⟩
          · rw [hshown, telling_cons, if_pos hkinds]
          · rw [Importer.relationships, hsome importer hin, ok_bind]
            dsimp only
            rw [if_pos hkinds, after_diagnose, after_after, hrest sourceId _ (after_in hin), after_ids, after_after,
              targets_some hkey]
            rfl
      · rcases ih with ⟨reason, hrest⟩ | ⟨result, diagnostics, hshown, hrest⟩
        · refine .inl ⟨reason, fun sourceId importer hin => ?_⟩
          rw [Importer.relationships, hsome importer hin, ok_bind]
          dsimp only
          rw [if_neg hkinds, hrest sourceId _ (after_in hin)]
          rfl
        · refine .inr ⟨fun sourceId f => ⟨source, sourceId, related.symbol, f key, relationshipKinds related⟩ ::
            result sourceId f, diagnostics, fun sourceId f g => ?_, fun sourceId importer hin => ?_⟩
          · rw [telling_cons, if_neg hkinds, targets_some hkey, forall_mem_cons, ← hshown sourceId, List.cons.injEq]
            simp only [SemanticRelationship.mk.injEq, true_and, and_true]
          · rw [Importer.relationships, hsome importer hin, ok_bind]
            dsimp only
            rw [if_neg hkinds, hrest sourceId _ (after_in hin), ok_bind, after_ids, after_after, targets_some hkey]
            rfl

theorem symbol_reads (info : SymbolMessage) :
    Reading context scope (fun kept => kept.toList.length) (scope.asked info) (scope.shown info)
      fun importer => importer.symbol context info scope.path scope.language scope.fileId := by
  by_cases hmany : info.relationships.length > context.limits.maxRelationshipsPerSymbol
  · refine .refuses (.scan .tooManyRelationships) fun importer _ => ?_
    unfold Importer.symbol
    rw [if_pos hmany]
  rcases identify_cases context scope info.symbol none with
    ⟨-, hlong⟩ | ⟨hkey, dropped, hnone⟩ | ⟨key, hkey, hsome⟩
  · refine .refuses .symbolTooLong fun importer hin => ?_
    unfold Importer.symbol
    rw [if_neg hmany, hlong importer hin]
    rfl
  · rw [Scope.asked, Scope.shown, hkey]
    refine .nothing dropped fun importer hin => ?_
    unfold Importer.symbol
    rw [if_neg hmany, hnone importer hin]
    rfl
  · rw [Scope.asked, Scope.shown, hkey]
    rcases relationships_reads context scope info.symbol info.relationships with
      ⟨reason, hrest⟩ | ⟨result, diagnostics, hshown, hrest⟩
    · refine .refuses reason fun importer hin => ?_
      unfold Importer.symbol
      rw [if_neg hmany, hsome importer hin, ok_bind]
      dsimp only
      rw [hrest _ _ (after_in hin)]
      rfl
    · refine .returns (fun f => some (context.semanticSymbol info scope.path (f key) (result (f key) f))) diagnostics
        (fun _ _ => rfl) ?_ ?_
      · intro f g
        rw [forall_mem_cons]
        constructor
        · intro heq
          have hsymbol := Option.some.inj heq
          have hid : f key = g key := congrArg SemanticSymbol.symbolId hsymbol
          have hrelated : result (f key) f = result (g key) g := congrArg SemanticSymbol.relationships hsymbol
          exact ⟨hid, (hshown (f key) f g).1 (hrelated.trans (by rw [hid]))⟩
        · rintro ⟨hid, hrelated⟩
          rw [hid, (hshown (g key) f g).2 hrelated]
      · intro importer hin
        unfold Importer.symbol
        rw [if_neg hmany, hsome importer hin, ok_bind]
        dsimp only
        rw [hrest _ _ (after_in hin), ok_bind, after_ids, after_after]
        rfl

end State

/-! ## Documents -/

section Documents

variable {I : Type} (context : Context I)

def Context.scope (document : DocumentMessage) : Scope I where
  conflicting := conflictingSymbols context document.symbols
  declaredKinds := ((document.symbols.filter (·.symbol ∉ conflictingSymbols context document.symbols)).map
    fun info => (info.symbol, context.kindOf info)).reverse
  language := document.language
  fileId := context.fileIds document.relativePath
  path := some document.relativePath

def Context.bounds (document : DocumentMessage) : Bounds :=
  .of ((context.sources document.relativePath).orElse fun _ => if document.text = "" then none else some document.text)
    (positionEncoding document.positionEncoding)

/-- The key an occurrence asks for, where nothing else is wrong with it. -/
def Context.occurring (document : DocumentMessage) (occurrence : OccurrenceMessage) : List (Key I) :=
  if (rangeOf occurrence).any (context.bounds document).contains ∧ 0 ≤ occurrence.symbolRoles then
    ((context.scope document).key occurrence.symbol).toList
  else []

/-- The keys of the occurrences of a document; without a known encoding there are none. -/
def Context.occurrences (document : DocumentMessage) : List (Key I) :=
  if positionEncoding document.positionEncoding = .unknown then []
  else document.occurrences.flatMap (context.occurring document)

def Context.asked (document : DocumentMessage) : List (Key I) :=
  context.occurrences document ++ document.symbols.flatMap (context.scope document).asked

def Context.shown (document : DocumentMessage) : List (Key I) :=
  context.occurrences document ++ document.symbols.flatMap (context.scope document).shown

variable [DecidableEq I] {context} {document : DocumentMessage}

theorem enclosing_reads (own : Key I → I) (occurrence : OccurrenceMessage) (position : Nat) (path : String) (bounds : Bounds)
    (located : SourceRange) : ∃ (enclosing : Option SourceRange) (dropped : List ImportDiagnostic), ∀ importer : Importer I,
      importer.enclosing occurrence position path bounds located = (enclosing, importer.after own dropped []) := by
  unfold Importer.enclosing
  split
  · exact ⟨_, [], fun importer => by rw [after_nil]⟩
  · split
    · exact ⟨_, _, fun importer => congrArg _ after_diagnose⟩
    · split
      · exact ⟨_, _, fun importer => congrArg _ after_diagnose⟩
      · split
        · exact ⟨_, _, fun importer => congrArg _ after_diagnose⟩
        · exact ⟨_, [], fun importer => by rw [after_nil]⟩

theorem occurrence_reads (occurrence : OccurrenceMessage) (position : Nat) :
    Reading context (context.scope document) (fun kept => kept.toList.length) (context.occurring document occurrence)
      (context.occurring document occurrence) fun importer => importer.occurrence context occurrence position
        document.relativePath document (context.fileIds document.relativePath) (context.bounds document) := by
  unfold Context.occurring
  cases hlocated : rangeOf occurrence with
  | none =>
    rw [if_neg (by simp)]
    refine .nothing [⟨.invalidRange, some document.relativePath, some position⟩] fun importer _ => ?_
    unfold Importer.occurrence
    rw [hlocated]
    rfl
  | some located =>
    by_cases hinside : (context.bounds document).contains located = true
    swap
    · rw [if_neg fun h => hinside (by simpa using h.1)]
      refine .nothing [⟨.outOfDocumentRange, some document.relativePath, some position⟩] fun importer _ => ?_
      unfold Importer.occurrence
      rw [hlocated]
      dsimp only
      rw [if_pos (by simpa using hinside)]
      rfl
    obtain ⟨enclosing, dropped, henclosing⟩ := enclosing_reads ((context.scope document).own context) occurrence position
      document.relativePath (context.bounds document) located
    by_cases hroles : occurrence.symbolRoles < 0
    · rw [if_neg fun h => absurd hroles (not_lt.2 h.2)]
      refine .nothing (dropped ++ [⟨.invalidRoles, some document.relativePath, some position⟩]) fun importer _ => ?_
      unfold Importer.occurrence
      rw [hlocated]
      dsimp only
      rw [if_neg (by simpa using hinside), henclosing]
      dsimp only
      rw [if_pos hroles, after_diagnose, after_after]
      rfl
    rw [if_pos ⟨by simpa using hinside, not_lt.1 hroles⟩]
    rcases identify_cases context (context.scope document) occurrence.symbol (some position) with
      ⟨-, hlong⟩ | ⟨hkey, reported, hnone⟩ | ⟨key, hkey, hsome⟩
    · refine .refuses .symbolTooLong fun importer hin => ?_
      unfold Importer.occurrence
      rw [hlocated]
      dsimp only
      rw [if_neg (by simpa using hinside), henclosing]
      dsimp only
      rw [if_neg hroles]
      exact congrArg (· >>= _) (hlong _ (after_in hin))
    · rw [hkey]
      refine .nothing (dropped ++ reported) fun importer hin => ?_
      unfold Importer.occurrence
      rw [hlocated]
      dsimp only
      rw [if_neg (by simpa using hinside), henclosing]
      dsimp only
      rw [if_neg hroles]
      refine (congrArg (· >>= _) (hnone _ (after_in hin))).trans ?_
      rw [ok_bind, after_after]
      rfl
    · rw [hkey]
      refine .returns (fun f => some ⟨occurrence.symbol, f key, located, enclosing, occurrence.symbolRoles.toNat,
        occurrence.symbolRoles.toNat % 2 = 1, occurrence.overrideDocumentation⟩) dropped (fun _ _ => rfl) ?_ ?_
      · intro f g
        simp only [Option.some.injEq, SemanticOccurrence.mk.injEq, true_and, and_true, Option.toList_some,
          forall_mem_singleton]
      · intro importer hin
        unfold Importer.occurrence
        rw [hlocated]
        dsimp only
        rw [if_neg (by simpa using hinside), henclosing]
        dsimp only
        rw [if_neg hroles]
        refine (congrArg (· >>= _) (hsome _ (after_in hin))).trans ?_
        rw [ok_bind, after_after, after_ids, append_nil]
        rfl

def Importer.left (importer : Importer I) (context : Context I) (document : DocumentMessage)
    (diagnostics : List ImportDiagnostic) : Importer I where
  diagnostics := importer.diagnostics ++ diagnostics
  declaredKinds := (context.scope document).declaredKinds
  ids := noteAll ((context.scope document).own context) importer.ids (context.asked document)
  conflicting := (context.scope document).conflicting

omit [DecidableEq I] in
theorem conflictingLocals_eq {importer : Importer I} {path : String} : importer.conflictingLocals context document path =
    (conflictingSymbols context document.symbols,
      { importer with
        diagnostics := importer.diagnostics ++
          (conflictingSymbols context document.symbols).map fun _ => ⟨.conflictingLocalDeclaration, some path, none⟩ }) := by
  unfold Importer.conflictingLocals
  dsimp only
  congr 1
  generalize conflictingSymbols context document.symbols = conflicting
  induction conflicting generalizing importer with
  | nil => rw [map_nil, append_nil]; rfl
  | cons symbol conflicting ih =>
    rw [foldl_cons, ih, map_cons, append_cons]
    rfl

theorem occurrences_read (context : Context I) (document : DocumentMessage) : Reading context (context.scope document) List.length (context.occurrences document)
    (context.occurrences document) fun importer =>
      importer.occurrences context document (context.fileIds document.relativePath) (context.bounds document) := by
  unfold Importer.occurrences
  unfold Context.occurrences
  by_cases hunknown : positionEncoding document.positionEncoding = .unknown
  · rw [if_pos hunknown]
    refine .returns (fun _ => []) [⟨.unknownPositionEncoding, some document.relativePath, none⟩] (fun _ _ => rfl)
      (fun _ _ => ⟨fun _ => forall_mem_nil _, fun _ => rfl⟩) fun importer _ => ?_
    rw [if_pos hunknown]
    rfl
  · have hfst : document.occurrences.flatMap (context.occurring document) =
        document.occurrences.zipIdx.flatMap fun item => context.occurring document item.1 := by
      conv_lhs => rw [← zipIdx_map_fst 0 document.occurrences]
      rw [flatMap_map]
    rw [if_neg hunknown, hfst]
    simp only [if_neg hunknown]
    exact Reading.collect fun item _ => occurrence_reads item.1 item.2

def Importer.entered (importer : Importer I) (context : Context I) (document : DocumentMessage) : Importer I :=
  { importer with
    diagnostics := importer.diagnostics ++ (conflictingSymbols context document.symbols).map
      fun _ => ⟨.conflictingLocalDeclaration, some document.relativePath, none⟩
    conflicting := (context.scope document).conflicting
    declaredKinds := (context.scope document).declaredKinds }

theorem Importer.document_eq (importer : Importer I) (context : Context I) (document : DocumentMessage)
    (hmany : ¬ document.occurrences.length > context.limits.maxOccurrencesPerDocument)
    (hmany' : ¬ document.symbols.length > context.limits.maxSymbolsPerDocument) :
    importer.document context document = (do
      let (occurrences, importer) ← (importer.entered context document).occurrences context document
        (context.fileIds document.relativePath) (context.bounds document)
      let (symbols, importer) ← collect (fun importer info => importer.symbol context info (some document.relativePath)
        document.language (context.fileIds document.relativePath)) importer document.symbols
      .ok (⟨document.relativePath, document.language, positionEncoding document.positionEncoding,
        context.fileIds document.relativePath, occurrences, symbols⟩, importer)) := by
  unfold Importer.document
  rw [if_neg hmany, if_neg hmany']
  dsimp only
  rw [conflictingLocals_eq]
  rfl

/-- A document fails, or is a function of the ids that it finds; the importer then is as after any other document, up to
what is reported and the ids that it has. -/
theorem document_reads (context : Context I) (document : DocumentMessage) :
    (∃ reason, ∀ importer : Importer I, importer.document context document = .error reason) ∨
    ∃ (result : (Key I → I) → SemanticDocument I) (diagnostics : List ImportDiagnostic),
      (∀ f, (result f).path = document.relativePath) ∧
      (∀ f g, result f = result g ↔ ∀ key ∈ context.shown document, f key = g key) ∧
      ∀ importer : Importer I, importer.document context document =
        .ok (result (answer ((context.scope document).own context) importer.ids),
          importer.left context document diagnostics) := by
  by_cases hmany : document.occurrences.length > context.limits.maxOccurrencesPerDocument
  · exact .inl ⟨.scan .tooManyOccurrences, fun importer => if_pos hmany⟩
  by_cases hmany' : document.symbols.length > context.limits.maxSymbolsPerDocument
  · exact .inl ⟨.scan .tooManySymbols, fun importer => by unfold Importer.document; rw [if_neg hmany, if_pos hmany']⟩
  have hentered (importer : Importer I) : (importer.entered context document).In (context.scope document) := ⟨rfl, rfl⟩
  have hopen (importer : Importer I) := importer.document_eq context document hmany hmany'
  have hsymbols : Reading context (context.scope document) List.length
      (document.symbols.flatMap (context.scope document).asked) (document.symbols.flatMap (context.scope document).shown)
      fun importer => collect (fun importer info => importer.symbol context info (some document.relativePath)
        document.language (context.fileIds document.relativePath)) importer document.symbols :=
    Reading.collect fun info _ => symbol_reads info
  cases occurrences_read context document with
  | refuses reason hfails =>
    refine .inl ⟨reason, fun importer => ?_⟩
    rw [hopen]
    exact congrArg (· >>= _) (hfails _ (hentered importer))
  | returns result diagnostics hsize hshown hreads =>
    cases hsymbols with
    | refuses reason hfails =>
      refine .inl ⟨reason, fun importer => ?_⟩
      rw [hopen]
      refine (congrArg (· >>= _) (hreads _ (hentered importer))).trans ?_
      rw [ok_bind]
      exact congrArg (· >>= _) (hfails _ (after_in (hentered importer)))
    | returns result' diagnostics' hsize' hshown' hreads' =>
      refine .inr ⟨fun f => ⟨document.relativePath, document.language, positionEncoding document.positionEncoding,
        context.fileIds document.relativePath, result f, result' f⟩,
        (conflictingSymbols context document.symbols).map
          (fun _ => ⟨.conflictingLocalDeclaration, some document.relativePath, none⟩) ++ (diagnostics ++ diagnostics'),
        fun _ => rfl, fun f g => ?_, fun importer => ?_⟩
      · unfold Context.shown
        rw [forall_mem_append, ← hshown, ← hshown']
        simp only [SemanticDocument.mk.injEq, true_and]
      · rw [hopen]
        refine (congrArg (· >>= _) (hreads _ (hentered importer))).trans ?_
        rw [ok_bind]
        refine (congrArg (· >>= _) (hreads' _ (after_in (hentered importer)))).trans ?_
        rw [ok_bind, after_ids, after_after]
        unfold Importer.after Importer.left Importer.entered Context.asked
        rw [← append_assoc importer.diagnostics]

end Documents

end AgentContext.Scip
