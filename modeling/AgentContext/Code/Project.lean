import AgentContext.Code.Derive

/-!
# The projector

`CodeProjector.project`: write the facts of an event, find the entities it can affect, and replace their derived
state and the resolved edges of their subjects.

    facts → expand the scope → load the facts → write file, symbol and assertion states → write edges

`fullDerivation` is the derivation of everything over the facts alone.
-/

namespace Code

open PropertyGraph Keyset

/-! ## Derived state -/

/-- A `HAS_REVISION` relationship; `extra` is a file's path and module. -/
structure RevisionRow where
  key : String
  extra : Option (String × String)
  validFrom : Moment
  validTo : Option Moment
  recordedFrom : Moment
  recordedTo : Option Moment
deriving DecidableEq

structure FileState where
  revisions : List RevisionRow
  currentRevision : Option String
  inModule : Option String
  current : Bool
  currentPath : Option String
  validTo : Option Moment
deriving DecidableEq

structure SymbolState where
  revisions : List RevisionRow
  currentRevision : Option String
  current : Bool
  validTo : Option Moment
deriving DecidableEq

structure AssertionState where
  current : Bool
  validTo : Option Moment
  recordedTo : Option Moment
  validIntervals : List String
  currentFrom : Option Moment
  currentRecordedFrom : Option Moment
deriving DecidableEq

/-- `_row`. -/
def rowOf (i : Interval) : RevisionRow :=
  ⟨i.key, i.extra, i.start.occurredAt, i.stop.map (·.occurredAt), i.recordedFrom, i.recordedTo⟩

def openInterval (intervals : List Interval) : Option Interval := intervals.getLast?.filter (·.stop.isNone)

def closedAt (intervals : List Interval) : Option Moment :=
  intervals.getLast?.bind fun i => i.stop.map (·.occurredAt)

/-- `_write_file_state`. -/
def fileState (s : FactStore) (intervals : List Interval) : FileState where
  revisions := intervals.map rowOf
  currentRevision := (openInterval intervals).map (·.key)
  inModule := ((openInterval intervals).bind fun i => i.extra.map (·.2)).filter (.moduleNode · ∈ s.keys)
  current := (openInterval intervals).isSome
  currentPath := (openInterval intervals).bind fun i => i.extra.map (·.1)
  validTo := closedAt intervals

/-- `_write_symbol_state`. -/
def symbolState (intervals : List Interval) : SymbolState where
  revisions := intervals.map rowOf
  currentRevision := (openInterval intervals).map (·.key)
  current := (openInterval intervals).isSome
  validTo := closedAt intervals

/-- `_text`. -/
def intervalText (i : Interval) : String := i.start.occurredAt ++ "/" ++ (i.stop.map (·.occurredAt)).getD ""

/-- `_write_assertion_state`. -/
def assertionState (intervals : List Interval) (horizon : Moment) : AssertionState :=
  let last := intervals.getLast?
  let current := isCurrent intervals horizon
  { current := current
    validTo := closedAt intervals
    recordedTo := last.bind (·.recordedTo)
    validIntervals := intervals.map intervalText
    currentFrom := if current then last.map (·.start.occurredAt) else none
    currentRecordedFrom := if current then last.map (·.recordedFrom) else none }

/-! ## Edges -/

inductive EndLabel where
  | symbol
  | file
deriving DecidableEq, Repr

def EndLabel.node : EndLabel → String → Key
  | .symbol, id => .symbol id
  | .file, id => .file id

/-- A resolved relationship; the label of its target follows from the predicate. -/
structure EdgeKey where
  source : EndLabel
  subjectId : String
  predicate : CodeRelationPredicate
  objectId : String
deriving DecidableEq

structure EdgeProps where
  assertionIds : List String
  sourceEventIds : Finset String
  sourceEventId : Option String
  evidenceKind : EvidenceKind
  deterministic : Bool
  extractorName : String
  extractorVersion : String
  confidence : Nat
  validFrom : Moment
  recordedFrom : Moment
  validTo : Option Moment
  recordedTo : Option Moment
  reviewStatus : String
  resolved : Bool
  resolvedAssertionId : String
  lowerEvidenceAssertionIds : List String
deriving DecidableEq

/-- `_EDGES`: the label of the target. -/
def targetLabel : CodeRelationPredicate → Option EndLabel
  | .calls => some .symbol
  | .references => some .symbol
  | .imports => some .symbol
  | .defines => some .symbol
  | .possiblySupersedes => some .file
  | .dependsOn => none
  | .other _ => none

/-- `_EVIDENCE_RANK`. -/
def evidenceRank : EvidenceKind → Nat
  | .scip => 3
  | .git => 3
  | .test => 3
  | .treeSitter => 2
  | .other _ => 1

/-- The properties of an assertion node, as filled and as derived. -/
structure AssertionProps where
  assertionId : String
  fact : AssertionFact
  evidenceKind : EvidenceKind
  deterministic : Bool
  extractorName : String
  extractorVersion : String
  confidence : Nat
  reviewStatus : String
  sourceEventIds : Finset String
  sourceEventId : Option String
  state : AssertionState

def assertionProps (n : Entry) (assertionId : String) (fact : AssertionFact) (state : AssertionState) :
    AssertionProps where
  assertionId := assertionId
  fact := fact
  evidenceKind := ((n.fills "evidence_kind").bind Value.evidence?).getD (.other "")
  deterministic := ((n.fills "deterministic").bind Value.flag?).getD false
  extractorName := (textOf n "extractor_name").getD ""
  extractorVersion := (textOf n "extractor_version").getD ""
  confidence := ((n.fills "confidence").bind Value.number?).getD 0
  reviewStatus := (textOf n "review_status").getD ""
  sourceEventIds := n.sources
  sourceEventId := n.least "source_event_id"
  state := state

/-- `_rank`, best first, then the assertion id. -/
def AssertionProps.rank (p : AssertionProps) : ℕᵒᵈ ×ₗ ℕᵒᵈ ×ₗ String :=
  toLex (OrderDual.toDual (evidenceRank p.evidenceKind), toLex (OrderDual.toDual p.confidence, p.assertionId))

/-- `resolve_edges`: the edge of a subject, a predicate and an object among current assertions. -/
def resolveEdge (current : List AssertionProps) (predicate : CodeRelationPredicate) (objectId : String) :
    Option EdgeProps :=
  let group := current.filter fun p => p.fact.predicate = predicate ∧ p.fact.objectId = some objectId
  (leastBy AssertionProps.rank group).map fun winner =>
    { assertionIds := sortedSet (group.map (·.assertionId))
      sourceEventIds := (group.map (·.sourceEventIds)).foldr (· ∪ ·) ∅
      sourceEventId := winner.sourceEventId
      evidenceKind := winner.evidenceKind
      deterministic := winner.deterministic
      extractorName := winner.extractorName
      extractorVersion := winner.extractorVersion
      confidence := winner.confidence
      validFrom := winner.state.currentFrom.getD winner.fact.validFrom
      recordedFrom := winner.state.currentRecordedFrom.getD winner.fact.observedAt
      validTo := winner.state.validTo
      recordedTo := winner.state.recordedTo
      reviewStatus := winner.reviewStatus
      resolved := true
      resolvedAssertionId := winner.assertionId
      lowerEvidenceAssertionIds :=
        sortedSet ((group.map (·.assertionId)).filter (· ≠ winner.assertionId)) }

/-! ## The graph -/

structure Graph where
  facts : FactStore
  files : String → Option FileState
  symbols : String → Option SymbolState
  assertions : String → Option AssertionState
  /-- The relationships between two nodes; a `CREATE` adds one whether or not there is one. -/
  edges : EdgeKey → List EdgeProps

/-- Facts with nothing derived from them. -/
def Graph.underived (s : FactStore) : Graph := ⟨s, fun _ => none, fun _ => none, fun _ => none, fun _ => []⟩

def Graph.empty : Graph := .underived .empty

def Key.assertion? : Key → Option String
  | .assertion assertionId => some assertionId
  | _ => none

def Key.file? : Key → Option String
  | .file fileId => some fileId
  | _ => none

def Key.symbol? : Key → Option String
  | .symbol symbolId => some symbolId
  | _ => none

def assertionIds (s : FactStore) : List String := s.keys.filterMap Key.assertion?

/-- `_CURRENT_BY_SUBJECT`, the row of an assertion. -/
def currentRow (s : FactStore) (states : String → Option AssertionState) (subjectId a : String) :
    Option AssertionProps :=
  match assertionFact s a, states a with
  | some fact, some state =>
    if fact.family = .relation ∧ state.current ∧ fact.subjectId = subjectId then
      some (assertionProps (s.read (.assertion a)) a fact state)
    else
      none
  | _, _ => none

/-- `_CURRENT_BY_SUBJECT`. -/
def currentBySubject (s : FactStore) (states : String → Option AssertionState) (subjectId : String) :
    List AssertionProps :=
  (assertionIds s).filterMap (currentRow s states subjectId)

/-- `_DROP_EDGES` and `_DROP_SUPERSESSIONS`: a supersession is dropped only where it starts at a file. -/
def EdgeKey.dropped (k : EdgeKey) : Bool := k.predicate ≠ .possiblySupersedes || k.source = .file

/-- The edge `_write_edges` creates for a subject. -/
def edgeOf (s : FactStore) (states : String → Option AssertionState) (k : EdgeKey) : Option EdgeProps :=
  match targetLabel k.predicate with
  | none => none
  | some label =>
    if k.source.node k.subjectId ∈ s.keys ∧ label.node k.objectId ∈ s.keys then
      resolveEdge (currentBySubject s states k.subjectId) k.predicate k.objectId
    else
      none

/-! ## Scope -/

structure Scope where
  everything : Bool
  files : List String
  symbols : List String
  assertions : List String

def scopeOf (e : Event) : Scope :=
  match e.payload with
  | .indexStarted _ => ⟨true, [], [], []⟩
  | .indexCompleted _ => ⟨true, [], [], []⟩
  | .fileIndexed p => ⟨false, [p.fileId], [], []⟩
  | .fileCoverageReported p => ⟨false, [p.fileId], [], []⟩
  | .symbolIndexed p => ⟨false, [p.fileId], [p.symbolId], []⟩
  | .assertionObserved p => ⟨false, [p.fileId], [], [p.assertionId]⟩
  | .relationAsserted p => ⟨false, [], [], [p.assertionId]⟩
  | .dependencyAsserted p => ⟨false, [], [], [p.assertionId]⟩

section Expand

variable (s : FactStore)

/-- `_BOUNDED`. -/
def boundedAssertions : List String :=
  (assertionIds s).filter fun a => (textOf (s.read (.assertion a)) "asserted_valid_to").isSome

/-- `_SCOPE_OF_FILES`, the symbols. -/
def symbolsOfFiles (files : List String) : List String :=
  ((s.keys.filterMap (defRow s)).filter (·.fileId ∈ files)).map (·.symbolId)

/-- `_SCOPE_OF_FILES`, the assertions. -/
def assertionsOfFiles (files : List String) : List String :=
  ((s.keys.filterMap (observedRow s)).filter (·.fileId ∈ files)).map (·.assertionId)

/-- `_ASSERTIONS_OF_SYMBOLS`. -/
def assertionsOfSymbols (symbols : List String) : List String :=
  (assertionIds s).filter fun a =>
    (textOf (s.read (.assertion a)) "subject_id").any (· ∈ symbols) ||
      (textOf (s.read (.assertion a)) "object_id").any (· ∈ symbols)

/-- `_expand`. -/
def expand (scope : Scope) : Wanted :=
  if scope.everything then
    { files := scope.files ++ s.keys.filterMap Key.file?
      symbols := scope.symbols ++ s.keys.filterMap Key.symbol?
      assertions := scope.assertions ++ boundedAssertions s ++ assertionIds s }
  else
    let symbols := scope.symbols ++ symbolsOfFiles s scope.files
    { files := scope.files
      symbols := symbols
      assertions := scope.assertions ++ boundedAssertions s ++ assertionsOfFiles s scope.files ++
        assertionsOfSymbols s symbols }

end Expand

/-! ## Projecting -/

section Project

variable (isIdentifier : String → Bool)

/-- `_derive`. -/
def derive (g : Graph) (scope : Scope) : Graph :=
  let want := expand g.facts scope
  let F := loadFacts g.facts none want
  let assertions := fun a =>
    match (F.assertion a).fact with
    | some fact =>
      if a ∈ want.assertions then
        some (assertionState (deriveAssertion isIdentifier F a fact) F.horizon)
      else
        g.assertions a
    | none => g.assertions a
  let subjects := want.assertions.filterMap fun a => (F.assertion a).fact.map (·.subjectId)
  { facts := g.facts
    files := fun f =>
      if f ∈ want.files ∧ .file f ∈ g.facts.keys then some (fileState g.facts (deriveFile F f)) else g.files f
    symbols := fun x =>
      if x ∈ want.symbols ∧ .symbol x ∈ g.facts.keys then
        some (symbolState (deriveSymbol isIdentifier F x))
      else
        g.symbols x
    assertions := assertions
    edges := fun k =>
      if k.subjectId ∈ subjects then
        (if k.dropped then [] else g.edges k) ++ (edgeOf g.facts assertions k).toList
      else
        g.edges k }

/-- `CodeProjector.project`. -/
def project (g : Graph) (e : Event) : Graph :=
  derive isIdentifier { g with facts := g.facts.putAll (factWrites e) } (scopeOf e)

def deliver (events : List Event) : Graph := events.foldl (project isIdentifier) .empty

theorem deliver_snoc (events : List Event) (e : Event) :
    deliver isIdentifier (events ++ [e]) = project isIdentifier (deliver isIdentifier events) e := by
  simp [deliver]

theorem deliver_facts (events : List Event) : (deliver isIdentifier events).facts = factsOf events := by
  induction events using List.reverseRecOn with
  | nil => rfl
  | append_singleton events e ih =>
    rw [deliver_snoc]
    show (deliver isIdentifier events).facts.putAll (factWrites e) = _
    rw [ih, factsOf, factsOf, List.flatMap_append, List.flatMap_singleton, Store.written_append]

def fullDerivation (s : FactStore) : Graph := derive isIdentifier (.underived s) ⟨true, [], [], []⟩

end Project

end Code
