import AgentContext.Code.Events
import AgentContext.Lib.Keyset

/-!
# Loading the facts

The queries of `load_facts` over a fact store, and the facts they are folded into.  A query's rows are in the order
the relationships were created in; `recorded_at` drops what was observed after it.

    file facts         a file's members, coverage and claims, run by run
    symbol facts       a symbol's defining revisions, and what its identity derives from
    assertion facts    an assertion as recorded, and the file revisions it was observed in

`loadFacts` loads what the wanted entities need: an assertion needs the files of its revisions and its end symbols,
and a symbol needs the files of its defining revisions.
-/

namespace Code

open PropertyGraph Keyset

/-! ## Reading properties -/

def Value.text? : Value → Option String
  | .text s => some s
  | _ => none

def Value.flag? : Value → Option Bool
  | .flag b => some b
  | _ => none

def Value.number? : Value → Option Nat
  | .number n => some n
  | _ => none

def Value.order? : Value → Option EventOrder
  | .order o => some o
  | _ => none

def Value.predicate? : Value → Option CodeRelationPredicate
  | .predicate p => some p
  | _ => none

def Value.evidence? : Value → Option EvidenceKind
  | .evidence k => some k
  | _ => none

def Value.family? : Value → Option CodeAssertionFamily
  | .family f => some f
  | _ => none

def textOf (n : Entry) (p : String) : Option String := (n.fills p).bind Value.text?

/-- A `min_non_null` property that every write of the entity states. -/
def momentOf (n : Entry) (p : String) : Moment := (n.least p).getD ""

def orderOf (n : Entry) : EventOrder := ((n.fills "event_order").bind Value.order?).getD (toLex ("", ""))

/-! ## Rows -/

structure RunRow where
  run : RunKey
  occurredAt : Moment
  observedAt : Moment
deriving DecidableEq

structure OutcomeRow where
  run : RunKey
  errorClass : Option String
  eventOrder : EventOrder
  observedAt : Moment
deriving DecidableEq

structure Member where
  revisionId : String
  path : String
  moduleId : String
  observedAt : Moment
deriving DecidableEq

structure MemberRow extends Member where
  fileId : String
  run : RunKey
deriving DecidableEq

structure CoverageRow where
  revisionId : String
  fileId : String
  run : RunKey
  complete : Bool
  observedAt : Moment
  eventOrder : EventOrder
deriving DecidableEq

/-- A file revision's claim on a symbol or an assertion. -/
structure Claim where
  revisionId : String
  fileId : String
  since : Moment
  run : RunKey
  observedAt : Moment
deriving DecidableEq

structure DefRow extends Claim where
  symbolId : String
  symbolRevisionId : String
  scipSymbol : Option String
deriving DecidableEq

structure ObservedRow extends Claim where
  assertionId : String
deriving DecidableEq

structure AssertionFact where
  family : CodeAssertionFamily
  subjectId : String
  predicate : CodeRelationPredicate
  objectId : Option String
  validFrom : Moment
  validTo : Option Moment
  observedAt : Moment
deriving DecidableEq

section Queries

variable (s : FactStore)

def fileOf (revisionId : String) : String := (textOf (s.read (.fileRevision revisionId)) "file_id").getD ""

/-- `_RUNS`. -/
def runRow : Key → Option RunRow
  | .indexed run =>
    let n := s.read (.indexed run)
    some ⟨run, momentOf n "occurred_at", momentOf n "observed_at"⟩
  | _ => none

/-- `_OUTCOMES`. -/
def outcomeRow : Key → Option OutcomeRow
  | .completed run eventId =>
    let n := s.read (.completed run eventId)
    some ⟨run, textOf n "error_class", orderOf n, (textOf n "observed_at").getD ""⟩
  | _ => none

/-- `_MEMBERS`. -/
def memberRow : Key → Option MemberRow
  | .memberOf revisionId run =>
    let n := s.read (.memberOf revisionId run)
    some
      { revisionId := revisionId
        path := (textOf n "path").getD ""
        moduleId := (textOf n "module_id").getD ""
        observedAt := momentOf n "observed_at"
        fileId := fileOf s revisionId
        run := run }
  | _ => none

/-- `_COVERAGE`. -/
def coverageRow : Key → Option CoverageRow
  | .coveredIn revisionId run eventId =>
    let n := s.read (.coveredIn revisionId run eventId)
    some
      { revisionId := revisionId
        fileId := fileOf s revisionId
        run := run
        complete := ((n.fills "complete").bind Value.flag?).getD false
        observedAt := momentOf n "observed_at"
        eventOrder := orderOf n }
  | _ => none

/-- The claim a `DEFINED_IN` or `OBSERVED_IN` relationship records. -/
def claimRow (k : Key) (revisionId indexId : String) : Claim where
  revisionId := revisionId
  fileId := fileOf s revisionId
  since := momentOf (s.read k) "occurred_at"
  run := runKey indexId ((textOf (s.read k) "claim_target").getD "")
  observedAt := momentOf (s.read k) "observed_at"

/-- `_DEFS`. -/
def defRow : Key → Option DefRow
  | .definedIn symbolRevisionId revisionId indexId =>
    let sr := s.read (.symbolRevision symbolRevisionId)
    some
      { claimRow s (.definedIn symbolRevisionId revisionId indexId) revisionId indexId with
        symbolId := (textOf sr "symbol_id").getD ""
        symbolRevisionId := symbolRevisionId
        scipSymbol := textOf sr "scip_symbol" }
  | _ => none

/-- `_ASSERTIONS`, the part of the relationships. -/
def observedRow : Key → Option ObservedRow
  | .observedIn assertionId revisionId indexId =>
    some
      { claimRow s (.observedIn assertionId revisionId indexId) revisionId indexId with
        assertionId := assertionId }
  | _ => none

/-- `_ASSERTIONS`, the part of the node; a stub from an observation has no `valid_from`. -/
def assertionFact (assertionId : String) : Option AssertionFact :=
  let n := s.read (.assertion assertionId)
  (textOf n "valid_from").map fun validFrom =>
    { family := ((n.fills "family").bind Value.family?).getD .relation
      subjectId := (textOf n "subject_id").getD ""
      predicate := ((n.fills "predicate").bind Value.predicate?).getD (.other "")
      objectId := textOf n "object_id"
      validFrom := validFrom
      validTo := textOf n "asserted_valid_to"
      observedAt := momentOf n "recorded_from" }

/-- `_CLAIMS`. -/
def claimOf : Key → Option Claim
  | .definedIn symbolRevisionId revisionId indexId =>
    some (claimRow s (.definedIn symbolRevisionId revisionId indexId) revisionId indexId)
  | .observedIn assertionId revisionId indexId =>
    some (claimRow s (.observedIn assertionId revisionId indexId) revisionId indexId)
  | _ => none

end Queries

/-! ## Facts -/

structure Run where
  key : RunKey
  occurredAt : Moment
  completed : Bool
  errorClass : Option String
  /-- When the outcome that `completed` reports was observed. -/
  outcomeObservedAt : Moment
deriving DecidableEq

/-- `BLOCKING_ERROR_CLASSES`. -/
def blockingErrorClasses : List String := ["scan_incomplete", "snapshot_incomplete"]

def Run.permitsAbsence (r : Run) : Bool :=
  r.completed && r.errorClass.all (· ∉ blockingErrorClasses)

def Run.order (r : Run) : Moment ×ₗ RunKey := toLex (r.occurredAt, r.key)

/-- A coverage report: `coverage` and `coverage_observed`. -/
structure Report where
  complete : Bool
  observedAt : Moment
deriving DecidableEq

/-- What is loaded of a file: `members`, `coverage` and `claimed`. -/
structure FileFacts where
  member : RunKey → Option Member
  covered : RunKey → Bool
  report : RunKey → String → Option Report
  claimed : String → Finset RunKey

/-- What is loaded of a symbol: `defs`, with `since`, `claim_run` and `claim_observed` of its claims in the order
of their revisions, `path_bound` and `scips`. -/
structure SymbolFacts where
  claims : List Claim
  definition : String → Option String
  pathBound : Bool
  scips : Finset String

/-- What is loaded of an assertion: the assertion if it is recorded, and its claims. -/
structure AssertionFacts where
  fact : Option AssertionFact
  claims : List Claim

structure Facts where
  runs : List Run
  file : String → FileFacts
  symbol : String → SymbolFacts
  assertion : String → AssertionFacts

def FileFacts.nothing : FileFacts := ⟨fun _ => none, fun _ => false, fun _ _ => none, fun _ => ∅⟩

def SymbolFacts.nothing : SymbolFacts := ⟨[], fun _ => none, false, ∅⟩

def AssertionFacts.nothing : AssertionFacts := ⟨none, []⟩

/-- The latest valid time the graph knows: the newest run's. -/
def Facts.horizon (F : Facts) : Moment := (F.runs.map (·.occurredAt)).foldl max ""

/-! ## Folding rows into facts -/

def fileFacts (members : List MemberRow) (coverage : List CoverageRow) (claims : List Claim) : FileFacts where
  member := fun run => (leastBy (·.revisionId) (members.filter (·.run = run))).map (·.toMember)
  covered := fun run => coverage.any (·.run = run)
  report := fun run revisionId =>
    (leastBy (OrderDual.toDual ·.eventOrder) (coverage.filter fun c => c.run = run ∧ c.revisionId = revisionId)).map
      fun c => ⟨c.complete, c.observedAt⟩
  claimed := fun revisionId => ((claims.filter (·.revisionId = revisionId)).map (·.run)).toFinset

def earliestClaims (rows : List Claim) : List Claim :=
  (sortedSet (rows.map (·.revisionId))).filterMap fun revisionId =>
    leastBy (·.since) (rows.filter (·.revisionId = revisionId))

def symbolFacts (rows : List DefRow) : SymbolFacts where
  claims := earliestClaims (rows.map (·.toClaim))
  definition := fun revisionId =>
    leastBy id ((rows.filter (·.revisionId = revisionId)).map (·.symbolRevisionId))
  pathBound := rows.any (·.scipSymbol.isNone)
  scips := (rows.filterMap (·.scipSymbol)).toFinset

/-- The symbols an assertion's identity derives from: `item_symbols`. -/
def AssertionFact.ends (fact : AssertionFact) : List String :=
  fact.subjectId :: (if fact.family = .relation then fact.objectId.toList else [])

/-- Was it observed by `recorded_at`? -/
def seen (recordedAt : Option Moment) (observedAt : Moment) : Bool := recordedAt.all (observedAt ≤ ·)

@[simp] theorem seen_none (t : Moment) : seen none t = true := rfl

theorem seen_some {r t : Moment} : seen (some r) t = true ↔ t ≤ r := decide_eq_true_iff

section Load

variable (s : FactStore) (recordedAt : Option Moment)

def visibleRuns : List RunRow := (s.keys.filterMap (runRow s)).filter (seen recordedAt ·.observedAt)

def visibleOutcomes : List OutcomeRow := (s.keys.filterMap (outcomeRow s)).filter (seen recordedAt ·.observedAt)

def visibleKeys : List RunKey := (visibleRuns s recordedAt).map (·.run)

def visibleMembers : List MemberRow :=
  (s.keys.filterMap (memberRow s)).filter fun r => r.run ∈ visibleKeys s recordedAt ∧ seen recordedAt r.observedAt

def visibleCoverage : List CoverageRow :=
  (s.keys.filterMap (coverageRow s)).filter fun r => r.run ∈ visibleKeys s recordedAt ∧ seen recordedAt r.observedAt

def visibleDefs : List DefRow := (s.keys.filterMap (defRow s)).filter (seen recordedAt ·.observedAt)

def visibleObserved : List ObservedRow := (s.keys.filterMap (observedRow s)).filter (seen recordedAt ·.observedAt)

def visibleClaims : List Claim := (s.keys.filterMap (claimOf s)).filter (seen recordedAt ·.observedAt)

theorem visibleDefs_none : visibleDefs s none = s.keys.filterMap (defRow s) := List.filter_eq_self.2 fun _ _ => rfl

theorem visibleObserved_none : visibleObserved s none = s.keys.filterMap (observedRow s) :=
  List.filter_eq_self.2 fun _ _ => rfl

theorem visibleClaims_none : visibleClaims s none = s.keys.filterMap (claimOf s) := List.filter_eq_self.2 fun _ _ => rfl

def runOf (outcomes : List OutcomeRow) (row : RunRow) : Run :=
  match leastBy (OrderDual.toDual ·.eventOrder) (outcomes.filter (·.run = row.run)) with
  | none => ⟨row.run, row.occurredAt, false, none, ""⟩
  | some o => ⟨row.run, row.occurredAt, true, o.errorClass, o.observedAt⟩

@[simp] theorem runOf_key (outcomes : List OutcomeRow) (row : RunRow) : (runOf outcomes row).key = row.run := by
  unfold runOf
  split <;> rfl

@[simp] theorem runOf_occurredAt (outcomes : List OutcomeRow) (row : RunRow) :
    (runOf outcomes row).occurredAt = row.occurredAt := by
  unfold runOf
  split <;> rfl

def loadRuns : List Run :=
  sortBy Run.order ((visibleRuns s recordedAt).map (runOf (visibleOutcomes s recordedAt)))

/-- The facts of every entity. -/
def allFacts : Facts where
  runs := loadRuns s recordedAt
  file := fun fileId =>
    fileFacts ((visibleMembers s recordedAt).filter (·.fileId = fileId))
      ((visibleCoverage s recordedAt).filter (·.fileId = fileId))
      ((visibleClaims s recordedAt).filter (·.fileId = fileId))
  symbol := fun symbolId => symbolFacts ((visibleDefs s recordedAt).filter (·.symbolId = symbolId))
  assertion := fun assertionId =>
    { fact := (assertionFact s assertionId).filter (seen recordedAt ·.observedAt)
      claims := earliestClaims
        (((visibleObserved s recordedAt).filter (·.assertionId = assertionId)).map (·.toClaim)) }

/-- The entities to load. -/
structure Wanted where
  files : List String
  symbols : List String
  assertions : List String

/-- One round of `load_facts`.  Assertions bring symbols and files, symbols bring files, and files bring nothing,
so a second round wants no more. -/
def Wanted.widen (w : Wanted) : Wanted :=
  let F := allFacts s recordedAt
  let symbols := w.symbols ++ w.assertions.flatMap fun a => ((F.assertion a).fact.map (·.ends)).getD []
  { files := w.files ++ (w.assertions.flatMap fun a => (F.assertion a).claims.map (·.fileId)) ++
      (symbols.flatMap fun x => (F.symbol x).claims.map (·.fileId))
    symbols := symbols
    assertions := w.assertions }

def Facts.restrict (F : Facts) (w : Wanted) : Facts where
  runs := F.runs
  file := fun fileId => if fileId ∈ w.files then F.file fileId else .nothing
  symbol := fun symbolId => if symbolId ∈ w.symbols then F.symbol symbolId else .nothing
  assertion := fun assertionId => if assertionId ∈ w.assertions then F.assertion assertionId else .nothing

/-- `load_facts`. -/
def loadFacts (w : Wanted) : Facts := (allFacts s recordedAt).restrict (w.widen s recordedAt)

end Load

end Code
