import AgentContext.Knowledge.States
import AgentContext.Temporal.Failures
import AgentContext.Temporal.Graph

/-!
# Temporal reads

`TemporalService.decisions` and `TemporalService.failures`, over the nodes a graph holds.  Each query matches the
scope, the record time and (but for versions) the valid time:

    _VERSIONS                 recorded
    _OBSERVATIONS, _TOTALS    recorded, and observed by valid_at
    _CI_RUNS, _NEXT_PASS      reported, and completed by valid_at
    _TEST_RUNS                the same

What the queries match is `Seen`; a read is a function of it.  A stub has no record time and is never seen.
-/

namespace Temporal

open Table Keyset
open Knowledge (Moment EventOrder DecisionId DecisionStatus DecisionVersion DecisionState VersionNode decisionStates
  activeDecisions)

/-! ## Parameters -/

/-- `TemporalScope`. -/
structure TemporalScope where
  projectId : Option String
  repositoryId : Option String
  given : projectId ≠ none ∨ repositoryId ≠ none

/-- `_in_scope`. -/
def TemporalScope.covers (scope : TemporalScope) (projectId repositoryId : Option String) : Bool :=
  scope.projectId.all (projectId = some ·) && scope.repositoryId.all (repositoryId = some ·)

/-- The parameters of a query. -/
structure Cut where
  scope : TemporalScope
  validAt : Moment
  recordedAt : Moment

/-! ## What the queries match -/

/-- The rows of a run query are keyed by the run they name. -/
structure Seen where
  versions : Dict String VersionNode
  observations : Dict String ObservationNode
  ci : Dict String CIRun
  tests : Dict String TestRun
  ciNamed : ∀ id run, ci.lookup id = some run → run.runId = id

theorem Seen.ext {a b : Seen} (versions : a.versions = b.versions) (observations : a.observations = b.observations)
    (ci : a.ci = b.ci) (tests : a.tests = b.tests) : a = b := by
  cases a
  cases b
  simp only at versions observations ci tests
  subst versions observations ci tests
  rfl

section Queries

variable (cut : Cut)

/-- `_VERSIONS`. -/
def seesVersion (n : VersionNode) : Bool :=
  cut.scope.covers n.projectId n.repositoryId && n.recordedAt.any (· ≤ cut.recordedAt)

/-- `_OBSERVATIONS`. -/
def seesObservation (n : ObservationNode) : Bool :=
  cut.scope.covers n.projectId n.repositoryId && n.validFrom.any (· ≤ cut.validAt) && n.recordedAt.any (· ≤ cut.recordedAt)

/-- The `WHERE` of `_CI_RUNS` and `_TEST_RUNS`: the result of a run that is seen. -/
def seenResult (n : RunNode) : Option RunResult :=
  if cut.scope.covers n.projectId n.repositoryId && n.recordedAt.any (· ≤ cut.recordedAt) then
    n.result.filter (·.completedAt ≤ cut.validAt)
  else none

theorem seenResult_stub : seenResult cut .stub = none := by simp [seenResult, RunNode.stub]

/-- The `RETURN` of `_CI_RUNS`. -/
def ciRow (id : String) (n : RunNode) : Option CIRun :=
  (seenResult cut n).map fun result =>
    { runId := id
      status := some result.status
      workflow := result.workflow
      job := result.job
      provider := result.provider
      projectId := n.projectId
      repositoryId := n.repositoryId
      completedAt := result.completedAt
      commitId := result.commitId
      snapshotId := result.snapshotId
      resultOrder := some result.order }

/-- The `RETURN` of `_TEST_RUNS`. -/
def testRow (id : String) (n : RunNode) : Option TestRun :=
  (seenResult cut n).map fun result =>
    { runId := id
      status := some result.status
      completedAt := result.completedAt
      commitId := result.commitId
      snapshotId := result.snapshotId
      resultOrder := some result.order }

def seen (g : Graph) : Seen where
  versions := select (fun _ n => seesVersion cut n) g.knowledge.versions
  observations := select (fun _ n => seesObservation cut n) g.observations
  ci := collect (ciRow cut) g.ci
  tests := collect (testRow cut) g.tests
  ciNamed := by
    intro id run h
    rw [lookup_collect] at h
    obtain ⟨n, -, hrow⟩ := Option.bind_eq_some_iff.1 h
    obtain ⟨result, -, rfl⟩ := Option.map_eq_some_iff.1 hrow
    rfl

end Queries

/-! ## Decisions -/

/-- `_VersionRow`. -/
structure VersionRow where
  version : DecisionVersion
  eventId : String
  subjects : List String

/-- `MAX_VERSIONS`. -/
def maxVersions : Nat := 5000

/-- `MAX_DECISIONS`. -/
def maxDecisions : Nat := 500

/-- `_version_rows` on one record: none where it raises. -/
def versionRow (eventId : String) (n : VersionNode) : Option VersionRow := do
  let decisionId ← n.decisionId
  let status ← n.status
  let validFrom ← n.validFrom
  let recordedAt ← n.recordedAt
  let order ← n.stateOrder
  return {
    version := ⟨decisionId, ["scope"], status, validFrom, n.validTo, recordedAt, n.supersedesId, order⟩
    eventId := eventId
    subjects := n.subjects.getD [] }

/-- `ORDER BY v.decision_id, v.state_order, v.event_id`. -/
def VersionRow.rank (row : VersionRow) : DecisionId ×ₗ EventOrder ×ₗ String :=
  toLex (row.version.decisionId, toLex (row.version.order, row.eventId))

/-- The records of `_VERSIONS`. -/
def versionRows (seen : Seen) : Option (List VersionRow) :=
  ((values (mapValues (fun id n => versionRow id n) seen.versions)).mapM id).map (sortBy VersionRow.rank)

/-- `_load_versions`: the decision that the cap goes through is left out. -/
def loadVersions (seen : Seen) : Option (List VersionRow × Bool) :=
  (versionRows seen).map fun records =>
    match records[maxVersions]? with
    | none => (records, false)
    | some next => ((records.take maxVersions).filter fun row => row.version.decisionId ≠ next.version.decisionId, true)

inductive DecisionStanding where
  | active
  | historical
deriving DecidableEq, Repr

inductive HistoricalReason where
  | superseded
  | expired
  | supersededUndated
deriving DecidableEq, Repr

structure DecisionRecord where
  decisionId : DecisionId
  standing : DecisionStanding
  reason : Option HistoricalReason
  supersededBy : Option DecisionId
  status : DecisionStatus
  subjects : List String
  validFrom : Moment
  validTo : Option Moment
  effectiveValidTo : Option Moment
  supersedesId : Option DecisionId
  recordedAt : Moment
  sourceEventIds : List String
  eventId : Option String
deriving DecidableEq

structure DecisionsResult where
  decisions : List DecisionRecord
  truncated : Bool
deriving DecidableEq

section Classify

variable (rows : List VersionRow) (validAt recordedAt : Moment) (includeHistory : Bool)

/-- The standing of a decision, where it is returned. -/
def standingOf (active : List DecisionId) (d : DecisionId) (state : DecisionState) :
    Option (DecisionStanding × Option HistoricalReason) :=
  if d ∈ active then some (.active, none)
  else if !includeHistory then none
  else if state.version.status = .superseded ∧ state.stop = none ∧ state.version.validFrom ≤ validAt then
    some (.historical, some .supersededUndated)
  else if state.endedBy validAt then
    -- ended by a superseder, or at its own `valid_to`
    some (.historical, some (if state.closedAt ≠ none ∧ state.closedAt = state.stop then .superseded else .expired))
  else none

/-- The row of a recording. -/
def rowOf (d : DecisionId) (order : EventOrder) : Option VersionRow :=
  rows.reverse.find? fun row => row.version.decisionId = d && row.version.order = order

def decisionRecord (d : DecisionId) (state : DecisionState) (standing : DecisionStanding)
    (reason : Option HistoricalReason) : DecisionRecord where
  decisionId := d
  standing := standing
  reason := reason
  supersededBy := if reason = some .superseded then state.supersededBy else none
  status := state.version.status
  subjects := (rowOf rows d state.version.order).elim [] (·.subjects)
  validFrom := state.version.validFrom
  validTo := state.version.validTo
  effectiveValidTo := state.stop
  supersedesId := state.version.supersedesId
  recordedAt := state.version.recordedAt
  sourceEventIds := sorted ((rows.filter (·.version.decisionId = d)).map (·.eventId))
  eventId := (rowOf rows d state.version.order).map (·.eventId)

/-- `_classify`. -/
def classify : List DecisionRecord × Bool :=
  let versions := rows.map (·.version)
  let active := activeDecisions versions "scope" validAt recordedAt
  let records := values (collect (fun d state =>
    (standingOf validAt includeHistory active d state).map fun (standing, reason) =>
      decisionRecord rows d state standing reason) (decisionStates versions recordedAt))
  let ordered := records.filter (·.standing = .active) ++ records.filter (·.standing ≠ .active)
  (ordered.take maxDecisions, maxDecisions < records.length)

end Classify

/-- `decisions`, from what its query matches. -/
def decisionsOf (cut : Cut) (includeHistory : Bool) (seen : Seen) : Option DecisionsResult :=
  (loadVersions seen).map fun (rows, truncated) =>
    let (records, capped) := classify rows cut.validAt cut.recordedAt includeHistory
    ⟨records, truncated || capped⟩

/-- `TemporalService.decisions`: none where it raises. -/
def decisions (cut : Cut) (includeHistory : Bool) (g : Graph) : Option DecisionsResult :=
  decisionsOf cut includeHistory (seen cut g)

/-! ## Failures -/

/-- `MAX_FAILURES`. -/
def maxFailures : Nat := 500

/-- A record of `_OBSERVATIONS`. -/
structure ObservationRow where
  failureId : String
  observation : Observation

/-- None where a time is missing and its text does not parse. -/
def observationRow (eventId : String) (n : ObservationNode) : Option ObservationRow := do
  let failureId ← n.failureId
  let validFrom ← n.validFrom
  let recordedAt ← n.recordedAt
  return {
    failureId := failureId
    observation := ⟨eventId, n.component, n.operation, n.errorClass, n.fingerprintSha256, validFrom, recordedAt,
      n.sessionId, n.testRunId, n.ciRunId⟩ }

/-- `ORDER BY o.valid_from DESC, o.failure_id DESC, o.event_id DESC`. -/
def ObservationRow.rank (row : ObservationRow) : (Moment ×ₗ String ×ₗ String)ᵒᵈ :=
  OrderDual.toDual (toLex (row.observation.validFrom, toLex (row.failureId, row.observation.eventId)))

/-- The records of `_OBSERVATIONS`. -/
def observationRows (seen : Seen) : Option (List ObservationRow) :=
  ((values (mapValues (fun id n => observationRow id n) seen.observations)).mapM id).map (sortBy ObservationRow.rank)

def Seen.runs (seen : Seen) : VisibleRuns where
  ci := values seen.ci
  tests := values seen.tests
  ciIds := values_map_nodup seen.ciNamed

/-- The observations read, newest first: the failure that the cap goes through is left out. -/
def readObservations (rows : List ObservationRow) : List ObservationRow :=
  match rows[maxObservations]? with
  | none => rows
  | some next => (rows.take maxObservations).filter fun row => row.failureId ≠ next.failureId

def observationsOf (failureId : String) (rows : List ObservationRow) : List Observation :=
  (rows.filter (·.failureId = failureId)).map (·.observation)

/-- `_OBSERVATION_TOTALS` of a failure with more observations than were read. -/
def totals (rows : List ObservationRow) (failureId : String) : Option Totals :=
  match observationsOf failureId rows with
  | [] => none
  | first :: others =>
    if (observationsOf failureId (readObservations rows)).length < others.length + 1 then
      some ⟨(others.map (·.validFrom)).foldl min first.validFrom, (others.map (·.recordedAt)).foldl min first.recordedAt⟩
    else none

structure FailuresResult where
  failures : List FailureRecord
  truncated : Bool
deriving DecidableEq

def FailureRecord.rank (record : FailureRecord) : Moment ×ₗ String := toLex (record.validFrom, record.failureId)

/-- `_failures`: the newest failures, each described by its observations, oldest first. -/
def readFailures (seen : Seen) : Option FailuresResult := do
  let rows ← observationRows seen
  let capped := maxObservations < rows.length
  let found := ((readObservations rows).map (·.failureId)).eraseDups
  let records ← (found.take maxFailures).mapM fun failureId =>
    failureRecord seen.runs (observationsOf failureId (readObservations rows)).reverse failureId
      (if capped then totals rows failureId else none)
  return ⟨sortBy FailureRecord.rank records, capped || maxFailures < found.length⟩

/-- `failures`, from what its queries match. -/
def failuresOf (includeResolved : Bool) (seen : Seen) : Option FailuresResult :=
  (readFailures seen).map fun result =>
    if includeResolved then result
    else { result with failures := result.failures.filter fun record => record.resolution.status ≠ .resolved }

/-- `TemporalService.failures`: none where it raises. -/
def failures (cut : Cut) (includeResolved : Bool) (g : Graph) : Option FailuresResult :=
  failuresOf includeResolved (seen cut g)

end Temporal
