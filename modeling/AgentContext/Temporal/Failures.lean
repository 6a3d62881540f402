import AgentContext.Knowledge.Decisions
import AgentContext.Lib.Keyset

/-!
# Failures and their resolution

`_failure_record`: what the temporal read says of one failure, from its visible observations and the visible CI and
test runs.

    failing run   a visible CI run that an observation names
    target        provider, workflow, job, project, repository
    next pass     the earliest later passing run of the same target

A failure is resolved when the newest failing run of each target has a next pass and nothing was observed after the
one that follows the newest failing run of all.
-/

namespace Temporal

open Keyset
open Knowledge (Moment EventOrder)

/-! ## Rows -/

structure Observation where
  eventId : String
  component : Option String
  operation : Option String
  errorClass : Option String
  fingerprintSha256 : Option String
  validFrom : Moment
  recordedAt : Moment
  sessionId : Option String
  testRunId : Option String
  ciRunId : Option String
deriving DecidableEq, Repr

structure CIRun where
  runId : String
  status : Option String
  workflow : Option String
  job : Option String
  provider : Option String
  projectId : Option String
  repositoryId : Option String
  completedAt : Moment
  commitId : Option String
  snapshotId : Option String
  resultOrder : Option EventOrder
deriving DecidableEq

structure TestRun where
  runId : String
  status : Option String
  completedAt : Moment
  commitId : Option String
  snapshotId : Option String
  resultOrder : Option EventOrder
deriving DecidableEq

/-- The runs that are visible at the cut: in scope, recorded and completed.  A run id is a unique key. -/
structure VisibleRuns where
  ci : List CIRun
  tests : List TestRun
  ciIds : (ci.map (·.runId)).Nodup

namespace VisibleRuns

def ciRun (v : VisibleRuns) (id : String) : Option CIRun := v.ci.find? (·.runId = id)

def testRun (v : VisibleRuns) (id : String) : Option TestRun := v.tests.find? (·.runId = id)

end VisibleRuns

/-- An id that is there: neither null nor empty. -/
def named (id : Option String) : Option String := id.filter (· ≠ "")

/-! ## The next pass -/

/-- Equal in Cypher: nothing equals null. -/
def sameText (a b : Option String) : Bool := a ≠ none && a = b

def coalesced (a : Option String) : String := a.getD ""

namespace CIRun

abbrev Target := Option String × Option String × Option String × Option String × Option String

def target (r : CIRun) : Target := (r.provider, r.workflow, r.job, r.projectId, r.repositoryId)

/-- `_occurred`. -/
def occurred (r : CIRun) : Moment ×ₗ String := toLex (r.completedAt, r.runId)

end CIRun

/-- The `WHERE` of `_NEXT_PASS`. -/
def passesAfter (r p : CIRun) : Bool :=
  r.workflow ≠ none && r.job ≠ none && p.status = some "success" && sameText p.provider r.provider &&
    sameText p.workflow r.workflow && sameText p.job r.job && coalesced p.projectId = coalesced r.projectId &&
    coalesced p.repositoryId = coalesced r.repositoryId && (p.commitId ≠ none || p.snapshotId ≠ none) &&
    r.occurred < p.occurred

/-- `_NEXT_PASS`. -/
def nextPass (runs : List CIRun) (r : CIRun) : Option CIRun := (runs.filter (passesAfter r)).argmin CIRun.occurred

/-! ## Records -/

inductive RunKind where
  | session
  | testRun
  | ciRun
deriving DecidableEq, Repr

inductive FixStatus where
  | resolved
  | unresolved
  | unsupported
  | unknown
deriving DecidableEq, Repr

structure ObservedRun where
  kind : RunKind
  runId : String
  status : Option String
  workflow : Option String
  job : Option String
  completedAt : Option Moment
  commitId : Option String
  snapshotId : Option String
  sourceEventIds : List String
deriving DecidableEq, Repr

structure FixPath where
  failureId : String
  failingRunId : String
  passingRunId : String
  workflow : String
  job : String
  failingCompletedAt : Moment
  passingCompletedAt : Moment
  validatedCommitId : Option String
  validatedSnapshotId : Option String
  commitChanged : Option Bool
  sourceEventIds : List String
deriving DecidableEq, Repr

structure FixResolution where
  status : FixStatus
  reason : Option String
  path : Option FixPath
  lateRuns : List (Option String)
deriving DecidableEq, Repr

structure FailureRecord where
  failureId : String
  component : Option String
  operation : Option String
  errorClass : Option String
  fingerprintSha256 : Option String
  validFrom : Moment
  recordedAt : Moment
  observedIn : List ObservedRun
  resolution : FixResolution
  sourceEventIds : List String
  observedAt : List Moment
deriving DecidableEq, Repr

/-- The aggregate over all observations of a failure whose history the cap cut. -/
structure Totals where
  validFrom : Moment
  recordedAt : Moment
deriving DecidableEq, Repr

/-- `MAX_OBSERVATIONS`. -/
def maxObservations : Nat := 5000

/-- `_event_of`. -/
def eventOf (order : Option EventOrder) : List String := order.toList.map fun o => (ofLex o).2

/-- `sorted`. -/
def sorted {α : Type} [LinearOrder α] (xs : List α) : List α := xs.insertionSort (· ≤ ·)

/-- `_fix_path`. -/
def fixPath (failureId : String) (failing passing : CIRun) : FixPath where
  failureId := failureId
  failingRunId := failing.runId
  passingRunId := passing.runId
  workflow := failing.workflow.getD "None"
  job := failing.job.getD "None"
  failingCompletedAt := failing.completedAt
  passingCompletedAt := passing.completedAt
  validatedCommitId := passing.commitId
  validatedSnapshotId := passing.snapshotId
  commitChanged := failing.commitId.bind fun failed => passing.commitId.map fun passed => failed ≠ passed
  sourceEventIds := sortedSet (eventOf failing.resultOrder ++ eventOf passing.resultOrder)

/-! ## One failure -/

section Failure

variable (v : VisibleRuns) (rows : List Observation)

/-- `_occurrence`. -/
def occurrence (row : Observation) : Moment :=
  match (named row.ciRunId).bind v.ciRun with
  | none => row.validFrom
  | some run => run.completedAt

/-- The visible CI runs that observations name, by id. -/
def ciRuns : List CIRun := (sortedSet (rows.filterMap fun row => named row.ciRunId)).filterMap v.ciRun

def testRuns : List TestRun := (sortedSet (rows.filterMap fun row => named row.testRunId)).filterMap v.testRun

def sessions : List String := sortedSet (rows.filterMap fun row => named row.sessionId)

/-- `_run`. -/
def CIRun.observed (r : CIRun) : ObservedRun :=
  ⟨.ciRun, r.runId, r.status, r.workflow, r.job, some r.completedAt, r.commitId, r.snapshotId, eventOf r.resultOrder⟩

def TestRun.observed (r : TestRun) : ObservedRun :=
  ⟨.testRun, r.runId, r.status, none, none, some r.completedAt, r.commitId, r.snapshotId, eventOf r.resultOrder⟩

def observedSession (id : String) : ObservedRun := ⟨.session, id, none, none, none, none, none, none, []⟩

/-- `ordered`: the runs by the text of their kind, then by id. -/
def observedIn : List ObservedRun :=
  (ciRuns v rows).map CIRun.observed ++ (sessions rows).map observedSession ++ (testRuns v rows).map TestRun.observed

/-- One turn of the loop that holds the latest failing run of each target. -/
def holdLatest (latest : List CIRun) (run : CIRun) : List CIRun :=
  match latest.find? (·.target = run.target) with
  | none => latest ++ [run]
  | some best =>
    if best.occurred < run.occurred then latest.map fun held => if held.target = run.target then run else held else latest

/-- `latest`. -/
def latestRuns : List CIRun := (ciRuns v rows).foldl holdLatest []

/-- `fixed`. -/
def fixedRuns : List (CIRun × CIRun) :=
  (latestRuns v rows).filterMap fun r => (nextPass v.ci r).map fun p => (r, p)

/-- The failing run whose fix is reported, with its pass. -/
def reportedFix : Option (CIRun × CIRun) :=
  if latestRuns v rows ≠ [] ∧ (fixedRuns v rows).length = (latestRuns v rows).length then
    (fixedRuns v rows).argmax fun fix => fix.1.occurred
  else none

def recurring (pass : CIRun) : List Observation := rows.filter fun row => pass.completedAt < occurrence v row

def lateRun (row : Observation) : Option String := (named row.ciRunId).or row.testRunId

/-- `late_runs`: none before every run. -/
def lateRuns (late : List Observation) : List (Option String) :=
  (if none ∈ late.map lateRun then [none] else []) ++ (sortedSet (late.filterMap lateRun)).map some

def openRuns : List String :=
  sorted (((latestRuns v rows).filter fun r => r ∉ (fixedRuns v rows).map Prod.fst).map (·.runId))

def resolution (failureId : String) (capped : Option Totals) : FixResolution :=
  if capped ≠ none then
    { status := .unknown
      reason := some ("only the newest " ++ toString maxObservations ++ " observations are read and older ones of this " ++
        "failure could change its resolution")
      path := none
      lateRuns := [] }
  else match reportedFix v rows with
    | some (failing, passing) =>
      let late := recurring v rows passing
      if late = [] then ⟨.resolved, none, some (fixPath failureId failing passing), []⟩
      else
        { status := .unresolved
          reason := some ("observed again after the passing run " ++ passing.runId ++ ": " ++
            ", ".intercalate (sorted (late.map (·.eventId))))
          path := none
          lateRuns := lateRuns late }
    | none =>
      if ciRuns v rows ≠ [] then
        { status := .unresolved
          reason := some ("no later passing run of the same CI workflow and job after " ++ ", ".intercalate (openRuns v rows))
          path := none
          lateRuns := [] }
      else if testRuns v rows ≠ [] then
        { status := .unsupported
          reason := some "observed only in test runs, which carry no test or suite identifier (FU-77)"
          path := none
          lateRuns := [] }
      else ⟨.unknown, some "observed in no CI or test run in scope", none, []⟩

/-- `_failure_record`: none where `observations[0]` raises. -/
def failureRecord (failureId : String) (capped : Option Totals) : Option FailureRecord :=
  rows.head?.map fun first =>
    { failureId := failureId
      component := first.component
      operation := first.operation
      errorClass := first.errorClass
      fingerprintSha256 := first.fingerprintSha256
      validFrom := capped.elim ((rows.map (·.validFrom)).foldl min first.validFrom) (·.validFrom)
      recordedAt := capped.elim ((rows.map (·.recordedAt)).foldl min first.recordedAt) (·.recordedAt)
      observedIn := observedIn v rows
      resolution := resolution v rows failureId capped
      sourceEventIds := sorted (rows.map (·.eventId))
      observedAt := sorted (rows.map (·.validFrom)) }

end Failure

end Temporal
