import AgentContext.Knowledge.Decisions
import AgentContext.Retrieval.Freshness

/-!
# What temporal reads see of the graph

The nodes that temporal reads query, and the `knowledge.*` and `quality.*` handlers that write them:

    (:DecisionVersion)       one for each recording, written once
    (:FailureObservation)    one for each failure event, written once
    (:CIRun), (:TestRun)     the newest result; the smallest scope and the earliest record time

Version and observation nodes are keyed by their event, run nodes by the run: a later report of a run moves its node.
-/

namespace Temporal

open Table PropertyGraph Projection
open Knowledge (Moment EventOrder Envelope DecisionRecorded DecisionEvent)
open Retrieval (Stored)

/-! ## Events -/

structure FailureObserved where
  failureId : String
  component : String
  operation : String
  errorClass : String
  fingerprintVersion : String
  fingerprintSha256 : String
  sessionId : Option String
  testRunId : Option String
  ciRunId : Option String
deriving DecidableEq, Repr

structure CIRunCompleted where
  ciRunId : String
  provider : Option String
  workflow : Option String
  job : Option String
  status : String
  commitId : Option String
  snapshotId : Option String
deriving DecidableEq, Repr

structure TestRunCompleted where
  testRunId : String
  status : String
  commitId : Option String
  snapshotId : Option String
deriving DecidableEq, Repr

inductive Body where
  | decision (p : DecisionRecorded)
  | failure (p : FailureObserved)
  | ciRun (p : CIRunCompleted)
  | testRun (p : TestRunCompleted)
  | other
deriving DecidableEq

structure Content where
  occurredAt : Moment
  body : Body
deriving DecidableEq

abbrev Event := LedgerEvent (Stored Content)

def envelope (e : Event) : Envelope where
  eventId := e.eventId
  occurredAt := e.content.payload.occurredAt
  observedAt := e.content.observedAt
  projectId := e.content.projectId
  repositoryId := e.content.repositoryId

/-! ## Nodes -/

structure ObservationNode where
  failureId : Option String
  component : Option String
  operation : Option String
  errorClass : Option String
  fingerprintVersion : Option String
  fingerprintSha256 : Option String
  validFrom : Option Moment
  recordedAt : Option Moment
  sourceEventIds : Option (List String)
  sessionId : Option String
  testRunId : Option String
  ciRunId : Option String
  projectId : Option String
  repositoryId : Option String
deriving DecidableEq

def ObservationNode.stub : ObservationNode :=
  ⟨none, none, none, none, none, none, none, none, none, none, none, none, none, none⟩

/-- `fill_once`. -/
def ObservationNode.fillOnce (n w : ObservationNode) : ObservationNode where
  failureId := n.failureId.or w.failureId
  component := n.component.or w.component
  operation := n.operation.or w.operation
  errorClass := n.errorClass.or w.errorClass
  fingerprintVersion := n.fingerprintVersion.or w.fingerprintVersion
  fingerprintSha256 := n.fingerprintSha256.or w.fingerprintSha256
  validFrom := n.validFrom.or w.validFrom
  recordedAt := n.recordedAt.or w.recordedAt
  sourceEventIds := n.sourceEventIds.or w.sourceEventIds
  sessionId := n.sessionId.or w.sessionId
  testRunId := n.testRunId.or w.testRunId
  ciRunId := n.ciRunId.or w.ciRunId
  projectId := n.projectId.or w.projectId
  repositoryId := n.repositoryId.or w.repositoryId

@[simp] theorem ObservationNode.fillOnce_stub (w : ObservationNode) : ObservationNode.stub.fillOnce w = w := by
  simp [fillOnce, stub]

@[simp] theorem ObservationNode.fillOnce_self (w : ObservationNode) : w.fillOnce w = w := by simp [fillOnce]

/-- What `newest_wins("result", …)` moves together.  A test run has no provider, workflow or job. -/
structure RunResult where
  order : EventOrder
  provider : Option String
  workflow : Option String
  job : Option String
  status : String
  commitId : Option String
  snapshotId : Option String
  completedAt : Moment
deriving DecidableEq

structure RunNode where
  result : Option RunResult
  projectId : Option String
  repositoryId : Option String
  recordedAt : Option Moment
deriving DecidableEq

def RunNode.stub : RunNode := ⟨none, none, none, none⟩

/-- `_CI_RUN` and `_TEST_RUN` on a node: the newest result, the smallest scope and the earliest record time. -/
def RunNode.report (result : RunResult) (e : Envelope) (n : RunNode) : RunNode where
  result := if n.result.all (·.order < result.order) then some result else n.result
  projectId := minNonNull n.projectId e.projectId
  repositoryId := minNonNull n.repositoryId e.repositoryId
  recordedAt := minNonNull n.recordedAt (some e.observedAt)

structure Graph where
  knowledge : Knowledge.Graph
  observations : Dict String ObservationNode
  ci : Dict String RunNode
  tests : Dict String RunNode
deriving DecidableEq

def Graph.empty : Graph := ⟨.empty, ∅, ∅, ∅⟩

/-! ## Handlers -/

def observationOf (e : Envelope) (p : FailureObserved) : ObservationNode where
  failureId := some p.failureId
  component := some p.component
  operation := some p.operation
  errorClass := some p.errorClass
  fingerprintVersion := some p.fingerprintVersion
  fingerprintSha256 := some p.fingerprintSha256
  validFrom := some e.occurredAt
  recordedAt := some e.observedAt
  sourceEventIds := some [e.eventId]
  sessionId := p.sessionId
  testRunId := p.testRunId
  ciRunId := p.ciRunId
  projectId := e.projectId
  repositoryId := e.repositoryId

/-- `MERGE` the stub of a run that a failure names. -/
def touchNamed (id : Option String) (runs : Dict String RunNode) : Dict String RunNode :=
  match id with
  | none => runs
  | some id => touch id .stub runs

/-- `_failure_observed`, on the observation and on the runs that its `OBSERVED_IN` relationships merge. -/
def failureObserved (g : Graph) (e : Envelope) (p : FailureObserved) : Graph :=
  { g with
    observations := modify e.eventId (·.fillOnce (observationOf e p)) (touch e.eventId .stub g.observations)
    ci := touchNamed p.ciRunId g.ci
    tests := touchNamed p.testRunId g.tests }

def ciResult (e : Envelope) (p : CIRunCompleted) : RunResult :=
  ⟨e.order, p.provider, p.workflow, p.job, p.status, p.commitId, p.snapshotId, e.occurredAt⟩

def testResult (e : Envelope) (p : TestRunCompleted) : RunResult :=
  ⟨e.order, none, none, none, p.status, p.commitId, p.snapshotId, e.occurredAt⟩

def reportRun (id : String) (result : RunResult) (e : Envelope) (runs : Dict String RunNode) : Dict String RunNode :=
  modify id (.report result e) (touch id .stub runs)

/-- `_ci_run_completed`. -/
def ciRunCompleted (g : Graph) (e : Envelope) (p : CIRunCompleted) : Graph :=
  { g with ci := reportRun p.ciRunId (ciResult e p) e g.ci }

/-- `_test_run_completed`, on the run itself. -/
def testRunCompleted (g : Graph) (e : Envelope) (p : TestRunCompleted) : Graph :=
  { g with tests := reportRun p.testRunId (testResult e p) e g.tests }

/-- The keys of `_HANDLERS` in `knowledge.py`. -/
def knowledgeTypes : List String :=
  ["knowledge.decision.recorded", "knowledge.constraint.recorded", "knowledge.failure.observed", "knowledge.summary.recorded"]

/-- The keys of `_HANDLERS` in `quality.py`. -/
def qualityTypes : List String :=
  ["quality.test_run.completed", "quality.ci_run.completed", "quality.finding.observed"]

/-- What `_HANDLERS` does; a payload that is not of the event's type raises and writes nothing. -/
def projectKnowledge (e : Event) (g : Graph) : Graph :=
  match e.content.payload.body with
  | .decision p =>
    if e.eventType = "knowledge.decision.recorded" then { g with knowledge := g.knowledge.project ⟨envelope e, p⟩ } else g
  | .failure p => if e.eventType = "knowledge.failure.observed" then failureObserved g (envelope e) p else g
  | _ => g

def projectQuality (e : Event) (g : Graph) : Graph :=
  match e.content.payload.body with
  | .ciRun p => if e.eventType = "quality.ci_run.completed" then ciRunCompleted g (envelope e) p else g
  | .testRun p => if e.eventType = "quality.test_run.completed" then testRunCompleted g (envelope e) p else g
  | _ => g

/-- `KnowledgeProjector`. -/
def knowledgeProjector : Projector (Stored Content) Graph where
  name := "knowledge"
  version := "2"
  handles := fun eventType => .ok (eventType ∈ knowledgeTypes)
  project := projectKnowledge

/-- `QualityProjector`. -/
def qualityProjector : Projector (Stored Content) Graph where
  name := "quality"
  version := "2"
  handles := fun eventType => .ok (eventType ∈ qualityTypes)
  project := projectQuality

end Temporal
