import AgentContext.Lib.Table
import Mathlib.Data.Finset.Sort
import Mathlib.Data.Prod.Lex
import Mathlib.Data.String.Basic
import Mathlib.Algebra.Order.Group.Int

/-!
# Recorded decisions

`_decision_recorded`, statement by statement: what one `knowledge.decision.recorded` event does to the `Decision` and
`DecisionVersion` nodes and to the relationships between them.

    (:Decision)-[:HAS_VERSION]->(:DecisionVersion)    one node for each recording
    (:Decision)-[:SUPERSEDES]->(:Decision)            what the newest recording of the source asserts

A decision that is only the target of an edge is a stub: a node without state.  No other projector writes these
labels.
-/

namespace Knowledge

open Table PropertyGraph

/-! ## Events -/

/-- An instant in microseconds.  The graph holds it as fixed-width text, whose order is that of the instants. -/
abbrev Moment := Int

/-- `event_order`. -/
abbrev EventOrder := Moment ×ₗ String

instance : Preorder EventOrder := (Prod.Lex.instLinearOrder Moment String).toPreorder

/-- The payload models take no empty id. -/
abbrev DecisionId := { id : String // id ≠ "" }

instance transDecision : IsTrans DecisionId (· ≤ ·) := inferInstance

instance antisymmDecision : Std.Antisymm fun a b : DecisionId => a ≤ b := inferInstance

instance totalDecision : Std.Total fun a b : DecisionId => a ≤ b := inferInstance

inductive DecisionStatus where
  | proposed
  | accepted
  | rejected
  | superseded
  | other (name : String)
deriving DecidableEq, Repr

/-- `_SUPERSEDING`. -/
def DecisionStatus.superseding : DecisionStatus → Bool
  | .accepted => true
  | .superseded => true
  | .proposed => false
  | .rejected => false
  | .other _ => false

structure DecisionRecorded where
  decisionId : DecisionId
  status : DecisionStatus
  subjects : List String
  contentId : String
  validFrom : Moment
  validTo : Option Moment
  recordedAt : Moment
  supersedesId : Option DecisionId
deriving DecidableEq

/-- What a projector reads of the envelope. -/
structure Envelope where
  eventId : String
  occurredAt : Moment
  observedAt : Moment
  projectId : Option String
  repositoryId : Option String
deriving DecidableEq, Repr

def Envelope.order (e : Envelope) : EventOrder := toLex (e.occurredAt, e.eventId)

structure DecisionEvent extends Envelope where
  payload : DecisionRecorded
deriving DecidableEq

namespace DecisionEvent

def decisionId (e : DecisionEvent) : DecisionId := e.payload.decisionId

/-- The decision a recording supersedes. -/
def target (e : DecisionEvent) : Option DecisionId :=
  if e.payload.status.superseding then e.payload.supersedesId else none

end DecisionEvent

/-! ## Nodes -/

/-- What `newest_wins("state", …)` moves together. -/
structure DecisionRecord where
  order : EventOrder
  subjects : List String
  contentId : String
  status : DecisionStatus
  supersedesId : Option DecisionId
  validFrom : Moment
  validTo : Option Moment
  recordedAt : Moment
  payloadRecordedAt : Moment
deriving DecidableEq

structure DecisionNode where
  state : Option DecisionRecord
  projectId : Option String
  repositoryId : Option String
  supersededAt : Option Moment
  effectiveValidTo : Option Moment
deriving DecidableEq

/-- A node with its identity only. -/
def DecisionNode.stub : DecisionNode := ⟨none, none, none, none, none⟩

/-- The earlier of two ends. -/
def effectiveEnd (closing validTo : Option Moment) : Option Moment :=
  match closing, validTo with
  | none, validTo => validTo
  | some closing, none => some closing
  | some closing, some validTo => if closing < validTo then some closing else some validTo

/-- What `_CLOSE` sets. -/
def DecisionNode.closedAt (closing : Option Moment) (n : DecisionNode) : DecisionNode :=
  { n with
    supersededAt := closing
    effectiveValidTo := effectiveEnd closing (n.state.bind (·.validTo)) }

structure VersionNode where
  decisionId : Option DecisionId
  status : Option DecisionStatus
  subjects : Option (List String)
  supersedesId : Option DecisionId
  validFrom : Option Moment
  validTo : Option Moment
  recordedAt : Option Moment
  payloadRecordedAt : Option Moment
  stateOrder : Option EventOrder
  sourceEventIds : Option (List String)
  projectId : Option String
  repositoryId : Option String
deriving DecidableEq

def VersionNode.stub : VersionNode := ⟨none, none, none, none, none, none, none, none, none, none, none, none⟩

/-- `fill_once`. -/
def VersionNode.fillOnce (n w : VersionNode) : VersionNode where
  decisionId := n.decisionId.or w.decisionId
  status := n.status.or w.status
  subjects := n.subjects.or w.subjects
  supersedesId := n.supersedesId.or w.supersedesId
  validFrom := n.validFrom.or w.validFrom
  validTo := n.validTo.or w.validTo
  recordedAt := n.recordedAt.or w.recordedAt
  payloadRecordedAt := n.payloadRecordedAt.or w.payloadRecordedAt
  stateOrder := n.stateOrder.or w.stateOrder
  sourceEventIds := n.sourceEventIds.or w.sourceEventIds
  projectId := n.projectId.or w.projectId
  repositoryId := n.repositoryId.or w.repositoryId

@[simp] theorem VersionNode.fillOnce_stub (w : VersionNode) : VersionNode.stub.fillOnce w = w := by
  simp [fillOnce, stub]

@[simp] theorem VersionNode.fillOnce_self (w : VersionNode) : w.fillOnce w = w := by simp [fillOnce]

structure Graph where
  decisions : Dict DecisionId DecisionNode
  versions : Dict String VersionNode
  hasVersion : Dict (DecisionId × String) (Finset String)
  supersedes : Dict (DecisionId × DecisionId) (Finset String)
deriving DecidableEq

def Graph.empty : Graph := ⟨∅, ∅, ∅, ∅⟩

namespace Graph

/-- `n.state` of a decision. -/
def stateOf (g : Graph) (d : DecisionId) : Option DecisionRecord := (g.decisions.lookup d).bind (·.state)

/-! ## Statements -/

/-- `lock_event_nodes`. -/
def lockEventNodes (g : Graph) (e : DecisionEvent) : Graph :=
  let decisions := touch e.decisionId .stub g.decisions
  { g with
    decisions := match e.target with
      | none => decisions
      | some target => touch target .stub decisions
    versions := touch e.eventId .stub g.versions }

def stateAt (e : DecisionEvent) : DecisionRecord where
  order := e.order
  subjects := e.payload.subjects
  contentId := e.payload.contentId
  status := e.payload.status
  supersedesId := e.payload.supersedesId
  validFrom := e.payload.validFrom
  validTo := e.payload.validTo
  recordedAt := e.observedAt
  payloadRecordedAt := e.payload.recordedAt

/-- `n.state_order IS NULL OR $order > n.state_order`. -/
def newerThan (order : EventOrder) : Option DecisionRecord → Bool
  | none => true
  | some stored => stored.order < order

/-- What `_DECISION` sets. -/
def recordIn (e : DecisionEvent) (n : DecisionNode) : DecisionNode :=
  { n with
    state := if newerThan e.order n.state then some (stateAt e) else n.state
    projectId := minNonNull n.projectId e.projectId
    repositoryId := minNonNull n.repositoryId e.repositoryId }

/-- `_DECISION`. -/
def recordDecision (g : Graph) (e : DecisionEvent) : Graph :=
  { g with decisions := modify e.decisionId (recordIn e) (touch e.decisionId .stub g.decisions) }

def versionOf (e : DecisionEvent) : VersionNode where
  decisionId := some e.decisionId
  status := some e.payload.status
  subjects := some e.payload.subjects
  supersedesId := e.payload.supersedesId
  validFrom := some e.payload.validFrom
  validTo := e.payload.validTo
  recordedAt := some e.observedAt
  payloadRecordedAt := some e.payload.recordedAt
  stateOrder := some e.order
  sourceEventIds := some [e.eventId]
  projectId := e.projectId
  repositoryId := e.repositoryId

/-- `_DECISION_VERSION`. -/
def recordVersion (g : Graph) (e : DecisionEvent) : Graph :=
  { g with versions := modify e.eventId (·.fillOnce (versionOf e)) (touch e.eventId .stub g.versions) }

/-- `_HAS_VERSION`. -/
def linkVersion (g : Graph) (e : DecisionEvent) : Graph :=
  { g with
    decisions := touch e.decisionId .stub g.decisions
    versions := touch e.eventId .stub g.versions
    hasVersion := modify (e.decisionId, e.eventId) (insert e.eventId) (touch (e.decisionId, e.eventId) ∅ g.hasVersion) }

/-- `_OLD_TARGETS`. -/
def oldTargets (g : Graph) (d : DecisionId) : Finset DecisionId :=
  (g.supersedes.keys.filter (·.1 = d)).image Prod.snd

def lockNodes (g : Graph) (ids : List DecisionId) : Graph :=
  { g with decisions := ids.foldl (fun decisions d => touch d .stub decisions) g.decisions }

/-- `_DROP_EDGES`. -/
def dropEdges (g : Graph) (d : DecisionId) : Graph :=
  { g with supersedes := keep (·.1 ≠ d) g.supersedes }

/-- `_SUPERSEDES`. -/
def assertSupersedes (g : Graph) (e : DecisionEvent) (target : DecisionId) : Graph :=
  { g with
    decisions := touch target .stub (touch e.decisionId .stub g.decisions)
    supersedes := modify (e.decisionId, target) (insert e.eventId) (touch (e.decisionId, target) ∅ g.supersedes) }

/-- `(n)--()`. -/
def related (g : Graph) (d : DecisionId) : Prop :=
  (∃ edge ∈ g.supersedes.keys, edge.1 = d ∨ edge.2 = d) ∨ ∃ link ∈ g.hasVersion.keys, link.1 = d

instance (g : Graph) (d : DecisionId) : Decidable (g.related d) := inferInstanceAs (Decidable (_ ∨ _))

/-- `_DROP_STUB`. -/
def dropStub (g : Graph) (d : DecisionId) : Graph :=
  if g.stateOf d = none ∧ ¬ g.related d then { g with decisions := g.decisions.erase d } else g

/-- The decisions with an edge to `d`. -/
def superseders (g : Graph) (d : DecisionId) : Finset DecisionId :=
  (g.supersedes.keys.filter (·.2 = d)).image Prod.fst

/-- `min(s.valid_from)`. -/
def closing (g : Graph) (d : DecisionId) : Option Moment :=
  leastNonNull (fun s => (g.stateOf s).map (·.validFrom)) (g.superseders d).sort

/-- `_CLOSE`. -/
def close (g : Graph) (d : DecisionId) : Graph :=
  { g with decisions := modify d (·.closedAt (g.closing d)) g.decisions }

/-! ## The handler -/

/-- The decisions whose closure the newest recording of `d` may change. -/
def changedTargets (g : Graph) (e : DecisionEvent) : Finset DecisionId :=
  g.oldTargets e.decisionId ∪ e.target.toFinset

/-- The edge of the current record takes the place of the old ones. -/
def reassert (g : Graph) (e : DecisionEvent) : Graph :=
  let g := (g.lockNodes (g.changedTargets e).sort).dropEdges e.decisionId
  match e.target with
  | none => g
  | some target => g.assertSupersedes e target

/-- The current record of the superseder changed: replace what the old one asserted. -/
def replaceEdges (g : Graph) (e : DecisionEvent) : Graph :=
  (g.changedTargets e).sort.foldl (fun g d => (g.dropStub d).close d) (g.reassert e)

/-- The recording itself: the current record and its version. -/
def record (g : Graph) (e : DecisionEvent) : Graph := ((g.recordDecision e).recordVersion e).linkVersion e

def decisionRecorded (g : Graph) (e : DecisionEvent) : Graph :=
  let newer := newerThan e.order (g.stateOf e.decisionId)
  let g := g.record e
  let g :=
    if newer then g.replaceEdges e
    else match e.target with
      | none => g
      | some target => g.dropStub target
  g.close e.decisionId

/-- `KnowledgeProjector.project` of a decision. -/
def project (g : Graph) (e : DecisionEvent) : Graph := (g.lockEventNodes e).decisionRecorded e

end Graph

def projected (delivered : List DecisionEvent) : Graph := delivered.foldl Graph.project .empty

end Knowledge
