import AgentContext.Knowledge.Decisions

/-!
# Decisions as known at a record time

`decision_states`: the pure reading of recorded versions.  A decision is its newest version that was recorded by
then; it ends at its own `valid_to` or where the earliest of its superseders begins.
-/

namespace Knowledge

open Table

structure DecisionVersion where
  decisionId : DecisionId
  subjects : List String
  status : DecisionStatus
  validFrom : Moment
  validTo : Option Moment
  recordedAt : Moment
  supersedesId : Option DecisionId
  order : EventOrder
deriving DecidableEq

/-- `decision_version`. -/
def decisionVersion (e : DecisionEvent) : DecisionVersion where
  decisionId := e.decisionId
  subjects := e.payload.subjects
  status := e.payload.status
  validFrom := e.payload.validFrom
  validTo := e.payload.validTo
  recordedAt := e.observedAt
  supersedesId := e.payload.supersedesId
  order := e.order

/-- A decision as known at one record time. -/
structure DecisionState where
  version : DecisionVersion
  supersededBy : Option DecisionId
  closedAt : Option Moment
  stop : Option Moment
deriving DecidableEq

namespace DecisionState

/-- `asserted`. -/
def asserted (s : DecisionState) : Bool :=
  s.version.status.superseding && !(s.version.status = .superseded && s.stop = none)

/-- `empty`. -/
def isEmpty (s : DecisionState) : Bool := s.stop.any fun stop => stop ≤ s.version.validFrom

/-- `ended_by`. -/
def endedBy (s : DecisionState) (validAt : Moment) : Bool :=
  s.asserted && !s.isEmpty && s.stop.any fun stop => s.version.validFrom ≤ validAt && stop ≤ validAt

end DecisionState

def DecisionVersion.target (v : DecisionVersion) : Option DecisionId :=
  if v.status.superseding then v.supersedesId else none

/-- `_edges`. -/
def edges (current : Dict DecisionId DecisionVersion) : List (DecisionId × DecisionId) :=
  current.keys.sort.filterMap fun d => ((current.lookup d).bind (·.target)).map fun target => (d, target)

/-- The loop over the versions: the newest of each decision. -/
def currentVersions (versions : List DecisionVersion) (recordedAt : Moment) : Dict DecisionId DecisionVersion :=
  keepBest (·.decisionId) (fun v => toLex (v.order, v.recordedAt)) (versions.filter (·.recordedAt ≤ recordedAt))

/-- A superseder of a decision: where it begins, and its id. -/
structure Candidate where
  target : DecisionId
  validFrom : Moment
  superseder : DecisionId
deriving DecidableEq

/-- Smaller candidates are better. -/
def Candidate.rank (c : Candidate) : (Moment ×ₗ DecisionId)ᵒᵈ := OrderDual.toDual (toLex (c.validFrom, c.superseder))

def candidates (current : Dict DecisionId DecisionVersion) : List Candidate :=
  (edges current).filterMap fun (superseder, target) =>
    (current.lookup superseder).map fun v => ⟨target, v.validFrom, superseder⟩

/-- The loop over the edges: the earliest superseder of each decision. -/
def closings (current : Dict DecisionId DecisionVersion) : Dict DecisionId Candidate :=
  keepBest (·.target) Candidate.rank (candidates current)

/-- `min(ends)`. -/
def earliest (validTo closedAt : Option Moment) : Option Moment :=
  match validTo, closedAt with
  | none, closedAt => closedAt
  | some validTo, none => some validTo
  | some validTo, some closedAt => some (min validTo closedAt)

/-- `decision_states`. -/
def decisionStates (versions : List DecisionVersion) (recordedAt : Moment) : Dict DecisionId DecisionState :=
  let current := currentVersions versions recordedAt
  mapValues (fun d version =>
    let closing := (closings current).lookup d
    { version := version
      supersededBy := closing.map (·.superseder)
      closedAt := closing.map (·.validFrom)
      stop := earliest version.validTo (closing.map (·.validFrom)) }) current

/-- `supersession_edges`. -/
def supersessionEdges (states : Dict DecisionId DecisionState) : List (DecisionId × DecisionId) :=
  edges (mapValues (fun _ s => s.version) states)

/-- `active_decisions`. -/
def activeDecisions (versions : List DecisionVersion) (scope : String) (validAt recordedAt : Moment) : List DecisionId :=
  let states := decisionStates versions recordedAt
  states.keys.sort.filter fun d => (states.lookup d).any fun s =>
    s.asserted && scope ∈ s.version.subjects && s.version.validFrom ≤ validAt && s.stop.all fun stop => validAt < stop

end Knowledge
