import AgentContext.Lib.Transition
import Mathlib.Logic.Function.Basic

/-!
# The history marker

Workers and in-place rebuilds of any releases on one graph, each of their statements a step of its own.  A worker holds
the rebuild lock shared, a rebuild holds it exclusively.

    worker    run_command (lock, narrow, count the nodes, look for a delivered row, record), then batches
              (lock, project, deliver, unlock)
    rebuild   drop the marker, wipe, replay what is delivered, record

A worker that finds the lock taken waits, without its start-up or its batch.
-/

namespace Projection

namespace History

variable {U P V : Type}

/-- A projector of a release. -/
structure Projector (P V : Type) where
  name : P
  version : V
  recordsHistory : Bool
deriving DecidableEq, Repr

/-- The projectors a process runs. -/
abbrev Release (P V : Type) : Type := List (Projector P V)

/-- A projector as the marker names it: `<name>:<version>`. -/
structure Key (P V : Type) where
  name : P
  version : V
deriving DecidableEq, Repr

def Projector.key (projector : Projector P V) : Key P V := ⟨projector.name, projector.version⟩

/-- `history_projectors`, by their keys. -/
def historyProjectors (release : Release P V) : List (Key P V) :=
  (release.filter (·.recordsHistory)).map (·.key)

/-- An event that a process took through its projectors. -/
structure Applied (U P V : Type) where
  event : U
  release : Release P V
deriving DecidableEq, Repr

/-! ## The marker -/

section Marker

variable [DecidableEq P] [DecidableEq V]

/-- `_MAX_MARKERS`. -/
def maxMarkers : Nat := 16

/-- `names if covered is None else covered & names`. -/
def meet (covered : Option (List (Key P V))) (names : List (Key P V)) : List (Key P V) :=
  match covered with
  | none => names
  | some covered => covered.filter (· ∈ names)

/-- `read_projection_history`: what every marker names. -/
def readProjectionHistory (markers : List (List (Key P V))) : Option (List (Key P V)) :=
  if maxMarkers < markers.length then some [] else markers.foldl (fun covered names => some (meet covered names)) none

/-- The marker names a version of a projector. -/
def Names (markers : List (List (Key P V))) (key : Key P V) : Prop :=
  ∃ covered, readProjectionHistory markers = some covered ∧ key ∈ covered

/-- `narrow_projection_history`. -/
def narrowProjectionHistory (running : List (Key P V)) (markers : List (List (Key P V))) : List (List (Key P V)) :=
  markers.map fun names => names.filter (· ∈ running)

/-- `record_projection_history`: a MERGE, which makes another node where it runs beside another MERGE. -/
def recordProjectionHistory (names : List (Key P V)) (beside : Bool) (markers : List (List (Key P V))) :
    List (List (Key P V)) :=
  if markers.isEmpty || beside then markers ++ [names] else markers.map fun _ => names

end Marker

/-! ## Processes -/

/-- Where a worker is.  From `narrow` to `record`, and in a batch, it holds the lock. -/
inductive Stage (U : Type) where
  | starting
  | narrow
  | count
  | select
  | record
  | idle
  | batch (projected : List U)
deriving DecidableEq, Repr

/-- The worker holds the lock shared. -/
def Stage.holds : Stage U → Bool
  | .starting | .idle => false
  | _ => true

structure Worker (U P V : Type) where
  release : Release P V
  stage : Stage U

/-- Where an in-place rebuild is; it holds the lock throughout. -/
inductive RebuildStage (U : Type) where
  | guard
  | wiping
  | replaying (left : List U)
  | recorded
deriving DecidableEq, Repr

structure Rebuild (U P V : Type) where
  release : Release P V
  stage : RebuildStage U

/-- The markers and the other nodes of the graph, what was applied to it since it was last wiped, the delivered rows, the
processes, and the workers that hold the lock. -/
structure World (U P V : Type) where
  markers : List (List (Key P V))
  nodes : Nat
  applied : List (Applied U P V)
  delivered : List U
  workers : Nat → Option (Worker U P V)
  rebuild : Option (Rebuild U P V)
  sharers : List Nat

/-- `nodes` in a label is how many nodes its writes leave in the graph. -/
inductive Act (U P V : Type) where
  | start (id : Nat) (release : Release P V)
  | tryLock (id : Nat)
  | narrow (id : Nat)
  | countNodes (id : Nat)
  | selectDelivered (id : Nat)
  | record (id : Nat) (beside : Bool)
  | project (id : Nat) (event : U) (nodes : Nat)
  | deliver (id : Nat) (event : U)
  | endBatch (id : Nat)
  | stop (id : Nat)
  | rebuild (release : Release P V)
  | dropMarker
  | wipeBatch (nodes : Nat)
  | wiped
  | replay (nodes : Nat)
  | rebuildRecord
  | rebuildEnd
deriving DecidableEq, Repr

section Step

variable [DecidableEq U] [DecidableEq P] [DecidableEq V]

namespace World

variable (w : World U P V)

/-- An empty graph and an outbox of which nothing is delivered. -/
def empty : World U P V := ⟨[], 0, [], [], fun _ => none, none, []⟩

def setWorker (id : Nat) (worker : Option (Worker U P V)) : World U P V :=
  { w with
    workers := Function.update w.workers id worker
    sharers :=
      if worker.any (·.stage.holds) then id :: w.sharers.filter (· ≠ id) else w.sharers.filter (· ≠ id) }

/-- `count_nodes`: the markers are nodes too. -/
def countNodes : Nat := w.nodes + w.markers.length

end World

/-- A worker's next step: its stage after it, and what it writes. -/
def advance (w : World U P V) (worker : Worker U P V) : Act U P V → Option (World U P V × Stage U)
  | .tryLock _ =>
    match worker.stage with
    | .starting => some (w, if w.rebuild.isSome then .idle else .narrow)
    | .idle => some (w, if w.rebuild.isSome then .idle else .batch [])
    | _ => none
  | .narrow _ =>
    if worker.stage = .narrow then
      some ({ w with markers := narrowProjectionHistory (historyProjectors worker.release) w.markers }, .count)
    else none
  | .countNodes _ =>
    if worker.stage = .count then some (w, if w.countNodes = 0 then .select else .idle) else none
  | .selectDelivered _ =>
    if worker.stage = .select then some (w, if w.delivered.isEmpty then .record else .idle) else none
  | .record _ beside =>
    if worker.stage = .record then
      some ({ w with markers := recordProjectionHistory (historyProjectors worker.release) beside w.markers }, .idle)
    else none
  | .project _ event nodes =>
    match worker.stage with
    | .batch projected =>
      some ({ w with nodes, applied := w.applied ++ [⟨event, worker.release⟩] }, .batch (event :: projected))
    | _ => none
  | .deliver _ event =>
    match worker.stage with
    | .batch projected =>
      if event ∈ projected then some ({ w with delivered := event :: w.delivered }, .batch projected) else none
    | _ => none
  | .endBatch _ =>
    match worker.stage with
    | .batch _ => some (w, .idle)
    | _ => none
  | _ => none

/-- The rebuild's next step. -/
def advanceRebuild (w : World U P V) (rebuild : Rebuild U P V) : Act U P V → Option (World U P V × RebuildStage U)
  | .dropMarker => if rebuild.stage = .guard then some ({ w with markers := [] }, .wiping) else none
  | .wipeBatch nodes => if rebuild.stage = .wiping ∧ nodes < w.nodes then some ({ w with nodes }, .wiping) else none
  | .wiped =>
    if rebuild.stage = .wiping ∧ w.nodes = 0 then some ({ w with applied := [] }, .replaying w.delivered) else none
  | .replay nodes =>
    match rebuild.stage with
    | .replaying (event :: left) =>
      some ({ w with nodes, applied := w.applied ++ [⟨event, rebuild.release⟩] }, .replaying left)
    | _ => none
  | .rebuildRecord =>
    if rebuild.stage = .replaying [] then
      some ({ w with markers := recordProjectionHistory (historyProjectors rebuild.release) false w.markers }, .recorded)
    else none
  | _ => none

/-- The worker that a label is about; none for the labels of a rebuild. -/
def Act.worker : Act U P V → Option Nat
  | .start id _ | .tryLock id | .narrow id | .countNodes id | .selectDelivered id | .record id _ | .project id _ _
  | .deliver id _ | .endBatch id | .stop id => some id
  | _ => none

/-- A rebuild takes the lock while no worker holds it.  A process stops, and a rebuild fails, at any point. -/
def step (w : World U P V) (act : Act U P V) : Option (World U P V) :=
  match act with
  | .start id release => if (w.workers id).isSome then none else some (w.setWorker id (some ⟨release, .starting⟩))
  | .stop id => if (w.workers id).isSome then some (w.setWorker id none) else none
  | .rebuild release =>
    if w.rebuild.isSome || !w.sharers.isEmpty then none else some { w with rebuild := some ⟨release, .guard⟩ }
  | .rebuildEnd => if w.rebuild.isSome then some { w with rebuild := none } else none
  | act =>
    match act.worker with
    | some id =>
      (w.workers id).bind fun worker =>
        (advance w worker act).map fun (w', stage) => w'.setWorker id (some { worker with stage })
    | none =>
      w.rebuild.bind fun rebuild =>
        (advanceRebuild w rebuild act).map fun (w', stage) => { w' with rebuild := some { rebuild with stage } }

end Step

end History

end Projection
