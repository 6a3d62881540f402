import AgentContext.Lib.Keyset
import AgentContext.Lib.Transition
import AgentContext.Projection.Checkpoints
import Mathlib.Data.Finset.Insert

/-!
# The projection runtime

`projection/runtime.py`: workers that claim rows of one outbox, apply their events to the graph and
finalize them.  Each of the three is a transaction of its own, and the graph is another database, so
a run of the system interleaves them freely:

    claim      pending or expired  →  leased by the worker until now + lease_duration
    project    the event of the worker's next row  →  graph, or a failure
    finalize   leased by the worker under that lease  →  delivered, pending again or dead_lettered
    release    leased by the worker  →  pending
    crash      the worker forgets what it had claimed

A transaction that would break a CHECK constraint raises and changes nothing; the run it belongs to
ends there, which is a crash.  A worker is known by its id, so ids are distinct.
-/

namespace Projection

open Keyset (sortedSet)

/-! ## Events and projectors -/

/-- A stored event; `content` is all of it that the runtime does not look at. -/
structure LedgerEvent (J : Type) where
  eventId : String
  eventType : String
  content : J

/-- `handles` may raise; `project` is what its writes do to a graph when none of them raises. -/
structure Projector (J G : Type) where
  name : String
  version : String
  handles : String → Except String Bool
  project : LedgerEvent J → G → G

/-- What a `ProjectionRunner` is made with, once `__init__` has accepted it. -/
structure Runner (J G : Type) where
  projectors : List (Projector J G)
  verifyEvent : LedgerEvent J → Bool
  leaseDuration : Nat
  maxAttempts : Nat
  baseRetryDelay : Nat
  maxRetryDelay : Nat
  leaseDuration_pos : 0 < leaseDuration
  maxAttempts_pos : 1 ≤ maxAttempts
  baseRetryDelay_pos : 0 < baseRetryDelay
  maxRetryDelay_le : baseRetryDelay ≤ maxRetryDelay
  identities_nodup : (projectors.map fun p => (p.name, p.version)).Nodup

structure ClaimedOutboxRow where
  outboxId : Nat
  eventId : String
  retryCount : Nat
  leaseExpiresAt : Nat
deriving DecidableEq, Repr

inductive ClaimOutcome | delivered | retried | deadLettered | lostLease
deriving DecidableEq, Repr

/-- `_finalize_success` or `_finalize_failure`, with the arguments `_process_claimed_row` gives it. -/
inductive Finalization (J G : Type)
  | success (matching : List (Projector J G))
  | failure (failing : Option (Projector J G)) (error : String)

/-- A worker between two of its transactions: the rows it has claimed and not finalized, and how it
is about to finalize the first of them. -/
structure Worker (J G : Type) where
  claimed : List ClaimedOutboxRow
  finalization : Option (Finalization J G)

/-- What a worker did, for the record: nothing reads it. -/
inductive Action
  | claimed (worker : String) (outboxId : Nat)
  | finished (worker : String) (outboxId : Nat) (outcome : ClaimOutcome)
deriving DecidableEq, Repr

structure World (J G : Type) where
  events : List (LedgerEvent J)
  outbox : List OutboxRow
  checkpoints : List ProjectionCheckpointRow
  deadLetters : List DeadLetterRow
  graph : G
  /-- The events of the committed graph transactions, in commit order. -/
  written : List (LedgerEvent J)
  workers : String → Worker J G
  history : List Action

def World.start {J G : Type} (graph : G) : World J G := ⟨[], [], [], [], graph, [], fun _ => ⟨[], none⟩, []⟩

variable {J G : Type}

/-- Every row of the projection schema meets its CHECK constraints. -/
def World.Checked (w : World J G) : Prop :=
  (∀ row ∈ w.outbox, row.Checked) ∧ (∀ row ∈ w.checkpoints, row.Checked) ∧ (∀ row ∈ w.deadLetters, row.Checked)

instance (w : World J G) : Decidable w.Checked := inferInstanceAs (Decidable (_ ∧ _ ∧ _))

/-- A transaction commits unless a row it leaves behind breaks a constraint. -/
def World.commit (w : World J G) : Option (World J G) := if w.Checked then some w else none

def World.setWorker (w : World J G) (id : String) (worker : Worker J G) : World J G :=
  { w with workers := Function.update w.workers id worker }

/-- `UPDATE ... SET values WHERE matches`. -/
def updateWhere (matching : OutboxRow → Bool) (values : OutboxRow → OutboxRow) (outbox : List OutboxRow) :
    List OutboxRow :=
  outbox.map fun row => if matching row then values row else row

/-! ## Claiming -/

def OutboxRow.claimable (now : Nat) (row : OutboxRow) : Bool :=
  (row.status = .pending && row.availableAt ≤ now) ||
    (row.status = .leased && row.leaseExpiresAt.any (· ≤ now))

def OutboxRow.lease (worker : String) (leaseExpiresAt now : Nat) (row : OutboxRow) : OutboxRow :=
  { row with
    status := .leased
    leaseOwner := some worker
    leaseExpiresAt := some leaseExpiresAt
    updatedAt := now }

/-- The ids `_claim_batch` takes: `SKIP LOCKED` passes over the rows another transaction holds. -/
def claimableIds (limit : Nat) (locked : List Nat) (now : Nat) (outbox : List OutboxRow) : List Nat :=
  (sortedSet ((outbox.filter fun row => row.claimable now && !locked.contains row.outboxId).map
    (·.outboxId))).take limit

def OutboxRow.snapshot (leaseExpiresAt : Nat) (row : OutboxRow) : ClaimedOutboxRow :=
  ⟨row.outboxId, row.eventId, row.retryCount, leaseExpiresAt⟩

def claimedRows (ids : List Nat) (leaseExpiresAt : Nat) (outbox : List OutboxRow) : List ClaimedOutboxRow :=
  ids.filterMap fun id => (outbox.find? (·.outboxId = id)).map (OutboxRow.snapshot leaseExpiresAt)

/-- `_claim_batch`. -/
def claimBatch (r : Runner J G) (worker : String) (limit : Nat) (locked : List Nat) (now : Nat) (w : World J G) :
    Option (World J G) :=
  let leaseExpiresAt := now + r.leaseDuration
  let ids := claimableIds limit locked now w.outbox
  World.commit { w with
    outbox := updateWhere (fun row => ids.contains row.outboxId) (OutboxRow.lease worker leaseExpiresAt now) w.outbox
    workers := Function.update w.workers worker ⟨claimedRows ids leaseExpiresAt w.outbox, none⟩
    history := w.history ++ ids.map (Action.claimed worker) }

/-- `release_leases`. -/
def OutboxRow.release (now : Nat) (row : OutboxRow) : OutboxRow :=
  { row with
    status := .pending
    leaseOwner := none
    leaseExpiresAt := none
    updatedAt := now }

def releaseLeases (worker : String) (now : Nat) (w : World J G) : Option (World J G) :=
  World.commit { w with
    outbox := updateWhere (fun row => row.status = .leased && row.leaseOwner = some worker)
      (OutboxRow.release now) w.outbox }

/-! ## Projecting -/

/-- The projectors that handle an event type, in registry order, or the one that cannot tell. -/
def matchingProjectors : List (Projector J G) → String → Except (Projector J G × String) (List (Projector J G))
  | [], _ => .ok []
  | p :: ps, eventType => do
    let handles ← (p.handles eventType).mapError fun error => (p, error)
    let matching ← matchingProjectors ps eventType
    return if handles then p :: matching else matching

/-- What the databases and the projectors do to one `_process_claimed_row`: the event cannot be
loaded; the graph transaction raises in the projector at an index or after all of them, rolled back
or with the commit's acknowledgement lost; or everything works. -/
inductive Attempt
  | loadError (error : String)
  | writeError (failing : Option Nat) (error : String) (committed : Bool)
  | works
deriving DecidableEq, Repr

/-- `_load_event`. -/
def loadEvent (r : Runner J G) (events : List (LedgerEvent J)) (eventId : String) : Except String (LedgerEvent J) :=
  match events.find? (·.eventId = eventId) with
  | none => .error "OrphanedOutboxRowError"
  | some event => if r.verifyEvent event then .ok event else .error "EventIntegrityError"

/-- `_process_claimed_row` up to its finalization, and the event and projectors of the graph
transaction it committed. -/
def processClaimedRow (r : Runner J G) (events : List (LedgerEvent J)) (row : ClaimedOutboxRow) (attempt : Attempt) :
    Finalization J G × Option (LedgerEvent J × List (Projector J G)) :=
  match attempt, loadEvent r events row.eventId with
  | .loadError error, _ => (.failure none error, none)
  | _, .error error => (.failure none error, none)
  | attempt, .ok event =>
    match matchingProjectors r.projectors event.eventType with
    | .error (p, error) => (.failure (some p) error, none)
    | .ok [] => (.success [], none)
    | .ok (p :: ps) =>
      match attempt with
      | .writeError failing error committed =>
        (.failure (failing.bind ((p :: ps)[·]?)) error, if committed then some (event, p :: ps) else none)
      | _ => (.success (p :: ps), some (event, p :: ps))

/-- `run_matching` in one graph transaction. -/
def runMatching (matching : List (Projector J G)) (event : LedgerEvent J) (graph : G) : G :=
  matching.foldl (fun graph p => p.project event graph) graph

def World.write (w : World J G) : Option (LedgerEvent J × List (Projector J G)) → World J G
  | none => w
  | some (event, matching) => { w with
    graph := runMatching matching event w.graph
    written := w.written ++ [event] }

/-! ## Finalizing -/

/-- The fence: the row is still leased to the worker under the lease it claimed. -/
def ClaimedOutboxRow.fence (claimed : ClaimedOutboxRow) (worker : String) (row : OutboxRow) : Bool :=
  row.outboxId = claimed.outboxId && row.status = .leased && row.leaseOwner = some worker &&
    row.leaseExpiresAt = some claimed.leaseExpiresAt

/-- `_fenced_update`: `none` when no row matches. -/
def fencedUpdate (claimed : ClaimedOutboxRow) (worker : String) (values : OutboxRow → OutboxRow)
    (outbox : List OutboxRow) : Option (List OutboxRow) :=
  if outbox.any (claimed.fence worker) then some (updateWhere (claimed.fence worker) values outbox) else none

def OutboxRow.deliver (now : Nat) (row : OutboxRow) : OutboxRow :=
  { row with
    status := .delivered
    deliveredAt := some now
    leaseOwner := none
    leaseExpiresAt := none
    updatedAt := now }

/-- `_retry_delay`, in whole microseconds. -/
def retryDelay (base retryCount max : Nat) : Nat := min (base * 2 ^ min (retryCount - 1) 62) max

def OutboxRow.retry (retryCount availableAt : Nat) (errorClass : String) (now : Nat) (row : OutboxRow) : OutboxRow :=
  { row with
    status := .pending
    retryCount := retryCount
    availableAt := availableAt
    lastErrorClass := some errorClass
    leaseOwner := none
    leaseExpiresAt := none
    updatedAt := now }

def OutboxRow.deadLetter (retryCount : Nat) (errorClass : String) (now : Nat) (row : OutboxRow) : OutboxRow :=
  { row with
    status := .deadLettered
    retryCount := retryCount
    deadLetteredAt := some now
    lastErrorClass := some errorClass
    leaseOwner := none
    leaseExpiresAt := none
    updatedAt := now }

/-- The upsert of a dead letter; a resolved one is opened again. -/
def upsertDeadLetter (row : DeadLetterRow) (deadLetters : List DeadLetterRow) : List DeadLetterRow :=
  if deadLetters.any (·.outboxId = row.outboxId) then
    deadLetters.map fun old => if old.outboxId = row.outboxId then
      { old with
        projectorName := row.projectorName
        projectorVersion := row.projectorVersion
        attempts := row.attempts
        errorClass := row.errorClass
        status := .opened
        resolvedAt := none
        updatedAt := row.updatedAt }
    else old
  else deadLetters ++ [row]

/-- The dead letter of a row; a failure no projector is to blame for is the runtime's. -/
def ClaimedOutboxRow.deadLetter (row : ClaimedOutboxRow) (failing : Option (Projector J G)) (errorClass : String)
    (now : Nat) : DeadLetterRow where
  outboxId := row.outboxId
  eventId := row.eventId
  projectorName := failing.elim "<projection.runtime>" (·.name)
  projectorVersion := failing.elim "<unattributed>" (·.version)
  attempts := row.retryCount + 1
  errorClass := errorClass
  status := .opened
  firstFailedAt := now
  updatedAt := now
  resolvedAt := none

/-- `_finalize_success`. -/
def finalizeSuccess (worker : String) (row : ClaimedOutboxRow) (matching : List (Projector J G)) (now : Nat)
    (w : World J G) : World J G × ClaimOutcome :=
  match fencedUpdate row worker (OutboxRow.deliver now) w.outbox with
  | none => (w, .lostLease)
  | some outbox => ({ w with
      outbox := outbox
      checkpoints := matching.foldl (fun checkpoints p =>
        advance checkpoints p.name p.version row.outboxId row.eventId now) w.checkpoints }, .delivered)

/-- `_finalize_failure`. -/
def finalizeFailure (r : Runner J G) (worker : String) (row : ClaimedOutboxRow) (failing : Option (Projector J G))
    (error : String) (now : Nat) (w : World J G) : World J G × ClaimOutcome :=
  let errorClass := publicErrorClass error
  let newRetryCount := row.retryCount + 1
  if r.maxAttempts ≤ newRetryCount then
    match fencedUpdate row worker (OutboxRow.deadLetter newRetryCount errorClass now) w.outbox with
    | none => (w, .lostLease)
    | some outbox => ({ w with
        outbox := outbox
        deadLetters := upsertDeadLetter (row.deadLetter failing errorClass now) w.deadLetters }, .deadLettered)
  else
    let availableAt := now + retryDelay r.baseRetryDelay newRetryCount r.maxRetryDelay
    match fencedUpdate row worker (OutboxRow.retry newRetryCount availableAt errorClass now) w.outbox with
    | none => (w, .lostLease)
    | some outbox => ({ w with outbox := outbox }, .retried)

def Finalization.apply (r : Runner J G) (worker : String) (row : ClaimedOutboxRow) (now : Nat) (w : World J G) :
    Finalization J G → World J G × ClaimOutcome
  | .success matching => finalizeSuccess worker row matching now w
  | .failure failing error => finalizeFailure r worker row failing error now w

/-! ## Steps -/

inductive Label (J : Type)
  /-- An append commits an event and its outbox row; the row's id is the next of a sequence from 1. -/
  | append (event : LedgerEvent J) (outboxId now : Nat)
  | claim (worker : String) (limit : Nat) (locked : List Nat) (now : Nat)
  | project (worker : String) (attempt : Attempt)
  | finalize (worker : String) (now : Nat)
  | release (worker : String) (now : Nat)
  | crash (worker : String)

/-- The world when a worker is done with the first of its rows. -/
def World.finish (w : World J G) (id : String) (row : ClaimedOutboxRow) (rest : List ClaimedOutboxRow)
    (outcome : ClaimOutcome) : World J G :=
  { w with
    workers := Function.update w.workers id ⟨rest, none⟩
    history := w.history ++ [.finished id row.outboxId outcome] }

def step (r : Runner J G) (w : World J G) : Label J → Option (World J G)
  | .append event outboxId now =>
    if event.eventId ∈ w.events.map (·.eventId) ∨ outboxId ∈ w.outbox.map (·.outboxId) ∨ outboxId = 0 then none
    else World.commit { w with
      events := w.events ++ [event]
      outbox := w.outbox ++ [outboxRow outboxId event.eventId now] }
  | .claim id limit locked now =>
    -- `run_once` is done with its last batch before it claims the next
    if (w.workers id).claimed = [] ∧ 1 ≤ limit then claimBatch r id limit locked now w else none
  | .project id attempt =>
    match (w.workers id).claimed, (w.workers id).finalization with
    | row :: rest, none =>
      let (finalization, writes) := processClaimedRow r w.events row attempt
      some ((w.write writes).setWorker id ⟨row :: rest, some finalization⟩)
    | _, _ => none
  | .finalize id now =>
    match (w.workers id).claimed, (w.workers id).finalization with
    | row :: rest, some finalization =>
      let (finalized, outcome) := finalization.apply r id row now w
      (finalized.finish id row rest outcome).commit
    | _, _ => none
  | .release id now => releaseLeases id now w
  | .crash id => some (w.setWorker id ⟨[], none⟩)

/-! ## A sample system -/

theorem lease_pos : 0 < 30 := by decide

theorem retry_le : 1 ≤ 60 := by decide

theorem attempts_pos : 1 ≤ 3 := by decide

theorem lawfulBEq_key : LawfulBEq (String × String) := inferInstance

/-- One projector that records every event it handles, and two attempts for each row. -/
def sampleRunner : Runner Unit (Finset String) where
  projectors := [⟨"portfolio", "1", fun eventType => .ok (eventType = "session.started"), fun event => insert event.eventId⟩]
  verifyEvent := fun _ => true
  leaseDuration := 30
  maxAttempts := 2
  baseRetryDelay := 1
  maxRetryDelay := 60
  leaseDuration_pos := by decide
  maxAttempts_pos := by decide
  baseRetryDelay_pos := by decide
  maxRetryDelay_le := by decide
  identities_nodup := by decide

def sampleEvent (eventId : String) : LedgerEvent Unit := ⟨eventId, "session.started", ()⟩

end Projection
