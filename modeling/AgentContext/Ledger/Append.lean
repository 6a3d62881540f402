import AgentContext.Ledger.Rows
import AgentContext.Lib.Keyset
import AgentContext.Projection.Rows

/-!
# `LedgerRepository.append_with_outcome`, run alone

The functions of `ledger/repository.py` in the order the source has them, on a database `Db` of
committed rows and a `Session` that holds the transaction's own uncommitted rows together with the
variables of `append_with_outcome`.  `appendWithOutcome` is the whole call followed by the caller's
commit; an error is a raise, after which the caller rolls back.  How several transactions interleave
is in `AgentContext.Ledger.Concurrent`.
-/

namespace Ledger

open Keyset (sortedSet)
open Projection (OutboxRow outboxRow)

/-! ## Inputs, outcomes, errors -/

structure RedactionFinding where
  detector : String
  detectorVersion : String
  category : String
  count : Nat
  correlationLabels : List String
deriving DecidableEq, Repr

inductive MetadataOnlyReason | sourceUnmapped | sourceInvalid | spoolPressure
deriving DecidableEq, Repr

structure RedactionReport where
  policyVersion : String
  disposition : ContentDisposition
  findings : List RedactionFinding
  metadataOnlyReason : Option MetadataOnlyReason
  errorClass : Option String
  failedDetector : Option String
  failedDetectorVersion : Option String
deriving DecidableEq, Repr

structure RedactionReportRow extends RedactionReport where
  eventId : String
  contentId : String
deriving DecidableEq, Repr

/-- One producer draft plus its server-resolved content. -/
structure ResolvedEvent (J D : Type) where
  draft : EventDraft J D
  contentRefs : List (ContentRef D)
  redactionReports : List (String × RedactionReport)
deriving DecidableEq, Repr

structure AppendOutcome (J D : Type) where
  stored : StoredEvent J D
  created : Bool
deriving DecidableEq, Repr

inductive AppendError
  /-- `ValueError` of `_validate_resolved_event`. -/
  | unknownContentIds (contentIds : List String)
  | idempotencyConflict (producerId idempotencyKey existingEventId : String)
  | streamQuarantined (streamId : String)
  /-- `seal_event` raised. -/
  | sealRefused (eventId : String)
  /-- A stored row did not validate when it was read back. -/
  | invalidRow (eventId : String)
  /-- Any other failure inside the transaction: another constraint, a fault point, a lost connection. -/
  | failed
deriving DecidableEq, Repr

/-- What the environment gives to the insert of one draft: the clock, the next value of the outbox
identity, and whether one of its statements fails for a reason of its own. -/
structure Stamp where
  now : Nat
  outboxId : Nat
  fault : Bool
deriving DecidableEq, Repr

/-- The tables an append touches. -/
structure Db (J D : Type) where
  events : List (EventRow J D)
  contentRefs : List (EventContentRefRow D)
  redactionReports : List RedactionReportRow
  outbox : List OutboxRow
  streams : List (EventStreamRow D)
deriving DecidableEq, Repr

def Db.empty {J D : Type} : Db J D := ⟨[], [], [], [], []⟩

/-- Tables read together: committed rows, then a transaction's own. -/
instance {J D : Type} : Append (Db J D) where
  append db writes := {
    events := db.events ++ writes.events
    contentRefs := db.contentRefs ++ writes.contentRefs
    redactionReports := db.redactionReports ++ writes.redactionReports
    outbox := db.outbox ++ writes.outbox
    streams := db.streams ++ writes.streams }

section Append

variable {J D : Type} (db writes : Db J D)

@[simp] theorem Db.append_events : (db ++ writes).events = db.events ++ writes.events := rfl
@[simp] theorem Db.append_contentRefs : (db ++ writes).contentRefs = db.contentRefs ++ writes.contentRefs := rfl
@[simp] theorem Db.append_outbox : (db ++ writes).outbox = db.outbox ++ writes.outbox := rfl
@[simp] theorem Db.append_streams : (db ++ writes).streams = db.streams ++ writes.streams := rfl

end Append

/-- `_StreamState`. -/
structure StreamState (D : Type) where
  sequence : Nat
  headEventId : Option String
  headSha256 : Option D
deriving DecidableEq, Repr

/-- The transaction's uncommitted rows (`writes`; its `streams` are the seeded head rows) and the
variables of `append_with_outcome`. -/
structure Session (J D : Type) where
  writes : Db J D
  streamState : List (String × StreamState D)
  touchedStreams : List String
  results : List (AppendOutcome J D)
deriving DecidableEq, Repr

def Session.start {J D : Type} : Session J D := ⟨Db.empty, [], [], []⟩

variable {J D : Type}

/-! ## Draft identity -/

def claimLe (a b : ContentClaim D) : Prop := a.contentId ≤ b.contentId

instance : DecidableRel (claimLe (D := D)) := fun a b => inferInstanceAs (Decidable (a.contentId ≤ b.contentId))

/-- Claims in code-point order of `content_id`; Python's `sorted` is stable, as insertion sort is. -/
def sortClaims (claims : List (ContentClaim D)) : List (ContentClaim D) := claims.insertionSort claimLe

def canonicalizeDraft (draft : EventDraft J D) : EventDraft J D :=
  { draft with contentClaims := sortClaims draft.contentClaims }

def draftIdentity (draft : EventDraft J D) : DraftIdentity J D :=
  ⟨draft.toEnvelope, (canonicalizeDraft draft).contentClaims⟩

/-- `none` when the reconstructed draft does not validate. -/
def existingDraftIdentity (sdk : Sdk J D) (event : EventRow J D)
    (contentRefs : List (EventContentRefRow D)) : Option (DraftIdentity J D) :=
  (sdk.validateDraft ⟨event.toEnvelope, contentRefs.map (·.toContentClaim)⟩).map fun reconstructed =>
    { reconstructed with contentClaims := sortClaims reconstructed.contentClaims }

/-! ## Rows -/

def refRowLe (a b : EventContentRefRow D) : Prop := a.contentId ≤ b.contentId

instance : DecidableRel (refRowLe (D := D)) := fun a b => inferInstanceAs (Decidable (a.contentId ≤ b.contentId))

/-- The document `_row_to_stored_event` validates. -/
def rawStoredEvent (event : EventRow J D) (contentRefs : List (EventContentRefRow D)) : StoredEvent J D where
  toEnvelope := event.toEnvelope
  eventId := event.eventId
  streamSequence := event.streamSequence
  contentRefs := (contentRefs.insertionSort refRowLe).map (·.toContentRef)
  integrity := ⟨event.payloadSha256, event.previousEventSha256, event.eventSha256⟩

def rowToStoredEvent (sdk : Sdk J D) (event : EventRow J D) (contentRefs : List (EventContentRefRow D)) :
    Option (StoredEvent J D) :=
  sdk.validateStored (rawStoredEvent event contentRefs)

def eventRowFromSealed (sdk : Sdk J D) (sealedEvent : StoredEvent J D) (recordedAt : Nat) : EventRow J D where
  toEnvelope := sealedEvent.toEnvelope
  eventId := sealedEvent.eventId
  streamSequence := sealedEvent.streamSequence
  producerId := sdk.producerId sealedEvent.producer
  recordedAt := recordedAt
  payloadSha256 := sealedEvent.integrity.payloadSha256
  previousEventSha256 := sealedEvent.integrity.previousEventSha256
  eventSha256 := sealedEvent.integrity.eventSha256

def contentRefRowsFromSealed (sealedEvent : StoredEvent J D) : List (EventContentRefRow D) :=
  sealedEvent.contentRefs.map fun ref => { toContentRef := ref, eventId := sealedEvent.eventId }

def redactionReportRows (eventId : String) (reports : List (String × RedactionReport)) :
    List RedactionReportRow :=
  reports.map fun (contentId, report) => { toRedactionReport := report, eventId := eventId, contentId := contentId }

/-! ## Planning a batch -/

def validateResolvedEvent (resolved : ResolvedEvent J D) : Except AppendError Unit :=
  let unknown := (resolved.redactionReports.map Prod.fst).dedup.filter
    fun contentId => contentId ∉ resolved.contentRefs.map (·.contentId)
  if unknown = [] then .ok () else .error (.unknownContentIds (unknown.insertionSort (· ≤ ·)))

variable [DecidableEq J] [DecidableEq D]

/-- One turn of the loop of `_plan_batch`: `representative` so far and `first_index_by_key`. -/
def planStep (sdk : Sdk J D) (batch : List (ResolvedEvent J D))
    (acc : List Nat × List ((String × String) × Nat)) (next : ResolvedEvent J D × Nat) :
    Except AppendError (List Nat × List ((String × String) × Nat)) :=
  let key := sdk.draftKey next.1.draft
  match acc.2.lookup key with
  | none => .ok (acc.1 ++ [next.2], (key, next.2) :: acc.2)
  | some first =>
    match batch[first]? with
    | none => .error .failed
    | some owner =>
      if draftIdentity next.1.draft ≠ draftIdentity owner.draft then
        .error (.idempotencyConflict key.1 key.2 owner.draft.eventId)
      else .ok (acc.1 ++ [first], acc.2)

/-- The batch position that owns the real insert attempt of each index. -/
def planBatch (sdk : Sdk J D) (batch : List (ResolvedEvent J D)) : Except AppendError (List Nat) :=
  (batch.zipIdx.foldlM (planStep sdk batch) ([], [])).map Prod.fst

/-! ## Locks -/

def Db.streamRow (db : Db J D) (streamId : String) : Option (EventStreamRow D) :=
  db.streams.find? (·.streamId = streamId)

/-- The row `_lock_streams` inserts for a stream that has none. -/
def seededRow (streamId : String) : EventStreamRow D := ⟨streamId, 0, none, none, .active⟩

/-- One turn of `_lock_streams`: insert the head row unless it exists, lock and read it. -/
def lockStream (db : Db J D) (streamId : String) (s : Session J D) : Except AppendError (Session J D) :=
  match (db ++ s.writes).streamRow streamId with
  | none => .ok { s with
      writes := { s.writes with streams := s.writes.streams ++ [seededRow streamId] }
      streamState := s.streamState ++ [(streamId, ⟨0, none, none⟩)] }
  | some row =>
    if row.status = .quarantined then .error (.streamQuarantined streamId)
    else .ok { s with
      streamState := s.streamState ++ [(streamId, ⟨row.lastSequence, row.lastEventId, row.lastEventSha256⟩)] }

def lockStreams (db : Db J D) (streamIds : List String) (s : Session J D) : Except AppendError (Session J D) :=
  (sortedSet streamIds).foldlM (fun s streamId => lockStream db streamId s) s

/-! ## Inserting -/

/-- The constraint of `ledger.events` a row violates, with the row it meets.  PostgreSQL checks the
unique indexes of a table in the order they were created, the primary key first. -/
inductive Violation (J D : Type)
  | eventPk (existing : EventRow J D)
  | idempotency (existing : EventRow J D)
  | streamSequence

def violation (events : List (EventRow J D)) (row : EventRow J D) : Option (Violation J D) :=
  match events.find? (·.eventId = row.eventId) with
  | some existing => some (.eventPk existing)
  | none =>
    match events.find? (·.key = row.key) with
    | some existing => some (.idempotency existing)
    | none =>
      if events.any fun e => e.streamId = row.streamId ∧ e.streamSequence = row.streamSequence then
        some .streamSequence
      else none

/-- `_recover_existing`, from the row the violated constraint named. -/
def recoverExisting (sdk : Sdk J D) (contentRefs : List (EventContentRefRow D)) (draft : EventDraft J D)
    (existing : EventRow J D) : Except AppendError (StoredEvent J D) :=
  let existingRefs := contentRefs.filter (·.eventId = existing.eventId)
  match existingDraftIdentity sdk existing existingRefs with
  | none => .error (.invalidRow existing.eventId)
  | some identity =>
    if draftIdentity draft ≠ identity then
      .error (.idempotencyConflict (sdk.producerId draft.producer) draft.idempotencyKey existing.eventId)
    else
      match rowToStoredEvent sdk existing existingRefs with
      | none => .error (.invalidRow existing.eventId)
      | some stored => .ok stored

/-- `stream_state[stream_id] = state`. -/
def setStreamState (states : List (String × StreamState D)) (streamId : String) (state : StreamState D) :
    List (String × StreamState D) :=
  states.map fun (sid, old) => if sid = streamId then (sid, state) else (sid, old)

/-- The session after a created event: its rows, the advanced head and the touched stream. -/
def Session.create (sdk : Sdk J D) (s : Session J D) (resolved : ResolvedEvent J D) (stamp : Stamp)
    (sealedEvent : StoredEvent J D) : Session J D where
  writes := {
    events := s.writes.events ++ [eventRowFromSealed sdk sealedEvent stamp.now]
    contentRefs := s.writes.contentRefs ++ contentRefRowsFromSealed sealedEvent
    redactionReports := s.writes.redactionReports ++ redactionReportRows sealedEvent.eventId resolved.redactionReports
    outbox := s.writes.outbox ++ [outboxRow stamp.outboxId sealedEvent.eventId stamp.now]
    streams := s.writes.streams }
  streamState := setStreamState s.streamState sealedEvent.streamId
    ⟨sealedEvent.streamSequence, some sealedEvent.eventId, some sealedEvent.integrity.eventSha256⟩
  touchedStreams := s.touchedStreams ++ [sealedEvent.streamId]
  results := s.results ++ [⟨sealedEvent, true⟩]

def Session.addResult (s : Session J D) (stored : StoredEvent J D) : Session J D :=
  { s with results := s.results ++ [⟨stored, false⟩] }

/-- `_insert_or_recover`.  The nested transaction keeps nothing of a failed insert. -/
def insertOrRecover (sdk : Sdk J D) (db : Db J D) (resolved : ResolvedEvent J D) (stamp : Stamp)
    (s : Session J D) : Except AppendError (Session J D) :=
  let draft := canonicalizeDraft resolved.draft
  match s.streamState.lookup draft.streamId with
  | none => .error .failed
  | some state =>
    match sdk.sealEvent draft resolved.contentRefs (state.sequence + 1) state.headSha256 with
    | none => .error (.sealRefused draft.eventId)
    | some sealedEvent =>
      let view := db ++ s.writes
      match violation view.events (eventRowFromSealed sdk sealedEvent stamp.now) with
      | some (.eventPk existing) => (recoverExisting sdk view.contentRefs draft existing).map s.addResult
      | some (.idempotency existing) => (recoverExisting sdk view.contentRefs draft existing).map s.addResult
      | some .streamSequence => .error .failed
      | none => .ok (s.create sdk resolved stamp sealedEvent)

/-- One turn of the insert loop of `append_with_outcome`. -/
def insertAt (sdk : Sdk J D) (db : Db J D) (batch : List (ResolvedEvent J D)) (plan : List Nat)
    (stamps : Nat → Stamp) (i : Nat) (s : Session J D) : Except AppendError (Session J D) :=
  if (stamps i).fault then .error .failed
  else
    match batch[i]?, plan[i]? with
    | some resolved, some owner =>
      if owner ≠ i then
        match s.results[owner]? with
        | some first => .ok (s.addResult first.stored)
        | none => .error .failed
      else insertOrRecover sdk db resolved (stamps i) s
    | _, _ => .error .failed

/-- The row the `INSERT` of batch position `i` sends; none when that turn sends none. -/
def insertedRow (sdk : Sdk J D) (batch : List (ResolvedEvent J D)) (plan : List Nat) (stamps : Nat → Stamp)
    (i : Nat) (s : Session J D) : Option (EventRow J D) :=
  if (stamps i).fault then none
  else
    match batch[i]?, plan[i]? with
    | some resolved, some owner =>
      if owner ≠ i then none
      else
        match s.streamState.lookup resolved.draft.streamId with
        | none => none
        | some state =>
          (sdk.sealEvent (canonicalizeDraft resolved.draft) resolved.contentRefs (state.sequence + 1)
            state.headSha256).map (eventRowFromSealed sdk · (stamps i).now)
    | _, _ => none

/-! ## Committing -/

/-- `_update_stream_head` on the row of a touched stream. -/
def updateStreamHead (s : Session J D) (row : EventStreamRow D) : EventStreamRow D :=
  if row.streamId ∈ s.touchedStreams then
    match s.streamState.lookup row.streamId with
    | some state => { row with
        lastSequence := state.sequence
        lastEventId := state.headEventId
        lastEventSha256 := state.headSha256 }
    | none => row
  else row

/-- The database once the session's rows and head updates are visible. -/
def commit (db : Db J D) (s : Session J D) : Db J D :=
  { db ++ s.writes with streams := (db ++ s.writes).streams.map (updateStreamHead s) }

/-- `append_with_outcome` and the caller's commit, with no other transaction running. -/
def appendWithOutcome (sdk : Sdk J D) (db : Db J D) (batch : List (ResolvedEvent J D))
    (stamps : Nat → Stamp) : Except AppendError (List (AppendOutcome J D) × Db J D) := do
  if batch = [] then
    return ([], db)
  batch.forM validateResolvedEvent
  let plan ← planBatch sdk batch
  let s ← lockStreams db (batch.map (·.draft.streamId)) Session.start
  let s ← (List.range batch.length).foldlM (fun s i => insertAt sdk db batch plan stamps i s) s
  return (s.results, commit db s)

end Ledger
