import AgentContext.Ledger.Guarantees
import Mathlib.Algebra.GroupWithZero.Nat
import Mathlib.Data.Countable.Basic
import Mathlib.Logic.Equiv.List
import Mathlib.Tactic.DeriveCountable

/-!
# `verify_ledger`

The read-only integrity check of `ledger/verify.py` on one snapshot of the tables, and what it decides:

    walkRows_none        a walk without failure is a chain of sound events
    verifyStream_ok      a stream verifies exactly when its events and head are sound
    verify_ledger_exact  a full run is ok exactly when every stream is; appends keep it ok; tampering does not

The database orders and compares stream ids as strings, the empty string first.
-/

namespace Ledger

open HashChain Keyset List

variable {J D : Type}
variable {sid : String}
variable {db : Db J D}

/-! ## Reports -/

/-- The names of `CHECKS`. -/
inductive Check
  | streamExists | sequence | previousEventSha256 | eventDecode | producerId | payloadSha256 | eventSha256
  | streamHead | streamHeadMissing | eventCount
deriving DecidableEq, Repr

/-- What a failure shows as expected or actual. -/
inductive Shown (D : Type)
  | number (n : Nat)
  | text (s : String)
  | digest (d : D)
deriving DecidableEq, Repr

structure IntegrityFailure (D : Type) where
  check : Check
  streamSequence : Option Nat := none
  eventId : Option String := none
  expected : Option (Shown D) := none
  actual : Option (Shown D) := none
deriving DecidableEq, Repr

structure StreamVerification (D : Type) where
  streamId : String
  events : Nat := 0
  firstSequence : Option Nat := none
  lastSequence : Option Nat := none
  failure : Option (IntegrityFailure D) := none
deriving DecidableEq, Repr

def StreamVerification.ok (v : StreamVerification D) : Bool := v.failure.isNone

structure LedgerVerification (D : Type) where
  streams : List (StreamVerification D)
  sinceSequence : Nat
  requestedStreams : List String
  failure : Option (IntegrityFailure D) := none
  batches : Nat
deriving DecidableEq, Repr

def LedgerVerification.ok (v : LedgerVerification D) : Bool := v.failure.isNone && v.streams.all (·.ok)

/-! ## Checking one event -/

/-- `_stored_columns_are_canonical`; a column without a canonical form raises, which counts as no. -/
def storedColumnsAreCanonical (sdk : Sdk J D) (row : EventRow J D) (event : StoredEvent J D) : Bool :=
  (row.jsonColumns.zip event.jsonColumns).all fun (stored, decoded) =>
    match sdk.canonicalJsonBytes stored, sdk.canonicalJsonBytes decoded with
    | some a, some b => a = b
    | _, _ => false

/-- `_content_refs`: the reference rows of the events of one batch, by event id. -/
def contentRefsOf (db : Db J D) (eventIds : List String) (eventId : String) : List (EventContentRefRow D) :=
  (db.contentRefs.filter (·.eventId ∈ eventIds)).filter (·.eventId = eventId)

def refsOf (db : Db J D) (eventId : String) : List (EventContentRefRow D) :=
  db.contentRefs.filter (·.eventId = eventId)

/-- `_check_head`. -/
def checkHead [DecidableEq D] (head : EventStreamRow D) (last : Option (EventRow J D)) : Option (IntegrityFailure D) :=
  match last with
  | none =>
    if head.lastSequence ≠ 0 ∨ head.lastEventSha256 ≠ none then
      some { check := .streamHead, expected := some (.number 0), actual := some (.number head.lastSequence) }
    else none
  | some last =>
    if head.lastSequence ≠ last.streamSequence then
      some {
        check := .streamHead
        streamSequence := some last.streamSequence
        eventId := some last.eventId
        expected := some (.number last.streamSequence)
        actual := some (.number head.lastSequence) }
    else if head.lastEventId ≠ some last.eventId ∨ head.lastEventSha256 ≠ some last.eventSha256 then
      some {
        check := .streamHead
        streamSequence := some last.streamSequence
        eventId := some last.eventId
        expected := some (.digest last.eventSha256)
        actual := head.lastEventSha256.map .digest }
    else none

/-- The variables of `_walk`. -/
structure Walk (J D : Type) where
  expectedSequence : Nat
  previousDigest : Option D
  last : Option (EventRow J D)
  result : StreamVerification D

/-- One event that passed its checks. -/
def Walk.advance (w : Walk J D) (row : EventRow J D) : Walk J D where
  expectedSequence := row.streamSequence + 1
  previousDigest := some row.eventSha256
  last := some row
  result := { w.result with
    firstSequence := w.result.firstSequence.or (some row.streamSequence)
    lastSequence := some row.streamSequence
    events := w.result.events + 1 }

/-- `rows.partitions(batch_size)`; `fuel` is the number of rows. -/
def partitions {α : Type} (batchSize : Nat) : Nat → List α → List (List α)
  | 0, _ => []
  | _ + 1, [] => []
  | fuel + 1, row :: rows =>
    (row :: rows).take batchSize :: partitions batchSize fuel ((row :: rows).drop batchSize)

/-- The rows of a stream from a sequence on, in sequence order. -/
def rowsFrom (events : List (EventRow J D)) (streamId : String) (since : Nat) : List (EventRow J D) :=
  ((streamEvents events streamId).filter (since ≤ ·.streamSequence)).insertionSort
    (·.streamSequence ≤ ·.streamSequence)

/-- `STREAM_PAGE_SIZE`. -/
def streamPageSize : Nat := 1000

/-- `DEFAULT_BATCH_SIZE`. -/
def defaultBatchSize : Nat := 500

/-- `_stream_ids`: one keyset page of every stream id with a head row or with events. -/
def streamIds (db : Db J D) (after : String) : List String :=
  let heads := page (sortedSet (db.streams.map (·.streamId))) streamPageSize after
  let events := page (sortedSet (db.events.map (·.streamId))) streamPageSize after
  (sortedSet (heads ++ events)).take streamPageSize

/-- `_check_count`. -/
def checkCount (db : Db J D) (streams : List (StreamVerification D)) (requested : List String) (since : Nat) :
    Option (IntegrityFailure D) :=
  let stored := db.events.countP fun row =>
    decide (since ≤ row.streamSequence) && (requested.isEmpty || decide (row.streamId ∈ requested))
  let walked := (streams.map (·.events)).sum
  if stored ≠ walked then
    some { check := .eventCount, expected := some (.number stored), actual := some (.number walked) }
  else none

section Verifier

variable [DecidableEq D]

/-- `_check_event`. -/
def checkEvent (sdk : Sdk J D) (row : EventRow J D) (expectedSequence : Nat) (previousDigest : Option D)
    (refs : List (EventContentRefRow D)) : Option (IntegrityFailure D) :=
  let fail (check : Check) (expected actual : Option (Shown D)) : Option (IntegrityFailure D) :=
    some ⟨check, some row.streamSequence, some row.eventId, expected, actual⟩
  if row.streamSequence ≠ expectedSequence then
    fail .sequence (some (.number expectedSequence)) (some (.number row.streamSequence))
  else if row.previousEventSha256 ≠ previousDigest then
    fail .previousEventSha256 (previousDigest.map .digest) (row.previousEventSha256.map .digest)
  else
    match rowToStoredEvent sdk row refs with
    | none => fail .eventDecode none none
    | some event =>
      if ¬ storedColumnsAreCanonical sdk row event then fail .eventDecode none none
      else if row.producerId ≠ sdk.producerId event.producer then
        fail .producerId (some (.text (sdk.producerId event.producer))) (some (.text row.producerId))
      else if sdk.payloadSha256 event ≠ some row.payloadSha256 then
        fail .payloadSha256 ((sdk.payloadSha256 event).map .digest) (some (.digest row.payloadSha256))
      else if sdk.eventSha256 event ≠ row.eventSha256 then
        fail .eventSha256 (some (.digest (sdk.eventSha256 event))) (some (.digest row.eventSha256))
      else none

/-! ## Walking a stream -/

def walkRows (sdk : Sdk J D) (refs : String → List (EventContentRefRow D)) :
    List (EventRow J D) → Walk J D → Option (IntegrityFailure D) × Walk J D
  | [], w => (none, w)
  | row :: rows, w =>
    match checkEvent sdk row w.expectedSequence w.previousDigest (refs row.eventId) with
    | some failure => (some failure, w)
    | none => walkRows sdk refs rows (w.advance row)

/-- The loop over the batches, counting them. -/
def walkBatches (sdk : Sdk J D) (db : Db J D) :
    List (List (EventRow J D)) → Walk J D → Nat → Option (IntegrityFailure D) × Walk J D × Nat
  | [], w, batches => (none, w, batches)
  | batch :: rest, w, batches =>
    match walkRows sdk (contentRefsOf db (batch.map (·.eventId))) batch w with
    | (some failure, w') => (some failure, w', batches + 1)
    | (none, w') => walkBatches sdk db rest w' (batches + 1)

/-- `_walk`: the result with its failure, and the number of batches fetched. -/
def walkStream (sdk : Sdk J D) (db : Db J D) (head : EventStreamRow D) (since batchSize : Nat) :
    StreamVerification D × Nat :=
  let before := (streamEvents db.events head.streamId).find? (·.streamSequence + 1 = since)
  let previousDigest := if 1 < since then before.map (·.eventSha256) else none
  let rows := rowsFrom db.events head.streamId since
  let start : StreamVerification D := { streamId := head.streamId }
  match (if 1 < since ∧ previousDigest = none then rows.head? else none) with
  | some later =>
    ({ start with failure := some {
        check := .sequence
        streamSequence := some later.streamSequence
        expected := some (.number (since - 1))
        actual := some (.number later.streamSequence) } }, 0)
  | none =>
    match walkBatches sdk db (partitions batchSize rows.length rows) ⟨since, previousDigest, none, start⟩ 0 with
    | (some failure, w, batches) => ({ w.result with failure := some failure }, batches)
    | (none, w, batches) =>
      -- nothing in range: the head must still name the stream's real last event
      let last := if w.last.isNone ∧ 1 < since then (rowsFrom db.events head.streamId 0).getLast? else w.last
      ({ w.result with failure := checkHead head last }, batches)

/-- `_verify_stream`. -/
def verifyStream (sdk : Sdk J D) (db : Db J D) (since batchSize : Nat) (streamId : String) :
    StreamVerification D × Nat :=
  match db.streamRow streamId with
  | none =>
    let check := if (streamEvents db.events streamId).isEmpty then Check.streamExists else .streamHeadMissing
    ({ streamId := streamId, failure := some { check := check } }, 0)
  | some head => walkStream sdk db head since batchSize

/-- `verify_ledger`. -/
def verifyLedger (sdk : Sdk J D) (db : Db J D) (streams : List String) (since batchSize : Nat) :
    Except String (LedgerVerification D) :=
  if since < 1 then .error "since_sequence must be at least 1"
  else if batchSize < 1 then .error "batch_size must be at least 1"
  else
    let requested := sortedSet streams
    let ids := if requested.isEmpty then walk (streamIds db) (db.streams.length + db.events.length + 1) ""
      else requested
    let verified := ids.map (verifyStream sdk db since batchSize)
    let report : LedgerVerification D := {
      streams := verified.map Prod.fst
      sinceSequence := since
      requestedStreams := requested
      batches := (verified.map Prod.snd).sum }
    .ok (if report.ok then { report with failure := checkCount db report.streams requested since } else report)

end Verifier

/-! ## What sound means -/

/-- The event of a row is what its columns and digests say: the columns decode, they are the canonical form
of what they decode to, and the denormalised column and both digests are the decoded event's. -/
def EventOk (sdk : Sdk J D) (db : Db J D) (row : EventRow J D) : Prop :=
  ∃ event, rowToStoredEvent sdk row (refsOf db row.eventId) = some event ∧
    storedColumnsAreCanonical sdk row event = true ∧ row.producerId = sdk.producerId event.producer ∧
    sdk.payloadSha256 event = some row.payloadSha256 ∧ sdk.eventSha256 event = row.eventSha256

/-- The chain invariant of a stream: its events, put in some order, are a hash chain of sound events, and its
head row holds the last of them; a stream with events has a head row. -/
def StreamOk (sdk : Sdk J D) (db : Db J D) (streamId : String) : Prop :=
  ∃ events, events.Perm (streamEvents db.events streamId) ∧ Chained links events ∧
    (∀ row ∈ events, EventOk sdk db row) ∧ (events ≠ [] → ∃ row ∈ db.streams, row.streamId = streamId) ∧
    ∀ row ∈ db.streams, row.streamId = streamId → row.head = headState events

/-- The constraints of the two tables the verifier relies on. -/
structure TablesWellFormed (db : Db J D) : Prop where
  streamsKey : (db.streams.map (·.streamId)).Nodup
  headMatchesSequence : ∀ row ∈ db.streams,
    (row.lastSequence = 0 ∧ row.lastEventId = none ∧ row.lastEventSha256 = none) ∨
      (0 < row.lastSequence ∧ row.lastEventId.isSome ∧ row.lastEventSha256.isSome)
  positiveSequence : ∀ row ∈ db.events, 0 < row.streamSequence

theorem contentRefsOf_eq {eventIds : List String} {eventId : String} (h : eventId ∈ eventIds) :
    contentRefsOf db eventIds eventId = refsOf db eventId := by
  unfold contentRefsOf refsOf
  rw [filter_filter]
  apply filter_congr
  intro ref _
  by_cases hid : ref.eventId = eventId <;> simp [hid, h]

variable {row : EventRow J D}

section Walking

variable [DecidableEq D] {sdk : Sdk J D} {db : Db J D}
variable {refs : String → List (EventContentRefRow D)} {rows : List (EventRow J D)}

theorem checkEvent_none {n : Nat} {p : Option D} : checkEvent sdk row n p (refsOf db row.eventId) = none ↔
      row.streamSequence = n ∧ row.previousEventSha256 = p ∧ EventOk sdk db row := by
  unfold checkEvent EventOk
  by_cases hseq : row.streamSequence = n
  · by_cases hprev : row.previousEventSha256 = p
    · simp only [hseq, hprev, ne_eq, not_true_eq_false, if_false, true_and]
      cases rowToStoredEvent sdk row (refsOf db row.eventId) with
      | none => simp
      | some event =>
        simp only [Option.some.injEq]
        by_cases h1 : storedColumnsAreCanonical sdk row event = true
        · by_cases h2 : row.producerId = sdk.producerId event.producer
          · by_cases h3 : sdk.payloadSha256 event = some row.payloadSha256
            · by_cases h4 : sdk.eventSha256 event = row.eventSha256
              · simp [h1, h2, h3, h4]
              · simp [h1, h2, h3, h4]
            · simp [h1, h2, h3]
          · simp [h1, h2]
        · simp [h1]
    · simp [hseq, hprev]
  · simp [hseq]

theorem walkRows_nil (w : Walk J D) : walkRows sdk refs [] w = (none, w) := rfl

theorem walkRows_cons (row : EventRow J D) (rows : List (EventRow J D)) (w : Walk J D) :
    walkRows sdk refs (row :: rows) w =
      match checkEvent sdk row w.expectedSequence w.previousDigest (refs row.eventId) with
      | some failure => (some failure, w)
      | none => walkRows sdk refs rows (w.advance row) := rfl

/-- **A walk without failure is a chain of sound events.** -/
theorem walkRows_none {w : Walk J D} {n : Nat} (hn : w.expectedSequence = n + 1) :
    (walkRows sdk (refsOf db) rows w).1 = none ↔
      ChainedFrom links n w.previousDigest rows ∧ ∀ row ∈ rows, EventOk sdk db row := by
  induction rows generalizing w n with
  | nil => simp [walkRows_nil, ChainedFrom]
  | cons row rows ih =>
    have hcheck : checkEvent sdk row (n + 1) w.previousDigest (refsOf db row.eventId) = none ↔
        row.streamSequence = n + 1 ∧ row.previousEventSha256 = w.previousDigest ∧ EventOk sdk db row := checkEvent_none
    rw [walkRows_cons, hn]
    cases hc : checkEvent sdk row (n + 1) w.previousDigest (refsOf db row.eventId) with
    | some failure =>
      rw [hc] at hcheck
      simp only [reduceCtorEq, false_iff, not_and]
      rintro ⟨hseq, hprev, -⟩ hok
      exact absurd (hcheck.2 ⟨hseq, hprev, hok row mem_cons_self⟩) (by simp)
    | none =>
      obtain ⟨hseq, hprev, hok⟩ := hcheck.1 hc
      have hadvance : (w.advance row).expectedSequence = n + 1 + 1 := congrArg (· + 1) hseq
      simp only [ih hadvance]
      constructor
      · rintro ⟨hchain, hall⟩
        exact ⟨⟨hseq, hprev, hchain⟩, forall_mem_cons.2 ⟨hok, hall⟩⟩
      · rintro ⟨⟨-, -, hchain⟩, hall⟩
        exact ⟨hchain, (forall_mem_cons.1 hall).2⟩

theorem walkRows_advance {w : Walk J D} (h : (walkRows sdk refs rows w).1 = none) :
    (walkRows sdk refs rows w).2 = rows.foldl Walk.advance w := by
  induction rows generalizing w with
  | nil => rfl
  | cons row rows ih =>
    rw [walkRows_cons] at h ⊢
    cases hc : checkEvent sdk row w.expectedSequence w.previousDigest (refs row.eventId) with
    | some failure =>
      rw [hc] at h
      cases h
    | none =>
      rw [hc] at h
      exact ih h

theorem walkRows_append (rows more : List (EventRow J D)) (w : Walk J D) : walkRows sdk refs (rows ++ more) w =
      match walkRows sdk refs rows w with
      | (some failure, w') => (some failure, w')
      | (none, w') => walkRows sdk refs more w' := by
  induction rows generalizing w with
  | nil => rfl
  | cons row rows ih =>
    rw [cons_append, walkRows_cons, walkRows_cons]
    cases checkEvent sdk row w.expectedSequence w.previousDigest (refs row.eventId) with
    | some failure => rfl
    | none => exact ih (w.advance row)

theorem walkRows_congr {refs refs' : String → List (EventContentRefRow D)}
    (h : ∀ row ∈ rows, refs row.eventId = refs' row.eventId) (w : Walk J D) :
    walkRows sdk refs rows w = walkRows sdk refs' rows w := by
  induction rows generalizing w with
  | nil => rfl
  | cons row rows ih =>
    rw [walkRows_cons, walkRows_cons, h row mem_cons_self]
    cases checkEvent sdk row w.expectedSequence w.previousDigest (refs' row.eventId) with
    | some failure => rfl
    | none => exact ih (fun row' h' => h row' (mem_cons_of_mem _ h')) _

theorem walkBatches_eq (sdk : Sdk J D) (db : Db J D) (batches : List (List (EventRow J D))) (w : Walk J D) (n : Nat) :
    ((walkBatches sdk db batches w n).1, (walkBatches sdk db batches w n).2.1) =
      walkRows sdk (refsOf db) batches.flatten w := by
  induction batches generalizing w n with
  | nil => rfl
  | cons batch rest ih =>
    rw [flatten_cons, walkRows_append]
    have hcongr : walkRows sdk (contentRefsOf db (batch.map (·.eventId))) batch w = walkRows sdk (refsOf db) batch w :=
      walkRows_congr (fun row hrow => contentRefsOf_eq (mem_map.2 ⟨row, hrow, rfl⟩)) w
    unfold walkBatches
    rw [hcongr]
    cases hw : walkRows sdk (refsOf db) batch w with
    | mk failure w' =>
      cases failure with
      | some failure => rfl
      | none => exact ih w' (n + 1)

end Walking

theorem partitions_flatten {α : Type} {batchSize : Nat} (hb : 0 < batchSize) : ∀ {fuel : Nat} {rows : List α},
    rows.length ≤ fuel → (partitions batchSize fuel rows).flatten = rows
  | 0, rows, h => by
    have : rows = [] := length_eq_zero_iff.1 (Nat.le_zero.1 h)
    simp [partitions, this]
  | fuel + 1, [], _ => rfl
  | fuel + 1, row :: rows, h => by
    have hlen : ((row :: rows).drop batchSize).length ≤ fuel := by
      rw [length_drop]
      simp only [length_cons] at h ⊢
      omega
    rw [partitions, flatten_cons, partitions_flatten hb hlen, take_append_drop]

theorem foldl_advance (rows : List (EventRow J D)) (w : Walk J D) :
    (rows.foldl Walk.advance w).last = rows.getLast?.or w.last ∧
      (rows.foldl Walk.advance w).result.events = w.result.events + rows.length := by
  induction rows generalizing w with
  | nil => simp
  | cons row rows ih =>
    obtain ⟨hlast, hevents⟩ := ih (w.advance row)
    constructor
    · rw [foldl_cons, hlast]
      cases rows with
      | nil => rfl
      | cons row' rows => simp [List.getLast?_eq_some_getLast]
    · rw [foldl_cons, hevents, length_cons]
      simp only [Walk.advance]
      omega

/-! ## Verifying a stream -/

theorem rowsFrom_perm {events : List (EventRow J D)} (hpos : ∀ row ∈ events, 0 < row.streamSequence) (sid : String) :
    (rowsFrom events sid 1).Perm (streamEvents events sid) := by
  have hall : (streamEvents events sid).filter (1 ≤ ·.streamSequence) = streamEvents events sid := by
    rw [filter_eq_self]
    intro row hrow
    exact decide_eq_true (hpos row (mem_streamEvents.1 hrow).1)
  unfold rowsFrom
  rw [hall]
  exact perm_insertionSort _ _

theorem rowsFrom_eq {events es : List (EventRow J D)} (hpos : ∀ row ∈ events, 0 < row.streamSequence)
    (hperm : es.Perm (streamEvents events sid)) (hchain : Chained links es) : rowsFrom events sid 1 = es := by
  have hseqs : es.map (·.streamSequence) = List.range' 1 es.length := hchain.seqs
  have hlt : es.Pairwise fun a b => a.streamSequence < b.streamSequence := by
    rw [← pairwise_map (f := fun row : EventRow J D => row.streamSequence) (R := (· < ·)), hseqs]
    exact pairwise_lt_range' 
  have hsorted : (rowsFrom events sid 1).Pairwise fun a b => a.streamSequence ≤ b.streamSequence := by
    unfold rowsFrom
    have : Std.Total fun a b : EventRow J D => a.streamSequence ≤ b.streamSequence :=
      ⟨fun a b => le_total a.streamSequence b.streamSequence⟩
    have : IsTrans (EventRow J D) fun a b => a.streamSequence ≤ b.streamSequence := ⟨fun _ _ _ h h' => le_trans h h'⟩
    exact pairwise_insertionSort _ _
  have hboth := (rowsFrom_perm hpos sid).trans hperm.symm
  refine hboth.eq_of_pairwise ?_ hsorted (hlt.imp fun h => le_of_lt h)
  intro a b ha hb hab hba
  have hnodup : (es.map (·.streamSequence)).Nodup := by
    rw [hseqs]
    exact nodup_range'
  exact inj_on_of_nodup_map hnodup (hboth.mem_iff.1 ha) hb (le_antisymm hab hba)

section Streams

variable [DecidableEq D] {sdk : Sdk J D} {db : Db J D} {batchSize : Nat}

theorem checkHead_none (tables : TablesWellFormed db) {head : EventStreamRow D} (hhead : head ∈ db.streams)
    (events : List (EventRow J D)) : checkHead head events.getLast? = none ↔ head.head = headState events := by
  unfold checkHead headState lastSeq lastDigest EventStreamRow.head
  cases events.getLast? with
  | none =>
    have := tables.headMatchesSequence head hhead
    by_cases h0 : head.lastSequence = 0
    · rcases this with ⟨-, hid, hsha⟩ | ⟨hpos, -⟩
      · simp [h0, hid, hsha]
      · omega
    · simp [h0]
  | some last =>
    by_cases hseq : head.lastSequence = last.streamSequence
    · by_cases hid : head.lastEventId = some last.eventId
      · by_cases hsha : head.lastEventSha256 = some last.eventSha256
        · simp [hseq, hid, hsha, links]
        · simp [hseq, hid, hsha, links]
      · simp [hseq, hid, links]
    · simp [hseq, links]

/-- A walk from the first sequence: the rows are a chain of sound events under the head, and all are counted. -/
theorem walkStream_full (hb : 0 < batchSize) (head : EventStreamRow D) :
    ((walkStream sdk db head 1 batchSize).1.ok = true ↔ (Chained links (rowsFrom db.events head.streamId 1) ∧
        ∀ row ∈ rowsFrom db.events head.streamId 1, EventOk sdk db row) ∧
        checkHead head (rowsFrom db.events head.streamId 1).getLast? = none) ∧
    ((walkStream sdk db head 1 batchSize).1.ok = true →
      (walkStream sdk db head 1 batchSize).1.events = (rowsFrom db.events head.streamId 1).length) := by
  obtain ⟨rows, hrows⟩ : ∃ rows, rows = rowsFrom db.events head.streamId 1 := ⟨_, rfl⟩
  obtain ⟨start, hstart⟩ : ∃ start : Walk J D, start = ⟨1, none, none, { streamId := head.streamId }⟩ := ⟨_, rfl⟩
  have hbatches := walkBatches_eq sdk db (partitions batchSize rows.length rows) start 0
  rw [partitions_flatten hb (Nat.le_refl _)] at hbatches
  have hnone : (walkRows sdk (refsOf db) rows start).1 = none ↔
      ChainedFrom links 0 start.previousDigest rows ∧ ∀ row ∈ rows, EventOk sdk db row :=
    walkRows_none (by rw [hstart])
  have hadvance : (walkRows sdk (refsOf db) rows start).1 = none →
      (walkRows sdk (refsOf db) rows start).2 = rows.foldl Walk.advance start := walkRows_advance
  rw [← hrows]
  unfold walkStream
  simp only [Nat.lt_irrefl, false_and, and_false, if_false]
  rw [← hrows, ← hstart]
  have hprev : start.previousDigest = none := by rw [hstart]
  rw [hprev] at hnone
  cases hw : walkBatches sdk db (partitions batchSize rows.length rows) start 0 with
  | mk failure rest =>
    obtain ⟨w, batches⟩ := rest
    rw [hw] at hbatches
    simp only at hbatches
    rw [← hbatches] at hnone
    rw [← hbatches] at hadvance
    cases failure with
    | some failure =>
      have hbad : ¬ (Chained links rows ∧ ∀ row ∈ rows, EventOk sdk db row) := fun h => absurd (hnone.2 h) (by simp)
      simp [StreamVerification.ok, hbad]
    | none =>
      have hgood : Chained links rows ∧ ∀ row ∈ rows, EventOk sdk db row := hnone.1 rfl
      have hfold : w = rows.foldl Walk.advance start := hadvance rfl
      obtain ⟨hlast, hevents⟩ := foldl_advance rows start
      rw [← hfold, hstart] at hlast hevents
      simp only [Option.or_none, Nat.zero_add] at hlast hevents
      simp only [StreamVerification.ok, hlast, hevents, Option.isNone_iff_eq_none]
      exact ⟨⟨fun h => ⟨hgood, h⟩, fun h => h.2⟩, fun _ => trivial⟩

/-- **A stream in the tables verifies exactly when it is sound.** -/
theorem verifyStream_ok (tables : TablesWellFormed db) (hb : 0 < batchSize) {sid : String}
    (hsid : (∃ row ∈ db.streams, row.streamId = sid) ∨ streamEvents db.events sid ≠ []) :
    (verifyStream sdk db 1 batchSize sid).1.ok = true ↔ StreamOk sdk db sid := by
  unfold verifyStream
  cases hrow : db.streamRow sid with
  | none =>
    have habsent := streamRow_eq_none.1 hrow
    have hevents : streamEvents db.events sid ≠ [] := by
      rcases hsid with ⟨row, hmem, hid⟩ | h
      · exact absurd hid (habsent row hmem)
      · exact h
    constructor
    · intro h
      simp [StreamVerification.ok] at h
    · rintro ⟨events, hperm, -, -, hhome, -⟩
      have hne : events ≠ [] := by
        rintro rfl
        exact hevents (perm_nil.1 hperm.symm)
      obtain ⟨row, hmem, hid⟩ := hhome hne
      exact absurd hid (habsent row hmem)
  | some head =>
    obtain ⟨hmem, rfl⟩ := streamRow_mem hrow
    have hunique : ∀ row ∈ db.streams, row.streamId = head.streamId → row = head := fun row hrow hid =>
      inj_on_of_nodup_map tables.streamsKey hrow hmem hid
    rw [(walkStream_full hb head).1, checkHead_none tables hmem]
    constructor
    · rintro ⟨⟨hchain, hok⟩, hhead⟩
      refine ⟨_, rowsFrom_perm tables.positiveSequence _, hchain, hok, fun _ => ⟨head, hmem, rfl⟩, ?_⟩
      intro row hrow hid
      rw [hunique row hrow hid]
      exact hhead
    · rintro ⟨events, hperm, hchain, hok, -, hheads⟩
      rw [rowsFrom_eq tables.positiveSequence hperm hchain]
      exact ⟨⟨hchain, hok⟩, hheads head hmem rfl⟩

theorem verifyStream_events (tables : TablesWellFormed db) (hb : 0 < batchSize) {sid : String}
    (h : (verifyStream sdk db 1 batchSize sid).1.ok = true) :
    (verifyStream sdk db 1 batchSize sid).1.events = (streamEvents db.events sid).length := by
  unfold verifyStream at h ⊢
  cases hrow : db.streamRow sid with
  | none =>
    rw [hrow] at h
    simp [StreamVerification.ok] at h
  | some head =>
    obtain ⟨hmem, rfl⟩ := streamRow_mem hrow
    rw [hrow] at h
    simp only at h ⊢
    rw [(walkStream_full hb head).2 h]
    exact (rowsFrom_perm tables.positiveSequence _).length_eq

end Streams

/-! ## A full run -/

theorem empty_lt {s : String} (h : s ≠ "") : "" < s := by
  rcases lt_trichotomy "" s with hlt | heq | hgt
  · exact hlt
  · exact absurd heq.symm h
  · rw [String.lt_iff_toList_lt] at hgt
    simp at hgt

/-- The stream ids a full run walks: all but the empty one, in order. -/
theorem walked_ids (db : Db J D) : walk (streamIds db) (db.streams.length + db.events.length + 1) "" =
    (sortedSet (db.streams.map (·.streamId) ++ db.events.map (·.streamId))).filter ("" < ·) := by
  have hpage : streamIds db =
      page (sortedSet (db.streams.map (·.streamId) ++ db.events.map (·.streamId))) streamPageSize :=
    funext fun after => page_union _ _ streamPageSize after
  rw [hpage]
  apply walk_pages (sortedSet_pairwise _) (by decide)
  have hfilter := length_filter_le (fun a => decide ("" < a))
    (sortedSet (db.streams.map (·.streamId) ++ db.events.map (·.streamId)))
  have hset : (sortedSet (db.streams.map (·.streamId) ++ db.events.map (·.streamId))).length ≤
      (db.streams.map (·.streamId) ++ db.events.map (·.streamId)).length := by
    apply List.Subperm.length_le
    exact (sortedSet_nodup _).subperm fun a ha => (mem_sortedSet _).1 ha
  simp only [length_append, length_map] at hset
  omega

theorem sum_streamEvents {ids : List String} (hnodup : ids.Nodup) (events : List (EventRow J D)) :
    (ids.map fun sid => (streamEvents events sid).length).sum = (events.filter (·.streamId ∈ ids)).length := by
  induction ids with
  | nil => simp
  | cons sid ids ih =>
    rw [nodup_cons] at hnodup
    rw [map_cons, sum_cons, ih hnodup.2]
    clear ih
    induction events with
    | nil => rfl
    | cons e events ih =>
      unfold streamEvents at ih ⊢
      by_cases h1 : e.streamId = sid
      · have h2 : e.streamId ∉ ids := h1 ▸ hnodup.1
        simp [h1, h1 ▸ h2] at ih ⊢
        omega
      · by_cases h2 : e.streamId ∈ ids
        · simp [h1, h2] at ih ⊢
          omega
        · simp [h1, h2] at ih ⊢
          omega

/-- The ids of the streams a full run verifies. -/
def fullIds (db : Db J D) : List String :=
  (sortedSet (db.streams.map (·.streamId) ++ db.events.map (·.streamId))).filter ("" < ·)

theorem mem_fullIds : sid ∈ fullIds db ↔
    ((∃ row ∈ db.streams, row.streamId = sid) ∨ streamEvents db.events sid ≠ []) ∧ sid ≠ "" := by
  unfold fullIds
  rw [mem_filter, mem_sortedSet, mem_append, mem_map, mem_map]
  have hne : "" < sid ↔ sid ≠ "" := ⟨fun h => (ne_of_lt h).symm, empty_lt⟩
  simp [hne, streamEvents_eq_nil]

theorem fullIds_nodup (db : Db J D) : (fullIds db).Nodup := (sortedSet_nodup _).filter _

/-- A stream without a head row and without events is sound. -/
theorem streamOk_absent {sdk : Sdk J D} (hrows : ∀ row ∈ db.streams, row.streamId ≠ sid)
    (hevents : streamEvents db.events sid = []) : StreamOk sdk db sid :=
  ⟨[], by rw [hevents], trivial, by simp, fun h => absurd rfl h, fun row hrow hid => absurd hid (hrows row hrow)⟩

section Full

variable [DecidableEq D] {sdk : Sdk J D} {db : Db J D} {batchSize : Nat}

theorem verifyLedger_full (sdk : Sdk J D) (db : Db J D) (hb : 0 < batchSize) :
    ∃ report, verifyLedger sdk db [] 1 batchSize = .ok report ∧ (report.ok = true ↔
      (∀ sid ∈ fullIds db, (verifyStream sdk db 1 batchSize sid).1.ok = true) ∧
        checkCount db ((fullIds db).map fun sid => (verifyStream sdk db 1 batchSize sid).1) [] 1 = none) := by
  have hids : walk (streamIds db) (db.streams.length + db.events.length + 1) "" = fullIds db := walked_ids db
  have hempty : sortedSet ([] : List String) = [] := rfl
  unfold verifyLedger
  rw [if_neg (by decide), if_neg (by omega)]
  refine ⟨_, rfl, ?_⟩
  simp only [hempty, isEmpty_nil, if_true, hids, map_map, Function.comp_def]
  by_cases hall : ∀ sid ∈ fullIds db, (verifyStream sdk db 1 batchSize sid).1.ok = true
  · have hok : ((fullIds db).map fun sid => (verifyStream sdk db 1 batchSize sid).1).all (·.ok) = true := by
      simpa using hall
    simp only [LedgerVerification.ok, Option.isNone_none, hok, if_true, Bool.and_true, Option.isNone_iff_eq_none]
    exact ⟨fun h => ⟨hall, h⟩, fun h => h.2⟩
  · have hok : ((fullIds db).map fun sid => (verifyStream sdk db 1 batchSize sid).1).all (·.ok) = false := by
      rw [Bool.eq_false_iff]
      simpa using hall
    simp only [LedgerVerification.ok, Option.isNone_none, Bool.true_and, hok, Bool.false_eq_true, if_false, false_iff]
    exact fun h => hall h.1

theorem checkCount_full (tables : TablesWellFormed db) (hb : 0 < batchSize)
    (hall : ∀ sid ∈ fullIds db, (verifyStream sdk db 1 batchSize sid).1.ok = true) :
    checkCount db ((fullIds db).map fun sid => (verifyStream sdk db 1 batchSize sid).1) [] 1 = none ↔
      ∀ row ∈ db.events, row.streamId ∈ fullIds db := by
  have hstored : (db.events.countP fun row => decide (1 ≤ row.streamSequence) &&
      (([] : List String).isEmpty || decide (row.streamId ∈ ([] : List String)))) = db.events.length := by
    rw [countP_eq_length]
    intro row hrow
    simp [Nat.succ_le_of_lt (tables.positiveSequence row hrow)]
  have hwalked : (((fullIds db).map fun sid => (verifyStream sdk db 1 batchSize sid).1).map (·.events)).sum =
      (db.events.filter (·.streamId ∈ fullIds db)).length := by
    rw [← sum_streamEvents (fullIds_nodup db), map_map]
    congr 1
    apply map_congr_left
    intro sid hsid
    exact verifyStream_events tables hb (hall sid hsid)
  unfold checkCount
  simp only [hstored, hwalked]
  constructor
  · intro h row hrow
    by_cases heq : db.events.length = (db.events.filter (·.streamId ∈ fullIds db)).length
    · simpa using length_filter_eq_length_iff.1 heq.symm row hrow
    · simp [heq] at h
  · intro h
    have heq : (db.events.filter (·.streamId ∈ fullIds db)).length = db.events.length :=
      length_filter_eq_length_iff.2 fun row hrow => by simpa using h row hrow
    simp [heq]

/-- **A full run is ok exactly when every stream is sound.** -/
theorem verifyLedger_ok (sdk : Sdk J D) (tables : TablesWellFormed db) (hb : 0 < batchSize)
    (hnames : ∀ row ∈ db.streams, row.streamId ≠ "") :
    ∃ report, verifyLedger sdk db [] 1 batchSize = .ok report ∧ (report.ok = true ↔ ∀ sid, StreamOk sdk db sid) := by
  obtain ⟨report, hreport, hok⟩ := verifyLedger_full sdk db hb
  refine ⟨report, hreport, hok.trans ?_⟩
  constructor
  · rintro ⟨hall, hcount⟩ sid
    have hevents := (checkCount_full tables hb hall).1 hcount
    by_cases hsid : sid ∈ fullIds db
    · exact (verifyStream_ok tables hb (mem_fullIds.1 hsid).1).1 (hall sid hsid)
    · have hnone : streamEvents db.events sid = [] := by
        rw [streamEvents_eq_nil]
        rintro row hrow rfl
        exact hsid (hevents row hrow)
      refine streamOk_absent ?_ hnone
      rintro row hrow rfl
      exact hsid (mem_fullIds.2 ⟨Or.inl ⟨row, hrow, rfl⟩, hnames row hrow⟩)
  · intro hsound
    have hall : ∀ sid ∈ fullIds db, (verifyStream sdk db 1 batchSize sid).1.ok = true := fun sid hsid =>
      (verifyStream_ok tables hb (mem_fullIds.1 hsid).1).2 (hsound sid)
    refine ⟨hall, (checkCount_full tables hb hall).2 ?_⟩
    intro row hrow
    have hmem : row ∈ streamEvents db.events row.streamId := mem_streamEvents.2 ⟨hrow, rfl⟩
    obtain ⟨events, hperm, -, -, hhome, -⟩ := hsound row.streamId
    obtain ⟨head, hhead, hid⟩ := hhome (ne_nil_of_mem (hperm.symm.mem_iff.1 hmem))
    exact mem_fullIds.2 ⟨Or.inr (ne_nil_of_mem hmem), hid ▸ hnames head hhead⟩

end Full

/-! ## Appends keep the ledger sound -/

section Appended

variable {sdk : Sdk J D} {db : Db J D}

theorem StoredAs.eventOk (law : sdk.Lawful) {e : StoredEvent J D} (h : StoredAs sdk db row e) :
    EventOk sdk db row := by
  have hread := h.rowToStoredEvent law
  have hrow := h.row_eq
  obtain ⟨draft, refs, n, p, hseal⟩ := h.origin
  obtain ⟨hpayload, hevent⟩ := law.seal_digests hseal
  refine ⟨e, hread, ?_, ?_, ?_, ?_⟩
  · have hcolumns : row.jsonColumns = e.jsonColumns := by
      rw [hrow]
      rfl
    unfold storedColumnsAreCanonical
    rw [hcolumns, all_eq_true]
    rintro ⟨stored, decoded⟩ hpair
    obtain ⟨hsame, hmem⟩ : stored = decoded ∧ stored ∈ e.jsonColumns := by
      rw [zip_eq_zipWith] at hpair
      have hself : List.zipWith Prod.mk e.jsonColumns e.jsonColumns = e.jsonColumns.map fun c => (c, c) := by
        simp [Envelope.jsonColumns]
      rw [hself, mem_map] at hpair
      obtain ⟨c, hc, heq⟩ := hpair
      cases heq
      exact ⟨rfl, hc⟩
    subst hsame
    obtain ⟨bytes, hbytes⟩ := Option.isSome_iff_exists.1 (law.seal_bytes hseal stored hmem)
    simp [hbytes]
  · rw [hrow]
    rfl
  · rw [hpayload, hrow]
    rfl
  · rw [hevent, hrow]
    rfl

/-- A ledger with its invariant is sound, and within the tables' constraints. -/
theorem LedgerInv.streamOk (law : sdk.Lawful) (inv : LedgerInv sdk db) (sid : String) : StreamOk sdk db sid := by
  refine ⟨_, List.Perm.refl _, inv.chained sid, ?_, ?_, ?_⟩
  · intro row hrow
    obtain ⟨e, he⟩ := inv.stored row (mem_streamEvents.1 hrow).1
    exact he.eventOk law
  · intro hne
    obtain ⟨row, hrow⟩ := exists_mem_of_ne_nil _ hne
    obtain ⟨home, hhome, hid⟩ := inv.homes row (mem_streamEvents.1 hrow).1
    exact ⟨home, hhome, hid.trans (mem_streamEvents.1 hrow).2⟩
  · rintro row hrow rfl
    exact inv.heads row hrow

theorem LedgerInv.wellFormed (inv : LedgerInv sdk db) : TablesWellFormed db where
  streamsKey := inv.streamIds
  headMatchesSequence := by
    intro row hrow
    have hhead := inv.heads row hrow
    have hlast : row.lastSequence = (streamEvents db.events row.streamId).length := by
      rw [← (inv.chained row.streamId).lastSeq]
      exact congrArg StreamState.sequence hhead
    have hid := congrArg StreamState.headEventId hhead
    have hsha := congrArg StreamState.headSha256 hhead
    simp only [EventStreamRow.head, headState, lastDigest] at hid hsha
    cases hevents : streamEvents db.events row.streamId with
    | nil =>
      rw [hevents] at hlast hid hsha
      exact Or.inl ⟨hlast, hid, hsha⟩
    | cons e es =>
      rw [hevents] at hlast hid hsha
      refine Or.inr ⟨by simp at hlast; omega, ?_, ?_⟩
      · rw [hid]
        simp
      · rw [hsha]
        simp
  positiveSequence := by
    intro row hrow
    have hmem : row ∈ streamEvents db.events row.streamId := mem_streamEvents.2 ⟨hrow, rfl⟩
    have hseq : row.streamSequence ∈ (streamEvents db.events row.streamId).map (links (J := J) (D := D)).seq :=
      mem_map.2 ⟨row, hmem, rfl⟩
    rw [(inv.chained row.streamId).seqs, mem_range'_1] at hseq
    omega

end Appended

/-! ## Tampering -/

/-- The event digest and the canonical form tell their arguments apart; the digest leaves
`integrity.event_sha256` out. -/
structure Sdk.Injective (sdk : Sdk J D) : Prop where
  bytes : ∀ {a b s}, sdk.canonicalJsonBytes a = some s → sdk.canonicalJsonBytes b = some s → a = b
  digest : ∀ {e f : StoredEvent J D}, sdk.eventSha256 e = sdk.eventSha256 f ↔
    ∀ h, { e with integrity := { e.integrity with eventSha256 := h } } =
      { f with integrity := { f.integrity with eventSha256 := h } }

/-- A change of a row in columns the seal covers: of any of them but `event_sha256`, or of `event_sha256`. -/
def SealedChange (row row' : EventRow J D) : Prop :=
  (row'.eventSha256 = row.eventSha256 ∧ { row' with recordedAt := row.recordedAt } ≠ row) ∨
    ∃ h, h ≠ row.eventSha256 ∧ row' = { row with eventSha256 := h }

/-- One change behind the ledger's back. -/
inductive Tampered (db : Db J D) : Db J D → Prop
  | event {front back : List (EventRow J D)} {row row' : EventRow J D} : db.events = front ++ row :: back →
      SealedChange row row' → Tampered db { db with events := front ++ row' :: back }
  | deleteEvent {front back : List (EventRow J D)} {row : EventRow J D} : db.events = front ++ row :: back →
      Tampered db { db with events := front ++ back }
  | head {front back : List (EventStreamRow D)} {row row' : EventStreamRow D} : db.streams = front ++ row :: back →
      row'.streamId = row.streamId → row'.head ≠ row.head → Tampered db { db with streams := front ++ row' :: back }
  | deleteHead {front back : List (EventStreamRow D)} {row : EventStreamRow D} : db.streams = front ++ row :: back →
      streamEvents db.events row.streamId ≠ [] → Tampered db { db with streams := front ++ back }

section Tampering

variable {sdk : Sdk J D} {db db' : Db J D}

/-- A sound row is what its own event digest was taken of. -/
theorem EventOk.raw (law : sdk.Lawful) (inj : sdk.Injective) (h : EventOk sdk db row) :
    sdk.eventSha256 (rawStoredEvent row (refsOf db row.eventId)) = row.eventSha256 ∧
      row.producerId = sdk.producerId row.producer := by
  obtain ⟨event, hread, hcanonical, hproducer, -, hdigest⟩ := h
  have hplain : event = { rawStoredEvent row (refsOf db row.eventId) with
      toEnvelope := row.toEnvelope.withJson event.toEnvelope } := law.stored_plain hread
  have hcolumns : row.jsonColumns = event.jsonColumns := by
    unfold storedColumnsAreCanonical at hcanonical
    have hpair : ∀ stored decoded : Option J, (match sdk.canonicalJsonBytes stored, sdk.canonicalJsonBytes decoded with
        | some a, some b => decide (a = b)
        | _, _ => false) = true → stored = decoded := by
      intro stored decoded hsame
      cases h1 : sdk.canonicalJsonBytes stored with
      | none => simp [h1] at hsame
      | some a =>
        cases h2 : sdk.canonicalJsonBytes decoded with
        | none => simp [h1, h2] at hsame
        | some b =>
          simp only [h1, h2, decide_eq_true_eq] at hsame
          exact inj.bytes h1 (hsame ▸ h2)
    simp only [Envelope.jsonColumns, zip_cons_cons, zip_nil_right, all_cons, all_nil,
      Bool.and_true, Bool.and_eq_true] at hcanonical
    obtain ⟨h1, h2, h3, h4, h5⟩ := hcanonical
    simp only [Envelope.jsonColumns]
    rw [hpair _ _ h1, hpair _ _ h2, hpair _ _ h3, hpair _ _ h4, hpair _ _ h5]
  have henv : row.toEnvelope.withJson event.toEnvelope = row.toEnvelope := by
    simp only [Envelope.jsonColumns, List.cons.injEq, Option.some.injEq, and_true] at hcolumns
    obtain ⟨h1, h2, h3, h4, h5⟩ := hcolumns
    simp only [Envelope.withJson, ← h1, ← h2, ← h3, ← h4, ← h5]
  rw [henv] at hplain
  have hevent : event = rawStoredEvent row (refsOf db row.eventId) := hplain
  constructor
  · rw [← hevent]
    exact hdigest
  · rw [hproducer, hevent]
    rfl

theorem StreamOk.event (h : StreamOk sdk db row.streamId) (hrow : row ∈ db.events) : EventOk sdk db row := by
  obtain ⟨events, hperm, -, hok, -, -⟩ := h
  exact hok row (hperm.symm.mem_iff.1 (mem_streamEvents.2 ⟨hrow, rfl⟩))

/-- Two sound rows under one event id's references are no sealed change of one another. -/
theorem sealedChange_found (law : sdk.Lawful) (inj : sdk.Injective) {row row' : EventRow J D}
    (h : EventOk sdk db row) (h' : EventOk sdk db row') : ¬ SealedChange row row' := by
  obtain ⟨hdigest, hproducer⟩ := h.raw law inj
  obtain ⟨hdigest', hproducer'⟩ := h'.raw law inj
  rintro (⟨hsha, hne⟩ | ⟨sha, hne, rfl⟩)
  · apply hne
    have hsame := inj.digest.1 (hdigest'.trans (hsha.trans hdigest.symm)) row.eventSha256
    simp only [rawStoredEvent, StoredEvent.mk.injEq, EventIntegrity.mk.injEq, and_true] at hsame
    obtain ⟨henv, hid, hseq, -, hpayload, hprevious⟩ := hsame
    have hproducerId : row'.producerId = row.producerId := by rw [hproducer', hproducer, henv]
    cases row
    cases row'
    simp only [EventRow.mk.injEq, true_and] at *
    exact ⟨henv, hid, hseq, hproducerId, hpayload, hprevious, hsha⟩
  · apply hne
    have hsame : sdk.eventSha256 (rawStoredEvent { row with eventSha256 := sha } (refsOf db row.eventId)) =
        sdk.eventSha256 (rawStoredEvent row (refsOf db row.eventId)) := inj.digest.2 fun _ => rfl
    exact hdigest'.symm.trans (hsame.trans hdigest)

/-- **Tampering leaves some stream unsound.** -/
theorem tampered_found (law : sdk.Lawful) (inj : sdk.Injective) (tables : TablesWellFormed db)
    (tables' : TablesWellFormed db') (sound : ∀ sid, StreamOk sdk db sid) (h : Tampered db db') :
    ¬ ∀ sid, StreamOk sdk db' sid := by
  intro sound'
  cases h with
  | @event front back row row' hsplit hchange =>
    have hrow : row ∈ db.events := by
      rw [hsplit]
      simp
    have hrow' : EventOk sdk { db with events := front ++ row' :: back } row' :=
      (sound' row'.streamId).event (by simp)
    exact sealedChange_found law inj ((sound row.streamId).event hrow) hrow' hchange
  | @deleteEvent front back row hsplit =>
    obtain ⟨es, hperm, hchain, -, hhome, hheads⟩ := sound row.streamId
    obtain ⟨es', hperm', hchain', -, -, hheads'⟩ := sound' row.streamId
    have hlen : es.length = es'.length + 1 := by
      rw [hperm.length_eq, hperm'.length_eq, hsplit]
      simp [streamEvents]
      omega
    obtain ⟨home, hmem, hid⟩ := hhome (by rintro rfl; simp at hlen)
    have hhead := (hheads home hmem hid).symm.trans (hheads' home hmem hid)
    have hseq : lastSeq links es = lastSeq links es' := congrArg StreamState.sequence hhead
    rw [hchain.lastSeq, hchain'.lastSeq] at hseq
    omega
  | @head front back row row' hsplit hid hne =>
    obtain ⟨es, hperm, hchain, -, -, hheads⟩ := sound row.streamId
    obtain ⟨es', hperm', hchain', -, -, hheads'⟩ := sound' row.streamId
    have heq : es = es' :=
      (rowsFrom_eq tables.positiveSequence hperm hchain).symm.trans
        (rowsFrom_eq tables.positiveSequence hperm' hchain')
    apply hne
    rw [hheads' row' (by simp) hid, hheads row (by rw [hsplit]; simp) rfl, heq]
  | @deleteHead front back row hsplit hevents =>
    obtain ⟨es', hperm', -, -, hhome', -⟩ := sound' row.streamId
    obtain ⟨home, hmem, hid⟩ := hhome' (by rintro rfl; exact hevents (perm_nil.1 hperm'.symm))
    have hkey := tables.streamsKey
    rw [hsplit, map_append, map_cons, nodup_append, nodup_cons] at hkey
    rcases mem_append.1 hmem with hmem | hmem
    · exact hkey.2.2 _ (mem_map.2 ⟨home, hmem, rfl⟩) _ mem_cons_self hid
    · exact hkey.2.1.1 (mem_map.2 ⟨home, hmem, hid⟩)

theorem Tampered.names (h : Tampered db db') (hnames : ∀ row ∈ db.streams, row.streamId ≠ "") :
    ∀ row ∈ db'.streams, row.streamId ≠ "" := by
  cases h with
  | event | deleteEvent => exact hnames
  | head hsplit hid hne =>
    intro row hrow
    rw [hsplit] at hnames
    rcases mem_append.1 hrow with hrow | hrow
    · exact hnames row (mem_append_left _ hrow)
    · rcases mem_cons.1 hrow with rfl | hrow
      · rw [hid]
        exact hnames _ (by simp)
      · exact hnames row (by simp [hrow])
  | deleteHead hsplit hevents =>
    intro row hrow
    rw [hsplit] at hnames
    rcases mem_append.1 hrow with hrow | hrow
    · exact hnames row (mem_append_left _ hrow)
    · exact hnames row (by simp [hrow])

variable [DecidableEq J] [DecidableEq D] {batchSize : Nat}

/-- **The verifier is sound and complete** for tables that meet their constraints and name no stream by the
empty string: a full run is ok exactly when every stream is sound, it is ok on every ledger that appends can
reach, and from an ok ledger no single change of a sealed column or a head column, and no deletion of an
event or of the head row of a stream with events, goes unreported. -/
theorem verify_ledger_exact (law : sdk.Lawful) (inj : sdk.Injective) (hb : 0 < batchSize) :
    (∀ db : Db J D, TablesWellFormed db → (∀ row ∈ db.streams, row.streamId ≠ "") →
      ∃ report, verifyLedger sdk db [] 1 batchSize = .ok report ∧ (report.ok = true ↔ ∀ sid, StreamOk sdk db sid)) ∧
    (∀ (lockKey : String × String → Int) (w : World J D), Transition.Reachable (step sdk lockKey) World.init w →
      (∀ row ∈ w.db.streams, row.streamId ≠ "") →
      ∃ report, verifyLedger sdk w.db [] 1 batchSize = .ok report ∧ report.ok = true) ∧
    ∀ (db db' : Db J D) (report : LedgerVerification D), TablesWellFormed db → TablesWellFormed db' →
      (∀ row ∈ db.streams, row.streamId ≠ "") → Tampered db db' →
      verifyLedger sdk db [] 1 batchSize = .ok report → report.ok = true →
      ∃ report', verifyLedger sdk db' [] 1 batchSize = .ok report' ∧ report'.ok = false := by
  refine ⟨fun db tables hnames => verifyLedger_ok sdk tables hb hnames, ?_, ?_⟩
  · intro lockKey w hw hnames
    have inv := (reachable_inv law hw).ledger
    obtain ⟨report, hreport, hok⟩ := verifyLedger_ok sdk inv.wellFormed hb hnames
    exact ⟨report, hreport, hok.2 (inv.streamOk law)⟩
  · intro db db' report tables tables' hnames htampered hreport hok
    obtain ⟨report₁, hreport₁, hok₁⟩ := verifyLedger_ok sdk tables hb hnames
    obtain ⟨report₂, hreport₂, hok₂⟩ := verifyLedger_ok sdk tables' hb (htampered.names hnames)
    rw [hreport] at hreport₁
    cases hreport₁
    refine ⟨report₂, hreport₂, ?_⟩
    rw [Bool.eq_false_iff]
    exact fun h => tampered_found law inj tables tables' (hok₁.1 hok) htampered (hok₂.1 h)

end Tampering

/-! ## Digests that are injective exist -/

theorem charToNat_injective : Function.Injective Char.toNat := fun _ _ h => Char.ext (UInt32.toNat_inj.1 h)

theorem stringToList_injective : Function.Injective String.toList := fun _ _ h => String.toList_inj.1 h

instance countableChar : Countable Char := charToNat_injective.countable
instance countableString : Countable String := stringToList_injective.countable

deriving instance Countable for ContentDisposition
deriving instance Countable for ContentStorage
deriving instance Countable for ContentClaim
deriving instance Countable for ContentRef
deriving instance Countable for Envelope
deriving instance Countable for EventIntegrity
deriving instance Countable for StoredEvent

/-- An SDK whose event digest numbers the events. -/
def numberingSdk (number : StoredEvent Unit Nat → Nat) : Sdk Unit Nat :=
  Sdk.plain (fun _ => "agent") (fun | none => "null" | some _ => "{}") (fun _ => 0) number

theorem numberingSdk_injective {number : StoredEvent Unit Nat → Nat} (h : Function.Injective number) :
    (numberingSdk number).Injective where
  bytes := by
    rintro (_ | ⟨⟩) (_ | ⟨⟩) s ha hb
    · rfl
    · exact absurd (ha.trans hb.symm) (by simp [numberingSdk, Sdk.plain])
    · exact absurd (ha.trans hb.symm) (by simp [numberingSdk, Sdk.plain])
    · rfl
  digest := by
    intro e f
    constructor
    · intro hnumber sha
      have hblank := h hnumber
      simp only [StoredEvent.mk.injEq, EventIntegrity.mk.injEq] at hblank ⊢
      obtain ⟨h1, h2, h3, h4, h5, h6, -⟩ := hblank
      exact ⟨h1, h2, h3, h4, h5, h6, trivial⟩
    · intro hsame
      have hbody := hsame e.integrity.payloadSha256
      simp only [StoredEvent.mk.injEq, EventIntegrity.mk.injEq] at hbody
      obtain ⟨h1, h2, h3, h4, h5, h6, -⟩ := hbody
      refine congrArg number ?_
      simp only [StoredEvent.mk.injEq, EventIntegrity.mk.injEq]
      exact ⟨h1, h2, h3, h4, h5, h6, h5⟩

theorem verify_ledger_exact_sample : ∃ (sdk : Sdk Unit Nat) (w : World Unit Nat) (report : LedgerVerification Nat),
    sdk.Lawful ∧ sdk.Injective ∧ w.db.events.length = 1 ∧
      verifyLedger sdk w.db [] 1 defaultBatchSize = .ok report ∧ report.ok = true := by
  obtain ⟨number, hnumber⟩ := exists_injective_nat (StoredEvent Unit Nat)
  have heval : (Transition.run (step (numberingSdk number) fun _ => 0) World.init
      [.start [sampleEvent "e1" "s" "k1"] sampleStamps, .exec 0, .exec 0, .exec 0, .commit 0]).map
        (fun w => (w.db.streams.map (·.streamId), w.db.events.length)) = some (["s"], 1) := rfl
  obtain ⟨w, hw, hrows⟩ := Option.map_eq_some_iff.1 heval
  have hnames : ∀ row ∈ w.db.streams, row.streamId ≠ "" := by
    intro row hrow heq
    have hmem : row.streamId ∈ w.db.streams.map (·.streamId) := List.mem_map.2 ⟨row, hrow, rfl⟩
    have hids : w.db.streams.map (·.streamId) = ["s"] := congrArg Prod.fst hrows
    rw [hids, heq] at hmem
    simp at hmem
  obtain ⟨report, hreport, hok⟩ := (verify_ledger_exact (Sdk.plain_lawful _ _ _ _) (numberingSdk_injective hnumber)
    (by decide : 0 < defaultBatchSize)).2.1 (fun _ => 0) w ⟨_, hw⟩ hnames
  exact ⟨_, w, report, Sdk.plain_lawful _ _ _ _, numberingSdk_injective hnumber, congrArg Prod.snd hrows, hreport, hok⟩

/-- Deleting the head row of a stream without events is not reported. -/
theorem verify_misses_empty_head : ∃ (db db' : Db Unit Nat) (head : EventStreamRow Nat)
    (report report' : LedgerVerification Nat), db.streams = [head] ∧ db' = { db with streams := [] } ∧
      verifyLedger sampleSdk db [] 1 defaultBatchSize = .ok report ∧ report.ok = true ∧
      verifyLedger sampleSdk db' [] 1 defaultBatchSize = .ok report' ∧ report'.ok = true :=
  ⟨{ Db.empty with streams := [seededRow "s"] }, _, seededRow "s", _, _, rfl, rfl, rfl, by decide, rfl, by decide⟩

end Ledger
