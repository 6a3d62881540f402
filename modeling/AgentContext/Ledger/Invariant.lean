import AgentContext.Ledger.Append
import AgentContext.Lib.HashChain

/-!
# The ledger invariant

What holds of the ledger's tables between transactions (`LedgerInv`) and of a transaction's session
while it runs (`SessionInv`), and that the steps of `append_with_outcome` keep both:

    lockStream_inv        locking a stream keeps SessionInv
    insertOrRecover_cases what one insert attempt can do
    create_inv            a created event keeps SessionInv
    SessionInv.commit     LedgerInv db → SessionInv db s → LedgerInv (commit db s)
    SessionInv.stable     another transaction's commit keeps SessionInv
-/

namespace Ledger

open HashChain List
open Projection (outboxRow)

variable {J D : Type}
variable {sid : String} {sdk : Sdk J D} {e : StoredEvent J D} {db : Db J D} {row : EventRow J D}
variable {s : Session J D} {events : List (EventRow J D)} {α β : Type}
variable {es : List (EventRow J D)} {xs : List (α × β)}

/-! ## Chains and heads -/

/-- How an event row carries its place in its stream. -/
def links : Links (EventRow J D) D := ⟨(·.streamSequence), (·.previousEventSha256), (·.eventSha256)⟩

def streamEvents (events : List (EventRow J D)) (streamId : String) : List (EventRow J D) :=
  events.filter (·.streamId = streamId)

def headState (events : List (EventRow J D)) : StreamState D where
  sequence := lastSeq links events
  headEventId := events.getLast?.map (·.eventId)
  headSha256 := lastDigest links events

def EventStreamRow.head (row : EventStreamRow D) : StreamState D :=
  ⟨row.lastSequence, row.lastEventId, row.lastEventSha256⟩

@[simp] theorem streamEvents_append (es fs : List (EventRow J D)) (sid : String) :
    streamEvents (es ++ fs) sid = streamEvents es sid ++ streamEvents fs sid := by
  simp [streamEvents]

theorem mem_streamEvents {e : EventRow J D} : e ∈ streamEvents es sid ↔ e ∈ es ∧ e.streamId = sid := by
  simp [streamEvents]

theorem streamEvents_eq_nil : streamEvents es sid = [] ↔ ∀ e ∈ es, e.streamId ≠ sid := by simp [streamEvents]

theorem streamEvents_singleton (e : EventRow J D) (sid : String) :
    streamEvents [e] sid = if e.streamId = sid then [e] else [] := by
  by_cases h : e.streamId = sid <;> simp [streamEvents, h]

@[simp] theorem headState_nil : headState ([] : List (EventRow J D)) = ⟨0, none, none⟩ := rfl

@[simp] theorem headState_snoc (es : List (EventRow J D)) (e : EventRow J D) :
    headState (es ++ [e]) = ⟨e.streamSequence, some e.eventId, some e.eventSha256⟩ := by
  simp [headState, links]

/-! ## Sealed events and their rows -/

instance : Std.Total (claimLe (D := D)) := ⟨fun a b => le_total a.contentId b.contentId⟩
instance : IsTrans (ContentClaim D) claimLe := ⟨fun _ _ _ h h' => le_trans (α := String) h h'⟩

/-- `e` was sealed by `_insert_or_recover`, from some draft and some head. -/
def Sealed (sdk : Sdk J D) (e : StoredEvent J D) : Prop :=
  ∃ draft refs n p, sdk.sealEvent (canonicalizeDraft draft) refs n p = some e

def storedIdentity (e : StoredEvent J D) : DraftIdentity J D :=
  ⟨e.toEnvelope, e.contentRefs.map ContentRef.toContentClaim⟩

/-- `row` and its reference rows hold the sealed event `e`. -/
structure StoredAs (sdk : Sdk J D) (db : Db J D) (row : EventRow J D) (e : StoredEvent J D) : Prop where
  origin : Sealed sdk e
  row_eq : row = eventRowFromSealed sdk e row.recordedAt
  refs : db.contentRefs.filter (·.eventId = row.eventId) = contentRefRowsFromSealed e

@[simp] theorem eventRowFromSealed_eventId (sdk : Sdk J D) (e : StoredEvent J D) (now : Nat) :
    (eventRowFromSealed sdk e now).eventId = e.eventId := rfl

@[simp] theorem eventRowFromSealed_streamId (sdk : Sdk J D) (e : StoredEvent J D) (now : Nat) :
    (eventRowFromSealed sdk e now).streamId = e.streamId := rfl

theorem sortClaims_perm (claims : List (ContentClaim D)) : (sortClaims claims).Perm claims :=
  perm_insertionSort _ _

theorem sortClaims_sorted (claims : List (ContentClaim D)) : (sortClaims claims).Pairwise claimLe :=
  pairwise_insertionSort _ _

theorem draftIdentity_canonicalize (draft : EventDraft J D) :
    draftIdentity (canonicalizeDraft draft) = draftIdentity draft := by
  have h : sortClaims (sortClaims draft.contentClaims) = sortClaims draft.contentClaims :=
    (sortClaims_sorted draft.contentClaims).insertionSort_eq
  exact congrArg (DraftIdentity.mk draft.toEnvelope) h

section

variable (law : sdk.Lawful)
include law

theorem Sealed.claims_sorted (h : Sealed sdk e) : (e.contentRefs.map ContentRef.toContentClaim).Pairwise claimLe := by
  obtain ⟨draft, refs, n, p, h⟩ := h
  rw [(law.seal_refs h).1]
  exact sortClaims_sorted _

theorem storedIdentity_of_seal {draft : EventDraft J D} {refs : List (ContentRef D)} {n : Nat}
    {p : Option D} (h : sdk.sealEvent (canonicalizeDraft draft) refs n p = some e) :
    storedIdentity e = draftIdentity draft := by
  unfold storedIdentity draftIdentity
  rw [(law.seal_refs h).1, (law.seal_envelope h).1]
  rfl

theorem StoredAs.existingDraftIdentity (h : StoredAs sdk db row e) :
    existingDraftIdentity sdk row (db.contentRefs.filter (·.eventId = row.eventId)) = some (storedIdentity e) := by
  have hclaims : (contentRefRowsFromSealed e).map (·.toContentClaim) =
      e.contentRefs.map ContentRef.toContentClaim := by
    simp [contentRefRowsFromSealed]
  have henv : row.toEnvelope = e.toEnvelope := by rw [h.row_eq]; rfl
  have hsorted := h.origin.claims_sorted law
  obtain ⟨draft, refs, n, p, hseal⟩ := h.origin
  have hvalid : sdk.validateDraft ⟨e.toEnvelope, e.contentRefs.map ContentRef.toContentClaim⟩ =
      some ⟨e.toEnvelope, e.contentRefs.map ContentRef.toContentClaim⟩ := by
    rw [(law.seal_envelope hseal).1, (law.seal_refs hseal).1]
    exact law.draft_valid hseal (List.Perm.refl _)
  rw [Ledger.existingDraftIdentity, h.refs, hclaims, henv, hvalid]
  simp only [Option.map_some, sortClaims, hsorted.insertionSort_eq]
  rfl

theorem rawStoredEvent_rows (h : Sealed sdk e) (at_ : Nat) :
    rawStoredEvent (eventRowFromSealed sdk e at_) (contentRefRowsFromSealed e) = e := by
  have hsorted : (contentRefRowsFromSealed e).Pairwise refRowLe := by
    have := h.claims_sorted law
    rw [pairwise_map] at this
    rw [contentRefRowsFromSealed, pairwise_map]
    exact this
  unfold rawStoredEvent
  rw [hsorted.insertionSort_eq]
  simp [contentRefRowsFromSealed, eventRowFromSealed, Function.comp_def]

theorem Sealed.valid (h : Sealed sdk e) : sdk.validateStored e = some e := by
  obtain ⟨draft, refs, n, p, h⟩ := h
  exact law.seal_valid h

theorem StoredAs.rowToStoredEvent (h : StoredAs sdk db row e) :
    rowToStoredEvent sdk row (db.contentRefs.filter (·.eventId = row.eventId)) = some e := by
  rw [Ledger.rowToStoredEvent, h.refs, h.row_eq, rawStoredEvent_rows law h.origin]
  exact h.origin.valid law

theorem StoredAs.unique {e e' : StoredEvent J D} (h : StoredAs sdk db row e)
    (h' : StoredAs sdk db row e') : e = e' := by
  have h1 := h.rowToStoredEvent law
  rw [h'.rowToStoredEvent law] at h1
  exact (Option.some.inj h1).symm

end

theorem StoredAs.key (h : StoredAs sdk db row e) : row.key = (sdk.producerId e.producer, e.idempotencyKey) := by
  rw [h.row_eq]; rfl

theorem StoredAs.eventId (h : StoredAs sdk db row e) : row.eventId = e.eventId := by rw [h.row_eq]; rfl

theorem StoredAs.streamId (h : StoredAs sdk db row e) : row.streamId = e.streamId := by rw [h.row_eq]; rfl

/-! ## The tables -/

/-- The rows of a ledger, head columns aside: also what a running transaction sees. -/
structure RowsInv (sdk : Sdk J D) (db : Db J D) : Prop where
  eventIds : (db.events.map (·.eventId)).Nodup
  keys : (db.events.map (·.key)).Nodup
  outbox : db.outbox.map (·.eventId) = db.events.map (·.eventId)
  streamIds : (db.streams.map (·.streamId)).Nodup
  chained : ∀ sid, Chained links (streamEvents db.events sid)
  homes : ∀ e ∈ db.events, ∃ row ∈ db.streams, row.streamId = e.streamId
  stored : ∀ row ∈ db.events, ∃ e, StoredAs sdk db row e
  refHomes : ∀ c ∈ db.contentRefs, ∃ row ∈ db.events, row.eventId = c.eventId

structure LedgerInv (sdk : Sdk J D) (db : Db J D) : Prop extends RowsInv sdk db where
  heads : ∀ row ∈ db.streams, row.head = headState (streamEvents db.events row.streamId)

theorem LedgerInv.empty (sdk : Sdk J D) : LedgerInv sdk Db.empty where
  eventIds := nodup_nil
  keys := nodup_nil
  outbox := rfl
  streamIds := nodup_nil
  chained := fun _ => trivial
  homes := by simp [Db.empty]
  stored := by simp [Db.empty]
  refHomes := by simp [Db.empty]
  heads := by simp [Db.empty]

def Session.locked (s : Session J D) : List String := s.streamState.map Prod.fst

/-- A running transaction's rows and variables, on the tables `db` committed so far. -/
structure SessionInv (sdk : Sdk J D) (db : Db J D) (s : Session J D) : Prop where
  rows : RowsInv sdk (db ++ s.writes)
  outbox : s.writes.outbox.map (·.eventId) = s.writes.events.map (·.eventId)
  refHomes : ∀ c ∈ s.writes.contentRefs, ∃ row ∈ s.writes.events, row.eventId = c.eventId
  locked : s.locked.Nodup
  states : ∀ sid state, (sid, state) ∈ s.streamState →
    state = headState (streamEvents (db ++ s.writes).events sid)
  active : ∀ sid ∈ s.locked, ∃ row ∈ (db ++ s.writes).streams, row.streamId = sid ∧ row.status = .active
  touched : ∀ sid, sid ∈ s.touchedStreams ↔ ∃ e ∈ s.writes.events, e.streamId = sid
  writesLocked : ∀ e ∈ s.writes.events, e.streamId ∈ s.locked
  seeds : ∀ row ∈ s.writes.streams, row.streamId ∈ s.locked ∧ row = seededRow row.streamId

theorem Db.append_empty (db : Db J D) : db ++ (Db.empty : Db J D) = db := by
  show Db.mk _ _ _ _ _ = db
  simp [Db.empty]

theorem SessionInv.start (inv : LedgerInv sdk db) : SessionInv sdk db Session.start where
  rows := by
    show RowsInv sdk (db ++ (Db.empty : Db J D))
    rw [Db.append_empty]
    exact inv.toRowsInv
  outbox := rfl
  refHomes := by simp [Session.start, Db.empty]
  locked := nodup_nil
  states := by simp [Session.start]
  active := by simp [Session.start, Session.locked]
  touched := by simp [Session.start, Db.empty]
  writesLocked := by simp [Session.start, Db.empty]
  seeds := by simp [Session.start, Db.empty]

/-! ## Locking a stream -/

theorem streamRow_mem {row : EventStreamRow D} (h : db.streamRow sid = some row) :
    row ∈ db.streams ∧ row.streamId = sid :=
  ⟨List.mem_of_find?_eq_some h, by simpa using List.find?_some h⟩

theorem streamRow_eq_none : db.streamRow sid = none ↔ ∀ row ∈ db.streams, row.streamId ≠ sid := by simp [Db.streamRow]

theorem SessionInv.unlocked (inv : SessionInv sdk db s) (h : sid ∉ s.locked) :
    streamEvents s.writes.events sid = [] := by
  rw [streamEvents_eq_nil]
  rintro e he rfl
  exact h (inv.writesLocked e he)

theorem nodup_map_snoc {as : List α} {a : α} {f : α → β} (h : (as.map f).Nodup) (hnew : ∀ b ∈ as, f b ≠ f a) :
    ((as ++ [a]).map f).Nodup := by
  rw [map_append, nodup_append]
  refine ⟨h, by simp, ?_⟩
  rintro _ hb _ ha
  obtain ⟨b, hmem, rfl⟩ := mem_map.1 hb
  exact mem_singleton.1 ha ▸ hnew b hmem

theorem locked_snoc {state : StreamState D} (inv : SessionInv sdk db s) (hsid : sid ∉ s.locked) :
    ((s.streamState ++ [(sid, state)]).map Prod.fst).Nodup :=
  nodup_map_snoc inv.locked fun b hmem heq => hsid (mem_map.2 ⟨b, hmem, heq⟩)

theorem lockStream_seeded (inv : SessionInv sdk db s) (hnew : (db ++ s.writes).streamRow sid = none) :
    SessionInv sdk db { s with
      writes := { s.writes with streams := s.writes.streams ++ [seededRow sid] }
      streamState := s.streamState ++ [(sid, ⟨0, none, none⟩)] } := by
  have habsent := streamRow_eq_none.1 hnew
  have hempty : streamEvents (db ++ s.writes).events sid = [] := by
    rw [streamEvents_eq_nil]
    intro e he heq
    obtain ⟨row, hrow, hid⟩ := inv.rows.homes e he
    exact habsent row hrow (hid.trans heq)
  have hsid : sid ∉ s.locked := by
    intro hmem
    obtain ⟨row, hrow, hid, -⟩ := inv.active sid hmem
    exact habsent row hrow hid
  constructor
  · constructor
    · exact inv.rows.eventIds
    · exact inv.rows.keys
    · exact inv.rows.outbox
    · show (List.map EventStreamRow.streamId (db.streams ++ (s.writes.streams ++ [seededRow sid]))).Nodup
      rw [← append_assoc]
      exact nodup_map_snoc inv.rows.streamIds habsent
    · exact inv.rows.chained
    · intro e he
      obtain ⟨row, hrow, hid⟩ := inv.rows.homes e he
      refine ⟨row, ?_, hid⟩
      show row ∈ db.streams ++ (s.writes.streams ++ [seededRow sid])
      rw [← append_assoc]
      exact mem_append_left _ hrow
    · exact fun row hrow => (inv.rows.stored row hrow).imp fun e he => ⟨he.origin, he.row_eq, he.refs⟩
    · exact inv.rows.refHomes
  · exact inv.outbox
  · exact inv.refHomes
  · show ((s.streamState ++ [(sid, (⟨0, none, none⟩ : StreamState D))]).map Prod.fst).Nodup
    exact locked_snoc inv hsid
  · intro sid' state h
    rcases mem_append.1 h with h | h
    · exact inv.states sid' state h
    · simp only [mem_singleton, Prod.mk.injEq] at h
      obtain ⟨rfl, rfl⟩ := h
      show _ = headState (streamEvents (db ++ s.writes).events sid')
      rw [hempty]
      rfl
  · intro sid' h
    show ∃ row ∈ db.streams ++ (s.writes.streams ++ [seededRow sid]), _
    rw [← append_assoc]
    simp only [Session.locked, map_append, map_cons, map_nil, mem_append, mem_singleton] at h
    rcases h with h | rfl
    · obtain ⟨row, hrow, hid⟩ := inv.active sid' h
      exact ⟨row, mem_append_left _ hrow, hid⟩
    · exact ⟨seededRow sid', by simp, rfl, rfl⟩
  · exact inv.touched
  · intro e he
    simp only [Session.locked, map_append, mem_append]
    exact Or.inl (inv.writesLocked e he)
  · intro row hrow
    simp only [Session.locked, map_append, mem_append]
    rcases mem_append.1 hrow with hrow | hrow
    · exact ⟨Or.inl (inv.seeds row hrow).1, (inv.seeds row hrow).2⟩
    · simp only [mem_singleton] at hrow
      subst hrow
      exact ⟨Or.inr (by simp [seededRow]), rfl⟩

theorem lockStream_found {row : EventStreamRow D} (base : LedgerInv sdk db) (inv : SessionInv sdk db s)
    (hsid : sid ∉ s.locked) (hrow : (db ++ s.writes).streamRow sid = some row) (hactive : row.status = .active) :
    SessionInv sdk db { s with streamState := s.streamState ++ [(sid, row.head)] } := by
  obtain ⟨hmem, hid⟩ := streamRow_mem hrow
  have hhead : row.head = headState (streamEvents (db ++ s.writes).events sid) := by
    rcases mem_append.1 hmem with hdb | hseed
    · rw [base.heads row hdb, hid, Db.append_events, streamEvents_append, inv.unlocked hsid, append_nil]
    · exact absurd (hid ▸ (inv.seeds row hseed).1) hsid
  constructor
  · exact inv.rows
  · exact inv.outbox
  · exact inv.refHomes
  · show ((s.streamState ++ [(sid, row.head)]).map Prod.fst).Nodup
    exact locked_snoc inv hsid
  · intro sid' state h
    rcases mem_append.1 h with h | h
    · exact inv.states sid' state h
    · simp only [mem_singleton, Prod.mk.injEq] at h
      obtain ⟨rfl, rfl⟩ := h
      exact hhead
  · intro sid' h
    simp only [Session.locked, map_append, map_cons, map_nil, mem_append, mem_singleton] at h
    rcases h with h | rfl
    · exact inv.active sid' h
    · exact ⟨row, hmem, hid, hactive⟩
  · exact inv.touched
  · intro e he
    simp only [Session.locked, map_append, mem_append]
    exact Or.inl (inv.writesLocked e he)
  · intro seed hseed
    simp only [Session.locked, map_append, mem_append]
    exact ⟨Or.inl (inv.seeds seed hseed).1, (inv.seeds seed hseed).2⟩

theorem lockStream_cases (db : Db J D) (sid : String) (s : Session J D) :
    (∃ row, (db ++ s.writes).streamRow sid = some row ∧ row.status = .quarantined ∧
      lockStream db sid s = .error (.streamQuarantined sid)) ∨
    (∃ row, (db ++ s.writes).streamRow sid = some row ∧ row.status = .active ∧
      lockStream db sid s = .ok { s with streamState := s.streamState ++ [(sid, row.head)] }) ∨
    ((db ++ s.writes).streamRow sid = none ∧
      lockStream db sid s = .ok { s with
        writes := { s.writes with streams := s.writes.streams ++ [seededRow sid] }
        streamState := s.streamState ++ [(sid, ⟨0, none, none⟩)] }) := by
  unfold lockStream
  cases hrow : (db ++ s.writes).streamRow sid with
  | none => exact Or.inr (Or.inr ⟨rfl, rfl⟩)
  | some row =>
    cases hstatus : row.status with
    | quarantined => exact Or.inl ⟨row, rfl, hstatus, by simp [hstatus]⟩
    | active => exact Or.inr (Or.inl ⟨row, rfl, hstatus, by simp [hstatus, EventStreamRow.head]⟩)

/-- **Locking a stream keeps the session invariant.** -/
theorem lockStream_inv {s s' : Session J D} (base : LedgerInv sdk db) (inv : SessionInv sdk db s)
    (hsid : sid ∉ s.locked) (h : lockStream db sid s = .ok s') :
    SessionInv sdk db s' ∧ s'.locked = s.locked ++ [sid] ∧ s'.results = s.results ∧
      s'.writes.events = s.writes.events ∧ s'.writes.contentRefs = s.writes.contentRefs := by
  rcases lockStream_cases db sid s with ⟨row, -, -, he⟩ | ⟨row, hrow, hactive, he⟩ | ⟨hnew, he⟩
  · rw [he] at h
    cases h
  · rw [he] at h
    cases h
    exact ⟨lockStream_found base inv hsid hrow hactive, by simp [Session.locked], rfl, rfl, rfl⟩
  · rw [he] at h
    cases h
    exact ⟨lockStream_seeded inv hnew, by simp [Session.locked], rfl, rfl, rfl⟩

/-! ## Inserting an event -/

theorem violation_eq_none (h : violation events row = none) :
    (∀ e ∈ events, e.eventId ≠ row.eventId) ∧ (∀ e ∈ events, e.key ≠ row.key) := by
  unfold violation at h
  split at h
  · cases h
  · next hpk =>
    split at h
    · cases h
    · next hkey =>
      simp only [List.find?_eq_none, decide_eq_true_eq] at hpk hkey
      exact ⟨hpk, hkey⟩

theorem violation_eventPk {row existing : EventRow J D} (h : violation events row = some (.eventPk existing)) :
    existing ∈ events ∧ existing.eventId = row.eventId := by
  unfold violation at h
  split at h
  · next hpk =>
    cases h
    exact ⟨List.mem_of_find?_eq_some hpk, by simpa using List.find?_some hpk⟩
  · split at h
    · cases h
    · split at h <;> cases h

theorem violation_idempotency {row existing : EventRow J D}
    (h : violation events row = some (.idempotency existing)) : existing ∈ events ∧ existing.key = row.key := by
  unfold violation at h
  split at h
  · cases h
  · split at h
    · next hkey =>
      cases h
      exact ⟨List.mem_of_find?_eq_some hkey, by simpa using List.find?_some hkey⟩
    · split at h <;> cases h

theorem violation_streamSequence (h : violation events row = some .streamSequence) :
    ∃ e ∈ events, e.streamId = row.streamId ∧ e.streamSequence = row.streamSequence := by
  unfold violation at h
  split at h
  · cases h
  · split at h
    · cases h
    · split at h
      · next hany =>
        obtain ⟨e, he, hp⟩ := any_eq_true.1 hany
        exact ⟨e, he, by simpa using hp⟩
      · cases h

/-- A chain has no event at the number after its last. -/
theorem RowsInv.no_next_sequence (inv : RowsInv sdk db) {e : EventRow J D} (he : e ∈ db.events) :
    e.streamSequence ≠ (headState (streamEvents db.events e.streamId)).sequence + 1 := by
  have hchain := inv.chained e.streamId
  have hmem : e ∈ streamEvents db.events e.streamId := mem_streamEvents.2 ⟨he, rfl⟩
  have hseqs := hchain.seqs
  have hlast := hchain.lastSeq
  have hle : e.streamSequence ∈ (streamEvents db.events e.streamId).map (links (J := J) (D := D)).seq :=
    mem_map.2 ⟨e, hmem, rfl⟩
  rw [hseqs, mem_range'_1] at hle
  show e.streamSequence ≠ lastSeq links _ + 1
  rw [hlast]
  omega

theorem lookup_mem [BEq α] [LawfulBEq α] {a : α} {b : β} (h : xs.lookup a = some b) : (a, b) ∈ xs := by
  induction xs with
  | nil => simp at h
  | cons x xs ih =>
    obtain ⟨k, v⟩ := x
    rw [lookup_cons] at h
    split at h
    · next hk =>
      cases h
      rw [beq_iff_eq] at hk
      exact hk ▸ mem_cons_self
    · exact mem_cons_of_mem _ (ih h)

theorem lookup_isSome_of_mem [BEq α] [LawfulBEq α] {a : α} (h : a ∈ xs.map Prod.fst) : ∃ b, xs.lookup a = some b := by
  induction xs with
  | nil => simp at h
  | cons x xs ih =>
    obtain ⟨k, v⟩ := x
    rw [lookup_cons]
    split
    · exact ⟨v, rfl⟩
    · next hk =>
      rcases mem_cons.1 h with h | h
      · simp only at h
        simp [h] at hk
      · exact ih h

@[simp] theorem setStreamState_keys (states : List (String × StreamState D)) (sid : String)
    (state : StreamState D) : (setStreamState states sid state).map Prod.fst = states.map Prod.fst := by
  unfold setStreamState
  rw [map_map]
  apply map_congr_left
  rintro ⟨sid', old⟩ -
  by_cases h : sid' = sid <;> simp [h]

theorem mem_setStreamState {states : List (String × StreamState D)} {sid sid' : String}
    {state state' : StreamState D} (h : (sid', state') ∈ setStreamState states sid state) :
    (sid' = sid ∧ state' = state) ∨ (sid' ≠ sid ∧ (sid', state') ∈ states) := by
  obtain ⟨⟨sid₀, old⟩, hmem, heq⟩ := mem_map.1 h
  by_cases hs : sid₀ = sid
  · simp only [hs, if_true, Prod.mk.injEq] at heq
    exact Or.inl ⟨heq.1.symm, heq.2.symm⟩
  · simp only [hs, if_false, Prod.mk.injEq] at heq
    obtain ⟨rfl, rfl⟩ := heq
    exact Or.inr ⟨hs, hmem⟩

section Create

variable {sdk : Sdk J D} {db : Db J D} {s : Session J D} {resolved : ResolvedEvent J D} {stamp : Stamp}
  {e : StoredEvent J D} {refs : List (ContentRef D)} {state : StreamState D}

theorem create_stored_old (hids : ∀ row ∈ (db ++ s.writes).events, row.eventId ≠ e.eventId)
    {row : EventRow J D} {old : StoredEvent J D} (hrow : row ∈ (db ++ s.writes).events)
    (h : StoredAs sdk (db ++ s.writes) row old) :
    StoredAs sdk (db ++ (s.create sdk resolved stamp e).writes) row old := by
  refine ⟨h.origin, h.row_eq, ?_⟩
  have hnone : (contentRefRowsFromSealed e).filter (·.eventId = row.eventId) = [] := by
    rw [filter_eq_nil_iff]
    intro c hc
    obtain ⟨ref, -, rfl⟩ := mem_map.1 hc
    simpa using (hids row hrow).symm
  show List.filter _ (db.contentRefs ++ (s.writes.contentRefs ++ contentRefRowsFromSealed e)) = _
  rw [← append_assoc, filter_append, hnone, append_nil]
  exact h.refs

theorem create_stored_new (inv : SessionInv sdk db s) (origin : Sealed sdk e)
    (hids : ∀ row ∈ (db ++ s.writes).events, row.eventId ≠ e.eventId) :
    StoredAs sdk (db ++ (s.create sdk resolved stamp e).writes) (eventRowFromSealed sdk e stamp.now) e := by
  refine ⟨origin, rfl, ?_⟩
  have hnone : (db ++ s.writes).contentRefs.filter (·.eventId = e.eventId) = [] := by
    rw [filter_eq_nil_iff]
    intro c hc
    obtain ⟨row, hrow, hid⟩ := inv.rows.refHomes c hc
    simpa [← hid] using hids row hrow
  show List.filter _ (db.contentRefs ++ (s.writes.contentRefs ++ contentRefRowsFromSealed e)) = _
  rw [← append_assoc, filter_append]
  refine (congrArg (· ++ _) hnone).trans ?_
  rw [nil_append, filter_eq_self]
  intro c hc
  obtain ⟨ref, -, rfl⟩ := mem_map.1 hc
  simp

theorem create_rows (law : sdk.Lawful) (inv : SessionInv sdk db s)
    (hstate : s.streamState.lookup (canonicalizeDraft resolved.draft).streamId = some state)
    (hseal : sdk.sealEvent (canonicalizeDraft resolved.draft) refs (state.sequence + 1) state.headSha256 = some e)
    (hfree : violation (db ++ s.writes).events (eventRowFromSealed sdk e stamp.now) = none) :
    RowsInv sdk (db ++ (s.create sdk resolved stamp e).writes) := by
  obtain ⟨hids, hkeys⟩ := violation_eq_none hfree
  have hstream : e.streamId = (canonicalizeDraft resolved.draft).streamId := by rw [(law.seal_envelope hseal).1]
  have hhead := inv.states _ _ (lookup_mem hstate)
  rw [← hstream] at hhead
  have hevents : (db ++ (s.create sdk resolved stamp e).writes).events =
      (db ++ s.writes).events ++ [eventRowFromSealed sdk e stamp.now] := by
    simp [Session.create]
  have hrefs : (db ++ (s.create sdk resolved stamp e).writes).contentRefs =
      (db ++ s.writes).contentRefs ++ contentRefRowsFromSealed e := by
    simp [Session.create]
  have hnewRefs : ∀ c ∈ contentRefRowsFromSealed e, c.eventId = e.eventId := by
    intro c hc
    obtain ⟨ref, -, rfl⟩ := mem_map.1 hc
    rfl
  constructor
  · rw [hevents]
    exact nodup_map_snoc inv.rows.eventIds hids
  · rw [hevents]
    exact nodup_map_snoc inv.rows.keys hkeys
  · have := inv.rows.outbox
    simp only [Db.append_outbox, Db.append_events, map_append] at this
    simp only [Session.create, Db.append_outbox, Db.append_events, map_append, ← append_assoc, this]
    simp [outboxRow, eventRowFromSealed]
  · exact inv.rows.streamIds
  · intro sid
    rw [hevents, streamEvents_append, streamEvents_singleton]
    split
    · next hsid =>
      rw [chained_snoc]
      have hchain := inv.rows.chained sid
      have hsid' : e.streamId = sid := hsid
      rw [hsid'] at hhead
      refine ⟨hchain, ?_, ?_⟩
      · show e.streamSequence = _
        rw [(law.seal_chain hseal).1, hhead, ← hchain.lastSeq]
        rfl
      · show e.integrity.previousEventSha256 = _
        rw [(law.seal_chain hseal).2, hhead]
        rfl
    · rw [append_nil]
      exact inv.rows.chained sid
  · intro row hrow
    rw [hevents] at hrow
    rcases mem_append.1 hrow with hrow | hrow
    · exact inv.rows.homes row hrow
    · simp only [mem_singleton] at hrow
      subst hrow
      obtain ⟨home, hmem, hid, -⟩ := inv.active e.streamId (by
        rw [hstream]
        exact mem_map.2 ⟨_, lookup_mem hstate, rfl⟩)
      exact ⟨home, hmem, hid⟩
  · intro row hrow
    rw [hevents] at hrow
    rcases mem_append.1 hrow with hrow | hrow
    · exact (inv.rows.stored row hrow).imp fun _ => create_stored_old hids hrow
    · simp only [mem_singleton] at hrow
      subst hrow
      exact ⟨e, create_stored_new inv ⟨resolved.draft, refs, _, _, hseal⟩ hids⟩
  · intro c hc
    rw [hrefs] at hc
    rw [hevents]
    rcases mem_append.1 hc with hc | hc
    · obtain ⟨row, hrow, hid⟩ := inv.rows.refHomes c hc
      exact ⟨row, mem_append_left _ hrow, hid⟩
    · exact ⟨eventRowFromSealed sdk e stamp.now, by simp, (hnewRefs c hc).symm⟩

/-- **A created event keeps the session invariant.** -/
theorem create_inv (law : sdk.Lawful) (inv : SessionInv sdk db s)
    (hstate : s.streamState.lookup (canonicalizeDraft resolved.draft).streamId = some state)
    (hseal : sdk.sealEvent (canonicalizeDraft resolved.draft) refs (state.sequence + 1) state.headSha256 = some e)
    (hfree : violation (db ++ s.writes).events (eventRowFromSealed sdk e stamp.now) = none) :
    SessionInv sdk db (s.create sdk resolved stamp e) := by
  have hstream : e.streamId = (canonicalizeDraft resolved.draft).streamId := by rw [(law.seal_envelope hseal).1]
  have hlocked : e.streamId ∈ s.locked := by
    rw [hstream]
    exact mem_map.2 ⟨_, lookup_mem hstate, rfl⟩
  have hkeep : (s.create sdk resolved stamp e).locked = s.locked := by simp [Session.create, Session.locked]
  constructor
  · exact create_rows law inv hstate hseal hfree
  · show List.map _ (_ ++ _) = List.map _ (_ ++ _)
    rw [map_append, map_append, inv.outbox]
    rfl
  · intro c hc
    rcases mem_append.1 hc with hc | hc
    · obtain ⟨row, hrow, hid⟩ := inv.refHomes c hc
      exact ⟨row, mem_append_left _ hrow, hid⟩
    · obtain ⟨ref, -, rfl⟩ := mem_map.1 hc
      exact ⟨eventRowFromSealed sdk e stamp.now, by simp [Session.create], rfl⟩
  · rw [hkeep]
    exact inv.locked
  · intro sid state' h
    have hview : (db ++ (s.create sdk resolved stamp e).writes).events =
        (db ++ s.writes).events ++ [eventRowFromSealed sdk e stamp.now] := by
      simp [Session.create]
    rw [hview, streamEvents_append, streamEvents_singleton]
    rcases mem_setStreamState h with ⟨rfl, rfl⟩ | ⟨hne, hmem⟩
    · rw [eventRowFromSealed_streamId, if_pos rfl, headState_snoc]
      rfl
    · rw [eventRowFromSealed_streamId, if_neg (fun h => hne h.symm), append_nil]
      exact inv.states sid state' hmem
  · rw [hkeep]
    exact inv.active
  · intro sid
    simp only [Session.create, mem_append, mem_singleton, inv.touched sid]
    constructor
    · rintro (⟨row, hrow, hid⟩ | rfl)
      · exact ⟨row, Or.inl hrow, hid⟩
      · exact ⟨_, Or.inr rfl, rfl⟩
    · rintro ⟨row, hrow | rfl, hid⟩
      · exact Or.inl ⟨row, hrow, hid⟩
      · exact Or.inr hid.symm
  · intro row hrow
    rw [hkeep]
    rcases mem_append.1 hrow with hrow | hrow
    · exact inv.writesLocked row hrow
    · simp only [mem_singleton] at hrow
      exact hrow ▸ hlocked
  · rw [hkeep]
    exact inv.seeds

end Create

section Insert

variable [DecidableEq J] [DecidableEq D] {sdk : Sdk J D} {db : Db J D} {s : Session J D}
  {resolved : ResolvedEvent J D} (stamp : Stamp)

theorem recoverExisting_cases (law : sdk.Lawful) {view : Db J D} (inv : RowsInv sdk view)
    (draft : EventDraft J D) {existing : EventRow J D} (hmem : existing ∈ view.events) :
    ∃ e, StoredAs sdk view existing e ∧
      ((storedIdentity e = draftIdentity draft ∧ recoverExisting sdk view.contentRefs draft existing = .ok e) ∨
        (storedIdentity e ≠ draftIdentity draft ∧ recoverExisting sdk view.contentRefs draft existing =
          .error (.idempotencyConflict (sdk.producerId draft.producer) draft.idempotencyKey existing.eventId))) := by
  obtain ⟨e, he⟩ := inv.stored existing hmem
  refine ⟨e, he, ?_⟩
  simp only [recoverExisting, he.existingDraftIdentity law, he.rowToStoredEvent law]
  by_cases h : storedIdentity e = draftIdentity draft
  · exact Or.inl ⟨h, by simp [h]⟩
  · exact Or.inr ⟨h, by simp [Ne.symm h]⟩

theorem insertOrRecover_cases (law : sdk.Lawful) (inv : SessionInv sdk db s)
    (hlocked : resolved.draft.streamId ∈ s.locked) :
    (∃ state e, s.streamState.lookup (canonicalizeDraft resolved.draft).streamId = some state ∧
      sdk.sealEvent (canonicalizeDraft resolved.draft) resolved.contentRefs (state.sequence + 1)
        state.headSha256 = some e ∧
      violation (db ++ s.writes).events (eventRowFromSealed sdk e stamp.now) = none ∧
      insertOrRecover sdk db resolved stamp s = .ok (s.create sdk resolved stamp e)) ∨
    (∃ row ∈ (db ++ s.writes).events, ∃ e, StoredAs sdk (db ++ s.writes) row e ∧
      storedIdentity e = draftIdentity resolved.draft ∧
      insertOrRecover sdk db resolved stamp s = .ok (s.addResult e)) ∨
    (∃ n p, sdk.sealEvent (canonicalizeDraft resolved.draft) resolved.contentRefs n p = none ∧
      insertOrRecover sdk db resolved stamp s = .error (.sealRefused resolved.draft.eventId)) ∨
    (∃ row ∈ (db ++ s.writes).events, ∃ e, StoredAs sdk (db ++ s.writes) row e ∧
      (row.eventId = resolved.draft.eventId ∨ row.key = sdk.draftKey resolved.draft) ∧
      storedIdentity e ≠ draftIdentity resolved.draft ∧
      insertOrRecover sdk db resolved stamp s = .error (.idempotencyConflict
        (sdk.producerId resolved.draft.producer) resolved.draft.idempotencyKey row.eventId)) := by
  obtain ⟨state, hstate⟩ := lookup_isSome_of_mem hlocked
  have hstate' : s.streamState.lookup (canonicalizeDraft resolved.draft).streamId = some state := hstate
  unfold insertOrRecover
  simp only [hstate']
  cases hseal : sdk.sealEvent (canonicalizeDraft resolved.draft) resolved.contentRefs (state.sequence + 1)
      state.headSha256 with
  | none => exact Or.inr (Or.inr (Or.inl ⟨_, _, hseal, rfl⟩))
  | some e =>
    have hid : e.eventId = resolved.draft.eventId := (law.seal_envelope hseal).2
    have hkey : (eventRowFromSealed sdk e stamp.now).key = sdk.draftKey resolved.draft := by
      show (sdk.producerId e.producer, e.idempotencyKey) = _
      rw [(law.seal_envelope hseal).1]
      rfl
    cases hv : violation (db ++ s.writes).events (eventRowFromSealed sdk e stamp.now) with
    | none => exact Or.inl ⟨state, e, rfl, hseal, hv, by simp only [hv]⟩
    | some v =>
      cases v with
      | eventPk existing =>
        obtain ⟨hmem, heq⟩ := violation_eventPk hv
        obtain ⟨old, hold, ⟨hi, hr⟩ | ⟨hi, hr⟩⟩ :=
          recoverExisting_cases law inv.rows (canonicalizeDraft resolved.draft) hmem
        · exact Or.inr (Or.inl ⟨existing, hmem, old, hold, hi.trans (draftIdentity_canonicalize _),
            by simp only [hv, hr, Except.map]⟩)
        · refine Or.inr (Or.inr (Or.inr ⟨existing, hmem, old, hold, Or.inl (heq.trans hid), ?_,
            by simp only [hv, hr, Except.map]; rfl⟩))
          rwa [draftIdentity_canonicalize] at hi
      | idempotency existing =>
        obtain ⟨hmem, heq⟩ := violation_idempotency hv
        obtain ⟨old, hold, ⟨hi, hr⟩ | ⟨hi, hr⟩⟩ :=
          recoverExisting_cases law inv.rows (canonicalizeDraft resolved.draft) hmem
        · exact Or.inr (Or.inl ⟨existing, hmem, old, hold, hi.trans (draftIdentity_canonicalize _),
            by simp only [hv, hr, Except.map]⟩)
        · refine Or.inr (Or.inr (Or.inr ⟨existing, hmem, old, hold, Or.inr (heq.trans hkey), ?_,
            by simp only [hv, hr, Except.map]; rfl⟩))
          rwa [draftIdentity_canonicalize] at hi
      | streamSequence =>
        exfalso
        obtain ⟨old, hold, hs, hq⟩ := violation_streamSequence hv
        have hstream : e.streamId = resolved.draft.streamId := by
          rw [(law.seal_envelope hseal).1]
          rfl
        have hhead := inv.states _ _ (lookup_mem hstate')
        apply inv.rows.no_next_sequence hold
        show old.streamSequence = _
        rw [hq, hs, eventRowFromSealed_streamId, hstream]
        show e.streamSequence = _
        rw [(law.seal_chain hseal).1, hhead]
        rfl

end Insert

/-! ## Committing -/

@[simp] theorem updateStreamHead_streamId (s : Session J D) (row : EventStreamRow D) :
    (updateStreamHead s row).streamId = row.streamId := by
  unfold updateStreamHead
  split
  · split <;> rfl
  · rfl

@[simp] theorem updateStreamHead_status (s : Session J D) (row : EventStreamRow D) :
    (updateStreamHead s row).status = row.status := by
  unfold updateStreamHead
  split
  · split <;> rfl
  · rfl

theorem commit_streamIds (db : Db J D) (s : Session J D) :
    (commit db s).streams.map (·.streamId) = (db ++ s.writes).streams.map (·.streamId) := by
  simp [commit, Function.comp_def]

/-- A commit changes head columns only: what `RowsInv` says carries over. -/
theorem RowsInv.commit (inv : RowsInv sdk (db ++ s.writes)) : RowsInv sdk (commit db s) where
  eventIds := inv.eventIds
  keys := inv.keys
  outbox := inv.outbox
  streamIds := by
    rw [commit_streamIds]
    exact inv.streamIds
  chained := inv.chained
  homes := by
    intro e he
    obtain ⟨row, hrow, hid⟩ := inv.homes e he
    exact ⟨updateStreamHead s row, mem_map.2 ⟨row, hrow, rfl⟩, by simpa using hid⟩
  stored := fun row hrow => (inv.stored row hrow).imp fun _ he => ⟨he.origin, he.row_eq, he.refs⟩
  refHomes := inv.refHomes

/-- **A commit keeps the ledger invariant.** -/
theorem SessionInv.commit (base : LedgerInv sdk db) (inv : SessionInv sdk db s) : LedgerInv sdk (commit db s) where
  toRowsInv := inv.rows.commit
  heads := by
    intro row hrow
    obtain ⟨old, hold, rfl⟩ := mem_map.1 hrow
    rw [updateStreamHead_streamId]
    show _ = headState (streamEvents (db ++ s.writes).events old.streamId)
    unfold updateStreamHead
    by_cases htouched : old.streamId ∈ s.touchedStreams
    · rw [if_pos htouched]
      obtain ⟨e, he, hid⟩ := (inv.touched _).1 htouched
      obtain ⟨state, hstate⟩ := lookup_isSome_of_mem (inv.writesLocked e he)
      rw [hid] at hstate
      simp only [hstate]
      exact inv.states _ _ (lookup_mem hstate)
    · rw [if_neg htouched]
      have hnone : streamEvents s.writes.events old.streamId = [] := by
        rw [streamEvents_eq_nil]
        exact fun e he hid => htouched ((inv.touched _).2 ⟨e, he, hid⟩)
      rcases mem_append.1 hold with hdb | hseed
      · rw [base.heads old hdb, Db.append_events, streamEvents_append, hnone, append_nil]
      · have hdbnone : streamEvents db.events old.streamId = [] := by
          rw [streamEvents_eq_nil]
          intro e he hid
          obtain ⟨home, hhome, hhid⟩ := base.homes e he
          have hnd := inv.rows.streamIds
          rw [Db.append_streams, map_append, nodup_append] at hnd
          exact hnd.2.2 _ (mem_map.2 ⟨home, hhome, rfl⟩) _ (mem_map.2 ⟨old, hseed, rfl⟩)
            (hhid.trans hid)
        rw [Db.append_events, streamEvents_append, hnone, hdbnone, (inv.seeds old hseed).2]
        rfl

/-! ## Transactions side by side -/

/-- Two sessions that hold different streams and whose uncommitted events differ in event id and key. -/
structure Apart (s t : Session J D) : Prop where
  locked : ∀ sid ∈ s.locked, sid ∉ t.locked
  eventIds : ∀ e ∈ s.writes.events, ∀ f ∈ t.writes.events, e.eventId ≠ f.eventId
  keys : ∀ e ∈ s.writes.events, ∀ f ∈ t.writes.events, e.key ≠ f.key

theorem nodup_append_append {α : Type} {as bs cs : List α} {f : α → β} (hb : ((as ++ bs).map f).Nodup)
    (hc : ((as ++ cs).map f).Nodup) (hbc : ∀ b ∈ bs, ∀ c ∈ cs, f b ≠ f c) : (((as ++ bs) ++ cs).map f).Nodup := by
  simp only [map_append, nodup_append, forall_mem_map] at hb hc ⊢
  refine ⟨hb, hc.2.1, ?_⟩
  rintro _ h c hmem
  rcases mem_append.1 h with h | h <;> obtain ⟨a, ha, rfl⟩ := mem_map.1 h
  · exact hc.2.2 a ha c hmem
  · exact hbc a ha c hmem

theorem disjoint_of_nodup_append {as bs : List α} {f : α → β} (h : ((as ++ bs).map f).Nodup) {a b : α} (ha : a ∈ as)
    (hb : b ∈ bs) : f a ≠ f b := by
  rw [map_append, nodup_append] at h
  exact h.2.2 _ (mem_map.2 ⟨a, ha, rfl⟩) _ (mem_map.2 ⟨b, hb, rfl⟩)

section Stable

variable {sdk : Sdk J D} {db : Db J D} {s t : Session J D}

/-- Reference rows of a session's own events are nobody else's. -/
theorem SessionInv.foreign_refs (inv : SessionInv sdk db t) {eventId : String}
    (h : ∀ f ∈ t.writes.events, eventId ≠ f.eventId) :
    t.writes.contentRefs.filter (·.eventId = eventId) = [] := by
  rw [filter_eq_nil_iff]
  intro c hc
  obtain ⟨f, hf, hid⟩ := inv.refHomes c hc
  simpa [← hid] using (h f hf).symm

/-- A committed row is read the same with a session's own rows in view. -/
theorem SessionInv.stored_base (inv : SessionInv sdk db t) {row : EventRow J D} {e : StoredEvent J D}
    (hrow : row ∈ db.events) : StoredAs sdk (db ++ t.writes) row e ↔ StoredAs sdk db row e := by
  have hnone : t.writes.contentRefs.filter (·.eventId = row.eventId) = [] :=
    inv.foreign_refs fun f hf => disjoint_of_nodup_append inv.rows.eventIds hrow hf
  have hrefs : (db ++ t.writes).contentRefs.filter (·.eventId = row.eventId) =
      db.contentRefs.filter (·.eventId = row.eventId) := by
    rw [Db.append_contentRefs, filter_append, hnone, append_nil]
  exact ⟨fun h => ⟨h.origin, h.row_eq, hrefs ▸ h.refs⟩, fun h => ⟨h.origin, h.row_eq, hrefs.trans h.refs⟩⟩

theorem stable_stored (inv : SessionInv sdk db s) (apart : Apart s t) {row : EventRow J D} {e : StoredEvent J D}
    (hrow : row ∈ t.writes.events) (h : StoredAs sdk (db ++ t.writes) row e) :
    StoredAs sdk (commit db s ++ t.writes) row e := by
  refine ⟨h.origin, h.row_eq, ?_⟩
  show List.filter _ ((db.contentRefs ++ s.writes.contentRefs) ++ t.writes.contentRefs) = _
  rw [filter_append, filter_append, inv.foreign_refs (fun f hf => (apart.eventIds f hf row hrow).symm),
    append_nil, ← filter_append]
  exact h.refs

theorem stable_rows (inv : SessionInv sdk db s) (inv' : SessionInv sdk db t) (apart : Apart s t) :
    RowsInv sdk (commit db s ++ t.writes) := by
  constructor
  · exact nodup_append_append inv.rows.eventIds inv'.rows.eventIds apart.eventIds
  · exact nodup_append_append inv.rows.keys inv'.rows.keys apart.keys
  · show List.map _ ((db ++ s.writes).outbox ++ t.writes.outbox) =
      List.map _ ((db ++ s.writes).events ++ t.writes.events)
    rw [map_append, map_append, inv.rows.outbox, inv'.outbox]
  · show List.Nodup (List.map _ ((commit db s).streams ++ t.writes.streams))
    rw [map_append, commit_streamIds, ← map_append]
    exact nodup_append_append inv.rows.streamIds inv'.rows.streamIds fun row hrow row' hrow' heq =>
      apart.locked _ (inv.seeds row hrow).1 (heq ▸ (inv'.seeds row' hrow').1)
  · intro sid
    show Chained links (streamEvents ((db.events ++ s.writes.events) ++ t.writes.events) sid)
    by_cases hs : sid ∈ s.locked
    · rw [streamEvents_append, inv'.unlocked (apart.locked sid hs), append_nil]
      exact inv.rows.chained sid
    · rw [streamEvents_append, streamEvents_append, inv.unlocked hs, append_nil, ← streamEvents_append]
      exact inv'.rows.chained sid
  · intro e he
    rcases mem_append.1 he with he | he
    · obtain ⟨row, hrow, hid⟩ := inv.rows.commit.homes e he
      exact ⟨row, mem_append_left _ hrow, hid⟩
    · obtain ⟨row, hrow, hid⟩ := inv'.rows.homes e (mem_append_right _ he)
      rcases mem_append.1 hrow with hrow | hrow
      · refine ⟨updateStreamHead s row, mem_append_left _ (mem_map.2 ⟨row, ?_, rfl⟩), by simpa using hid⟩
        exact mem_append_left _ hrow
      · exact ⟨row, mem_append_right _ hrow, hid⟩
  · intro row hrow
    rcases mem_append.1 hrow with hrow | hrow
    · obtain ⟨e, he⟩ := inv.rows.stored row hrow
      refine ⟨e, he.origin, he.row_eq, ?_⟩
      show List.filter _ ((db ++ s.writes).contentRefs ++ t.writes.contentRefs) = _
      rw [filter_append, he.refs, inv'.foreign_refs, append_nil]
      intro f hf
      rcases mem_append.1 hrow with hdb | hs
      · exact disjoint_of_nodup_append inv'.rows.eventIds hdb hf
      · exact apart.eventIds row hs f hf
    · exact (inv'.rows.stored row (mem_append_right _ hrow)).imp fun _ => stable_stored inv apart hrow
  · intro c hc
    rcases mem_append.1 hc with hc | hc
    · obtain ⟨row, hrow, hid⟩ := inv.rows.refHomes c hc
      exact ⟨row, mem_append_left _ hrow, hid⟩
    · obtain ⟨row, hrow, hid⟩ := inv'.refHomes c hc
      exact ⟨row, mem_append_right _ hrow, hid⟩

/-- **Another transaction's commit keeps the session invariant.** -/
theorem SessionInv.stable (inv : SessionInv sdk db s) (inv' : SessionInv sdk db t) (apart : Apart s t) :
    SessionInv sdk (Ledger.commit db s) t where
  rows := stable_rows inv inv' apart
  outbox := inv'.outbox
  refHomes := inv'.refHomes
  locked := inv'.locked
  states := by
    intro sid state h
    have hsid : sid ∉ s.locked := fun hs => apart.locked sid hs (mem_map.2 ⟨_, h, rfl⟩)
    show _ = headState (streamEvents ((db.events ++ s.writes.events) ++ t.writes.events) sid)
    rw [streamEvents_append, streamEvents_append, inv.unlocked hsid, append_nil, ← streamEvents_append]
    exact inv'.states sid state h
  active := by
    intro sid h
    obtain ⟨row, hrow, hid, hactive⟩ := inv'.active sid h
    rcases mem_append.1 hrow with hrow | hrow
    · refine ⟨updateStreamHead s row, mem_append_left _ (mem_map.2 ⟨row, ?_, rfl⟩), by simpa using hid,
        by simpa using hactive⟩
      exact mem_append_left _ hrow
    · exact ⟨row, mem_append_right _ hrow, hid, hactive⟩
  touched := inv'.touched
  writesLocked := inv'.writesLocked
  seeds := inv'.seeds

end Stable

end Ledger
