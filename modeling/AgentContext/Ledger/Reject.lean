import AgentContext.Ledger.RoundTrip
import Mathlib.Data.Prod.Lex

/-!
# How the ingestion service rejects a batch

`IngestionService.ingest` rejects a failed batch as a whole: `_reject` lists the drafts that are already stored as
`existing` and every other draft with an error code.  Whether a draft is stored is decided twice in the source, by
`_recover_existing` on rows while the batch is appended, and by `_same_event` on read-back events here:

    sameEvent_iff       _same_event is equality of the material identities
    sameEvent_recovers  so it holds exactly when the append would recover the stored event
    reject_listed       the response lists every draft once, in order
    reject_existing     a draft is listed as existing exactly when a draft of its event_id is stored

The matches are kept by `event_id`, which two drafts of a batch may share: the last result is about the draft itself
only where they do not.
-/

namespace Ledger

open List

open Keyset (sortedSet)
open Transition (Reachable run)

variable {J D : Type}

/-! ## The service -/

structure IngestBatch (J D : Type) where
  batchId : String
  events : List (EventDraft J D)
deriving DecidableEq, Repr

inductive AcceptedStatus | accepted | existing
deriving DecidableEq, Repr

structure AcceptedEvent where
  eventId : String
  status : AcceptedStatus
  streamSequence : Nat
deriving DecidableEq, Repr

structure RejectedEvent where
  eventId : String
  errorCode : String
  retryable : Bool
deriving DecidableEq, Repr

structure IngestBatchResponse where
  batchId : String
  accepted : List AcceptedEvent
  rejected : List RejectedEvent
deriving DecidableEq, Repr

structure IngestOutcome where
  httpStatus : Nat
  response : IngestBatchResponse
  retryAfterSeconds : Option Nat
deriving DecidableEq, Repr

/-- What `_commit` and the preparation of content raise, as `ingest` tells it apart. -/
inductive IngestError
  | contentService (errorCode : String)
  | idempotencyConflict (producerId idempotencyKey : String)
  | streamQuarantined (streamId : String)
  /-- `BlobIntegrityError`; `limited` when it is a `BlobInputLimitError`. -/
  | blobIntegrity (limited : Bool)
  /-- One of `_TRANSIENT_ERRORS`. -/
  | transient
  /-- Anything else, which `ingest` does not catch. -/
  | raised
deriving DecidableEq, Repr

/-- The arguments of `_reject`. -/
structure Rejection where
  httpStatus : Nat
  errorCode : String
  offenders : Option (List String) := none
  retryable : Bool := false
  retryAfter : Option Nat := none
deriving DecidableEq, Repr

def hasDuplicateIdempotencyKey (sdk : Sdk J D) (events : List (EventDraft J D)) : Bool :=
  (events.map sdk.draftKey).length ≠ (events.map sdk.draftKey).dedup.length

/-- The `except` clauses of `ingest`. -/
def rejection (sdk : Sdk J D) (events : List (EventDraft J D)) : IngestError → Option Rejection
  | .contentService errorCode => some { httpStatus := 422, errorCode := errorCode }
  | .idempotencyConflict producerId idempotencyKey => some {
      httpStatus := 409
      errorCode := "idempotency_conflict"
      offenders := some ((events.filter (sdk.draftKey · = (producerId, idempotencyKey))).map (·.eventId)) }
  | .streamQuarantined streamId => some {
      httpStatus := 409
      errorCode := "stream_quarantined"
      offenders := some ((events.filter (·.streamId = streamId)).map (·.eventId)) }
  | .blobIntegrity limited => some {
      httpStatus := 503
      errorCode := "service_unavailable"
      retryable := true
      retryAfter := some (if limited then 5 else 60) }
  | .transient => some {
      httpStatus := 503
      errorCode := "service_unavailable"
      retryable := true
      retryAfter := some 5 }
  | .raised => none

/-- What becomes of an error of the append.  A failure of the session itself is transient or not caught. -/
def IngestError.ofAppend : AppendError → IngestError
  | .idempotencyConflict producerId idempotencyKey _ => .idempotencyConflict producerId idempotencyKey
  | .streamQuarantined streamId => .streamQuarantined streamId
  | _ => .raised

/-- `get_by_idempotency_keys`; `none` when a row does not validate. -/
def getByIdempotencyKeys (sdk : Sdk J D) (db : Db J D) (keys : List (String × String)) :
    Option (List ((String × String) × StoredEvent J D)) :=
  let rows := db.events.filter (·.key ∈ keys)
  rows.mapM fun row =>
    (rowToStoredEvent sdk row (contentRefsOf db (rows.map (·.eventId)) row.eventId)).map (row.key, ·)

/-- The tuple `_same_event` sorts claims and references by. -/
def claimTuple (claim : ContentClaim D) : String ×ₗ D ×ₗ String ×ₗ Nat :=
  toLex (claim.contentId, toLex (claim.contentSha256, toLex (claim.mediaType, claim.uncompressedBytes)))

section Service

variable [DecidableEq J] [LinearOrder D]

/-- `_same_event`. -/
def sameEvent (draft : EventDraft J D) (stored : StoredEvent J D) : Bool :=
  let claims := (draft.contentClaims.map claimTuple).insertionSort (· ≤ ·)
  let refs := (stored.contentRefs.map fun ref => claimTuple ref.toContentClaim).insertionSort (· ≤ ·)
  decide (draft.toEnvelope = stored.toEnvelope) && decide (claims = refs)

/-- One turn of the loop of `_existing_events`; the newest entry of a key comes first. -/
def matchStep (sdk : Sdk J D) (storedByKey : List ((String × String) × StoredEvent J D))
    (found : List (String × StoredEvent J D)) (event : EventDraft J D) : List (String × StoredEvent J D) :=
  match storedByKey.lookup (sdk.draftKey event) with
  | some stored => if sameEvent event stored then (event.eventId, stored) :: found else found
  | none => found

/-- `_existing_events`, reading the tables `read`; the read may fail (`none`), which is the same as finding
nothing.  `none` when a row does not validate. -/
def existingEvents (sdk : Sdk J D) (read : Option (Db J D)) (events : List (EventDraft J D)) :
    Option (List (String × StoredEvent J D)) :=
  match read with
  | none => some []
  | some db =>
    (getByIdempotencyKeys sdk db (events.map sdk.draftKey)).map fun storedByKey =>
      events.foldl (matchStep sdk storedByKey) []

/-- One turn of the loop of `_reject`. -/
def rejectStep (existing : List (String × StoredEvent J D)) (r : Rejection)
    (acc : List AcceptedEvent × List RejectedEvent) (event : EventDraft J D) :
    List AcceptedEvent × List RejectedEvent :=
  match existing.lookup event.eventId with
  | some stored => (acc.1 ++ [⟨stored.eventId, .existing, stored.streamSequence⟩], acc.2)
  | none =>
    let code := if r.offenders.all (event.eventId ∈ ·) then r.errorCode else "batch_rejected"
    (acc.1, acc.2 ++ [⟨event.eventId, code, r.retryable⟩])

/-- `_reject`. -/
def reject (sdk : Sdk J D) (read : Option (Db J D)) (batch : IngestBatch J D) (r : Rejection) :
    Option IngestOutcome :=
  (existingEvents sdk read batch.events).map fun existing =>
    let (accepted, rejected) := batch.events.foldl (rejectStep existing r) ([], [])
    ⟨r.httpStatus, ⟨batch.batchId, accepted, rejected⟩, r.retryAfter⟩

/-- `ingest`, given what preparing the content and appending gave; `none` when it raises. -/
def ingest (sdk : Sdk J D) (read : Option (Db J D)) (batch : IngestBatch J D)
    (committed : Except IngestError (List (AppendOutcome J D))) : Option IngestOutcome :=
  if hasDuplicateIdempotencyKey sdk batch.events then
    reject sdk read batch { httpStatus := 422, errorCode := "duplicate_idempotency_key" }
  else
    match committed with
    | .ok outcomes =>
      let accepted := outcomes.map fun outcome =>
        (⟨outcome.stored.eventId, if outcome.created then .accepted else .existing,
          outcome.stored.streamSequence⟩ : AcceptedEvent)
      some ⟨200, ⟨batch.batchId, accepted, []⟩, none⟩
    | .error error => (rejection sdk batch.events error).bind (reject sdk read batch)

end Service

/-! ## One comparison in two places -/

theorem claimTuple_injective : Function.Injective (claimTuple (D := D)) := by
  intro a b h
  simp only [claimTuple, EmbeddingLike.apply_eq_iff_eq, Prod.mk.injEq] at h
  obtain ⟨hid, hsha, hmedia, hbytes⟩ := h
  cases a
  cases b
  simp_all

theorem sortedTuples_eq_iff [LinearOrder D] (claims claims' : List (ContentClaim D)) :
    (claims.map claimTuple).insertionSort (· ≤ ·) = (claims'.map claimTuple).insertionSort (· ≤ ·) ↔
      claims.Perm claims' := by
  rw [← map_perm_map_iff (claimTuple_injective (D := D))]
  constructor
  · intro h
    have hsorted : ((claims.map claimTuple).insertionSort (· ≤ ·)).Perm (claims'.map claimTuple) := by
      rw [h]
      exact perm_insertionSort _ _
    exact (perm_insertionSort _ _).symm.trans hsorted
  · intro h
    have hsorted := (perm_insertionSort (· ≤ ·) (claims.map claimTuple)).trans
      (h.trans (perm_insertionSort (· ≤ ·) (claims'.map claimTuple)).symm)
    exact hsorted.eq_of_pairwise (fun a b _ _ hab hba => le_antisymm hab hba)
      (pairwise_insertionSort _ _) (pairwise_insertionSort _ _)

theorem sameEvent_perm [DecidableEq J] [LinearOrder D] {draft : EventDraft J D} {stored : StoredEvent J D} : sameEvent draft stored = true ↔
    draft.toEnvelope = stored.toEnvelope ∧
      draft.contentClaims.Perm (stored.contentRefs.map ContentRef.toContentClaim) := by
  have hrefs : (stored.contentRefs.map fun ref => claimTuple ref.toContentClaim) =
      (stored.contentRefs.map ContentRef.toContentClaim).map claimTuple := by
    rw [map_map]
    rfl
  unfold sameEvent
  rw [Bool.and_eq_true, decide_eq_true_eq, decide_eq_true_eq, hrefs, sortedTuples_eq_iff]

section Compared

variable {sdk : Sdk J D} {db : Db J D}
variable {e : StoredEvent J D}

/-- Claims in any order that a sealed event has: sorting them gives the event's order, `content_id` being unique. -/
theorem Sealed.sortClaims_eq (law : sdk.Lawful) (h : Sealed sdk e) {claims : List (ContentClaim D)}
    (hclaims : claims.Perm (e.contentRefs.map ContentRef.toContentClaim)) :
    sortClaims claims = e.contentRefs.map ContentRef.toContentClaim := by
  have hsorted := h.claims_sorted law
  obtain ⟨draft, refs, n, p, hseal⟩ := h
  have hnodup : ((e.contentRefs.map ContentRef.toContentClaim).map (·.contentId)).Nodup := by
    rw [map_map]
    exact (law.seal_refs hseal).2
  have hperm := (sortClaims_perm claims).trans hclaims
  refine hperm.eq_of_pairwise ?_ (sortClaims_sorted claims) hsorted
  intro a b ha hb hab hba
  exact inj_on_of_nodup_map hnodup (hperm.mem_iff.1 ha) hb (le_antisymm hab hba)

/-- **`_same_event` compares material identities.** -/
theorem sameEvent_iff [DecidableEq J] [LinearOrder D] (law : sdk.Lawful) (h : Sealed sdk e) (draft : EventDraft J D) :
    sameEvent draft e = true ↔ storedIdentity e = draftIdentity draft := by
  rw [sameEvent_perm]
  unfold storedIdentity draftIdentity canonicalizeDraft
  simp only [DraftIdentity.mk.injEq]
  constructor
  · rintro ⟨henv, hclaims⟩
    exact ⟨henv.symm, (h.sortClaims_eq law hclaims).symm⟩
  · rintro ⟨henv, hclaims⟩
    refine ⟨henv.symm, ?_⟩
    rw [hclaims]
    exact (sortClaims_perm _).symm

/-- **The reject path finds what the append would recover.** -/
theorem sameEvent_recovers [DecidableEq J] [LinearOrder D] (law : sdk.Lawful) {row : EventRow J D}
    (h : StoredAs sdk db row e) (draft : EventDraft J D) : sameEvent draft e = true ↔
      recoverExisting sdk db.contentRefs (canonicalizeDraft draft) row = .ok e := by
  rw [sameEvent_iff law h.origin]
  simp only [recoverExisting, h.existingDraftIdentity law, h.rowToStoredEvent law, draftIdentity_canonicalize]
  by_cases hid : storedIdentity e = draftIdentity draft
  · simp [hid]
  · simp [hid, Ne.symm hid]

end Compared

/-! ## What the lookup finds -/

/-- The ledger holds an event under the draft's own key, with the draft's material identity. -/
def HeldAsOwn (sdk : Sdk J D) (db : Db J D) (draft : EventDraft J D) : Prop :=
  ∃ row ∈ db.events, row.key = sdk.draftKey draft ∧
    ∃ e, StoredAs sdk db row e ∧ storedIdentity e = draftIdentity draft

theorem lookup_of_mem_nodup {α β : Type} [BEq α] [LawfulBEq α] {xs : List (α × β)} {a : α} {b : β}
    (hnodup : (xs.map Prod.fst).Nodup) (h : (a, b) ∈ xs) : xs.lookup a = some b := by
  obtain ⟨front, back, rfl⟩ := append_of_mem h
  rw [lookup_eq_some_iff]
  refine ⟨front, back, rfl, ?_⟩
  rw [map_append, nodup_append] at hnodup
  rintro p hp
  rw [bne_iff_ne]
  exact (hnodup.2.2 p.1 (mem_map.2 ⟨p, hp, rfl⟩) a (by simp)).symm

section Lookup

variable {sdk : Sdk J D} {db : Db J D}

theorem mapM_rows (law : sdk.Lawful) (refs : String → List (EventContentRefRow D)) {rows : List (EventRow J D)}
    (hrefs : ∀ row ∈ rows, refs row.eventId = refsOf db row.eventId)
    (hstored : ∀ row ∈ rows, ∃ e, StoredAs sdk db row e) :
    ∃ found, (rows.mapM fun row => (rowToStoredEvent sdk row (refs row.eventId)).map (row.key, ·)) = some found ∧
      found.map Prod.fst = rows.map (·.key) ∧
      ∀ key e, (key, e) ∈ found ↔ ∃ row ∈ rows, row.key = key ∧ StoredAs sdk db row e := by
  induction rows with
  | nil => exact ⟨[], rfl, rfl, by simp⟩
  | cons row rows ih =>
    obtain ⟨found, hfound, hkeys, hmem⟩ := ih (fun r hr => hrefs r (mem_cons_of_mem _ hr))
      fun r hr => hstored r (mem_cons_of_mem _ hr)
    obtain ⟨e, he⟩ := hstored row mem_cons_self
    have hread : rowToStoredEvent sdk row (refs row.eventId) = some e := by
      rw [hrefs row mem_cons_self]
      exact he.rowToStoredEvent law
    refine ⟨(row.key, e) :: found, ?_, by simp [hkeys], ?_⟩
    · rw [mapM_cons, hfound, hread]
      rfl
    · intro key e'
      rw [mem_cons, hmem]
      constructor
      · rintro (heq | ⟨r, hr, hkey, hr'⟩)
        · cases heq
          exact ⟨row, mem_cons_self, rfl, he⟩
        · exact ⟨r, mem_cons_of_mem _ hr, hkey, hr'⟩
      · rintro ⟨r, hr, hkey, hr'⟩
        rcases mem_cons.1 hr with rfl | hr
        · exact Or.inl (by rw [← hkey, he.unique law hr'])
        · exact Or.inr ⟨r, hr, hkey, hr'⟩

/-- **`get_by_idempotency_keys` on a ledger**: it reads every row, and finds the event of each key it is asked. -/
theorem getByIdempotencyKeys_spec (law : sdk.Lawful) (inv : RowsInv sdk db) (keys : List (String × String)) :
    ∃ found, getByIdempotencyKeys sdk db keys = some found ∧ ∀ key e, found.lookup key = some e ↔
      key ∈ keys ∧ ∃ row ∈ db.events, row.key = key ∧ StoredAs sdk db row e := by
  obtain ⟨rows, hrows⟩ : ∃ rows, rows = db.events.filter (·.key ∈ keys) := ⟨_, rfl⟩
  have hmemRows : ∀ row, row ∈ rows ↔ row ∈ db.events ∧ row.key ∈ keys := by
    intro row
    rw [hrows, mem_filter, decide_eq_true_eq]
  obtain ⟨found, hfound, hkeys, hmem⟩ := mapM_rows law (contentRefsOf db (rows.map (·.eventId)))
    (fun row hrow => contentRefsOf_eq (mem_map.2 ⟨row, hrow, rfl⟩))
    fun row hrow => inv.stored row ((hmemRows row).1 hrow).1
  have hnodup : (found.map Prod.fst).Nodup := by
    rw [hkeys, hrows]
    exact inv.keys.sublist (filter_sublist.map _)
  refine ⟨found, ?_, ?_⟩
  · unfold getByIdempotencyKeys
    rw [← hrows]
    exact hfound
  · intro key e
    have hlookup : found.lookup key = some e ↔ (key, e) ∈ found := ⟨lookup_mem, fun h => lookup_of_mem_nodup hnodup h⟩
    rw [hlookup, hmem]
    constructor
    · rintro ⟨row, hrow, rfl, he⟩
      exact ⟨((hmemRows row).1 hrow).2, row, ((hmemRows row).1 hrow).1, rfl, he⟩
    · rintro ⟨hkey, row, hrow, rfl, he⟩
      exact ⟨row, (hmemRows row).2 ⟨hrow, hkey⟩, rfl, he⟩

theorem matchStep_mem [DecidableEq J] [LinearOrder D] (law : sdk.Lawful) {storedByKey : List ((String × String) × StoredEvent J D)}
    {events : List (EventDraft J D)}
    (hfound : ∀ draft ∈ events, ∀ e, storedByKey.lookup (sdk.draftKey draft) = some e ↔
      ∃ row ∈ db.events, row.key = sdk.draftKey draft ∧ StoredAs sdk db row e)
    (found : List (String × StoredEvent J D)) (eventId : String) :
    eventId ∈ (events.foldl (matchStep sdk storedByKey) found).map Prod.fst ↔
      eventId ∈ found.map Prod.fst ∨ ∃ draft ∈ events, draft.eventId = eventId ∧ HeldAsOwn sdk db draft := by
  induction events generalizing found with
  | nil => simp
  | cons draft events ih =>
    have hstep : eventId ∈ (matchStep sdk storedByKey found draft).map Prod.fst ↔
        eventId ∈ found.map Prod.fst ∨ draft.eventId = eventId ∧ HeldAsOwn sdk db draft := by
      have hdraft := hfound draft mem_cons_self
      unfold matchStep
      cases hlookup : storedByKey.lookup (sdk.draftKey draft) with
      | none =>
        have hnone : ¬ HeldAsOwn sdk db draft := by
          rintro ⟨row, hrow, hkey, e, he, -⟩
          have := (hdraft e).2 ⟨row, hrow, hkey, he⟩
          rw [hlookup] at this
          cases this
        simp [hnone]
      | some stored =>
        obtain ⟨row, hrow, hkey, he⟩ := (hdraft stored).1 hlookup
        have hheld : HeldAsOwn sdk db draft ↔ sameEvent draft stored = true := by
          rw [sameEvent_iff law he.origin]
          constructor
          · rintro ⟨row', hrow', hkey', e', he', hid⟩
            have hsame := (hdraft e').2 ⟨row', hrow', hkey', he'⟩
            rw [hlookup] at hsame
            rw [Option.some.inj hsame]
            exact hid
          · exact fun hid => ⟨row, hrow, hkey, stored, he, hid⟩
        by_cases hsame : sameEvent draft stored = true
        · simp [hheld, hsame, or_comm, eq_comm]
        · simp [hheld, hsame]
    rw [foldl_cons, ih (fun d hd => hfound d (mem_cons_of_mem _ hd)), hstep]
    constructor
    · rintro ((h | h) | ⟨d, hd, h⟩)
      · exact Or.inl h
      · exact Or.inr ⟨draft, mem_cons_self, h⟩
      · exact Or.inr ⟨d, mem_cons_of_mem _ hd, h⟩
    · rintro (h | ⟨d, hd, h⟩)
      · exact Or.inl (Or.inl h)
      · rcases mem_cons.1 hd with rfl | hd
        · exact Or.inl (Or.inr h)
        · exact Or.inr ⟨d, hd, h⟩

end Lookup

/-! ## The response -/

/-- A response that lists every draft once and in order: the drafts `marked` as existing under `accepted`, the others,
under their own event ids, under `rejected`. -/
inductive Listing : List (EventDraft J D) → List (EventDraft J D) → List AcceptedEvent → List RejectedEvent → Prop
  | nil : Listing [] [] [] []
  | existing {draft : EventDraft J D} {entry : AcceptedEvent} {drafts marked : List (EventDraft J D)}
      {accepted : List AcceptedEvent} {rejected : List RejectedEvent} : entry.status = .existing →
      Listing drafts marked accepted rejected → Listing (draft :: drafts) (draft :: marked) (entry :: accepted) rejected
  | rejected {draft : EventDraft J D} {entry : RejectedEvent} {drafts marked : List (EventDraft J D)}
      {accepted : List AcceptedEvent} {rejected : List RejectedEvent} : entry.eventId = draft.eventId →
      Listing drafts marked accepted rejected → Listing (draft :: drafts) marked accepted (entry :: rejected)

section Responses

variable {existing : List (String × StoredEvent J D)} {r : Rejection} {drafts : List (EventDraft J D)}
variable {marked : List (EventDraft J D)} {accepted : List AcceptedEvent} {rejected : List RejectedEvent}

/-- A draft is marked when its event id has a match. -/
def marks (existing : List (String × StoredEvent J D)) (drafts : List (EventDraft J D)) : List (EventDraft J D) :=
  drafts.filter (·.eventId ∈ existing.map Prod.fst)

theorem lookup_eq_none_iff_keys {eventId : String} :
    existing.lookup eventId = none ↔ eventId ∉ existing.map Prod.fst := by
  rw [lookup_eq_none_iff, mem_map]
  constructor
  · rintro h ⟨p, hp, rfl⟩
    simpa using h p hp
  · intro h p hp
    rw [bne_iff_ne]
    rintro rfl
    exact h ⟨p, hp, rfl⟩

/-- What the loop of `_reject` adds to the two lists. -/
theorem rejectFold_listing (existing : List (String × StoredEvent J D)) (r : Rejection)
    (drafts : List (EventDraft J D)) (acc : List AcceptedEvent × List RejectedEvent) : ∃ accepted rejected,
    drafts.foldl (rejectStep existing r) acc = (acc.1 ++ accepted, acc.2 ++ rejected) ∧
      Listing drafts (marks existing drafts) accepted rejected ∧
      ∀ entry ∈ rejected, entry.eventId ∉ existing.map Prod.fst := by
  induction drafts generalizing acc with
  | nil => exact ⟨[], [], by simp, Listing.nil, by simp⟩
  | cons draft drafts ih =>
    obtain ⟨accepted, rejected, hfold, hlisting, hids⟩ := ih (rejectStep existing r acc draft)
    rw [foldl_cons, hfold]
    cases hlookup : existing.lookup draft.eventId with
    | none =>
      have hid := lookup_eq_none_iff_keys.1 hlookup
      have hmarks : marks existing (draft :: drafts) = marks existing drafts := by
        rw [marks, filter_cons, if_neg (by simpa using hid)]
        rfl
      obtain ⟨code, hstep⟩ : ∃ code, rejectStep existing r acc draft =
          (acc.1, acc.2 ++ [⟨draft.eventId, code, r.retryable⟩]) := by
        simp only [rejectStep, hlookup]
        exact ⟨_, rfl⟩
      refine ⟨accepted, ⟨draft.eventId, code, r.retryable⟩ :: rejected, ?_, ?_, ?_⟩
      · rw [hstep, append_assoc, singleton_append]
      · rw [hmarks]
        exact Listing.rejected rfl hlisting
      · rintro entry hentry
        rcases mem_cons.1 hentry with rfl | hentry
        · exact hid
        · exact hids entry hentry
    | some stored =>
      have hid : draft.eventId ∈ existing.map Prod.fst := by
        by_contra hnot
        rw [lookup_eq_none_iff_keys.2 hnot] at hlookup
        cases hlookup
      have hmarks : marks existing (draft :: drafts) = draft :: marks existing drafts := by
        rw [marks, filter_cons, if_pos (by simpa using hid)]
        rfl
      refine ⟨⟨stored.eventId, .existing, stored.streamSequence⟩ :: accepted, rejected, ?_, ?_, hids⟩
      · simp only [rejectStep, hlookup, append_assoc, singleton_append]
      · rw [hmarks]
        exact Listing.existing rfl hlisting

/-- The drafts whose event id has no match. -/
def unmarked (existing : List (String × StoredEvent J D)) (drafts : List (EventDraft J D)) : List (EventDraft J D) :=
  drafts.filter (·.eventId ∉ existing.map Prod.fst)

theorem Listing.length_add (h : Listing drafts marked accepted rejected) :
    marked.length + rejected.length = drafts.length := by
  induction h with
  | nil => rfl
  | existing | rejected => simp only [length_cons]; omega

theorem marks_length_add (existing : List (String × StoredEvent J D)) (drafts : List (EventDraft J D)) :
    (marks existing drafts).length + (unmarked existing drafts).length = drafts.length := by
  induction drafts with
  | nil => rfl
  | cons draft drafts ih =>
    by_cases hid : draft.eventId ∈ existing.map Prod.fst
    · simp only [marks, unmarked, filter_cons, hid, decide_true, if_true, not_true_eq_false, decide_false,
        Bool.false_eq_true, if_false, length_cons] at ih ⊢
      omega
    · simp only [marks, unmarked, filter_cons, hid, decide_true, if_true, not_false_eq_true, decide_false,
        Bool.false_eq_true, if_false, length_cons] at ih ⊢
      omega

/-- Entries under ids without a match are for drafts without one. -/
theorem Listing.rejected_le (h : Listing drafts marked accepted rejected)
    (hids : ∀ entry ∈ rejected, entry.eventId ∉ existing.map Prod.fst) :
    rejected.length ≤ (unmarked existing drafts).length := by
  induction h with
  | nil => exact Nat.le_refl _
  | @existing draft entry drafts marked accepted rejected _ _ ih =>
    have hle := ih hids
    have hsub : (unmarked existing drafts).length ≤ (unmarked existing (draft :: drafts)).length :=
      ((sublist_cons_self draft drafts).filter _).length_le
    omega
  | @rejected draft entry drafts marked accepted rejected hid _ ih =>
    have hle := ih fun entry hentry => hids entry (mem_cons_of_mem _ hentry)
    have hdraft : draft.eventId ∉ existing.map Prod.fst := hid ▸ hids entry mem_cons_self
    rw [unmarked, filter_cons, if_pos (by simpa using hdraft), length_cons, length_cons]
    exact Nat.succ_le_succ hle

/-- A response can be read in one way only. -/
theorem Listing.marked_eq (h : Listing drafts marked accepted rejected)
    (hids : ∀ entry ∈ rejected, entry.eventId ∉ existing.map Prod.fst)
    (hlength : rejected.length = (unmarked existing drafts).length) : marked = marks existing drafts := by
  induction h with
  | nil => rfl
  | @existing draft entry drafts marked accepted rejected _ hrest ih =>
    by_cases hid : draft.eventId ∈ existing.map Prod.fst
    · rw [unmarked, filter_cons, if_neg (by simpa using hid)] at hlength
      rw [marks, filter_cons, if_pos (by simpa using hid), ih hids hlength]
      rfl
    · have hle := hrest.rejected_le hids
      rw [unmarked, filter_cons, if_pos (by simpa using hid), length_cons] at hlength
      unfold unmarked at hle
      omega
  | @rejected draft entry drafts marked accepted rejected hid hrest ih =>
    have hdraft : draft.eventId ∉ existing.map Prod.fst := hid ▸ hids entry mem_cons_self
    rw [unmarked, filter_cons, if_pos (by simpa using hdraft), length_cons, length_cons] at hlength
    rw [marks, filter_cons, if_neg (by simpa using hdraft)]
    exact ih (fun entry hentry => hids entry (mem_cons_of_mem _ hentry)) (Nat.succ.inj hlength)

end Responses

/-! ## The reject path and the replay path -/

section Agreement

variable [DecidableEq J] [LinearOrder D] {sdk : Sdk J D}
variable {read : Option (Db J D)}

/-- The two paths agree on what is stored, and a response names a draft as existing for a reason: the ledger holds an
event under the draft's own key, with its material identity. -/
structure RejectAgrees (sdk : Sdk J D) (db : Db J D) (events : List (EventDraft J D))
    (response : IngestBatchResponse) : Prop where
  replay : ∀ (draft : EventDraft J D), ∀ row ∈ db.events, ∀ e, StoredAs sdk db row e →
    (sameEvent draft e = true ↔ recoverExisting sdk db.contentRefs (canonicalizeDraft draft) row = .ok e)
  listed : ∃ marked, Listing events marked response.accepted response.rejected ∧
    ∀ draft ∈ marked, HeldAsOwn sdk db draft

theorem existingEvents_spec (law : sdk.Lawful) {db : Db J D} (inv : RowsInv sdk db)
    (hread : read = none ∨ read = some db) (events : List (EventDraft J D)) :
    ∃ found, existingEvents sdk read events = some found ∧ ∀ eventId, eventId ∈ found.map Prod.fst ↔
      read ≠ none ∧ ∃ draft ∈ events, draft.eventId = eventId ∧ HeldAsOwn sdk db draft := by
  rcases hread with rfl | rfl
  · exact ⟨[], rfl, by simp⟩
  · obtain ⟨storedByKey, hstored, hlookup⟩ := getByIdempotencyKeys_spec law inv (events.map sdk.draftKey)
    refine ⟨events.foldl (matchStep sdk storedByKey) [], ?_, fun eventId => ?_⟩
    · show (getByIdempotencyKeys sdk db (events.map sdk.draftKey)).map _ = some _
      rw [hstored]
      rfl
    · have hfound : ∀ draft ∈ events, ∀ e, storedByKey.lookup (sdk.draftKey draft) = some e ↔
          ∃ row ∈ db.events, row.key = sdk.draftKey draft ∧ StoredAs sdk db row e := by
        intro draft hdraft e
        rw [hlookup]
        exact and_iff_right (mem_map.2 ⟨draft, hdraft, rfl⟩)
      rw [matchStep_mem law hfound]
      simp

theorem reject_listed (law : sdk.Lawful) {db : Db J D} (inv : RowsInv sdk db) (hread : read = none ∨ read = some db)
    (batch : IngestBatch J D) (r : Rejection) :
    ∃ outcome, reject sdk read batch r = some outcome ∧ ∃ marked,
      Listing batch.events marked outcome.response.accepted outcome.response.rejected ∧
      (∀ other, Listing batch.events other outcome.response.accepted outcome.response.rejected → other = marked) ∧
      ∀ draft, draft ∈ marked ↔ draft ∈ batch.events ∧ read ≠ none ∧
        ∃ held ∈ batch.events, held.eventId = draft.eventId ∧ HeldAsOwn sdk db held := by
  obtain ⟨found, hfound, hids⟩ := existingEvents_spec law inv hread batch.events
  obtain ⟨accepted, rejected, hfold, hlisting, hrejected⟩ := rejectFold_listing found r batch.events ([], [])
  refine ⟨⟨r.httpStatus, ⟨batch.batchId, accepted, rejected⟩, r.retryAfter⟩, ?_, marks found batch.events, hlisting,
    ?_, ?_⟩
  · unfold reject
    rw [hfound, Option.map_some, hfold]
    rfl
  · intro other hother
    have hlength := hlisting.length_add
    have hall := marks_length_add found batch.events
    have hcount : rejected.length = (unmarked found batch.events).length := by omega
    exact hother.marked_eq hrejected hcount
  · intro draft
    rw [marks, mem_filter, decide_eq_true_eq, hids]

theorem ingest_failed {batch : IngestBatch J D} {committed : Except IngestError (List (AppendOutcome J D))}
    (h : hasDuplicateIdempotencyKey sdk batch.events = true ∨ ∃ error, committed = .error error ∧ error ≠ .raised) :
    ∃ r, ingest sdk read batch committed = reject sdk read batch r := by
  unfold ingest
  by_cases hdup : hasDuplicateIdempotencyKey sdk batch.events = true
  · rw [if_pos hdup]
    exact ⟨_, rfl⟩
  · rw [if_neg hdup]
    obtain ⟨error, rfl, hcaught⟩ := h.resolve_left hdup
    cases error with
    | raised => exact absurd rfl hcaught
    | contentService | idempotencyConflict | streamQuarantined | blobIntegrity | transient => exact ⟨_, rfl⟩

variable {lockKey : String × String → Int} {w : World J D}

/-- **The reject path agrees with the replay path** on every ledger appends can reach, for every failed batch, exactly
when no draft that the ledger does not hold as its own shares its event id with a draft of the batch that it does
hold (or when the lookup failed and nothing is reported as existing). -/
theorem reject_agrees_iff (law : sdk.Lawful) (h : Reachable (step sdk lockKey) World.init w)
    {read : Option (Db J D)} (hread : read = none ∨ read = some w.db) (batch : IngestBatch J D)
    {committed : Except IngestError (List (AppendOutcome J D))}
    (hfailed : hasDuplicateIdempotencyKey sdk batch.events = true ∨
      ∃ error, committed = .error error ∧ error ≠ .raised) :
    ∃ outcome, ingest sdk read batch committed = some outcome ∧
      (RejectAgrees sdk w.db batch.events outcome.response ↔ read = none ∨
        ∀ held ∈ batch.events, HeldAsOwn sdk w.db held →
          ∀ draft ∈ batch.events, draft.eventId = held.eventId → HeldAsOwn sdk w.db draft) := by
  have inv := (reachable_inv law h).ledger.toRowsInv
  obtain ⟨r, hr⟩ := ingest_failed hfailed
  obtain ⟨outcome, houtcome, marked, hlisting, hunique, hmarked⟩ := reject_listed law inv hread batch r
  refine ⟨outcome, hr.trans houtcome, ?_, ?_⟩
  · rintro ⟨-, other, hother, hheld⟩
    obtain rfl := hunique other hother
    by_cases hnone : read = none
    · exact Or.inl hnone
    · refine Or.inr fun held hmem hown draft hdraft hid => ?_
      exact hheld draft ((hmarked draft).2 ⟨hdraft, hnone, held, hmem, hid.symm, hown⟩)
  · intro hcond
    refine ⟨fun draft row _ e he => sameEvent_recovers law he draft, marked, hlisting, ?_⟩
    intro draft hdraft
    obtain ⟨hmem, hsome, held, hheld, hid, hown⟩ := (hmarked draft).1 hdraft
    exact hcond.resolve_left hsome held hheld hown draft hmem hid.symm

end Agreement

/-- A draft that is stored, and one that only repeats its event id. -/
def sampleRetry : List (ResolvedEvent Unit Nat) := [sampleEvent "e1" "s" "k1", sampleEvent "e1" "s" "k2"]

def sampleRetryBatch : IngestBatch Unit Nat := ⟨"b2", sampleRetry.map (·.draft)⟩

def sampleStored : List (Label Unit Nat) :=
  [.start [sampleEvent "e1" "s" "k1"] sampleStamps, .exec 0, .exec 0, .exec 0, .commit 0]

theorem reject_agrees_iff_sample : ∃ w, run (step sampleSdk fun _ => 0) World.init sampleStored = some w ∧
    ∃ outcome, ingest sampleSdk (some w.db) sampleRetryBatch (.error (.idempotencyConflict "agent" "k2")) =
      some outcome ∧ (RejectAgrees sampleSdk w.db sampleRetryBatch.events outcome.response ↔ some w.db = none ∨
        ∀ held ∈ sampleRetryBatch.events, HeldAsOwn sampleSdk w.db held →
          ∀ draft ∈ sampleRetryBatch.events, draft.eventId = held.eventId → HeldAsOwn sampleSdk w.db draft) := by
  have heval : (run (step sampleSdk fun _ => 0) World.init sampleStored).isSome = true := by decide
  obtain ⟨w, hw⟩ := Option.isSome_iff_exists.1 heval
  exact ⟨w, hw, reject_agrees_iff sampleSdk_lawful ⟨_, hw⟩ (Or.inr rfl) sampleRetryBatch
    (Or.inr ⟨_, rfl, by decide⟩)⟩

/-- The second draft is nowhere in the ledger, its append conflicts, and the response reports it as existing. -/
theorem reject_marks_unstored : ∃ w outcome, run (step sampleSdk fun _ => 0) World.init sampleStored = some w ∧
    appendWithOutcome sampleSdk w.db sampleRetry sampleStamps = .error (.idempotencyConflict "agent" "k2" "e1") ∧
    ingest sampleSdk (some w.db) sampleRetryBatch
      (.error (.ofAppend (.idempotencyConflict "agent" "k2" "e1"))) = some outcome ∧
    outcome.response = ⟨"b2", [⟨"e1", .existing, 1⟩, ⟨"e1", .existing, 1⟩], []⟩ ∧
    ¬ RejectAgrees sampleSdk w.db sampleRetryBatch.events outcome.response := by
  have heval : (run (step sampleSdk fun _ => 0) World.init sampleStored).map (fun w => (w.db.events.map (·.key),
      (match appendWithOutcome sampleSdk w.db sampleRetry sampleStamps with
        | .error error => some error
        | .ok _ => none),
      ingest sampleSdk (some w.db) sampleRetryBatch (.error (.ofAppend (.idempotencyConflict "agent" "k2" "e1"))))) =
      some ([("agent", "k1")], some (.idempotencyConflict "agent" "k2" "e1"),
        some ⟨409, ⟨"b2", [⟨"e1", .existing, 1⟩, ⟨"e1", .existing, 1⟩], []⟩, none⟩) := by decide
  obtain ⟨w, hw, hall⟩ := Option.map_eq_some_iff.1 heval
  simp only [Prod.mk.injEq] at hall
  obtain ⟨hkeys, hraised, hingest⟩ := hall
  have happend : appendWithOutcome sampleSdk w.db sampleRetry sampleStamps =
      .error (.idempotencyConflict "agent" "k2" "e1") := by
    cases hresult : appendWithOutcome sampleSdk w.db sampleRetry sampleStamps with
    | error error =>
      rw [hresult] at hraised
      rw [Option.some.inj hraised]
    | ok result =>
      rw [hresult] at hraised
      cases hraised
  refine ⟨w, _, hw, happend, hingest, rfl, ?_⟩
  rintro ⟨-, marked, hlisting, hheld⟩
  obtain ⟨row, hrow, hkey, -⟩ : HeldAsOwn sampleSdk w.db (sampleEvent "e1" "s" "k2").draft := by
    apply hheld
    cases hlisting with
    | existing _ hrest =>
      cases hrest with
      | existing _ hnil => exact List.mem_cons_of_mem _ List.mem_cons_self
  have hmem : row.key ∈ w.db.events.map (·.key) := List.mem_map.2 ⟨row, hrow, rfl⟩
  rw [hkeys, hkey] at hmem
  revert hmem
  decide

end Ledger
