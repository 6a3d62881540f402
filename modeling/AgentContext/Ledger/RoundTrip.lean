import AgentContext.Ledger.Verify

/-!
# Writing a sealed event and reading it back

`_insert_or_recover` seals a draft whose claims `_canonicalize_draft` has sorted, and splits the event into its
event row (`_event_row_from_sealed`) and its reference rows (`_content_ref_rows_from_sealed`).
`_row_to_stored_event` puts them together again.  A query without ORDER BY may return the reference rows in any
order; `content_id` is unique within an event and the event was sealed in its order, so sorting by it finds the
order they were sealed in:

    refRows_sort        any order of a sealed event's reference rows sorts to the order of the event
    event_round_trip    the rows of a sealed event, in any order, read back as the event, and it verifies

A JSONB column gives back the JSON document it was given, and SQL NULL and JSON `null` both read as no document.
-/

namespace Ledger

variable {J D : Type} {sdk : Sdk J D}
variable {e : StoredEvent J D} {rows : List (EventContentRefRow D)}

instance : Std.Total (refRowLe (D := D)) := ⟨fun a b => le_total a.contentId b.contentId⟩
instance : IsTrans (EventContentRefRow D) refRowLe := ⟨fun _ _ _ h h' => le_trans (α := String) h h'⟩

@[simp] theorem contentRefRowsFromSealed_ids (e : StoredEvent J D) :
    (contentRefRowsFromSealed e).map (·.contentId) = e.contentRefs.map (·.contentId) := by
  simp [contentRefRowsFromSealed]

section

variable (law : sdk.Lawful) (h : Sealed sdk e)
include law h

theorem Sealed.refRows_sorted : (contentRefRowsFromSealed e).Pairwise refRowLe := by
  have hclaims := h.claims_sorted law
  rw [List.pairwise_map] at hclaims
  rw [contentRefRowsFromSealed, List.pairwise_map]
  exact hclaims

/-- A sealed event names each content once. -/
theorem Sealed.refRows_nodup : ((contentRefRowsFromSealed e).map (·.contentId)).Nodup := by
  obtain ⟨draft, refs, n, p, hseal⟩ := h
  rw [contentRefRowsFromSealed_ids]
  exact (law.seal_refs hseal).2

/-- **Sorting finds the sealed order**, whatever order the rows are read in. -/
theorem refRows_sort (hrows : rows.Perm (contentRefRowsFromSealed e)) :
    rows.insertionSort refRowLe = contentRefRowsFromSealed e := by
  have hperm := (List.perm_insertionSort refRowLe rows).trans hrows
  refine hperm.eq_of_pairwise ?_ (List.pairwise_insertionSort refRowLe rows) (h.refRows_sorted law)
  intro a b ha hb hab hba
  have hid : a.contentId = b.contentId := le_antisymm hab hba
  exact List.inj_on_of_nodup_map (h.refRows_nodup law) (hperm.mem_iff.1 ha) hb hid

theorem rowToStoredEvent_sealed (recordedAt : Nat) (hrows : rows.Perm (contentRefRowsFromSealed e)) :
    rowToStoredEvent sdk (eventRowFromSealed sdk e recordedAt) rows = some e := by
  have hraw : rawStoredEvent (eventRowFromSealed sdk e recordedAt) rows = e := by
    have hsealed := rawStoredEvent_rows law h recordedAt
    unfold rawStoredEvent at hsealed ⊢
    rw [refRows_sort law h hrows]
    rwa [(h.refRows_sorted law).insertionSort_eq] at hsealed
  rw [rowToStoredEvent, hraw]
  exact h.valid law

end

theorem StoredAs.read_perm (law : sdk.Lawful) {db : Db J D} {row : EventRow J D} (h : StoredAs sdk db row e)
    (hrows : rows.Perm (refsOf db row.eventId)) : Ledger.rowToStoredEvent sdk row rows = some e := by
  have hsealed : rows.Perm (contentRefRowsFromSealed e) := h.refs ▸ hrows
  rw [h.row_eq]
  exact rowToStoredEvent_sealed law h.origin row.recordedAt hsealed

theorem checkEvent_sealed [DecidableEq D] (law : sdk.Lawful) (h : Sealed sdk e) (recordedAt : Nat)
    (hrows : rows.Perm (contentRefRowsFromSealed e)) :
    checkEvent sdk (eventRowFromSealed sdk e recordedAt) e.streamSequence e.integrity.previousEventSha256 rows =
      none := by
  have hread := rowToStoredEvent_sealed law h recordedAt hrows
  -- the tables of a ledger that holds this event only
  have hstored : StoredAs sdk { Db.empty with contentRefs := contentRefRowsFromSealed e }
      (eventRowFromSealed sdk e recordedAt) e := by
    refine ⟨h, rfl, ?_⟩
    show List.filter _ (contentRefRowsFromSealed e) = contentRefRowsFromSealed e
    rw [List.filter_eq_self]
    intro ref href
    obtain ⟨_, -, rfl⟩ := List.mem_map.1 href
    exact decide_eq_true rfl
  obtain ⟨event, hevent, hcanonical, hproducer, hpayload, hdigest⟩ := hstored.eventOk law
  have hsame : event = e := by
    rw [hstored.read_perm law (List.Perm.refl _)] at hevent
    exact (Option.some.inj hevent).symm
  subst hsame
  have hseq : (eventRowFromSealed sdk event recordedAt).streamSequence = event.streamSequence := rfl
  have hprev : (eventRowFromSealed sdk event recordedAt).previousEventSha256 =
      event.integrity.previousEventSha256 := rfl
  unfold checkEvent
  simp [hread, hseq, hprev, hcanonical, hproducer, hpayload, hdigest]

/-- **Storing an event loses nothing.**  For every event `_insert_or_recover` seals, its row and its reference rows,
these in any order, read back as exactly the event: both digests are still those of its integrity block, and the
verifier finds nothing against the row in its place of the chain. -/
theorem event_round_trip [DecidableEq D] (law : sdk.Lawful) {draft : EventDraft J D} {refs : List (ContentRef D)}
    {n : Nat} {p : Option D} {e : StoredEvent J D} (h : sdk.sealEvent (canonicalizeDraft draft) refs n p = some e)
    (recordedAt : Nat) {rows : List (EventContentRefRow D)} (hrows : rows.Perm (contentRefRowsFromSealed e)) :
    rowToStoredEvent sdk (eventRowFromSealed sdk e recordedAt) rows = some e ∧
      sdk.payloadSha256 e = some e.integrity.payloadSha256 ∧ sdk.eventSha256 e = e.integrity.eventSha256 ∧
      checkEvent sdk (eventRowFromSealed sdk e recordedAt) n p rows = none := by
  have origin : Sealed sdk e := ⟨draft, refs, n, p, h⟩
  have hcheck := checkEvent_sealed law origin recordedAt hrows
  rw [(law.seal_chain h).1, (law.seal_chain h).2] at hcheck
  exact ⟨rowToStoredEvent_sealed law origin recordedAt hrows, (law.seal_digests h).1, (law.seal_digests h).2, hcheck⟩

def sampleRef (contentId : String) : ContentRef Nat where
  contentId := contentId
  contentSha256 := 0
  mediaType := "text/plain"
  uncompressedBytes := 3
  disposition := .sanitized
  storage := .object
  inlineId := none
  objectKey := some "sha256/00"
  encoding := some "zstd"

/-- A draft that claims `c2` before `c1`. -/
def sampleContentDraft : EventDraft Unit Nat :=
  { (sampleEvent "e1" "s" "k1").draft with contentClaims := [(sampleRef "c2").toContentClaim, (sampleRef "c1").toContentClaim] }

theorem event_round_trip_sample : ∃ e, e.contentRefs.length = 2 ∧
    rowToStoredEvent sampleSdk (eventRowFromSealed sampleSdk e 7) (contentRefRowsFromSealed e).reverse = some e ∧
      sampleSdk.payloadSha256 e = some e.integrity.payloadSha256 ∧ sampleSdk.eventSha256 e = e.integrity.eventSha256 ∧
      checkEvent sampleSdk (eventRowFromSealed sampleSdk e 7) 1 none (contentRefRowsFromSealed e).reverse = none := by
  have hsealed : (sampleSdk.sealEvent (canonicalizeDraft sampleContentDraft) [sampleRef "c1", sampleRef "c2"] 1
      none).map (·.contentRefs.length) = some 2 := by decide
  obtain ⟨e, he, hlen⟩ := Option.map_eq_some_iff.1 hsealed
  exact ⟨e, hlen, event_round_trip sampleSdk_lawful he 7 (List.reverse_perm _)⟩

end Ledger
