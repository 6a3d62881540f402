import AgentContext.Ledger.Receipts
import AgentContext.Ledger.Reject

/-!
# Appending an export

`otlp_api._ingest` appends the drafts of an export as one batch, and a refused batch again without the drafts the
refusal names, at most `MAX_INGEST_ATTEMPTS` times.  The service may answer each attempt as the ledger lets it:

    Served              what the service answers, on a ledger other transactions write to
    served_accounts     after an answer, every draft is held or listed as rejected
    ingest_accounts     after the loop, every draft is held or its span is counted
    export_accounts     the totals of the answer of an export
-/

namespace Ledger.Otlp

open List

open Transition (Reachable run run_invariant)

variable {J D σ : Type}

/-! ## The loop -/

def maxIngestAttempts : Nat := 8

def batchRejected : String := "batch_rejected"

inductive Failure
  /-- `_RequestError(503, "service_unavailable")`. -/
  | unavailable
  /-- What the service raises, or a result for an id that is not in the batch. -/
  | raised
deriving DecidableEq, Repr

/-- What becomes of an answer. -/
inductive Turn (J D : Type)
  | done (mapping : Mapping J D)
  | retry (pending : List (Nat × EventDraft J D)) (mapping : Mapping J D)

def Turn.mapping : Turn J D → Mapping J D
  | .done mapping => mapping
  | .retry _ mapping => mapping

/-- The drafts that are tried again. -/
def Turn.pending : Turn J D → List (Nat × EventDraft J D)
  | .done _ => []
  | .retry pending _ => pending

/-- `_offenders`. -/
def offendersOf (outcome : IngestOutcome) : List String :=
  (outcome.response.rejected.filter (·.errorCode ≠ batchRejected)).map (·.eventId)

/-- `span_of[event_id]`: of two drafts with one id, the last one's. -/
def spanOf (pending : List (Nat × EventDraft J D)) (eventId : String) : Option Nat :=
  (pending.reverse.find? (·.2.eventId = eventId)).map (·.1)

/-- One rejected event of an answer. -/
def countRejected (pending : List (Nat × EventDraft J D)) (offenders : List String) (last : Bool) (mapping : Mapping J D)
    (result : RejectedEvent) : Except Failure (Mapping J D) :=
  if result.eventId ∈ offenders || last then
    match spanOf pending result.eventId with
    | some index => .ok (mapping.reject index result.errorCode)
    | none => .error .raised
  else .ok mapping

/-- The body of the loop after the service has answered. -/
def ingestTurn (attempt : Nat) (pending : List (Nat × EventDraft J D)) (mapping : Mapping J D) (outcome : IngestOutcome) :
    Except Failure (Turn J D) :=
  if outcome.httpStatus ≥ 500 then .error .unavailable
  else if outcome.httpStatus = 200 then .ok (.done mapping)
  else
    let offenders := offendersOf outcome
    let last := decide (attempt = maxIngestAttempts) || offenders.isEmpty
    match outcome.response.rejected.foldlM (countRejected pending offenders last) mapping with
    | .error failure => .error failure
    | .ok mapping =>
      let retry := (outcome.response.rejected.map (·.eventId)).filter (· ∉ offenders)
      let pending := pending.filter (·.2.eventId ∈ retry)
      if last || pending.isEmpty then .ok (.done mapping) else .ok (.retry pending mapping)

/-- The loop of `_ingest` over its attempts, with a service that keeps a state; `none` is a service that raises.  It
returns the mapping, the state of the service, and how many batches were tried. -/
def ingestLoop (serve : σ → IngestBatch J D → Option (IngestOutcome × σ)) (batchIds : Nat → String) :
    List Nat → List (Nat × EventDraft J D) → Mapping J D → σ → Nat → Except Failure (Mapping J D × σ × Nat)
  | [], _, mapping, s, made => .ok (mapping, s, made)
  | attempt :: attempts, pending, mapping, s, made =>
    match serve s ⟨batchIds attempt, pending.map (·.2)⟩ with
    | none => .error .raised
    | some (outcome, s') =>
      match ingestTurn attempt pending mapping outcome with
      | .error failure => .error failure
      | .ok (.done mapping) => .ok (mapping, s', made + 1)
      | .ok (.retry pending mapping) => ingestLoop serve batchIds attempts pending mapping s' (made + 1)

/-- `_ingest`, which `_handle` calls for a mapping with drafts. -/
def ingestMapping (serve : σ → IngestBatch J D → Option (IngestOutcome × σ)) (batchIds : Nat → String)
    (mapping : Mapping J D) (s : σ) : Except Failure (Mapping J D × σ × Nat) :=
  if mapping.drafts.isEmpty then .ok (mapping, s, 0)
  else ingestLoop serve batchIds (List.range' 1 maxIngestAttempts) mapping.drafts mapping s 0

/-- The spans drafts came from. -/
def Mapping.mappedSpans (mapping : Mapping J D) : Finset Nat := (mapping.drafts.map (·.1)).toFinset

/-- The totals `_handle` reports. -/
structure Totals where
  rejected : Nat
  mapped : Nat
  unmapped : Nat
deriving DecidableEq, Repr

def Mapping.totals (mapping : Mapping J D) : Totals where
  rejected := mapping.rejectedSpans.card
  mapped := (mapping.mappedSpans \ mapping.rejectedSpans).card
  unmapped := mapping.unmappedSpans

/-! ## One answer -/

section Turns

variable {pending pending' : List (Nat × EventDraft J D)} {mapping mapping' mapping'' : Mapping J D} {offenders : List String}
  {last : Bool}

/-- Only spans of pending drafts are rejected, and nothing else changes. -/
structure Grown (pending : List (Nat × EventDraft J D)) (mapping mapping' : Mapping J D) : Prop where
  drafts : mapping'.drafts = mapping.drafts
  spanCount : mapping'.spanCount = mapping.spanCount
  unmapped : mapping'.unmappedSpans = mapping.unmappedSpans
  mono : mapping.rejectedSpans ⊆ mapping'.rejectedSpans
  only : ∀ index ∈ mapping'.rejectedSpans, index ∈ mapping.rejectedSpans ∨ index ∈ pending.map (·.1)

theorem Grown.refl : Grown pending mapping mapping := ⟨rfl, rfl, rfl, fun _ h => h, fun _ h => .inl h⟩

theorem Grown.trans (h : Grown pending mapping mapping') (hsub : ∀ entry ∈ pending', entry ∈ pending)
    (h' : Grown pending' mapping' mapping'') : Grown pending mapping mapping'' where
  drafts := h'.drafts.trans h.drafts
  spanCount := h'.spanCount.trans h.spanCount
  unmapped := h'.unmapped.trans h.unmapped
  mono := h.mono.trans h'.mono
  only index hindex := by
    rcases h'.only index hindex with hold | hnew
    · exact h.only index hold
    · obtain ⟨entry, hentry, rfl⟩ := mem_map.1 hnew
      exact .inr (mem_map_of_mem (hsub entry hentry))

theorem Grown.reject {index : Nat} {code : String} (h : index ∈ pending.map (·.1)) :
    Grown pending mapping (mapping.reject index code) where
  drafts := rfl
  spanCount := rfl
  unmapped := rfl
  mono := Finset.subset_insert _ _
  only i hi := by
    rcases Finset.mem_insert.1 hi with rfl | hold
    · exact .inr h
    · exact .inl hold

theorem spanOf_some {eventId : String} {index : Nat} (h : spanOf pending eventId = some index) :
    index ∈ pending.map (·.1) := by
  obtain ⟨entry, hfound, rfl⟩ := Option.map_eq_some_iff.1 h
  exact mem_map_of_mem (mem_reverse.1 (List.mem_of_find?_eq_some hfound))

theorem spanOf_eq (hids : (pending.map (·.2.eventId)).Nodup) {entry : Nat × EventDraft J D} (h : entry ∈ pending) :
    spanOf pending entry.2.eventId = some entry.1 := by
  unfold spanOf
  cases hfound : pending.reverse.find? (·.2.eventId = entry.2.eventId) with
  | none =>
    have hnot := List.find?_eq_none.1 hfound entry (mem_reverse.2 h)
    simp at hnot
  | some other =>
    have hid : other.2.eventId = entry.2.eventId := by simpa using List.find?_some hfound
    have hmem := mem_reverse.1 (List.mem_of_find?_eq_some hfound)
    rw [inj_on_of_nodup_map hids hmem h hid, Option.map_some]

/-- The loop over the rejected events of an answer. -/
theorem countRejected_all {results : List RejectedEvent}
    (h : results.foldlM (countRejected pending offenders last) mapping = .ok mapping') : Grown pending mapping mapping' ∧
      ∀ result ∈ results, (result.eventId ∈ offenders ∨ last = true) → ∀ index, spanOf pending result.eventId = some index →
        index ∈ mapping'.rejectedSpans := by
  refine Fallible.foldlM_run (P := fun before m => Grown pending mapping m ∧
      ∀ result ∈ before, (result.eventId ∈ offenders ∨ last = true) → ∀ index, spanOf pending result.eventId = some index →
        index ∈ m.rejectedSpans) ?_ ⟨Grown.refl, forall_mem_nil _⟩ h
  intro before m result m' hm hstep
  unfold countRejected at hstep
  split at hstep
  · cases hspan : spanOf pending result.eventId with
    | none =>
      rw [hspan] at hstep
      cases hstep
    | some index =>
      rw [hspan] at hstep
      obtain rfl := Except.ok.inj hstep
      refine ⟨hm.1.trans (fun _ h => h) (Grown.reject (spanOf_some hspan)), fun other hother hcounted i hi => ?_⟩
      rcases mem_append.1 hother with hbefore | hthis
      · exact Finset.mem_insert_of_mem (hm.2 other hbefore hcounted i hi)
      · rw [mem_singleton.1 hthis, hspan] at hi
        exact Finset.mem_insert.2 (.inl (Option.some.inj hi).symm)
  · next hnot =>
    obtain rfl := Except.ok.inj hstep
    refine ⟨hm.1, fun other hother hcounted i hi => ?_⟩
    rcases mem_append.1 hother with hbefore | hthis
    · exact hm.2 other hbefore hcounted i hi
    · rw [mem_singleton.1 hthis] at hcounted
      exact absurd (by simpa using hcounted) hnot

/-- What an answer leaves: each pending draft that is not `Good` is counted or tried again, and none is after the last
attempt. -/
theorem ingestTurn_accounts {Good : Nat × EventDraft J D → Prop} {attempt : Nat} {outcome : IngestOutcome} {turn : Turn J D}
    (hids : (pending.map (·.2.eventId)).Nodup)
    (hcover : ∀ entry ∈ pending, Good entry ∨
      outcome.httpStatus ≠ 200 ∧ ∃ result ∈ outcome.response.rejected, result.eventId = entry.2.eventId)
    (h : ingestTurn attempt pending mapping outcome = .ok turn) :
    Grown pending mapping turn.mapping ∧ turn.pending.Sublist pending ∧
      (∀ entry ∈ pending, Good entry ∨ entry.1 ∈ turn.mapping.rejectedSpans ∨ entry ∈ turn.pending) ∧
      (attempt = maxIngestAttempts → turn = .done turn.mapping) := by
  unfold ingestTurn at h
  split at h
  · cases h
  split at h
  · next hok =>
    obtain rfl := Except.ok.inj h
    refine ⟨Grown.refl, nil_sublist _, fun entry hentry => ?_, fun _ => rfl⟩
    exact .inl ((hcover entry hentry).resolve_right fun hrefused => hrefused.1 hok)
  dsimp only at h
  split at h
  · cases h
  · next mapping' hfold =>
    obtain ⟨hgrown, hcounted⟩ := countRejected_all hfold
    split at h
    · next hstop =>
      obtain rfl := Except.ok.inj h
      refine ⟨hgrown, nil_sublist _, fun entry hentry => ?_, fun _ => rfl⟩
      refine (hcover entry hentry).imp_right fun hrefused => .inl ?_
      obtain ⟨result, hresult, hid⟩ := hrefused.2
      have hspan : spanOf pending result.eventId = some entry.1 := by rw [hid, spanOf_eq hids hentry]
      refine hcounted result hresult ?_ _ hspan
      rcases Bool.or_eq_true_iff.1 hstop with hlast | hempty
      · exact .inr hlast
      · -- Nothing is tried again, so the draft is an offender.
        left
        by_contra hnot
        have hretry : entry ∈ pending.filter (·.2.eventId ∈
            (outcome.response.rejected.map (·.eventId)).filter (· ∉ offendersOf outcome)) := by
          refine mem_filter.2 ⟨hentry, ?_⟩
          rw [decide_eq_true_eq, mem_filter, ← hid]
          exact ⟨mem_map_of_mem hresult, by simpa using hnot⟩
        rw [List.isEmpty_iff.1 hempty] at hretry
        cases hretry
    · next hgo =>
      obtain rfl := Except.ok.inj h
      refine ⟨hgrown, filter_sublist, fun entry hentry => ?_, fun hattempt => ?_⟩
      · refine (hcover entry hentry).imp_right fun hrefused => ?_
        obtain ⟨result, hresult, hid⟩ := hrefused.2
        have hspan : spanOf pending result.eventId = some entry.1 := by rw [hid, spanOf_eq hids hentry]
        by_cases hoffends : result.eventId ∈ offendersOf outcome
        · exact .inl (hcounted result hresult (.inl hoffends) _ hspan)
        · refine .inr (mem_filter.2 ⟨hentry, ?_⟩)
          rw [decide_eq_true_eq, mem_filter, ← hid]
          exact ⟨mem_map_of_mem hresult, by simpa using hoffends⟩
      · exact absurd (by simp [hattempt]) hgo

end Turns

/-! ## What is held -/

section Held

variable [DecidableEq J] [LinearOrder D] {sdk : Sdk J D} {lockKey : String × String → Int} {w w' : World J D} {draft : EventDraft J D}

section

variable (law : sdk.Lawful) (inv : WorldInv sdk lockKey w)
include law inv

theorem reachable_world (h : Reachable (step sdk lockKey) w w') :
    WorldInv sdk lockKey w' := by
  obtain ⟨ls, hls⟩ := h
  exact run_invariant (fun _ _ _ hI hs => hI.step law hs) inv hls

theorem stored_later (h : Reachable (step sdk lockKey) w w')
    {row : EventRow J D} {e : StoredEvent J D} (hrow : row ∈ w.db.events) (he : StoredAs sdk w.db row e) :
    row ∈ w'.db.events ∧ StoredAs sdk w'.db row e := by
  obtain ⟨ls, hls⟩ := h
  exact (run_invariant (I := fun u => WorldInv sdk lockKey u ∧ row ∈ u.db.events ∧ StoredAs sdk u.db row e)
    (fun _ _ _ hI hs => ⟨hI.1.step law hs, stored_step hI.1 hs hI.2.1 hI.2.2⟩) ⟨inv, hrow, he⟩ hls).2

theorem held_later (h : HeldAsOwn sdk w.db draft)
    (hrun : Reachable (step sdk lockKey) w w') : HeldAsOwn sdk w'.db draft := by
  obtain ⟨row, hrow, hkey, e, he, hid⟩ := h
  obtain ⟨hrow', he'⟩ := stored_later law inv hrun hrow he
  exact ⟨row, hrow', hkey, e, he', hid⟩

end

omit [DecidableEq J] [LinearOrder D] in
/-- A committed append holds every draft of its batch. -/
theorem held_of_spec {db db' : Db J D} {events : List (ResolvedEvent J D)} {results : List (AppendOutcome J D)}
    (spec : AppendSpec sdk db events results db') (hkept : ∀ d, HeldAsOwn sdk db d → HeldAsOwn sdk db' d) :
    ∀ (i : Nat) (resolved : ResolvedEvent J D), events[i]? = some resolved → HeldAsOwn sdk db' resolved.draft := by
  intro i
  induction i using Nat.strong_induction_on with
  | _ i ih =>
    intro resolved hget
    have hresult : ∀ {k : Nat} {found : ResolvedEvent J D}, events[k]? = some found → ∃ outcome, results[k]? = some outcome := by
      intro k found hk
      have hlt := (List.getElem?_eq_some_iff.1 hk).1
      exact ⟨_, List.getElem?_eq_getElem (spec.positional ▸ hlt)⟩
    obtain ⟨outcome, houtcome⟩ := hresult hget
    have hidentity := spec.identity i resolved outcome hget houtcome
    by_cases hknown : ∃ row ∈ db.events, row.key = sdk.draftKey resolved.draft
    · obtain ⟨row, hrow, hkey⟩ := hknown
      exact hkept _ ⟨row, hrow, hkey, _, (spec.known i resolved _ hget houtcome row hrow hkey).2, hidentity⟩
    by_cases hearlier : ∃ j < i, ∃ first : ResolvedEvent J D, events[j]? = some first ∧
        sdk.draftKey first.draft = sdk.draftKey resolved.draft
    · -- A repeat of the batch has the stored event of its first occurrence.
      obtain ⟨j, hj, first, hfirst, hkey⟩ := hearlier
      obtain ⟨earlier, hjoutcome⟩ := hresult hfirst
      obtain ⟨-, hsame⟩ := spec.repeated j i first resolved _ _ hj hfirst hjoutcome hget houtcome hkey
      obtain ⟨row, hrow, hrowKey, e, he, heid⟩ := ih j hj first hfirst
      refine ⟨row, hrow, hrowKey.trans hkey, e, he, heid.trans ?_⟩
      rw [← spec.identity j first _ hfirst hjoutcome, ← hsame, hidentity]
    · obtain ⟨hcreated, -⟩ := spec.fresh i resolved outcome hget houtcome
        (fun row hrow hkey => hknown ⟨row, hrow, hkey⟩)
        (fun j hj first hfirst hkey => hearlier ⟨j, hj, first, hfirst, hkey⟩)
      obtain ⟨rows, hevents, hrows⟩ := spec.events
      have hmem : outcome ∈ results.filter (·.created) := mem_filter.2 ⟨mem_of_getElem? houtcome, hcreated⟩
      obtain ⟨row, hrow, hstored⟩ := Fallible.forall₂_left hrows _ hmem
      exact ⟨row, hevents ▸ mem_append_right _ hrow,
        hstored.key.trans (storedIdentity_key sdk hidentity), _, hstored, hidentity⟩

end Held

/-! ## The service -/

section Service

variable [DecidableEq J] [LinearOrder D]

/-- What the service answers to a batch between two states of the ledger: its transaction commits, or preparing or
appending the batch raises and the lookup of the stored drafts sees a ledger or fails. -/
inductive Served (sdk : Sdk J D) (lockKey : String × String → Int) (w : World J D) (batch : IngestBatch J D)
    (outcome : IngestOutcome) (w' : World J D) : Prop
  | committed (u u' : World J D) (t : Nat) (txn : Txn J D) (before : Reachable (step sdk lockKey) w u)
      (running : u.txns[t]? = some txn) (drafts : txn.batch.map (·.draft) = batch.events)
      (commits : step sdk lockKey u (.commit t) = some u') (after : Reachable (step sdk lockKey) u' w')
      (answer : ingest sdk none batch (.ok txn.session.results) = some outcome)
  | failed (u : World J D) (error : IngestError) (read : Option (Db J D)) (before : Reachable (step sdk lockKey) w u)
      (after : Reachable (step sdk lockKey) u w') (looked : read = none ∨ read = some u.db)
      (answer : ingest sdk read batch (.error error) = some outcome)

/-- A service that answers as the ledger lets it, whatever else it keeps in its state. -/
def Serves (sdk : Sdk J D) (lockKey : String × String → Int) (world : σ → World J D)
    (serve : σ → IngestBatch J D → Option (IngestOutcome × σ)) : Prop :=
  ∀ s batch outcome s', serve s batch = some (outcome, s') → Served sdk lockKey (world s) batch outcome (world s')

variable {sdk : Sdk J D} {lockKey : String × String → Int} {w w' : World J D} {batch : IngestBatch J D}
  {outcome : IngestOutcome} {draft draft' : EventDraft J D}

omit [DecidableEq J] [LinearOrder D] in
theorem listing_covers {drafts marked : List (EventDraft J D)} {accepted : List AcceptedEvent}
    {rejected : List RejectedEvent} (h : Listing drafts marked accepted rejected) :
    ∀ draft ∈ drafts, draft ∈ marked ∨ ∃ entry ∈ rejected, entry.eventId = draft.eventId := by
  induction h with
  | nil => exact forall_mem_nil _
  | existing _ _ ih =>
    refine forall_mem_cons.2 ⟨.inl mem_cons_self, fun draft hdraft => ?_⟩
    exact (ih draft hdraft).imp_left (mem_cons_of_mem _)
  | rejected hid _ ih =>
    refine forall_mem_cons.2 ⟨.inr ⟨_, mem_cons_self, hid⟩, fun draft hdraft => ?_⟩
    rcases ih draft hdraft with hmarked | ⟨entry, hentry, heq⟩
    · exact .inl hmarked
    · exact .inr ⟨entry, mem_cons_of_mem _ hentry, heq⟩

theorem reject_accounts (law : sdk.Lawful) {db : Db J D} (inv : RowsInv sdk db) {read : Option (Db J D)}
    (hread : read = none ∨ read = some db) (hids : (batch.events.map (·.eventId)).Nodup) {r : Rejection}
    (h : reject sdk read batch r = some outcome) : outcome.httpStatus = r.httpStatus ∧ ∀ draft ∈ batch.events,
      HeldAsOwn sdk db draft ∨ ∃ entry ∈ outcome.response.rejected, entry.eventId = draft.eventId := by
  obtain ⟨outcome', houtcome, marked, hlisting, -, hmarked⟩ := reject_listed law inv hread batch r
  obtain rfl : outcome' = outcome := Option.some.inj (houtcome.symm.trans h)
  refine ⟨?_, fun draft hdraft => ?_⟩
  · obtain ⟨found, -, rfl⟩ := Option.map_eq_some_iff.1 h
    rfl
  · refine (listing_covers hlisting draft hdraft).imp_left fun hmem => ?_
    obtain ⟨-, -, held, hheld, hid, hown⟩ := (hmarked draft).1 hmem
    rwa [inj_on_of_nodup_map hids hheld hdraft hid] at hown

omit [DecidableEq J] [LinearOrder D] in
theorem rejection_status {events : List (EventDraft J D)} {error : IngestError} {r : Rejection}
    (h : rejection sdk events error = some r) : r.httpStatus ≠ 200 := by
  cases error <;> cases h <;> simp

/-- After an answer every draft is held, or the answer is a refusal that lists it. -/
theorem served_accounts (law : sdk.Lawful) (inv : WorldInv sdk lockKey w) (hids : (batch.events.map (·.eventId)).Nodup)
    (h : Served sdk lockKey w batch outcome w') : ∀ draft ∈ batch.events, HeldAsOwn sdk w'.db draft ∨
      outcome.httpStatus ≠ 200 ∧ ∃ entry ∈ outcome.response.rejected, entry.eventId = draft.eventId := by
  have hreached : ∀ {u : World J D}, Reachable (step sdk lockKey) w u → WorldInv sdk lockKey u := by
    exact reachable_world law inv
  -- A refusal lists what the lookup did not find.
  have hrefused : ∀ {u : World J D} {read : Option (Db J D)} {r : Rejection}, Reachable (step sdk lockKey) w u →
      Reachable (step sdk lockKey) u w' → (read = none ∨ read = some u.db) → reject sdk read batch r = some outcome →
      r.httpStatus ≠ 200 → ∀ draft ∈ batch.events, HeldAsOwn sdk w'.db draft ∨
        outcome.httpStatus ≠ 200 ∧ ∃ entry ∈ outcome.response.rejected, entry.eventId = draft.eventId := by
    intro u read r hbefore hafter hread hreject hstatus draft hdraft
    obtain ⟨heq, hall⟩ := reject_accounts law (hreached hbefore).ledger.toRowsInv hread hids hreject
    rcases hall draft hdraft with hheld | hentry
    · exact .inl (held_later law (hreached hbefore) hheld hafter)
    · exact .inr ⟨heq ▸ hstatus, hentry⟩
  cases h with
  | committed u u' t txn before running drafts commits after answer =>
    have hnext : Reachable (step sdk lockKey) u w' :=
      Transition.Reachable.trans ((Transition.Reachable.refl u).next commits) after
    unfold ingest at answer
    split at answer
    · exact hrefused before hnext (.inl rfl) answer (by decide)
    · intro draft hdraft
      rw [← drafts] at hdraft
      obtain ⟨resolved, hresolved, rfl⟩ := mem_map.1 hdraft
      obtain ⟨i, hi⟩ := mem_iff_getElem?.1 hresolved
      have inv' := hreached (before.next commits)
      have hkept : ∀ d, HeldAsOwn sdk u.db d → HeldAsOwn sdk u'.db d := fun d hd =>
        held_later law (hreached before) hd ((Transition.Reachable.refl u).next commits)
      have hheld := held_of_spec (commit_spec law (hreached before) running commits) hkept i resolved hi
      exact .inl (held_later law inv' hheld after)
  | failed u error read before after looked answer =>
    unfold ingest at answer
    split at answer
    · exact hrefused before after looked answer (by decide)
    · obtain ⟨r, hr, hreject⟩ := Option.bind_eq_some_iff.1 answer
      exact hrefused before after looked hreject (rejection_status hr)

theorem Served.reachable (h : Served sdk lockKey w batch outcome w') : Reachable (step sdk lockKey) w w' := by
  cases h with
  | committed u u' t txn before running drafts commits after answer => exact (before.next commits).trans after
  | failed u error read before after looked answer => exact before.trans after

variable {world : σ → World J D} {serve : σ → IngestBatch J D → Option (IngestOutcome × σ)} {batchIds : Nat → String}
  {s s' : σ} {mapping mapping' : Mapping J D} {pending : List (Nat × EventDraft J D)} {made made' : Nat}

theorem ingestLoop_accounts (law : sdk.Lawful) (hserves : Serves sdk lockKey world serve) {attempts : List Nat}
    (hlast : attempts.getLast? = some maxIngestAttempts) (inv : WorldInv sdk lockKey (world s))
    (hids : (pending.map (·.2.eventId)).Nodup)
    (h : ingestLoop serve batchIds attempts pending mapping s made = .ok (mapping', s', made')) :
    Grown pending mapping mapping' ∧ made' ≤ made + attempts.length ∧ Reachable (step sdk lockKey) (world s) (world s') ∧
      ∀ entry ∈ pending, HeldAsOwn sdk (world s').db entry.2 ∨ entry.1 ∈ mapping'.rejectedSpans := by
  induction attempts generalizing pending mapping s made with
  | nil => cases hlast
  | cons attempt attempts ih =>
    unfold ingestLoop at h
    cases hserve : serve s ⟨batchIds attempt, pending.map (·.2)⟩ with
    | none =>
      rw [hserve] at h
      cases h
    | some answer =>
      obtain ⟨outcome, between⟩ := answer
      rw [hserve] at h
      dsimp only at h
      have hserved := hserves _ _ _ _ hserve
      have hreach := hserved.reachable
      have inv' := reachable_world law inv hreach
      cases hturn : ingestTurn attempt pending mapping outcome with
      | error failure =>
        rw [hturn] at h
        cases h
      | ok turn =>
        rw [hturn] at h
        have hcover : ∀ entry ∈ pending, HeldAsOwn sdk (world between).db entry.2 ∨ outcome.httpStatus ≠ 200 ∧
            ∃ result ∈ outcome.response.rejected, result.eventId = entry.2.eventId := fun entry hentry =>
          served_accounts law inv (by rw [map_map]; exact hids) hserved entry.2 (mem_map_of_mem hentry)
        obtain ⟨hgrown, hsub, haccounts, hmax⟩ := ingestTurn_accounts hids hcover hturn
        cases turn with
        | done finished =>
          simp only [Except.ok.injEq, Prod.mk.injEq] at h
          obtain ⟨rfl, rfl, rfl⟩ := h
          refine ⟨hgrown, by rw [length_cons]; omega, hreach, fun entry hentry => ?_⟩
          exact (haccounts entry hentry).imp_right fun hor => hor.resolve_right not_mem_nil
        | retry rest counted =>
          dsimp only at h
          have hmore : attempts.getLast? = some maxIngestAttempts := by
            cases attempts with
            | nil =>
              rw [List.getLast?_singleton] at hlast
              cases hmax (Option.some.inj hlast)
            | cons next attempts => rwa [List.getLast?_cons_cons] at hlast
          obtain ⟨hgrown', hmade, hreach', hheld⟩ := ih hmore inv' ((hsub.map _).nodup hids) h
          refine ⟨hgrown.trans (fun _ hentry => hsub.subset hentry) hgrown', by rw [length_cons]; omega,
            hreach.trans hreach', fun entry hentry => ?_⟩
          rcases haccounts entry hentry with hgood | hrejected | hagain
          · exact .inl (held_later law inv' hgood hreach')
          · exact .inr (hgrown'.mono hrejected)
          · exact hheld entry hagain

end Service

/-! ## The tallies of a mapping -/

section Tallies

variable {py : Python} {models : Models J} {config : MapperConfig J} {ids : Nat → String} {receipt : Receipt}
  {export_ : List ResourceSpans} {latest : Nat} {state state' : MapState J D} {mapping : Mapping J D}

/-- The spans that are refused or have drafts. -/
def Mapping.touched (mapping : Mapping J D) : Finset Nat := mapping.rejectedSpans ∪ mapping.mappedSpans

/-- No span is counted twice: the unmapped ones are neither refused nor have they drafts. -/
structure Tallied (mapping : Mapping J D) : Prop where
  spans : ∀ index ∈ mapping.touched, index < mapping.spanCount
  count : mapping.unmappedSpans + mapping.touched.card ≤ mapping.spanCount

theorem touched_reject (index : Nat) (reason : String) : (mapping.reject index reason).touched = insert index mapping.touched :=
  Finset.insert_union _ _ _

theorem mappedSpans_concat (index : Nat) (draft : EventDraft J D) :
    ({ mapping with drafts := mapping.drafts ++ [(index, draft)] } : Mapping J D).mappedSpans =
      insert index mapping.mappedSpans := by
  ext i
  simp only [Mapping.mappedSpans, map_append, map_singleton, mem_toFinset, mem_append, mem_singleton,
    Finset.mem_insert]
  exact or_comm

/-- Inside of a span only this span is touched, and it has no drafts while nothing is produced. -/
structure Inside (mapping : Mapping J D) (index : Nat) (s : MapState J D × Bool) : Prop where
  spanCount : s.1.mapping.spanCount = mapping.spanCount
  unmapped : s.1.mapping.unmappedSpans = mapping.unmappedSpans
  touched : s.1.mapping.touched = mapping.touched ∨ s.1.mapping.touched = insert index mapping.touched
  quiet : s.2 = false → index ∉ s.1.mapping.rejectedSpans → s.1.mapping.touched = mapping.touched

theorem Inside.step {index : Nat} {s s' : MapState J D × Bool} {item : Item} (h : Inside mapping index s)
    (hstep : mapStep py models config ids latest index s item = .ok s') : Inside mapping index s' := by
  obtain ⟨s, produced⟩ := s
  obtain ⟨s', produced'⟩ := s'
  have hinsert : insert index s.mapping.touched = insert index mapping.touched := by
    rcases h.touched with heq | heq
    · rw [heq]
    · rw [heq, Finset.insert_idem]
  rcases mapStep_cases hstep with ⟨raised, reason, -, rfl, rfl⟩ | ⟨-, rfl, rfl⟩ | ⟨e, -, rfl, ⟨-, rfl⟩ | ⟨-, rfl⟩⟩
  · exact ⟨h.spanCount, h.unmapped, .inr ((touched_reject index reason).trans hinsert),
      fun _ hnot => absurd (Finset.mem_insert_self _ _) hnot⟩
  · exact ⟨h.spanCount, h.unmapped, h.touched, h.quiet⟩
  · exact ⟨h.spanCount, h.unmapped, h.touched, fun hquiet => nomatch hquiet⟩
  · refine ⟨h.spanCount, h.unmapped, .inr ?_, fun hquiet => nomatch hquiet⟩
    unfold Mapping.touched
    rw [mappedSpans_concat, Finset.union_insert]
    exact hinsert

theorem Tallied.span {located : Located} (h : Tallied state.mapping)
    (hspan : mapSpan py models config ids latest state located = .ok state') : Tallied state'.mapping := by
  have hfresh : state.mapping.spanCount ∉ state.mapping.touched := fun hmem => Nat.lt_irrefl _ (h.spans _ hmem)
  have hcard : (insert state.mapping.spanCount state.mapping.touched).card = state.mapping.touched.card + 1 :=
    Finset.card_insert_of_notMem hfresh
  have hcount := h.count
  -- What touches this span only is counted with it.
  have hone : ∀ m : Mapping J D, m.spanCount = state.mapping.spanCount + 1 → m.unmappedSpans = state.mapping.unmappedSpans →
      (m.touched = state.mapping.touched ∨ m.touched = insert state.mapping.spanCount state.mapping.touched) → Tallied m := by
    intro m hspans hunmapped htouched
    constructor
    · intro index hindex
      rw [hspans]
      rcases htouched with heq | heq
      · exact Nat.lt_succ_of_lt (h.spans index (heq ▸ hindex))
      · rw [heq] at hindex
        rcases Finset.mem_insert.1 hindex with rfl | hold
        · exact Nat.lt_succ_self _
        · exact Nat.lt_succ_of_lt (h.spans index hold)
    · rw [hspans, hunmapped]
      rcases htouched with heq | heq
      · rw [heq]
        omega
      · rw [heq, hcard]
        omega
  rcases mapSpan_cases hspan with ⟨reason, -, rfl⟩ | ⟨-, after, produced, hfold, hafter⟩
  · exact hone _ rfl rfl (.inr (touched_reject _ _))
  · have hinside := Fallible.foldlM_run
      (P := fun _ s => Inside { state.mapping with spanCount := state.mapping.spanCount + 1 } state.mapping.spanCount s)
      (fun hs hstep => hs.step hstep) ⟨rfl, rfl, .inl rfl, fun _ _ => rfl⟩ hfold
    rcases hafter with ⟨rfl, hnot, rfl⟩ | rfl
    · have hquiet : after.mapping.touched = state.mapping.touched := hinside.quiet rfl hnot
      constructor
      · intro index hindex
        show index < after.mapping.spanCount
        rw [hinside.spanCount]
        exact Nat.lt_succ_of_lt (h.spans index (hquiet ▸ hindex))
      · show after.mapping.unmappedSpans + 1 + after.mapping.touched.card ≤ after.mapping.spanCount
        rw [hinside.spanCount, hinside.unmapped, hquiet]
        show state.mapping.unmappedSpans + 1 + _ ≤ state.mapping.spanCount + 1
        omega
    · exact hone _ hinside.spanCount hinside.unmapped hinside.touched

theorem Tallied.empty : Tallied ({} : Mapping J D) where
  spans index hindex := (Finset.notMem_empty index hindex).elim
  count := Nat.le_refl 0

theorem mapExport_tallied (h : mapExport py models config ids receipt export_ = .ok mapping) : Tallied mapping := by
  obtain ⟨state, hfold, rfl⟩ := mapExport_ok h
  exact Fallible.foldlM_run (P := fun _ (s : MapState J D) => Tallied s.mapping) (fun hs hspan => hs.span hspan)
    Tallied.empty hfold

end Tallies

/-! ## An export -/

section Exports

variable [DecidableEq J] [LinearOrder D] {sdk : Sdk J D} {lockKey : String × String → Int} {world : σ → World J D}
  {serve : σ → IngestBatch J D → Option (IngestOutcome × σ)} {batchIds : Nat → String} {s s' : σ} {made : Nat}
  {py : Python} {models : Models J} {config : MapperConfig J} {ids : Nat → String} {receipt : Receipt}
  {export_ : List ResourceSpans} {mapping mapping' : Mapping J D}

omit [DecidableEq J] [LinearOrder D] in
theorem drafts_ids_nodup (hids : Function.Injective ids) (h : mapExport py models config ids receipt export_ = .ok mapping) :
    (mapping.drafts.map (·.2.eventId)).Nodup := by
  rw [mapExport_drafts h]
  exact (Distinct.distinctBy_sublist.map _).nodup (accepted_ids_nodup hids)

theorem ingestMapping_accounts (law : sdk.Lawful) (hserves : Serves sdk lockKey world serve)
    (inv : WorldInv sdk lockKey (world s)) (hids : (mapping.drafts.map (·.2.eventId)).Nodup)
    (h : ingestMapping serve batchIds mapping s = .ok (mapping', s', made)) :
    Grown mapping.drafts mapping mapping' ∧ made ≤ maxIngestAttempts ∧
      ∀ entry ∈ mapping.drafts, HeldAsOwn sdk (world s').db entry.2 ∨ entry.1 ∈ mapping'.rejectedSpans := by
  unfold ingestMapping at h
  split at h
  · next hempty =>
    simp only [Except.ok.injEq, Prod.mk.injEq] at h
    obtain ⟨rfl, rfl, rfl⟩ := h
    rw [List.isEmpty_iff.1 hempty]
    exact ⟨Grown.refl, Nat.zero_le _, forall_mem_nil _⟩
  · obtain ⟨hgrown, hmade, -, hheld⟩ := ingestLoop_accounts law hserves rfl inv hids h
    exact ⟨hgrown, by rwa [length_range', Nat.zero_add] at hmade, hheld⟩

/-- **Nothing of an export is lost in silence.**  Whatever the service answers to the attempts: when the loop returns,
every mapped draft is held under its key or its span is counted as rejected; at most `maxIngestAttempts` batches were
tried; only spans of the mapping's drafts were added; and no span is counted twice. -/
theorem export_accounts (law : sdk.Lawful) (hworld : Reachable (step sdk lockKey) World.init (world s))
    (hserves : Serves sdk lockKey world serve) (hids : Function.Injective ids)
    (hmap : mapExport py models config ids receipt export_ = .ok mapping)
    (h : ingestMapping serve batchIds mapping s = .ok (mapping', s', made)) :
    (∀ entry ∈ mapping.drafts, HeldAsOwn sdk (world s').db entry.2 ∨ entry.1 ∈ mapping'.rejectedSpans) ∧
    made ≤ maxIngestAttempts ∧
    mapping.rejectedSpans ⊆ mapping'.rejectedSpans ∧
    (∀ index ∈ mapping'.rejectedSpans, index ∈ mapping.rejectedSpans ∨ index ∈ mapping.mappedSpans) ∧
    mapping'.totals.rejected + mapping'.totals.mapped + mapping'.totals.unmapped ≤ mapping'.spanCount := by
  obtain ⟨hgrown, hmade, hheld⟩ := ingestMapping_accounts law hserves (reachable_inv law hworld) (drafts_ids_nodup hids hmap) h
  have honly : ∀ index ∈ mapping'.rejectedSpans, index ∈ mapping.rejectedSpans ∨ index ∈ mapping.mappedSpans :=
    fun index hindex => (hgrown.only index hindex).imp_right List.mem_toFinset.2
  refine ⟨hheld, hmade, hgrown.mono, honly, ?_⟩
  have hmapped : mapping'.mappedSpans = mapping.mappedSpans := by rw [Mapping.mappedSpans, hgrown.drafts]; rfl
  have htouched : mapping'.touched = mapping.touched := by
    unfold Mapping.touched
    rw [hmapped]
    refine Finset.Subset.antisymm (Finset.union_subset ?_ Finset.subset_union_right)
      (Finset.union_subset_union_left hgrown.mono)
    intro index hindex
    exact Finset.mem_union.2 (honly index hindex)
  have hcard : mapping'.rejectedSpans.card + (mapping'.mappedSpans \ mapping'.rejectedSpans).card =
      mapping'.touched.card := by
    rw [← Finset.card_union_of_disjoint Finset.disjoint_sdiff, Finset.union_sdiff_self_eq_union]
    rfl
  have hcount := (mapExport_tallied hmap).count
  show mapping'.rejectedSpans.card + (mapping'.mappedSpans \ mapping'.rejectedSpans).card + mapping'.unmappedSpans ≤
    mapping'.spanCount
  rw [hcard, htouched, hgrown.unmapped, hgrown.spanCount]
  omega

end Exports

/-! ## A sample -/

def exportSdk : Sdk (List (Option String)) Nat := Sdk.plain (fun _ => "agent") (fun _ => "") (fun _ => 0) (·.streamSequence)

theorem exportSdk_lawful : exportSdk.Lawful := Sdk.plain_lawful _ _ _ _

/-- Two session starts of one export. -/
def sessionsExport : List ResourceSpans :=
  [⟨[⟨"service.name", .string "codex_exec"⟩], [⟨[], [sampleSpan "s1" 1, sampleSpan "s2" 2]⟩]⟩]

/-- A service that refuses the first batch for the key of its first draft, and appends the others. -/
def sampleService (s : Nat × World (List (Option String)) Nat) (batch : IngestBatch (List (Option String)) Nat) :
    Option (IngestOutcome × Nat × World (List (Option String)) Nat) :=
  match s.1 with
  | 0 =>
    (ingest exportSdk (some s.2.db) batch
      (.error (.idempotencyConflict "agent" ((batch.events.map (·.idempotencyKey)).headD "")))).map (·, 1, s.2)
  | n + 1 =>
    (run (step exportSdk fun _ => 0) s.2
      (.start (batch.events.map fun draft => ⟨draft, [], []⟩) sampleStamps :: List.replicate 3 (.exec 0))).bind fun u =>
    (u.txns[0]?).bind fun txn =>
    if txn.batch.map (·.draft) = batch.events then
      (step exportSdk (fun _ => 0) u (.commit 0)).bind fun u' =>
      (ingest exportSdk none batch (.ok txn.session.results)).map (·, n + 2, u')
    else none

theorem sampleService_serves : Serves exportSdk (fun _ => 0) Prod.snd sampleService := by
  rintro ⟨n, w⟩ batch outcome s' h
  cases n with
  | zero =>
    obtain ⟨answer, hanswer, heq⟩ := Option.map_eq_some_iff.1 h
    cases heq
    exact .failed w _ _ (Transition.Reachable.refl w) (Transition.Reachable.refl w) (.inr rfl) hanswer
  | succ n =>
    obtain ⟨u, hrun, h⟩ := Option.bind_eq_some_iff.1 h
    obtain ⟨txn, htxn, h⟩ := Option.bind_eq_some_iff.1 h
    split at h
    · next hdrafts =>
      obtain ⟨u', hcommit, h⟩ := Option.bind_eq_some_iff.1 h
      obtain ⟨answer, hanswer, heq⟩ := Option.map_eq_some_iff.1 h
      cases heq
      exact .committed u u' 0 txn ⟨_, hrun⟩ htxn hdrafts hcommit (Transition.Reachable.refl u') hanswer
    · cases h

theorem export_accounts_sessions : ∃ mapping mapping' : Mapping (List (Option String)) Nat, ∃ s' : Nat × World _ _, ∃ made,
    mapExport samplePython sampleModels sampleConfig sampleIds sampleReceipt sessionsExport = .ok mapping ∧
    ingestMapping sampleService sampleIds mapping (0, World.init) = .ok (mapping', s', made) ∧
    (mapping.drafts.length, mapping'.rejectedSpans, made) = (2, {0}, 2) ∧
    ∀ entry ∈ mapping.drafts, HeldAsOwn exportSdk s'.2.db entry.2 ∨ entry.1 ∈ mapping'.rejectedSpans := by
  have heval : (mapExport (D := Nat) samplePython sampleModels sampleConfig sampleIds sampleReceipt sessionsExport).toOption.bind
      (fun mapping => (ingestMapping sampleService sampleIds mapping (0, World.init)).toOption.map fun result =>
        (mapping.drafts.length, result.1.rejectedSpans, result.2.2)) = some (2, {0}, 2) := by decide +kernel
  cases hmap : mapExport (D := Nat) samplePython sampleModels sampleConfig sampleIds sampleReceipt sessionsExport with
  | error raised =>
    rw [hmap] at heval
    cases heval
  | ok mapping =>
    rw [hmap] at heval
    cases h : ingestMapping sampleService sampleIds mapping (0, World.init) with
    | error failure =>
      simp only [Except.toOption, Option.bind_some, h] at heval
      cases heval
    | ok result =>
      obtain ⟨mapping', s', made⟩ := result
      simp only [Except.toOption, Option.bind_some, h] at heval
      have hinit : Reachable (step exportSdk fun _ => 0) World.init
          (Prod.snd (0, World.init) : World (List (Option String)) Nat) := Transition.Reachable.refl _
      exact ⟨mapping, mapping', s', made, rfl, h, Option.some.inj heval,
        (export_accounts exportSdk_lawful hinit sampleService_serves sampleIds_injective hmap h).1⟩

end Ledger.Otlp
