import AgentContext.Ledger.Invariant

/-!
# What an append returns

`Outcomes` relates a session's results to its batch, its uncommitted rows and the ledger under it, turn by
turn of the insert loop; `AppendSpec` is what it comes to once the session commits:

    planBatch_cases       planning yields a plan or meets two drafts of one key and two identities
    insertAt_cases        what one turn of the loop can do
    Outcomes.stable       another transaction's commit keeps Outcomes
    Outcomes.appendSpec   a finished session commits as AppendSpec says
-/

namespace Ledger

open List

variable {J D : Type}
variable {draft : EventDraft J D} {e : StoredEvent J D}

/-! ## Outcomes -/

/-- The results of a session so far.  Each result has its draft's material identity; the created ones are,
in order, the session's uncommitted events; every other one is a row of the ledger or repeats an earlier
result of the batch. -/
structure Outcomes (sdk : Sdk J D) (db : Db J D) (batch : List (ResolvedEvent J D)) (s : Session J D) : Prop where
  count : s.results.length ≤ batch.length
  identity : ∀ {i : Nat} {resolved : ResolvedEvent J D} {outcome : AppendOutcome J D}, batch[i]? = some resolved → s.results[i]? = some outcome →
    storedIdentity outcome.stored = draftIdentity resolved.draft
  createdId : ∀ {i : Nat} {resolved : ResolvedEvent J D} {outcome : AppendOutcome J D}, batch[i]? = some resolved → s.results[i]? = some outcome →
    outcome.created = true → outcome.stored.eventId = resolved.draft.eventId
  events : List.Forall₂ (fun outcome row => StoredAs sdk (db ++ s.writes) row outcome.stored)
    (s.results.filter (·.created)) s.writes.events
  refs : s.writes.contentRefs = (s.results.filter (·.created)).flatMap (contentRefRowsFromSealed ·.stored)
  replay : ∀ {i : Nat} {outcome : AppendOutcome J D}, s.results[i]? = some outcome → outcome.created = false →
    (∃ row ∈ db.events, StoredAs sdk db row outcome.stored) ∨
      ∃ j < i, ∃ first : AppendOutcome J D, s.results[j]? = some first ∧ first.created = true ∧ first.stored = outcome.stored

theorem storedIdentity_key (sdk : Sdk J D) (h : storedIdentity e = draftIdentity draft) :
    (sdk.producerId e.producer, e.idempotencyKey) = sdk.draftKey draft := by
  have henv : e.toEnvelope = draft.toEnvelope := congrArg DraftIdentity.toEnvelope h
  unfold Sdk.draftKey
  rw [henv]

theorem storedIdentity_streamId (h : storedIdentity e = draftIdentity draft) : e.streamId = draft.streamId :=
  congrArg (fun identity => identity.toEnvelope.streamId) h

section Outcomes

variable {sdk : Sdk J D} {db : Db J D} {batch : List (ResolvedEvent J D)} {s : Session J D}
variable {resolved : ResolvedEvent J D} {e : StoredEvent J D}

theorem Outcomes.start : Outcomes sdk db batch Session.start where
  count := Nat.zero_le _
  identity := by simp [Session.start]
  createdId := by simp [Session.start]
  events := List.Forall₂.nil
  refs := rfl
  replay := by simp [Session.start]

section

variable (out : Outcomes sdk db batch s)
include out

/-- Locking a stream adds no result. -/
theorem Outcomes.frame {s' : Session J D} (hresults : s'.results = s.results)
    (hevents : s'.writes.events = s.writes.events) (hrefs : s'.writes.contentRefs = s.writes.contentRefs) :
    Outcomes sdk db batch s' := by
  constructor
  · rw [hresults]
    exact out.count
  · rw [hresults]
    exact out.identity
  · rw [hresults]
    exact out.createdId
  · rw [hresults, hevents]
    refine out.events.imp fun outcome row h => ⟨h.origin, h.row_eq, ?_⟩
    rw [Db.append_contentRefs, hrefs]
    exact h.refs
  · rw [hresults, hrefs]
    exact out.refs
  · rw [hresults]
    exact out.replay

theorem Outcomes.created_of_row {row : EventRow J D} (h : row ∈ s.writes.events) :
    ∃ (j : Nat) (first : AppendOutcome J D), s.results[j]? = some first ∧ first.created = true ∧
      StoredAs sdk (db ++ s.writes) row first.stored := by
  obtain ⟨k, hk, rfl⟩ := mem_iff_getElem.1 h
  have hlen := out.events.length_eq
  have hk' : k < (s.results.filter (·.created)).length := by omega
  have hstored := List.Forall₂.get out.events hk' hk
  have hmem : (s.results.filter (·.created))[k] ∈ s.results.filter (·.created) := getElem_mem hk'
  obtain ⟨hres, hcreated⟩ := mem_filter.1 hmem
  obtain ⟨j, hj, hget⟩ := mem_iff_getElem.1 hres
  exact ⟨j, _, List.getElem?_eq_some_iff.2 ⟨hj, hget⟩, hcreated, hstored⟩

theorem Outcomes.row_of_created {i : Nat} {outcome : AppendOutcome J D}
    (h : s.results[i]? = some outcome) (hc : outcome.created = true) :
    ∃ row ∈ s.writes.events, StoredAs sdk (db ++ s.writes) row outcome.stored := by
  have hmem : outcome ∈ s.results.filter (·.created) := mem_filter.2 ⟨mem_of_getElem? h, hc⟩
  obtain ⟨k, hk, hget⟩ := mem_iff_getElem.1 hmem
  have hlen := out.events.length_eq
  have hk' : k < s.writes.events.length := by omega
  have hstored := List.Forall₂.get out.events hk hk'
  simp only [get_eq_getElem, hget] at hstored
  exact ⟨_, getElem_mem hk', hstored⟩

end

theorem forall₂_imp_of_mem {α β : Type} {R S : α → β → Prop} {xs : List α} {ys : List β} (h : List.Forall₂ R xs ys)
    (himp : ∀ x, ∀ y ∈ ys, R x y → S x y) : List.Forall₂ S xs ys := by
  induction h with
  | nil => exact List.Forall₂.nil
  | cons hxy _ ih =>
    exact List.Forall₂.cons (himp _ _ List.mem_cons_self hxy)
      (ih fun x y hy => himp x y (List.mem_cons_of_mem _ hy))

theorem mem_of_getElem?_append_singleton {α : Type} {xs : List α} {x y : α} {i : Nat}
    (h : (xs ++ [x])[i]? = some y) : xs[i]? = some y ∨ (i = xs.length ∧ y = x) := by
  rw [List.getElem?_append] at h
  split at h
  · exact Or.inl h
  · next hge =>
    obtain ⟨hlt, hget⟩ := List.getElem?_eq_some_iff.1 h
    rw [length_singleton] at hlt
    refine Or.inr ⟨by omega, ?_⟩
    rw [getElem_singleton] at hget
    exact hget.symm

theorem Outcomes.addResult (out : Outcomes sdk db batch s) (hbatch : batch[s.results.length]? = some resolved)
    (hid : storedIdentity e = draftIdentity resolved.draft)
    (hreplay : (∃ row ∈ db.events, StoredAs sdk db row e) ∨ ∃ j < s.results.length, ∃ first : AppendOutcome J D,
      s.results[j]? = some first ∧ first.created = true ∧ first.stored = e) :
    Outcomes sdk db batch (s.addResult e) := by
  constructor
  · have := (List.getElem?_eq_some_iff.1 hbatch).1
    simp only [Session.addResult, length_append, length_singleton]
    omega
  · intro i resolved' outcome hb hr
    rcases mem_of_getElem?_append_singleton hr with hr | ⟨rfl, rfl⟩
    · exact out.identity hb hr
    · rw [hbatch] at hb
      cases hb
      exact hid
  · intro i resolved' outcome hb hr hc
    rcases mem_of_getElem?_append_singleton hr with hr | ⟨rfl, rfl⟩
    · exact out.createdId hb hr hc
    · cases hc
  · simpa [Session.addResult] using out.events
  · simpa [Session.addResult] using out.refs
  · intro i outcome hr hc
    rcases mem_of_getElem?_append_singleton hr with hr | ⟨rfl, rfl⟩
    · rcases out.replay hr hc with h | ⟨j, hj, first, hfirst, h⟩
      · exact Or.inl h
      · refine Or.inr ⟨j, hj, first, ?_, h⟩
        exact (List.getElem?_append_left (List.getElem?_eq_some_iff.1 hfirst).1).trans hfirst
    · rcases hreplay with h | ⟨j, hj, first, hfirst, h⟩
      · exact Or.inl h
      · exact Or.inr ⟨j, hj, first, (List.getElem?_append_left hj).trans hfirst, h⟩

theorem Outcomes.addRecovered (law : sdk.Lawful) (inv : SessionInv sdk db s) (out : Outcomes sdk db batch s)
    {row : EventRow J D} (hbatch : batch[s.results.length]? = some resolved)
    (hid : storedIdentity e = draftIdentity resolved.draft) (hrow : row ∈ (db ++ s.writes).events)
    (he : StoredAs sdk (db ++ s.writes) row e) : Outcomes sdk db batch (s.addResult e) := by
  refine out.addResult hbatch hid ?_
  rcases mem_append.1 hrow with hdb | hown
  · exact Or.inl ⟨row, hdb, (inv.stored_base hdb).1 he⟩
  · obtain ⟨j, first, hj, hc, hfirst⟩ := out.created_of_row hown
    exact Or.inr ⟨j, (List.getElem?_eq_some_iff.1 hj).1, first, hj, hc, hfirst.unique law he⟩

theorem Outcomes.addRepeat (out : Outcomes sdk db batch s) {resolved owner : ResolvedEvent J D} {k : Nat}
    {first : AppendOutcome J D} (hbatch : batch[s.results.length]? = some resolved)
    (howner : batch[k]? = some owner) (hid : draftIdentity resolved.draft = draftIdentity owner.draft)
    (hfirst : s.results[k]? = some first) : Outcomes sdk db batch (s.addResult first.stored) := by
  refine out.addResult hbatch ((out.identity howner hfirst).trans hid.symm) ?_
  have hlt := (List.getElem?_eq_some_iff.1 hfirst).1
  cases hc : first.created with
  | true => exact Or.inr ⟨k, hlt, first, hfirst, hc, rfl⟩
  | false =>
    rcases out.replay hfirst hc with h | ⟨j, hj, h⟩
    · exact Or.inl h
    · exact Or.inr ⟨j, Nat.lt_trans hj hlt, h⟩

theorem Outcomes.create (law : sdk.Lawful) (out : Outcomes sdk db batch s) {stamp : Stamp}
    {refs : List (ContentRef D)} {n : Nat} {p : Option D} (inv : SessionInv sdk db s)
    (hbatch : batch[s.results.length]? = some resolved)
    (hseal : sdk.sealEvent (canonicalizeDraft resolved.draft) refs n p = some e)
    (hfresh : ∀ row ∈ (db ++ s.writes).events, row.eventId ≠ e.eventId) :
    Outcomes sdk db batch (s.create sdk resolved stamp e) := by
  have hfilter : (s.create sdk resolved stamp e).results.filter (·.created) =
      s.results.filter (·.created) ++ [⟨e, true⟩] := by
    simp [Session.create]
  constructor
  · have := (List.getElem?_eq_some_iff.1 hbatch).1
    simp only [Session.create, length_append, length_singleton]
    omega
  · intro i resolved' outcome hb hr
    rcases mem_of_getElem?_append_singleton hr with hr | ⟨rfl, rfl⟩
    · exact out.identity hb hr
    · rw [hbatch] at hb
      cases hb
      exact storedIdentity_of_seal law hseal
  · intro i resolved' outcome hb hr hc
    rcases mem_of_getElem?_append_singleton hr with hr | ⟨rfl, rfl⟩
    · exact out.createdId hb hr hc
    · rw [hbatch] at hb
      cases hb
      exact (law.seal_envelope hseal).2
  · rw [hfilter]
    refine rel_append (forall₂_imp_of_mem out.events fun outcome row hrow =>
      create_stored_old hfresh (mem_append_right _ hrow)) ?_
    exact List.Forall₂.cons (create_stored_new inv ⟨resolved.draft, refs, n, p, hseal⟩ hfresh) List.Forall₂.nil
  · rw [hfilter, flatMap_append, ← out.refs]
    simp [Session.create]
  · intro i outcome hr hc
    rcases mem_of_getElem?_append_singleton hr with hr | ⟨rfl, rfl⟩
    · rcases out.replay hr hc with h | ⟨j, hj, first, hfirst, h⟩
      · exact Or.inl h
      · refine Or.inr ⟨j, hj, first, ?_, h⟩
        exact (List.getElem?_append_left (List.getElem?_eq_some_iff.1 hfirst).1).trans hfirst
    · cases hc

/-- **Another transaction's commit keeps the outcomes.** -/
theorem Outcomes.stable {t : Session J D} (inv : SessionInv sdk db s) (apart : Apart s t)
    (out : Outcomes sdk db batch t) : Outcomes sdk (commit db s) batch t where
  count := out.count
  identity := out.identity
  createdId := out.createdId
  events := forall₂_imp_of_mem out.events fun _ _ hrow => stable_stored inv apart hrow
  refs := out.refs
  replay := by
    intro i outcome hr hc
    rcases out.replay hr hc with ⟨row, hrow, h⟩ | h
    · have h' := (inv.stored_base hrow).2 h
      exact Or.inl ⟨row, mem_append_left _ hrow, h'.origin, h'.row_eq, h'.refs⟩
    · exact Or.inr h

end Outcomes

/-! ## Planning -/

/-- Two drafts of the batch under one key with two material identities. -/
def BatchConflict (sdk : Sdk J D) (batch : List (ResolvedEvent J D)) (error : AppendError) : Prop :=
  ∃ (j i : Nat) (first resolved : ResolvedEvent J D), j < i ∧ batch[j]? = some first ∧ batch[i]? = some resolved ∧
    sdk.draftKey resolved.draft = sdk.draftKey first.draft ∧ draftIdentity resolved.draft ≠ draftIdentity first.draft ∧
    error = .idempotencyConflict (sdk.draftKey resolved.draft).1 (sdk.draftKey resolved.draft).2 first.draft.eventId

/-- Each planned position names itself or an earlier one with the same draft. -/
def Planned (batch : List (ResolvedEvent J D)) (plan : List Nat) : Prop :=
  ∀ i owner : Nat, plan[i]? = some owner → owner ≤ i ∧ ∃ resolved first : ResolvedEvent J D,
    batch[i]? = some resolved ∧ batch[owner]? = some first ∧ draftIdentity resolved.draft = draftIdentity first.draft

/-- The accumulators of `_plan_batch` after `n` turns. -/
structure PlanInv (sdk : Sdk J D) (batch : List (ResolvedEvent J D)) (n : Nat)
    (acc : List Nat × List ((String × String) × Nat)) : Prop where
  count : acc.1.length = n
  planned : Planned batch acc.1
  firstIndex : ∀ {key j}, (key, j) ∈ acc.2 → j < n ∧ ∃ first : ResolvedEvent J D, batch[j]? = some first ∧
    sdk.draftKey first.draft = key

theorem Planned.snoc {batch : List (ResolvedEvent J D)} {plan : List Nat} {k : Nat}
    {resolved first : ResolvedEvent J D} (h : Planned batch plan) (hk : k ≤ plan.length)
    (hres : batch[plan.length]? = some resolved) (hfirst : batch[k]? = some first)
    (hid : draftIdentity resolved.draft = draftIdentity first.draft) : Planned batch (plan ++ [k]) := by
  intro i owner hi
  rcases mem_of_getElem?_append_singleton hi with hi | ⟨rfl, rfl⟩
  · exact h i owner hi
  · exact ⟨hk, resolved, first, hres, hfirst, hid⟩

section Planning

variable [DecidableEq J] [DecidableEq D] {sdk : Sdk J D} {batch : List (ResolvedEvent J D)}

theorem planStep_cases {n : Nat} {acc : List Nat × List ((String × String) × Nat)} (inv : PlanInv sdk batch n acc)
    {resolved : ResolvedEvent J D} (hres : batch[n]? = some resolved) :
    (∃ acc', planStep sdk batch acc (resolved, n) = .ok acc' ∧ PlanInv sdk batch (n + 1) acc') ∨
      ∃ error, planStep sdk batch acc (resolved, n) = .error error ∧ BatchConflict sdk batch error := by
  have hcount := inv.count
  cases hlookup : acc.2.lookup (sdk.draftKey resolved.draft) with
  | none =>
    refine Or.inl ⟨(acc.1 ++ [n], (sdk.draftKey resolved.draft, n) :: acc.2), by simp [planStep, hlookup], ?_⟩
    constructor
    · simp [hcount]
    · subst hcount
      exact inv.planned.snoc (Nat.le_refl _) hres hres rfl
    · intro key j hmem
      rcases mem_cons.1 hmem with h | h
      · cases h
        exact ⟨Nat.lt_succ_self _, resolved, hres, rfl⟩
      · obtain ⟨hlt, hfirst⟩ := inv.firstIndex h
        exact ⟨Nat.lt_succ_of_lt hlt, hfirst⟩
  | some j =>
    obtain ⟨hlt, first, hfirst, hkey⟩ := inv.firstIndex (lookup_mem hlookup)
    by_cases hid : draftIdentity resolved.draft = draftIdentity first.draft
    · refine Or.inl ⟨(acc.1 ++ [j], acc.2), by simp [planStep, hlookup, hfirst, hid], ?_⟩
      constructor
      · simp [hcount]
      · subst hcount
        exact inv.planned.snoc (Nat.le_of_lt hlt) hres hfirst hid
      · intro key k hmem
        obtain ⟨hlt, hfirst⟩ := inv.firstIndex hmem
        exact ⟨Nat.lt_succ_of_lt hlt, hfirst⟩
    · refine Or.inr ⟨_, by simp only [planStep, hlookup, hfirst, ne_eq, hid, not_false_eq_true, if_true]; rfl, ?_⟩
      exact ⟨j, n, first, resolved, hlt, hfirst, hres, hkey.symm, hid, rfl⟩

theorem planFold_cases : ∀ (rest : List (ResolvedEvent J D)) {n : Nat} {acc : List Nat × List ((String × String) × Nat)},
    PlanInv sdk batch n acc → (∀ k, batch[n + k]? = rest[k]?) →
    (∃ acc', (rest.zipIdx n).foldlM (planStep sdk batch) acc = .ok acc' ∧ PlanInv sdk batch (n + rest.length) acc') ∨
      ∃ error, (rest.zipIdx n).foldlM (planStep sdk batch) acc = .error error ∧ BatchConflict sdk batch error
  | [], n, acc, inv, _ => Or.inl ⟨acc, rfl, inv⟩
  | resolved :: rest, n, acc, inv, hrest => by
    rw [zipIdx_cons, foldlM_cons]
    rcases planStep_cases inv (hrest 0) with ⟨acc', hstep, inv'⟩ | ⟨error, hstep, hc⟩
    · rw [hstep]
      have hrest' : ∀ k, batch[n + 1 + k]? = rest[k]? := by
        intro k
        have := hrest (k + 1)
        rwa [List.getElem?_cons_succ, ← Nat.add_assoc, Nat.add_right_comm] at this
      have := planFold_cases rest inv' hrest'
      rwa [Nat.add_right_comm, Nat.add_assoc] at this
    · exact Or.inr ⟨error, by rw [hstep]; rfl, hc⟩

theorem planBatch_cases (sdk : Sdk J D) (batch : List (ResolvedEvent J D)) :
    (∃ plan, planBatch sdk batch = .ok plan ∧ plan.length = batch.length ∧ Planned batch plan) ∨
      ∃ error, planBatch sdk batch = .error error ∧ BatchConflict sdk batch error := by
  have start : PlanInv sdk batch 0 ([], []) := ⟨rfl, fun i owner h => by simp at h, fun h => by simp at h⟩
  unfold planBatch
  rcases planFold_cases batch start (by simp) with ⟨acc, hfold, inv⟩ | ⟨error, hfold, hc⟩
  · exact Or.inl ⟨acc.1, by rw [hfold]; rfl, by simpa using inv.count, inv.planned⟩
  · exact Or.inr ⟨error, by rw [hfold]; rfl, hc⟩

end Planning

/-! ## One turn of the insert loop -/

/-- Why an append raises, given the tables its transaction sees. -/
inductive Raised (sdk : Sdk J D) (view : Db J D) (batch : List (ResolvedEvent J D)) (stamps : Nat → Stamp) :
    AppendError → Prop
  | unknownContentIds {resolved ids} : resolved ∈ batch → ids ≠ [] →
      (∀ id ∈ ids, id ∈ resolved.redactionReports.map Prod.fst ∧ id ∉ resolved.contentRefs.map (·.contentId)) →
      Raised sdk view batch stamps (.unknownContentIds ids)
  | batchConflict {error} : BatchConflict sdk batch error → Raised sdk view batch stamps error
  | ledgerConflict {resolved row e} : resolved ∈ batch → row ∈ view.events → StoredAs sdk view row e →
      (row.eventId = resolved.draft.eventId ∨ row.key = sdk.draftKey resolved.draft) →
      storedIdentity e ≠ draftIdentity resolved.draft →
      Raised sdk view batch stamps (.idempotencyConflict (sdk.producerId resolved.draft.producer)
        resolved.draft.idempotencyKey row.eventId)
  | streamQuarantined {resolved row} : resolved ∈ batch → row ∈ view.streams →
      row.streamId = resolved.draft.streamId → row.status = .quarantined →
      Raised sdk view batch stamps (.streamQuarantined row.streamId)
  | sealRefused {resolved n p} : resolved ∈ batch →
      sdk.sealEvent (canonicalizeDraft resolved.draft) resolved.contentRefs n p = none →
      Raised sdk view batch stamps (.sealRefused resolved.draft.eventId)
  | failed {i} : (stamps i).fault = true → Raised sdk view batch stamps .failed

section InsertAt

variable [DecidableEq J] [DecidableEq D] {sdk : Sdk J D} {db : Db J D} {batch : List (ResolvedEvent J D)}
  {plan : List Nat} (stamps : Nat → Stamp) {s : Session J D}

/-- **What one turn of the insert loop can do.** -/
theorem insertAt_cases (law : sdk.Lawful) (planned : Planned batch plan) (hplan : plan.length = batch.length)
    (inv : SessionInv sdk db s) (out : Outcomes sdk db batch s) (hlt : s.results.length < batch.length)
    (hlocked : ∀ resolved ∈ batch, resolved.draft.streamId ∈ s.locked) :
    (∃ s', insertAt sdk db batch plan stamps s.results.length s = .ok s' ∧ SessionInv sdk db s' ∧
      Outcomes sdk db batch s' ∧ s'.locked = s.locked ∧
      (s'.writes.events = s.writes.events ∨ ∃ row, insertedRow sdk batch plan stamps s.results.length s = some row ∧
        s'.writes.events = s.writes.events ++ [row])) ∨
      ∃ error, insertAt sdk db batch plan stamps s.results.length s = .error error ∧
        Raised sdk (db ++ s.writes) batch stamps error := by
  by_cases hfault : (stamps s.results.length).fault = true
  · exact Or.inr ⟨.failed, by simp [insertAt, hfault], .failed hfault⟩
  obtain ⟨resolved, hres⟩ : ∃ resolved, batch[s.results.length]? = some resolved := ⟨_, List.getElem?_eq_getElem hlt⟩
  obtain ⟨owner, howner⟩ : ∃ owner, plan[s.results.length]? = some owner := ⟨_, List.getElem?_eq_getElem (by omega)⟩
  have hmem : resolved ∈ batch := mem_of_getElem? hres
  obtain ⟨hle, resolved', first, hres', hfirst, hid⟩ := planned _ _ howner
  rw [hres] at hres'
  cases hres'
  by_cases hown : owner = s.results.length
  · have hinsert : insertAt sdk db batch plan stamps s.results.length s =
        insertOrRecover sdk db resolved (stamps s.results.length) s := by
      simp [insertAt, hfault, hres, howner, hown]
    rw [hinsert]
    rcases insertOrRecover_cases (stamps s.results.length) law inv (hlocked resolved hmem) with
      ⟨state, e, hstate, hseal, hfree, heq⟩ | ⟨row, hrow, e, he, hsame, heq⟩ | ⟨n, p, hseal, heq⟩ |
      ⟨row, hrow, e, he, hclash, hdiff, heq⟩
    · refine Or.inl ⟨_, heq, create_inv law inv hstate hseal hfree, ?_, by simp [Session.create, Session.locked],
        Or.inr ⟨eventRowFromSealed sdk e (stamps s.results.length).now, ?_, rfl⟩⟩
      · exact out.create law inv hres hseal (violation_eq_none hfree).1
      · have hstate' : s.streamState.lookup resolved.draft.streamId = some state := hstate
        simp [insertedRow, hfault, hres, howner, hown, hstate', hseal]
    · refine Or.inl ⟨_, heq, ⟨inv.rows, inv.outbox, inv.refHomes, inv.locked, inv.states, inv.active, inv.touched,
        inv.writesLocked, inv.seeds⟩, out.addRecovered law inv hres hsame hrow he, rfl, Or.inl rfl⟩
    · exact Or.inr ⟨_, heq, .sealRefused hmem hseal⟩
    · exact Or.inr ⟨_, heq, .ledgerConflict hmem hrow he hclash hdiff⟩
  · have hbound : owner < s.results.length := by omega
    refine Or.inl ⟨s.addResult (s.results[owner]).stored, ?_, ⟨inv.rows, inv.outbox, inv.refHomes, inv.locked,
      inv.states, inv.active, inv.touched, inv.writesLocked, inv.seeds⟩, ?_, rfl, Or.inl rfl⟩
    · simp [insertAt, hfault, hres, howner, hown, List.getElem?_eq_getElem hbound]
    · exact out.addRepeat hres hfirst hid (List.getElem?_eq_getElem hbound)

end InsertAt

/-! ## The specification of a committed append -/

/-- What a committed append of `batch` returned (`results`) and did to the ledger (`db` to `db'`). -/
structure AppendSpec (sdk : Sdk J D) (db : Db J D) (batch : List (ResolvedEvent J D))
    (results : List (AppendOutcome J D)) (db' : Db J D) : Prop where
  /-- One result per draft, in position, with the draft's material identity. -/
  positional : results.length = batch.length
  identity : ∀ (i : Nat) (resolved : ResolvedEvent J D) (outcome : AppendOutcome J D),
    batch[i]? = some resolved → results[i]? = some outcome →
    storedIdentity outcome.stored = draftIdentity resolved.draft
  /-- A key that was already stored yields the originally stored event. -/
  known : ∀ (i : Nat) (resolved : ResolvedEvent J D) (outcome : AppendOutcome J D),
    batch[i]? = some resolved → results[i]? = some outcome →
    ∀ row ∈ db.events, row.key = sdk.draftKey resolved.draft →
      outcome.created = false ∧ StoredAs sdk db row outcome.stored
  /-- A repeat within the batch yields what its first occurrence yielded. -/
  repeated : ∀ (j i : Nat) (first resolved : ResolvedEvent J D) (outcome outcome' : AppendOutcome J D), j < i →
    batch[j]? = some first → results[j]? = some outcome → batch[i]? = some resolved →
    results[i]? = some outcome' → sdk.draftKey first.draft = sdk.draftKey resolved.draft →
      outcome'.created = false ∧ outcome'.stored = outcome.stored
  /-- Each other draft is created. -/
  fresh : ∀ (i : Nat) (resolved : ResolvedEvent J D) (outcome : AppendOutcome J D),
    batch[i]? = some resolved → results[i]? = some outcome →
    (∀ row ∈ db.events, row.key ≠ sdk.draftKey resolved.draft) →
    (∀ j < i, ∀ first : ResolvedEvent J D, batch[j]? = some first →
      sdk.draftKey first.draft ≠ sdk.draftKey resolved.draft) →
      outcome.created = true ∧ outcome.stored.eventId = resolved.draft.eventId
  /-- The ledger gains one event and one outbox row per created result, and their references. -/
  events : ∃ rows, db'.events = db.events ++ rows ∧
    List.Forall₂ (fun outcome row => StoredAs sdk db' row outcome.stored) (results.filter (·.created)) rows
  outbox : ∃ rows, db'.outbox = db.outbox ++ rows ∧
    rows.map (·.eventId) = (results.filter (·.created)).map (·.stored.eventId)
  contentRefs : db'.contentRefs =
    db.contentRefs ++ (results.filter (·.created)).flatMap (contentRefRowsFromSealed ·.stored)
  /-- A stream without a created event keeps its head row, or its lack of one. -/
  heads : ∀ sid, (∀ outcome ∈ results, outcome.created = true → outcome.stored.streamId ≠ sid) →
    db'.streamRow sid = db.streamRow sid

section AppendSpec

variable {sdk : Sdk J D} {db : Db J D} {batch : List (ResolvedEvent J D)} {s : Session J D}
variable {outcome : AppendOutcome J D}

theorem RowsInv.key_unique {view : Db J D} (inv : RowsInv sdk view) {row row' : EventRow J D}
    (h : row ∈ view.events) (h' : row' ∈ view.events) (heq : row.key = row'.key) : row = row' :=
  inj_on_of_nodup_map inv.keys h h' heq

theorem Outcomes.known (inv : SessionInv sdk db s) (out : Outcomes sdk db batch s) {i : Nat}
    {resolved : ResolvedEvent J D} (hb : batch[i]? = some resolved) (hr : s.results[i]? = some outcome)
    {row : EventRow J D} (hrow : row ∈ db.events) (hkey : row.key = sdk.draftKey resolved.draft) :
    outcome.created = false ∧ StoredAs sdk db row outcome.stored := by
  have hkey' := storedIdentity_key sdk (out.identity hb hr)
  have hview : ∀ e ∈ s.writes.events, e.key ≠ row.key := fun e he =>
    (disjoint_of_nodup_append inv.rows.keys hrow he).symm
  cases hc : outcome.created with
  | true =>
    obtain ⟨own, hown, hstored⟩ := out.row_of_created hr hc
    exact absurd (hstored.key.trans (hkey'.trans hkey.symm)) (hview own hown)
  | false =>
    refine ⟨rfl, ?_⟩
    rcases out.replay hr hc with ⟨old, hold, hstored⟩ | ⟨j, -, first, hfirst, hcreated, hsame⟩
    · have : old = row := inv.rows.key_unique (mem_append_left _ hold) (mem_append_left _ hrow)
        (hstored.key.trans (hkey'.trans hkey.symm))
      exact this ▸ hstored
    · obtain ⟨own, hown, hstored⟩ := out.row_of_created hfirst hcreated
      rw [hsame] at hstored
      exact absurd (hstored.key.trans (hkey'.trans hkey.symm)) (hview own hown)

theorem Outcomes.row (inv : SessionInv sdk db s) (out : Outcomes sdk db batch s) {i : Nat}
    (hr : s.results[i]? = some outcome) :
    ∃ row ∈ (db ++ s.writes).events, StoredAs sdk (db ++ s.writes) row outcome.stored := by
  cases hc : outcome.created with
  | true =>
    obtain ⟨row, hrow, hstored⟩ := out.row_of_created hr hc
    exact ⟨row, mem_append_right _ hrow, hstored⟩
  | false =>
    rcases out.replay hr hc with ⟨row, hrow, hstored⟩ | ⟨j, -, first, hfirst, hcreated, hsame⟩
    · exact ⟨row, mem_append_left _ hrow, (inv.stored_base hrow).2 hstored⟩
    · obtain ⟨row, hrow, hstored⟩ := out.row_of_created hfirst hcreated
      exact ⟨row, mem_append_right _ hrow, hsame ▸ hstored⟩

theorem Outcomes.stored_unique (law : sdk.Lawful) (inv : SessionInv sdk db s) (out : Outcomes sdk db batch s)
    {i j : Nat} {first resolved : ResolvedEvent J D} {outcome outcome' : AppendOutcome J D}
    (hb : batch[j]? = some first) (hr : s.results[j]? = some outcome) (hb' : batch[i]? = some resolved)
    (hr' : s.results[i]? = some outcome') (hkey : sdk.draftKey first.draft = sdk.draftKey resolved.draft) :
    outcome'.stored = outcome.stored := by
  obtain ⟨row, hrow, hstored⟩ := out.row inv hr
  obtain ⟨row', hrow', hstored'⟩ := out.row inv hr'
  have heq : row = row' := by
    apply inv.rows.key_unique hrow hrow'
    rw [hstored.key, hstored'.key, storedIdentity_key sdk (out.identity hb hr),
      storedIdentity_key sdk (out.identity hb' hr'), hkey]
  subst heq
  exact hstored'.unique law hstored

theorem Outcomes.created_keys (inv : SessionInv sdk db s) (out : Outcomes sdk db batch s) :
    s.results.Pairwise fun a b => a.created = true → b.created = true →
      (sdk.producerId a.stored.producer, a.stored.idempotencyKey) ≠
        (sdk.producerId b.stored.producer, b.stored.idempotencyKey) := by
  have hkeys : ∀ {xs : List (AppendOutcome J D)} {rows : List (EventRow J D)},
      List.Forall₂ (fun outcome row => StoredAs sdk (db ++ s.writes) row outcome.stored) xs rows →
      xs.map (fun o => (sdk.producerId o.stored.producer, o.stored.idempotencyKey)) = rows.map (·.key) := by
    intro xs rows h
    induction h with
    | nil => rfl
    | cons hrow _ ih => rw [map_cons, map_cons, ih, hrow.key]
  have hnodup := inv.rows.keys
  rw [Db.append_events, map_append, nodup_append, ← hkeys out.events] at hnodup
  have hpair := pairwise_map.1 hnodup.2.1
  exact pairwise_filter.1 hpair

/-- **A finished session commits as specified.** -/
theorem Outcomes.appendSpec (law : sdk.Lawful) (base : LedgerInv sdk db) (inv : SessionInv sdk db s)
    (out : Outcomes sdk db batch s) (hlen : s.results.length = batch.length)
    (hlocked : ∀ sid ∈ s.locked, ∃ resolved ∈ batch, resolved.draft.streamId = sid) :
    AppendSpec sdk db batch s.results (commit db s) where
  positional := hlen
  identity := fun _ _ _ hb hr => out.identity hb hr
  known := fun _ _ _ hb hr _ hrow hkey => out.known inv hb hr hrow hkey
  repeated := by
    intro j i first resolved outcome outcome' hlt hb hr hb' hr' hkey
    have hstored := out.stored_unique law inv hb hr hb' hr' hkey
    refine ⟨?_, hstored⟩
    cases hc : outcome'.created with
    | false => rfl
    | true =>
      exfalso
      have hrow := out.row_of_created hr' hc
      obtain ⟨row, hrow, hrowStored⟩ := hrow
      have hpair := pairwise_iff_getElem.1 (out.created_keys inv)
      obtain ⟨hj, hjget⟩ := List.getElem?_eq_some_iff.1 hr
      obtain ⟨hi, higet⟩ := List.getElem?_eq_some_iff.1 hr'
      cases hc' : outcome.created with
      | true =>
        have := hpair j i hj hi hlt
        rw [hjget, higet] at this
        exact this hc' hc (by rw [hstored])
      | false =>
        rcases out.replay hr hc' with ⟨old, hold, holdStored⟩ | ⟨k, hk, prior, hprior, hpc, hsame⟩
        · refine disjoint_of_nodup_append inv.rows.keys hold hrow ?_
          show old.key = row.key
          rw [holdStored.key, hrowStored.key, hstored]
        · obtain ⟨hk', hkget⟩ := List.getElem?_eq_some_iff.1 hprior
          have := hpair k i hk' hi (Nat.lt_trans hk hlt)
          rw [hkget, higet] at this
          exact this hpc hc (by rw [hsame, hstored])
  fresh := by
    intro i resolved outcome hb hr hnew hfirst
    have hkey := storedIdentity_key sdk (out.identity hb hr)
    cases hc : outcome.created with
    | true => exact ⟨rfl, out.createdId hb hr hc⟩
    | false =>
      exfalso
      rcases out.replay hr hc with ⟨row, hrow, hstored⟩ | ⟨j, hj, prior, hprior, -, hsame⟩
      · exact hnew row hrow (hstored.key.trans hkey)
      · have hjb : j < batch.length := Nat.lt_trans hj (List.getElem?_eq_some_iff.1 hb).1
        refine hfirst j hj _ (List.getElem?_eq_getElem hjb) ?_
        rw [← storedIdentity_key sdk (out.identity (List.getElem?_eq_getElem hjb) hprior), hsame, hkey]
  events := ⟨s.writes.events, rfl, out.events.imp fun _ _ h => ⟨h.origin, h.row_eq, h.refs⟩⟩
  outbox := by
    refine ⟨s.writes.outbox, rfl, ?_⟩
    rw [inv.outbox]
    have hids : ∀ {xs : List (AppendOutcome J D)} {rows : List (EventRow J D)},
        List.Forall₂ (fun outcome row => StoredAs sdk (db ++ s.writes) row outcome.stored) xs rows →
        rows.map (·.eventId) = xs.map (·.stored.eventId) := by
      intro xs rows h
      induction h with
      | nil => rfl
      | cons hrow _ ih => rw [map_cons, map_cons, ih, hrow.eventId]
    exact hids out.events
  contentRefs := by
    show db.contentRefs ++ s.writes.contentRefs = _
    rw [out.refs]
  heads := by
    intro sid hsid
    have huntouched : sid ∉ s.touchedStreams := by
      intro h
      obtain ⟨row, hrow, hid⟩ := (inv.touched sid).1 h
      obtain ⟨j, outcome, hr, hc, hstored⟩ := out.created_of_row hrow
      exact hsid outcome (mem_of_getElem? hr) hc (hstored.streamId.symm.trans hid)
    have hseeds : s.writes.streams.find? (·.streamId = sid) = none := by
      rw [List.find?_eq_none]
      intro seed hseed
      rw [decide_eq_true_eq]
      intro hid
      obtain ⟨resolved, hmem, hstream⟩ := hlocked _ (inv.seeds seed hseed).1
      obtain ⟨i, hi, hget⟩ := mem_iff_getElem.1 hmem
      obtain ⟨outcome, hr⟩ : ∃ outcome, s.results[i]? = some outcome := ⟨_, List.getElem?_eq_getElem (by omega)⟩
      have hb : batch[i]? = some resolved := List.getElem?_eq_some_iff.2 ⟨hi, hget⟩
      have hout := storedIdentity_streamId (out.identity hb hr)
      rw [hstream, hid] at hout
      cases hc : outcome.created with
      | true => exact hsid outcome (mem_of_getElem? hr) hc hout
      | false =>
        rcases out.replay hr hc with ⟨row, hrow, hstored⟩ | ⟨j, -, prior, hprior, hpc, hsame⟩
        · obtain ⟨home, hhome, hhid⟩ := base.homes row hrow
          refine disjoint_of_nodup_append inv.rows.streamIds hhome hseed ?_
          show home.streamId = seed.streamId
          rw [hhid, hstored.streamId, hout, hid]
        · exact hsid prior (mem_of_getElem? hprior) hpc (by rw [hsame, hout])
    show List.find? _ (List.map (updateStreamHead s) (db.streams ++ s.writes.streams)) = _
    rw [List.find?_map, List.find?_append]
    have hcomp : (fun row : EventStreamRow D => decide (row.streamId = sid)) ∘ updateStreamHead s =
        fun row => decide (row.streamId = sid) := by
      funext row
      simp
    rw [hcomp, hseeds, Option.or_none]
    show Option.map (updateStreamHead s) (db.streamRow sid) = db.streamRow sid
    cases hrow : db.streamRow sid with
    | none => rfl
    | some row =>
      have hid := (streamRow_mem hrow).2
      simp [updateStreamHead, hid, huntouched]

end AppendSpec

end Ledger
