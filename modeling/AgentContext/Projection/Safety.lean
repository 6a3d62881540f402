import AgentContext.Projection.Runtime

/-!
# Safety of the outbox

`RunnerInv` holds in every reachable world.  It says of every row what the workers' record says of it
(`RowInv`) and of every claim a worker still holds in memory that

    the row is leased to the worker  →  under the claim's own lease, with the claim's retry count   (ClaimInv)

so a fence that matches finalizes the claim it was taken for, and a lease that went to somebody else
leaves a fence that matches nothing.
-/

namespace Projection

open Transition Keyset List

variable {J G : Type} {r : Runner J G} {w w' : World J G}
variable {claimed : ClaimedOutboxRow} {id : String} {row : OutboxRow} {l : Label J} {now : Nat}
variable {locked : List Nat} {finalization : Finalization J G} {rest : List ClaimedOutboxRow}
variable {outcome : ClaimOutcome}
variable {matching : OutboxRow → Bool} {values : OutboxRow → OutboxRow} {ls : List (Label J)}

/-! ## The record -/

def Action.outboxId : Action → Nat
  | .claimed _ outboxId => outboxId
  | .finished _ outboxId _ => outboxId

/-- A fenced failure finalization of the row. -/
def Action.fails (outboxId : Nat) : Action → Bool
  | .finished _ id outcome => id = outboxId && (outcome = .retried || outcome = .deadLettered)
  | .claimed _ _ => false

/-- The row enters a terminal status. -/
def Action.ends (outboxId : Nat) : Action → Bool
  | .finished _ id outcome => id = outboxId && (outcome = .delivered || outcome = .deadLettered)
  | .claimed _ _ => false

def Action.claimer (outboxId : Nat) : Action → Option String
  | .claimed worker id => if id = outboxId then some worker else none
  | .finished _ _ _ => none

def World.failures (w : World J G) (outboxId : Nat) : Nat := w.history.countP (Action.fails outboxId)

def World.ends (w : World J G) (outboxId : Nat) : Nat := w.history.countP (Action.ends outboxId)

/-- The worker that claimed a row last. -/
def World.lastClaimer (w : World J G) (outboxId : Nat) : Option String :=
  (w.history.filterMap (Action.claimer outboxId)).getLast?

/-- A dead-letter record exists for the row. -/
def World.hasDeadLetter (w : World J G) (outboxId : Nat) : Prop := outboxId ∈ w.deadLetters.map (·.outboxId)

/-! ## Invariants -/

structure RowInv (r : Runner J G) (w : World J G) (row : OutboxRow) : Prop where
  failures : row.retryCount = w.failures row.outboxId
  spent : row.status = .deadLettered → row.retryCount = r.maxAttempts
  budget : row.status ≠ .deadLettered → row.retryCount < r.maxAttempts
  ends : w.ends row.outboxId = if row.status.terminal then 1 else 0
  claimer : ∀ id, row.leaseOwner = some id → w.lastClaimer row.outboxId = some id
  deadLetter : w.hasDeadLetter row.outboxId ↔ row.status = .deadLettered

/-- What a worker's claim says of the row it was taken from. -/
def ClaimInv (outbox : List OutboxRow) (id : String) (claimed : ClaimedOutboxRow) : Prop :=
  ∃ row ∈ outbox, row.outboxId = claimed.outboxId ∧ row.eventId = claimed.eventId ∧
    (row.leaseOwner = some id →
      row.leaseExpiresAt = some claimed.leaseExpiresAt ∧ row.retryCount = claimed.retryCount)

structure RunnerInv (r : Runner J G) (w : World J G) : Prop where
  checked : w.Checked
  ids : (w.outbox.map (·.outboxId)).Nodup
  events : w.outbox.map (·.eventId) = w.events.map (·.eventId)
  eventIds : (w.events.map (·.eventId)).Nodup
  rows : ∀ row ∈ w.outbox, RowInv r w row
  claims : ∀ id, ∀ claimed ∈ (w.workers id).claimed, ClaimInv w.outbox id claimed
  recorded : ∀ action ∈ w.history, action.outboxId ∈ w.outbox.map (·.outboxId)
  deadLetters : ∀ letter ∈ w.deadLetters, letter.outboxId ∈ w.outbox.map (·.outboxId)

theorem RunnerInv.start (r : Runner J G) (graph : G) : RunnerInv r (World.start graph) where
  checked := by simp [World.start, World.Checked]
  ids := nodup_nil
  events := rfl
  eventIds := nodup_nil
  rows := by simp [World.start]
  claims := by simp [World.start]
  recorded := by simp [World.start]
  deadLetters := by simp [World.start]

/-! ## Updates of the outbox -/

section Update

variable {outbox : List OutboxRow} {matching : OutboxRow → Bool} {values : OutboxRow → OutboxRow}

theorem mem_updateWhere {row' : OutboxRow} : row' ∈ updateWhere matching values outbox ↔
    ∃ row ∈ outbox, (if matching row then values row else row) = row' := by
  simp [updateWhere]

theorem map_updateWhere {β : Type} {column : OutboxRow → β} (keep : ∀ row, column (values row) = column row) :
    (updateWhere matching values outbox).map column = outbox.map column := by
  unfold updateWhere
  rw [map_map]
  apply map_congr_left
  intro row _
  by_cases h : matching row = true
  · simp [h, keep row]
  · simp [h]

/-- Rows of a table are told apart by their ids. -/
theorem eq_of_outboxId (ids : (outbox.map (·.outboxId)).Nodup) {a b : OutboxRow} (ha : a ∈ outbox) (hb : b ∈ outbox)
    (h : a.outboxId = b.outboxId) : a = b := inj_on_of_nodup_map ids ha hb h

end Update

theorem commit_eq_some : w.commit = some w' ↔ w.Checked ∧ w = w' := by
  unfold World.commit
  split <;> simp [*]

theorem fence_iff : claimed.fence id row = true ↔ row.outboxId = claimed.outboxId ∧ row.status = .leased ∧
      row.leaseOwner = some id ∧ row.leaseExpiresAt = some claimed.leaseExpiresAt := by
  simp [ClaimedOutboxRow.fence, and_assoc]

theorem fence_unique (inv : RunnerInv r w) {row other : OutboxRow} (hrow : row ∈ w.outbox)
    (hother : other ∈ w.outbox) (hf : claimed.fence id row = true) :
    claimed.fence id other = true ↔ other.outboxId = claimed.outboxId := by
  constructor
  · exact fun h => (fence_iff.1 h).1
  · intro h
    rw [eq_of_outboxId inv.ids hother hrow (h.trans (fence_iff.1 hf).1.symm)]
    exact hf

theorem fencedUpdate_cases (claimed : ClaimedOutboxRow) (id : String) (values : OutboxRow → OutboxRow)
    (outbox : List OutboxRow) :
    ((∀ row ∈ outbox, claimed.fence id row = false) ∧ fencedUpdate claimed id values outbox = none) ∨
    ∃ row ∈ outbox, claimed.fence id row = true ∧
      fencedUpdate claimed id values outbox = some (updateWhere (claimed.fence id) values outbox) := by
  unfold fencedUpdate
  by_cases h : outbox.any (claimed.fence id) = true
  · obtain ⟨row, hmem, hf⟩ := any_eq_true.1 h
    exact Or.inr ⟨row, hmem, hf, by rw [if_pos h]⟩
  · refine Or.inl ⟨?_, by rw [if_neg h]⟩
    simpa using h

/-! ## What a step can do -/

/-- A finalization whose fence matches: the row's new values, the outcome, and the other tables. -/
inductive Finalized (r : Runner J G) (w : World J G) (id : String) (claimed : ClaimedOutboxRow) (now : Nat) :
    Finalization J G → ClaimOutcome → World J G → Prop
  | delivered (matching : List (Projector J G)) :
    Finalized r w id claimed now (.success matching) .delivered { w with
      outbox := updateWhere (claimed.fence id) (OutboxRow.deliver now) w.outbox
      checkpoints := matching.foldl (fun checkpoints p =>
        advance checkpoints p.name p.version claimed.outboxId claimed.eventId now) w.checkpoints }
  | retried (failing : Option (Projector J G)) (error : String)
    (hleft : claimed.retryCount + 1 < r.maxAttempts) :
    Finalized r w id claimed now (.failure failing error) .retried { w with
      outbox := updateWhere (claimed.fence id)
        (OutboxRow.retry (claimed.retryCount + 1)
          (now + retryDelay r.baseRetryDelay (claimed.retryCount + 1) r.maxRetryDelay) (publicErrorClass error) now)
        w.outbox }
  | deadLettered (failing : Option (Projector J G)) (error : String)
    (hspent : r.maxAttempts ≤ claimed.retryCount + 1) :
    Finalized r w id claimed now (.failure failing error) .deadLettered { w with
      outbox := updateWhere (claimed.fence id)
        (OutboxRow.deadLetter (claimed.retryCount + 1) (publicErrorClass error) now) w.outbox
      deadLetters := upsertDeadLetter (claimed.deadLetter failing (publicErrorClass error) now) w.deadLetters }

theorem apply_cases (r : Runner J G) (w : World J G) (id : String) (claimed : ClaimedOutboxRow) (now : Nat)
    (finalization : Finalization J G) :
    ((∀ row ∈ w.outbox, claimed.fence id row = false) ∧ finalization.apply r id claimed now w = (w, .lostLease)) ∨
    ∃ row ∈ w.outbox, claimed.fence id row = true ∧ ∃ outcome finalized,
      finalization.apply r id claimed now w = (finalized, outcome) ∧
        Finalized r w id claimed now finalization outcome finalized := by
  cases finalization with
  | success matching =>
    rcases fencedUpdate_cases claimed id (OutboxRow.deliver now) w.outbox with ⟨hnone, he⟩ | ⟨row, hmem, hf, he⟩
    · exact Or.inl ⟨hnone, by simp [Finalization.apply, finalizeSuccess, he]⟩
    · refine Or.inr ⟨row, hmem, hf, _, _, ?_, .delivered matching⟩
      simp [Finalization.apply, finalizeSuccess, he]
  | failure failing error =>
    by_cases hspent : r.maxAttempts ≤ claimed.retryCount + 1
    · rcases fencedUpdate_cases claimed id (OutboxRow.deadLetter (claimed.retryCount + 1) (publicErrorClass error) now)
        w.outbox with ⟨hnone, he⟩ | ⟨row, hmem, hf, he⟩
      · exact Or.inl ⟨hnone, by simp [Finalization.apply, finalizeFailure, hspent, he]⟩
      · refine Or.inr ⟨row, hmem, hf, _, _, ?_, .deadLettered failing error hspent⟩
        simp [Finalization.apply, finalizeFailure, hspent, he]
    · rcases fencedUpdate_cases claimed id (OutboxRow.retry (claimed.retryCount + 1)
        (now + retryDelay r.baseRetryDelay (claimed.retryCount + 1) r.maxRetryDelay) (publicErrorClass error) now)
        w.outbox with ⟨hnone, he⟩ | ⟨row, hmem, hf, he⟩
      · exact Or.inl ⟨hnone, by simp [Finalization.apply, finalizeFailure, hspent, he]⟩
      · refine Or.inr ⟨row, hmem, hf, _, _, ?_, .retried failing error (Nat.lt_of_not_le hspent)⟩
        simp [Finalization.apply, finalizeFailure, hspent, he]

/-- What one step does. -/
inductive Stepped (r : Runner J G) (w : World J G) : Label J → World J G → Prop
  | append {event : LedgerEvent J} {outboxId now : Nat} (hevent : event.eventId ∉ w.events.map (·.eventId))
    (hid : outboxId ∉ w.outbox.map (·.outboxId)) (hpos : 0 < outboxId) :
    Stepped r w (.append event outboxId now) { w with
      events := w.events ++ [event]
      outbox := w.outbox ++ [outboxRow outboxId event.eventId now] }
  | claim (id : String) (limit : Nat) (locked : List Nat) (now : Nat) :
    Stepped r w (.claim id limit locked now) { w with
      outbox := updateWhere (fun row => (claimableIds limit locked now w.outbox).contains row.outboxId)
        (OutboxRow.lease id (now + r.leaseDuration) now) w.outbox
      workers := Function.update w.workers id
        ⟨claimedRows (claimableIds limit locked now w.outbox) (now + r.leaseDuration) w.outbox, none⟩
      history := w.history ++ (claimableIds limit locked now w.outbox).map (Action.claimed id) }
  | project {id : String} {attempt : Attempt} {claimed : ClaimedOutboxRow} {rest : List ClaimedOutboxRow}
    (hworker : w.workers id = ⟨claimed :: rest, none⟩) :
    Stepped r w (.project id attempt) ((w.write (processClaimedRow r w.events claimed attempt).2).setWorker id
      ⟨claimed :: rest, some (processClaimedRow r w.events claimed attempt).1⟩)
  | lost {id : String} {now : Nat} {claimed : ClaimedOutboxRow} {rest : List ClaimedOutboxRow}
    {finalization : Finalization J G} (hworker : w.workers id = ⟨claimed :: rest, some finalization⟩)
    (hnone : ∀ row ∈ w.outbox, claimed.fence id row = false) :
    Stepped r w (.finalize id now) (w.finish id claimed rest .lostLease)
  | finalized {id : String} {now : Nat} {claimed : ClaimedOutboxRow} {rest : List ClaimedOutboxRow}
    {finalization : Finalization J G} {row : OutboxRow} {outcome : ClaimOutcome} {finalized : World J G}
    (hfin : Finalized r w id claimed now finalization outcome finalized)
    (hworker : w.workers id = ⟨claimed :: rest, some finalization⟩) (hrow : row ∈ w.outbox)
    (hf : claimed.fence id row = true) :
    Stepped r w (.finalize id now) (finalized.finish id claimed rest outcome)
  | release (id : String) (now : Nat) : Stepped r w (.release id now) { w with
      outbox := updateWhere (fun row => row.status = .leased && row.leaseOwner = some id)
        (OutboxRow.release now) w.outbox }
  | crash (id : String) : Stepped r w (.crash id) (w.setWorker id ⟨[], none⟩)

theorem step_cases (h : step r w l = some w') : Stepped r w l w' := by
  cases l with
  | append event outboxId now =>
    simp only [step] at h
    split at h
    · cases h
    · next hfresh =>
      obtain ⟨-, rfl⟩ := commit_eq_some.1 h
      rw [not_or, not_or] at hfresh
      exact .append hfresh.1 hfresh.2.1 (Nat.pos_of_ne_zero hfresh.2.2)
  | claim id limit locked now =>
    obtain ⟨-, h⟩ := Option.ite_none_right_eq_some.1 h
    obtain ⟨-, rfl⟩ := commit_eq_some.1 h
    exact .claim id limit locked now
  | project id attempt =>
    simp only [step] at h
    split at h
    · next claimed rest hc hf =>
      cases h
      exact .project (congrArg₂ Worker.mk hc hf)
    · cases h
  | finalize id now =>
    simp only [step] at h
    split at h
    · next claimed rest finalization hc hf =>
      have hworker : w.workers id = ⟨claimed :: rest, some finalization⟩ := congrArg₂ Worker.mk hc hf
      obtain ⟨-, rfl⟩ := commit_eq_some.1 h
      rcases apply_cases r w id claimed now finalization with ⟨hnone, he⟩ | ⟨row, hmem, hfence, outcome, finalized, he, hfin⟩
      · rw [he]
        exact .lost hworker hnone
      · rw [he]
        exact .finalized hfin hworker hmem hfence
    · cases h
  | release id now =>
    obtain ⟨-, rfl⟩ := commit_eq_some.1 h
    exact .release id now
  | crash id =>
    obtain rfl := Option.some.inj h
    exact .crash id

theorem commit_checked (h : w.commit = some w') : w'.Checked := by
  obtain ⟨hchecked, rfl⟩ := commit_eq_some.1 h
  exact hchecked

theorem step_checked (hw : w.Checked) (h : step r w l = some w') : w'.Checked := by
  cases l with
  | append event outboxId now => exact commit_checked (Option.ite_none_left_eq_some.1 h).2
  | claim id limit locked now => exact commit_checked (Option.ite_none_right_eq_some.1 h).2
  | project id attempt =>
    simp only [step] at h
    split at h
    · next claimed rest hc hf =>
      cases h
      rcases (processClaimedRow r w.events claimed attempt).2 with _ | written <;> exact hw
    · cases h
  | finalize id now =>
    simp only [step] at h
    split at h
    · exact commit_checked h
    · cases h
  | release id now => exact commit_checked h
  | crash id =>
    obtain rfl := Option.some.inj h
    exact hw

/-! ## What keeps a row's invariant -/

section Record

variable {outboxId : Nat} {id : String}

/-- The record says the same of a row in two worlds. -/
theorem RowInv.congr {row : OutboxRow} (inv : RowInv r w row) (hf : w'.failures row.outboxId = w.failures row.outboxId)
    (he : w'.ends row.outboxId = w.ends row.outboxId) (hc : w'.lastClaimer row.outboxId = w.lastClaimer row.outboxId)
    (hd : w'.hasDeadLetter row.outboxId ↔ w.hasDeadLetter row.outboxId) : RowInv r w' row where
  failures := inv.failures.trans hf.symm
  spent := inv.spent
  budget := inv.budget
  ends := he.trans inv.ends
  claimer := fun x hx => hc.trans (inv.claimer x hx)
  deadLetter := hd.trans inv.deadLetter

theorem failures_append (w' : World J G) (actions : List Action) (h : w'.history = w.history ++ actions) :
    w'.failures outboxId = w.failures outboxId + actions.countP (Action.fails outboxId) := by
  unfold World.failures
  rw [h, countP_append]

theorem ends_append (w' : World J G) (actions : List Action) (h : w'.history = w.history ++ actions) :
    w'.ends outboxId = w.ends outboxId + actions.countP (Action.ends outboxId) := by
  unfold World.ends
  rw [h, countP_append]

theorem lastClaimer_finished {finished : Nat} {outcome : ClaimOutcome}
    (h : w'.history = w.history ++ [.finished id finished outcome]) :
    w'.lastClaimer outboxId = w.lastClaimer outboxId := by
  unfold World.lastClaimer
  rw [h, filterMap_append]
  simp [Action.claimer]

theorem lastClaimer_claimed {ids : List Nat} (h : w'.history = w.history ++ ids.map (Action.claimed id)) :
    w'.lastClaimer outboxId = if outboxId ∈ ids then some id else w.lastClaimer outboxId := by
  unfold World.lastClaimer
  rw [h, filterMap_append, filterMap_map]
  have hclaims : ids.filterMap (Action.claimer outboxId ∘ Action.claimed id) =
      (ids.filter (· = outboxId)).map fun _ => id := by
    clear h
    induction ids with
    | nil => rfl
    | cons i ids ih => by_cases hi : i = outboxId <;> simp_all [Action.claimer]
  rw [hclaims, List.getLast?_append]
  by_cases hmem : outboxId ∈ ids
  · rw [if_pos hmem]
    have hne : (ids.filter (· = outboxId)).map (fun _ => id) ≠ [] := by simpa using hmem
    rw [List.getLast?_eq_some_getLast hne]
    simp
  · rw [if_neg hmem]
    have hnil : ids.filter (· = outboxId) = [] := by
      apply filter_eq_nil_iff.2
      intro i hi heq
      exact hmem (of_decide_eq_true heq ▸ hi)
    simp [hnil]

/-- Nothing is recorded of a row that does not exist. -/
theorem unrecorded (inv : RunnerInv r w) (h : outboxId ∉ w.outbox.map (·.outboxId)) :
    w.failures outboxId = 0 ∧ w.ends outboxId = 0 ∧ ¬ w.hasDeadLetter outboxId := by
  refine ⟨?_, ?_, ?_⟩
  · apply countP_eq_zero.2
    intro action hmem hfails
    cases action with
    | claimed => cases hfails
    | finished worker id outcome =>
      simp only [Action.fails, Bool.and_eq_true, decide_eq_true_eq] at hfails
      exact h (hfails.1 ▸ inv.recorded _ hmem)
  · apply countP_eq_zero.2
    intro action hmem hends
    cases action with
    | claimed => cases hends
    | finished worker id outcome =>
      simp only [Action.ends, Bool.and_eq_true, decide_eq_true_eq] at hends
      exact h (hends.1 ▸ inv.recorded _ hmem)
  · intro hd
    obtain ⟨letter, hmem, rfl⟩ := mem_map.1 hd
    exact h (inv.deadLetters letter hmem)

theorem hasDeadLetter_upsert {letter : DeadLetterRow} :
    outboxId ∈ (upsertDeadLetter letter w.deadLetters).map (·.outboxId) ↔
      outboxId = letter.outboxId ∨ w.hasDeadLetter outboxId := by
  unfold upsertDeadLetter World.hasDeadLetter
  split
  · next hany =>
    have hkeep : (w.deadLetters.map fun old => if old.outboxId = letter.outboxId then
        { old with
          projectorName := letter.projectorName
          projectorVersion := letter.projectorVersion
          attempts := letter.attempts
          errorClass := letter.errorClass
          status := .opened
          resolvedAt := none
          updatedAt := letter.updatedAt }
        else old).map (·.outboxId) = w.deadLetters.map (·.outboxId) := by
      rw [map_map]
      apply map_congr_left
      intro old _
      by_cases hold : old.outboxId = letter.outboxId
      · simp [hold]
      · simp [hold]
    rw [hkeep]
    constructor
    · exact Or.inr
    · rintro (rfl | h)
      · obtain ⟨old, hmem, hold⟩ := any_eq_true.1 hany
        exact mem_map.2 ⟨old, hmem, by simpa using hold⟩
      · exact h
  · rw [map_append, mem_append]
    simp only [map_cons, map_nil, mem_singleton]
    exact Or.comm

end Record

/-! ## Each step keeps the invariant -/

theorem RunnerInv.append (inv : RunnerInv r w) {event : LedgerEvent J} {outboxId now : Nat}
    (hevent : event.eventId ∉ w.events.map (·.eventId)) (hid : outboxId ∉ w.outbox.map (·.outboxId))
    (hw : w' = { w with events := w.events ++ [event], outbox := w.outbox ++ [outboxRow outboxId event.eventId now] })
    (hchecked : w'.Checked) : RunnerInv r w' := by
  subst hw
  obtain ⟨hfails, hends, hdead⟩ := unrecorded inv hid
  refine ⟨hchecked, ?_, ?_, ?_, ?_, ?_, ?_, ?_⟩
  · rw [map_append]
    exact concat_eq_append ▸ inv.ids.concat hid
  · simp only [map_append, inv.events]
    rfl
  · rw [map_append]
    exact concat_eq_append ▸ inv.eventIds.concat hevent
  · intro row hrow
    rcases mem_append.1 hrow with hrow | hrow
    · exact (inv.rows row hrow).congr rfl rfl rfl Iff.rfl
    · rw [mem_singleton.1 hrow]
      exact ⟨hfails.symm, by simp [outboxRow], fun _ => r.maxAttempts_pos, hends, by simp [outboxRow],
        iff_of_false hdead (by simp [outboxRow])⟩
  · intro id claimed hclaimed
    obtain ⟨row, hmem, h⟩ := inv.claims id claimed hclaimed
    exact ⟨row, mem_append_left _ hmem, h⟩
  · intro action haction
    rw [map_append]
    exact mem_append_left _ (inv.recorded action haction)
  · intro letter hletter
    rw [map_append]
    exact mem_append_left _ (inv.deadLetters letter hletter)

theorem RunnerInv.update (inv : RunnerInv r w) (matching : OutboxRow → Bool) (values : OutboxRow → OutboxRow)
    (hw : w'.outbox = updateWhere matching values w.outbox) (hids : ∀ row, (values row).outboxId = row.outboxId)
    (hevents : ∀ row, (values row).eventId = row.eventId) (he : w'.events = w.events) (checked : w'.Checked)
    (rows : ∀ row ∈ w.outbox, RowInv r w' (if matching row then values row else row))
    (claims : ∀ id, ∀ claimed ∈ (w'.workers id).claimed, ClaimInv w'.outbox id claimed)
    (recorded : ∀ action ∈ w'.history, action.outboxId ∈ w.outbox.map (·.outboxId))
    (deadLetters : ∀ letter ∈ w'.deadLetters, letter.outboxId ∈ w.outbox.map (·.outboxId)) : RunnerInv r w' := by
  have hmap : w'.outbox.map (·.outboxId) = w.outbox.map (·.outboxId) := hw ▸ map_updateWhere hids
  refine ⟨checked, hmap ▸ inv.ids, ?_, he ▸ inv.eventIds, ?_, claims, hmap ▸ recorded, hmap ▸ deadLetters⟩
  · rw [hw, map_updateWhere hevents, he]
    exact inv.events
  · intro row' hrow'
    rw [hw] at hrow'
    obtain ⟨row, hrow, rfl⟩ := mem_updateWhere.1 hrow'
    exact rows row hrow

/-- An update that leaves no row to a worker keeps what its claims say. -/
theorem ClaimInv.update {outbox : List OutboxRow} (inv : ClaimInv outbox id claimed)
    (hids : ∀ row, (values row).outboxId = row.outboxId) (hevents : ∀ row, (values row).eventId = row.eventId)
    (howner : ∀ row ∈ outbox, matching row = true → (values row).leaseOwner ≠ some id) :
    ClaimInv (updateWhere matching values outbox) id claimed := by
  obtain ⟨row, hrow, hid, hevent, hlease⟩ := inv
  refine ⟨_, mem_updateWhere.2 ⟨row, hrow, rfl⟩, ?_⟩
  by_cases hm : matching row = true
  · rw [if_pos hm]
    exact ⟨(hids row).trans hid, (hevents row).trans hevent, fun h => absurd h (howner row hrow hm)⟩
  · rw [if_neg hm]
    exact ⟨hid, hevent, hlease⟩

/-! ### Claiming and releasing -/

theorem claimable_open (h : row.claimable now = true) : row.status = .pending ∨ row.status = .leased := by
  unfold OutboxRow.claimable at h
  simp only [Bool.or_eq_true, Bool.and_eq_true, decide_eq_true_eq] at h
  exact h.imp And.left And.left

theorem mem_claimableIds {limit now outboxId : Nat} {outbox : List OutboxRow}
    (h : outboxId ∈ claimableIds limit locked now outbox) :
    ∃ row ∈ outbox, row.outboxId = outboxId ∧ row.claimable now = true ∧ outboxId ∉ locked := by
  unfold claimableIds at h
  have hmem := (mem_sortedSet _).1 (mem_of_mem_take h)
  obtain ⟨row, hrow, rfl⟩ := mem_map.1 hmem
  obtain ⟨hout, hcond⟩ := mem_filter.1 hrow
  simp only [Bool.and_eq_true, Bool.not_eq_true', contains_eq_mem, decide_eq_false_iff_not] at hcond
  exact ⟨row, hout, rfl, hcond.1, hcond.2⟩

theorem mem_claimedRows {ids : List Nat} {leaseExpiresAt : Nat} {outbox : List OutboxRow}
    (h : claimed ∈ claimedRows ids leaseExpiresAt outbox) :
    ∃ row ∈ outbox, row.outboxId ∈ ids ∧ claimed = row.snapshot leaseExpiresAt := by
  obtain ⟨id, hid, hsome⟩ := mem_filterMap.1 h
  obtain ⟨row, hfind, rfl⟩ := Option.map_eq_some_iff.1 hsome
  have heq : row.outboxId = id := by simpa using List.find?_some hfind
  exact ⟨row, List.mem_of_find?_eq_some hfind, heq ▸ hid, rfl⟩

theorem write_tables (w : World J G) (writes : Option (LedgerEvent J × List (Projector J G))) :
    (w.write writes).events = w.events ∧ (w.write writes).outbox = w.outbox ∧
      (w.write writes).checkpoints = w.checkpoints ∧ (w.write writes).deadLetters = w.deadLetters ∧
      (w.write writes).workers = w.workers ∧ (w.write writes).history = w.history := by
  rcases writes with _ | ⟨event, matching⟩ <;> exact ⟨rfl, rfl, rfl, rfl, rfl, rfl⟩

theorem setWorker_claimed {id x : String} (worker : Worker J G)
    (hsub : ∀ claimed ∈ worker.claimed, claimed ∈ (w.workers id).claimed)
    (h : claimed ∈ ((w.setWorker id worker).workers x).claimed) : claimed ∈ (w.workers x).claimed := by
  by_cases hx : x = id
  · subst hx
    exact hsub claimed (by simpa [World.setWorker] using h)
  · simpa [World.setWorker, Function.update_of_ne hx] using h

/-- The worker is done with one of its rows, whatever came of it. -/
theorem finish_claimed {id x : String} {claimed c : ClaimedOutboxRow} {finalization : Option (Finalization J G)}
    (hworker : w.workers id = ⟨claimed :: rest, finalization⟩)
    (h : c ∈ ((w.finish id claimed rest outcome).workers x).claimed) : c ∈ (w.workers x).claimed := by
  refine setWorker_claimed ⟨rest, none⟩ ?_ h
  rw [hworker]
  exact fun _ hc => mem_cons_of_mem _ hc

theorem finish_record (w : World J G) (id : String) (claimed : ClaimedOutboxRow) (rest : List ClaimedOutboxRow)
    (outcome : ClaimOutcome) (outboxId : Nat) (hother : outboxId ≠ claimed.outboxId ∨ outcome = .lostLease) :
    (w.finish id claimed rest outcome).failures outboxId = w.failures outboxId ∧
      (w.finish id claimed rest outcome).ends outboxId = w.ends outboxId ∧
      (w.finish id claimed rest outcome).lastClaimer outboxId = w.lastClaimer outboxId := by
  refine ⟨?_, ?_, lastClaimer_finished rfl⟩
  · rw [failures_append (w := w) _ _ rfl]
    rcases hother with h | h
    · simp [Action.fails, Ne.symm h]
    · simp [Action.fails, h]
  · rw [ends_append (w := w) _ _ rfl]
    rcases hother with h | h
    · simp [Action.ends, Ne.symm h]
    · simp [Action.ends, h]

theorem RowInv.finished {row row' : OutboxRow} (inv : RowInv r w row) (id : String) {outboxId : Nat}
    (outcome : ClaimOutcome) (hrow : row.outboxId = outboxId) (hstatus : row.status = .leased)
    (hh : w'.history = w.history ++ [.finished id outboxId outcome])
    (hid : row'.outboxId = row.outboxId) (hfree : row'.leaseOwner = none)
    (hcount : row'.retryCount = row.retryCount + if outcome = .retried ∨ outcome = .deadLettered then 1 else 0)
    (hterminal : row'.status.terminal = true ↔ outcome = .delivered ∨ outcome = .deadLettered)
    (hspent : row'.status = .deadLettered → row'.retryCount = r.maxAttempts)
    (hbudget : row'.status ≠ .deadLettered → row'.retryCount < r.maxAttempts)
    (hdead : w'.hasDeadLetter row.outboxId ↔ row'.status = .deadLettered) : RowInv r w' row' where
  failures := by
    rw [hcount, inv.failures, hid, hrow, failures_append w' _ hh]
    cases outcome <;> simp [Action.fails]
  spent := hspent
  budget := hbudget
  ends := by
    have hopen : w.ends row.outboxId = 0 := by
      rw [inv.ends, hstatus]
      rfl
    rw [hrow] at hopen
    rw [hid, hrow, ends_append w' _ hh, hopen]
    cases ht : row'.status.terminal <;> cases outcome <;> simp_all [Action.ends]
  claimer := by
    rw [hfree]
    intro x hx
    cases hx
  deadLetter := by
    rw [hid]
    exact hdead

section

variable (inv : RunnerInv r w)
include inv

/-- The rows a worker takes were pending or expired. -/
theorem claimed_open {limit now : Nat} (hrow : row ∈ w.outbox)
    (h : row.outboxId ∈ claimableIds limit locked now w.outbox) : row.status = .pending ∨ row.status = .leased := by
  obtain ⟨other, hother, hid, hc, -⟩ := mem_claimableIds h
  rw [← eq_of_outboxId inv.ids hother hrow hid]
  exact claimable_open hc

theorem RunnerInv.claim {limit now : Nat} (h : claimBatch r id limit locked now w = some w') : RunnerInv r w' := by
  obtain ⟨hchecked, hw⟩ := commit_eq_some.1 h
  have hhistory : w'.history = w.history ++ (claimableIds limit locked now w.outbox).map (Action.claimed id) := hw ▸ rfl
  have hnone : ∀ p : Action → Bool, (∀ outboxId, p (.claimed id outboxId) = false) →
      ((claimableIds limit locked now w.outbox).map (Action.claimed id)).countP p = 0 := by
    intro p hp
    simp [countP_eq_zero, hp]
  refine inv.update (fun row => (claimableIds limit locked now w.outbox).contains row.outboxId)
    (OutboxRow.lease id (now + r.leaseDuration) now) (hw ▸ rfl) (fun _ => rfl) (fun _ => rfl) (hw ▸ rfl)
    (hw ▸ hchecked) ?_ ?_ ?_ ?_
  · intro row hrow
    have hrowInv := inv.rows row hrow
    have hf : w'.failures row.outboxId = w.failures row.outboxId := by
      rw [failures_append w' _ hhistory, hnone _ fun _ => rfl, Nat.add_zero]
    have he : w'.ends row.outboxId = w.ends row.outboxId := by
      rw [ends_append w' _ hhistory, hnone _ fun _ => rfl, Nat.add_zero]
    have hd : w'.hasDeadLetter row.outboxId ↔ w.hasDeadLetter row.outboxId := hw ▸ Iff.rfl
    have hlast : w'.lastClaimer row.outboxId = _ := lastClaimer_claimed hhistory
    by_cases hmem : row.outboxId ∈ claimableIds limit locked now w.outbox
    · rw [if_pos (by simpa using hmem)]
      have hopen := claimed_open inv hrow hmem
      have hne : row.status ≠ .deadLettered := by rcases hopen with h | h <;> simp [h]
      refine ⟨hrowInv.failures.trans hf.symm, by simp [OutboxRow.lease], fun _ => hrowInv.budget hne, ?_, ?_, ?_⟩
      · refine he.trans (hrowInv.ends.trans ?_)
        rcases hopen with h | h <;> simp [h, OutboxStatus.terminal, OutboxRow.lease]
      · intro x hx
        exact hlast.trans ((if_pos hmem).trans hx)
      · exact iff_of_false (fun hdead => hne (hrowInv.deadLetter.1 (hd.1 hdead))) (by simp [OutboxRow.lease])
    · rw [if_neg (by simpa using hmem)]
      exact hrowInv.congr hf he (hlast.trans (if_neg hmem)) hd
  · intro x claimed hclaimed
    subst hw
    by_cases hx : x = id
    · subst hx
      simp only [Function.update_self] at hclaimed
      obtain ⟨row, hrow, hmem, rfl⟩ := mem_claimedRows hclaimed
      refine ⟨_, mem_updateWhere.2 ⟨row, hrow, rfl⟩, ?_⟩
      rw [if_pos (by simpa using hmem)]
      exact ⟨rfl, rfl, fun _ => ⟨rfl, rfl⟩⟩
    · simp only [Function.update_of_ne hx] at hclaimed
      refine (inv.claims x claimed hclaimed).update (fun _ => rfl) (fun _ => rfl) fun row _ _ => ?_
      simpa [OutboxRow.lease] using Ne.symm hx
  · intro action haction
    rw [hhistory] at haction
    rcases mem_append.1 haction with haction | haction
    · exact inv.recorded action haction
    · obtain ⟨outboxId, hmem, rfl⟩ := mem_map.1 haction
      obtain ⟨row, hrow, rfl, -⟩ := mem_claimableIds hmem
      exact mem_map_of_mem hrow
  · exact hw ▸ inv.deadLetters

theorem RunnerInv.release (h : releaseLeases id now w = some w') : RunnerInv r w' := by
  obtain ⟨hchecked, hw⟩ := commit_eq_some.1 h
  subst hw
  refine inv.update (fun row => row.status = .leased && row.leaseOwner = some id) (OutboxRow.release now) rfl (fun _ => rfl) (fun _ => rfl) rfl hchecked ?_ ?_ inv.recorded inv.deadLetters
  · intro row hrow
    have hrowInv := inv.rows row hrow
    by_cases hm : (row.status = .leased && row.leaseOwner = some id) = true
    · rw [if_pos hm]
      have hstatus : row.status = .leased := by
        simp only [Bool.and_eq_true, decide_eq_true_eq] at hm
        exact hm.1
      have hne : row.status ≠ .deadLettered := by simp [hstatus]
      refine ⟨hrowInv.failures, by simp [OutboxRow.release], fun _ => hrowInv.budget hne, ?_,
        by simp [OutboxRow.release], ?_⟩
      · refine hrowInv.ends.trans ?_
        simp [hstatus, OutboxStatus.terminal, OutboxRow.release]
      · exact iff_of_false (fun hdead => hne (hrowInv.deadLetter.1 hdead)) (by simp [OutboxRow.release])
    · rw [if_neg hm]
      exact hrowInv.congr rfl rfl rfl Iff.rfl
  · intro x claimed hclaimed
    exact (inv.claims x claimed hclaimed).update (fun _ => rfl) (fun _ => rfl) (fun _ _ _ => by simp [OutboxRow.release])

/-! ### Projecting, finalizing and crashing -/

/-- A change of the checkpoints and the graph keeps the invariant if the workers hold only claims they held before. -/
theorem RunnerInv.tables (hchecked : w'.Checked) (he : w'.events = w.events)
    (ho : w'.outbox = w.outbox) (hd : w'.deadLetters = w.deadLetters) (hh : w'.history = w.history)
    (hworkers : ∀ id, ∀ claimed ∈ (w'.workers id).claimed, claimed ∈ (w.workers id).claimed) : RunnerInv r w' where
  checked := hchecked
  ids := ho ▸ inv.ids
  events := by rw [ho, he, inv.events]
  eventIds := he ▸ inv.eventIds
  rows := by
    intro row hrow
    rw [ho] at hrow
    exact (inv.rows row hrow).congr (by simp [World.failures, hh]) (by simp [World.ends, hh])
      (by simp [World.lastClaimer, hh]) (by simp [World.hasDeadLetter, hd])
  claims := fun id claimed h => ho ▸ inv.claims id claimed (hworkers id claimed h)
  recorded := by
    rw [hh, ho]
    exact inv.recorded
  deadLetters := by
    rw [hd, ho]
    exact inv.deadLetters

/-- A step that touches no table of the projection schema keeps the invariant if the workers hold
only claims they held before. -/
theorem RunnerInv.memory (he : w'.events = w.events) (ho : w'.outbox = w.outbox)
    (hc : w'.checkpoints = w.checkpoints) (hd : w'.deadLetters = w.deadLetters) (hh : w'.history = w.history)
    (hworkers : ∀ id, ∀ claimed ∈ (w'.workers id).claimed, claimed ∈ (w.workers id).claimed) : RunnerInv r w' := by
  refine inv.tables ?_ he ho hd hh hworkers
  unfold World.Checked
  rw [ho, hc, hd]
  exact inv.checked

theorem RunnerInv.project {writes : Option (LedgerEvent J × List (Projector J G))}
    (hworker : w.workers id = ⟨claimed :: rest, none⟩) :
    RunnerInv r ((w.write writes).setWorker id ⟨claimed :: rest, some finalization⟩) := by
  obtain ⟨he, ho, hc, hd, hworkers, hh⟩ := write_tables w writes
  refine inv.memory he ho hc hd hh fun x c hmem => ?_
  have := setWorker_claimed (w := w.write writes) _ (by rw [hworkers, hworker]; exact fun _ h => h) hmem
  rwa [hworkers] at this

theorem RunnerInv.crash (id : String) : RunnerInv r (w.setWorker id ⟨[], none⟩) :=
  inv.memory rfl rfl rfl rfl rfl fun _ _ h => setWorker_claimed _ (by simp) h

theorem RunnerInv.lost (hworker : w.workers id = ⟨claimed :: rest, some finalization⟩) :
    RunnerInv r (w.finish id claimed rest .lostLease) := by
  refine ⟨inv.checked, inv.ids, inv.events, inv.eventIds, ?_, ?_, ?_, inv.deadLetters⟩
  · intro row hrow
    obtain ⟨hf, he, hc⟩ := finish_record w id claimed rest .lostLease row.outboxId (Or.inr rfl)
    exact (inv.rows row hrow).congr hf he hc Iff.rfl
  · exact fun x c hc => inv.claims x c (finish_claimed hworker hc)
  · intro action haction
    rcases mem_append.1 haction with haction | haction
    · exact inv.recorded action haction
    · obtain ⟨row, hrow, hid, -⟩ := inv.claims id claimed (by rw [hworker]; exact mem_cons_self)
      rw [mem_singleton.1 haction]
      exact mem_map.2 ⟨row, hrow, hid⟩

/-- A fence that matches a row matches the claim: the row was not touched since. -/
theorem fence_claim (hclaimed : claimed ∈ (w.workers id).claimed) (hrow : row ∈ w.outbox)
    (hf : claimed.fence id row = true) :
    row.outboxId = claimed.outboxId ∧ row.eventId = claimed.eventId ∧ row.status = .leased ∧
      row.retryCount = claimed.retryCount := by
  obtain ⟨hid, hstatus, howner, -⟩ := fence_iff.1 hf
  obtain ⟨other, hother, hotherId, hevent, hlease⟩ := inv.claims id claimed hclaimed
  obtain rfl := eq_of_outboxId inv.ids hother hrow (hotherId.trans hid.symm)
  exact ⟨hid, hevent, hstatus, (hlease howner).2⟩

/-- A fenced update of the row, which frees it, keeps the invariant if it keeps it for the row. -/
theorem RunnerInv.fenced {finalized : World J G} (hworker : w.workers id = ⟨claimed :: rest, some finalization⟩)
    (hfence : ∃ row ∈ w.outbox, claimed.fence id row = true) (values : OutboxRow → OutboxRow)
    (hids : ∀ row, (values row).outboxId = row.outboxId) (hevents : ∀ row, (values row).eventId = row.eventId)
    (hfree : ∀ row, (values row).leaseOwner = none)
    (ho : finalized.outbox = updateWhere (claimed.fence id) values w.outbox) (he : finalized.events = w.events)
    (hworkers : finalized.workers = w.workers) (hh : finalized.history = w.history)
    (hdead : ∀ outboxId, outboxId ≠ claimed.outboxId → (finalized.hasDeadLetter outboxId ↔ w.hasDeadLetter outboxId))
    (hletters : ∀ letter ∈ finalized.deadLetters, letter.outboxId ∈ w.outbox.map (·.outboxId))
    (hchecked : (finalized.finish id claimed rest outcome).Checked)
    (hvalues : ∀ row ∈ w.outbox, claimed.fence id row = true →
      RowInv r (finalized.finish id claimed rest outcome) (values row)) :
    RunnerInv r (finalized.finish id claimed rest outcome) := by
  obtain ⟨row₀, hrow₀, hf₀⟩ := hfence
  refine inv.update (claimed.fence id) values ho hids hevents he hchecked ?_ ?_ ?_ hletters
  · intro row hrow
    by_cases hf : claimed.fence id row = true
    · rw [if_pos hf]
      exact hvalues row hrow hf
    · rw [if_neg hf]
      have hne : row.outboxId ≠ claimed.outboxId := fun h => hf ((fence_unique inv hrow₀ hrow hf₀).2 h)
      obtain ⟨hfails, hends, hlast⟩ := finish_record finalized id claimed rest outcome row.outboxId (Or.inl hne)
      refine (inv.rows row hrow).congr (hfails.trans ?_) (hends.trans ?_) (hlast.trans ?_) (hdead _ hne)
      · simp [World.failures, hh]
      · simp [World.ends, hh]
      · simp [World.lastClaimer, hh]
  · intro x c hc
    have hmem := finish_claimed (by rw [hworkers]; exact hworker) hc
    rw [hworkers] at hmem
    show ClaimInv finalized.outbox x c
    rw [ho]
    exact (inv.claims x c hmem).update hids hevents fun row _ _ => by simp [hfree row]
  · intro action haction
    rcases mem_append.1 haction with haction | haction
    · exact inv.recorded action (hh ▸ haction)
    · rw [mem_singleton.1 haction]
      exact mem_map.2 ⟨row₀, hrow₀, (fence_iff.1 hf₀).1⟩

theorem RunnerInv.finalized {finalized : World J G} (hworker : w.workers id = ⟨claimed :: rest, some finalization⟩)
    (hfence : ∃ row ∈ w.outbox, claimed.fence id row = true)
    (hfin : Finalized r w id claimed now finalization outcome finalized)
    (hchecked : (finalized.finish id claimed rest outcome).Checked) :
    RunnerInv r (finalized.finish id claimed rest outcome) := by
  have hclaimed : claimed ∈ (w.workers id).claimed := by
    rw [hworker]
    exact mem_cons_self
  have hletter : claimed.outboxId ∈ w.outbox.map (·.outboxId) := by
    obtain ⟨row, hrow, hf⟩ := hfence
    exact mem_map.2 ⟨row, hrow, (fence_iff.1 hf).1⟩
  cases hfin with
  | delivered matching =>
    refine inv.fenced hworker hfence (OutboxRow.deliver now) (fun _ => rfl) (fun _ => rfl) (fun _ => rfl) rfl rfl rfl
      rfl (fun _ _ => Iff.rfl) inv.deadLetters hchecked ?_
    intro row hrow hf
    obtain ⟨hid, -, hstatus, -⟩ := fence_claim inv hclaimed hrow hf
    have hrowInv := inv.rows row hrow
    have hne : row.status ≠ .deadLettered := by simp [hstatus]
    refine hrowInv.finished id .delivered hid hstatus rfl rfl rfl rfl
      (by simp [OutboxRow.deliver, OutboxStatus.terminal])      (by simp [OutboxRow.deliver]) (fun _ => hrowInv.budget hne) ?_
    exact iff_of_false (fun h => hne (hrowInv.deadLetter.1 h)) (by simp [OutboxRow.deliver])
  | retried failing error hleft =>
    refine inv.fenced hworker hfence (OutboxRow.retry (claimed.retryCount + 1)
      (now + retryDelay r.baseRetryDelay (claimed.retryCount + 1) r.maxRetryDelay) (publicErrorClass error) now)
      (fun _ => rfl) (fun _ => rfl) (fun _ => rfl) rfl rfl rfl rfl (fun _ _ => Iff.rfl) inv.deadLetters hchecked ?_
    intro row hrow hf
    obtain ⟨hid, -, hstatus, hcount⟩ := fence_claim inv hclaimed hrow hf
    have hrowInv := inv.rows row hrow
    have hne : row.status ≠ .deadLettered := by simp [hstatus]
    refine hrowInv.finished id .retried hid hstatus rfl rfl rfl (by simp [OutboxRow.retry, hcount])
      (by simp [OutboxRow.retry, OutboxStatus.terminal]) (by simp [OutboxRow.retry]) (fun _ => hleft) ?_
    exact iff_of_false (fun h => hne (hrowInv.deadLetter.1 h)) (by simp [OutboxRow.retry])
  | deadLettered failing error hspent =>
    have hupsert : ∀ outboxId, outboxId ∈ (upsertDeadLetter
        (claimed.deadLetter failing (publicErrorClass error) now) w.deadLetters).map (·.outboxId) ↔
        outboxId = claimed.outboxId ∨ w.hasDeadLetter outboxId := fun _ => hasDeadLetter_upsert
    refine inv.fenced hworker hfence (OutboxRow.deadLetter (claimed.retryCount + 1) (publicErrorClass error) now)
      (fun _ => rfl) (fun _ => rfl) (fun _ => rfl) rfl rfl rfl rfl ?_ ?_ hchecked ?_
    · intro outboxId hne
      exact (hupsert outboxId).trans (or_iff_right hne)
    · intro letter hmem
      rcases (hupsert letter.outboxId).1 (mem_map_of_mem hmem) with h | h
      · exact h ▸ hletter
      · obtain ⟨old, hold, hid⟩ := mem_map.1 h
        exact hid ▸ inv.deadLetters old hold
    · intro row hrow hf
      obtain ⟨hid, -, hstatus, hcount⟩ := fence_claim inv hclaimed hrow hf
      have hrowInv := inv.rows row hrow
      have hleft := hrowInv.budget (by simp [hstatus])
      refine hrowInv.finished id .deadLettered hid hstatus rfl rfl rfl (by simp [OutboxRow.deadLetter, hcount])
        (by simp [OutboxRow.deadLetter, OutboxStatus.terminal]) ?_ (by simp [OutboxRow.deadLetter]) ?_
      · intro _
        show claimed.retryCount + 1 = r.maxAttempts
        omega
      · exact iff_of_true ((hupsert row.outboxId).2 (Or.inl hid)) rfl

/-- **One step keeps the invariant.** -/
theorem RunnerInv.step (h : step r w l = some w') : RunnerInv r w' := by
  have hchecked := step_checked inv.checked h
  cases step_cases h with
  | append hevent hid => exact inv.append hevent hid rfl hchecked
  | claim id limit locked now => exact inv.claim (commit_eq_some.2 ⟨hchecked, rfl⟩)
  | project hworker => exact inv.project hworker
  | lost hworker => exact inv.lost hworker
  | finalized hfin hworker hrow hf => exact inv.finalized hworker ⟨_, hrow, hf⟩ hfin hchecked
  | release id now => exact inv.release (commit_eq_some.2 ⟨hchecked, rfl⟩)
  | crash id => exact inv.crash id

end

theorem runnerInv_reachable {graph : G} (h : Reachable (Projection.step r) (World.start graph) w) : RunnerInv r w :=
  h.invariant (RunnerInv.start r graph) fun _ _ _ inv hs => inv.step hs

/-! ## Terminal rows -/

theorem mem_updateWhere_of_not {outbox : List OutboxRow} (hrow : row ∈ outbox) (h : matching row = false) :
    row ∈ updateWhere matching values outbox := mem_updateWhere.2 ⟨row, hrow, by simp [h]⟩

theorem step_terminal (inv : RunnerInv r w) (h : step r w l = some w') (hrow : row ∈ w.outbox)
    (ht : row.status.terminal = true) : row ∈ w'.outbox := by
  have hleased : row.status ≠ .leased := by
    intro hstatus
    rw [hstatus] at ht
    cases ht
  have hpending : row.status ≠ .pending := by
    intro hstatus
    rw [hstatus] at ht
    cases ht
  cases step_cases h with
  | append => exact mem_append_left _ hrow
  | claim =>
    refine mem_updateWhere_of_not hrow ?_
    by_contra hmem
    rcases claimed_open inv hrow (by simpa using hmem) with h | h
    · exact hpending h
    · exact hleased h
  | project =>
    show row ∈ (w.write _).outbox
    rw [(write_tables w _).2.1]
    exact hrow
  | finalized hfin =>
    cases hfin <;> exact mem_updateWhere_of_not hrow (Bool.eq_false_iff.2 fun hf => hleased (fence_iff.1 hf).2.1)
  | release =>
    refine mem_updateWhere_of_not hrow ?_
    simp [hleased]
  | lost | crash => exact hrow

theorem run_terminal (inv : RunnerInv r w) (h : run (step r) w ls = some w') (hrow : row ∈ w.outbox)
    (ht : row.status.terminal = true) : row ∈ w'.outbox :=
  (run_invariant (I := fun w => RunnerInv r w ∧ row ∈ w.outbox)
    (fun _ _ _ ⟨inv, hrow⟩ hs => ⟨inv.step hs, step_terminal inv hs hrow ht⟩) ⟨inv, hrow⟩ h).2

/-! ## Lost leases -/

theorem step_lastClaimer (h : step r w l = some w') {outboxId : Nat}
    (hl : ∀ limit locked now, l ≠ .claim id limit locked now) (hlast : w.lastClaimer outboxId ≠ some id) :
    w'.lastClaimer outboxId ≠ some id := by
  cases step_cases h with
  | claim other limit locked now =>
    rw [lastClaimer_claimed (w := w) rfl]
    split
    · intro hother
      cases hother
      exact hl _ _ _ rfl
    · exact hlast
  | project =>
    show (w.write _).lastClaimer outboxId ≠ some id
    unfold World.lastClaimer
    rw [(write_tables w _).2.2.2.2.2]
    exact hlast
  | lost =>
    rw [lastClaimer_finished (w := w) rfl]
    exact hlast
  | finalized hfin => cases hfin <;> rw [lastClaimer_finished (w := w) rfl] <;> exact hlast
  | append | release | crash => exact hlast

theorem run_lastClaimer {outboxId : Nat} (hquiet : ∀ limit locked now, .claim id limit locked now ∉ ls) :
    ∀ {w w' : World J G}, run (step r) w ls = some w' → w.lastClaimer outboxId ≠ some id →
      w'.lastClaimer outboxId ≠ some id := by
  induction ls with
  | nil =>
    intro w w' h hlast
    cases h
    exact hlast
  | cons l ls ih =>
    intro w w' h hlast
    obtain ⟨s, hs, hrun⟩ := run_cons.1 h
    refine ih (fun _ _ _ hmem => hquiet _ _ _ (mem_cons_of_mem _ hmem)) hrun (step_lastClaimer hs ?_ hlast)
    rintro limit locked now rfl
    exact hquiet _ _ _ mem_cons_self

theorem claim_lastClaimer {limit now outboxId : Nat} (h : step r w (.claim id limit locked now) = some w')
    (hmem : outboxId ∈ (w'.workers id).claimed.map (·.outboxId)) : w'.lastClaimer outboxId = some id := by
  cases step_cases h
  simp only [Function.update_self] at hmem
  obtain ⟨claimed, hclaimed, rfl⟩ := mem_map.1 hmem
  obtain ⟨row, -, hid, rfl⟩ := mem_claimedRows hclaimed
  rw [lastClaimer_claimed (w := w) rfl]
  exact if_pos hid

/-- A worker that is not the last to have claimed its row finds the fence closed. -/
theorem finalize_lost (inv : RunnerInv r w) {finalization : Option (Finalization J G)}
    (hworker : w.workers id = ⟨claimed :: rest, finalization⟩) (hlast : w.lastClaimer claimed.outboxId ≠ some id)
    (h : step r w (.finalize id now) = some w') : w' = w.finish id claimed rest .lostLease := by
  cases step_cases h with
  | lost hw =>
    rw [hworker] at hw
    cases hw
    rfl
  | finalized hfin hw hrow hf =>
    rw [hworker] at hw
    cases hw
    -- an open fence names the worker as owner, and the owner claimed last
    obtain ⟨hid, -, howner, -⟩ := fence_iff.1 hf
    exact absurd (hid ▸ (inv.rows _ hrow).claimer id howner) hlast

/-! ## Safety -/

/-- What is safe about one world and everything that can follow it. -/
structure OutboxSafe (r : Runner J G) (w : World J G) : Prop where
  /-- A row enters a terminal status at most once. -/
  once : ∀ row ∈ w.outbox, w.ends row.outboxId ≤ 1
  /-- A row in a terminal status stays as it is. -/
  final : ∀ row ∈ w.outbox, row.status.terminal = true → ∀ ls w', run (step r) w ls = some w' →
    row ∈ w'.outbox ∧ ∀ row' ∈ w'.outbox, row'.outboxId = row.outboxId → row' = row
  /-- A worker whose row another one claims in between changes no table when it finalizes. -/
  fenced : ∀ id, ∀ claimed ∈ (w.workers id).claimed, ∀ other ≠ id, ∀ limit locked now w₁,
    step r w (.claim other limit locked now) = some w₁ →
    claimed.outboxId ∈ (w₁.workers other).claimed.map (·.outboxId) →
    ∀ ls w₂, run (step r) w₁ ls = some w₂ → (∀ limit locked now, .claim id limit locked now ∉ ls) →
    ∀ rest finalization, w₂.workers id = ⟨claimed :: rest, finalization⟩ →
    ∀ now w₃, step r w₂ (.finalize id now) = some w₃ →
      w₃.outbox = w₂.outbox ∧ w₃.checkpoints = w₂.checkpoints ∧ w₃.deadLetters = w₂.deadLetters
  /-- The retry count is the number of fenced failures, within the budget. -/
  retries : ∀ row ∈ w.outbox, row.retryCount = w.failures row.outboxId ∧ row.retryCount ≤ r.maxAttempts
  /-- The dead letters are the records of the dead-lettered rows. -/
  deadLetters : ∀ row ∈ w.outbox,
    (∃ letter ∈ w.deadLetters, letter.outboxId = row.outboxId) ↔ row.status = .deadLettered

/-- **Safety of the outbox runner.** -/
theorem outbox_runner_safe (r : Runner J G) (graph : G) (w : World J G)
    (h : Reachable (step r) (World.start graph) w) : OutboxSafe r w := by
  have inv := runnerInv_reachable h
  refine ⟨?_, ?_, ?_, ?_, ?_⟩
  · intro row hrow
    rw [(inv.rows row hrow).ends]
    split <;> omega
  · intro row hrow ht ls w' hrun
    have hmem := run_terminal inv hrun hrow ht
    have inv' : RunnerInv r w' := run_invariant (fun _ _ _ inv hs => inv.step hs) inv hrun
    exact ⟨hmem, fun row' hrow' hid => eq_of_outboxId inv'.ids hrow' hmem hid⟩
  · intro id claimed hclaimed other hother limit locked now w₁ hclaim hreclaimed ls w₂ hrun hquiet rest finalization
      hworker now' w₃ hfinal
    have hlast : w₁.lastClaimer claimed.outboxId ≠ some id := by
      rw [claim_lastClaimer hclaim hreclaimed]
      simpa using hother
    have inv₂ : RunnerInv r w₂ := run_invariant (fun _ _ _ inv hs => inv.step hs) (inv.step hclaim) hrun
    rw [finalize_lost inv₂ hworker (run_lastClaimer hquiet hrun hlast) hfinal]
    exact ⟨rfl, rfl, rfl⟩
  · intro row hrow
    have hrowInv := inv.rows row hrow
    refine ⟨hrowInv.failures, ?_⟩
    by_cases hdead : row.status = .deadLettered
    · exact (hrowInv.spent hdead).le
    · exact (hrowInv.budget hdead).le
  · intro row hrow
    rw [← (inv.rows row hrow).deadLetter]
    simp [World.hasDeadLetter]

/-- Worker `b` takes over what `a` had claimed, delivers one row and gives up on the other. -/
def sampleRun : List (Label Unit) := [
  .append (sampleEvent "e1") 1 5, .append (sampleEvent "e2") 2 5,
  .claim "a" 10 [] 10, .project "a" .works,
  .claim "b" 10 [] 50, .finalize "a" 51,
  .project "b" .works, .finalize "b" 52,
  .project "b" (.writeError (some 0) "Boom" false), .finalize "b" 53,
  .claim "b" 10 [] 60, .project "b" (.loadError "Boom"), .finalize "b" 61]

theorem outbox_runner_safe_sample : ∃ w, run (step sampleRunner) (World.start ∅) sampleRun = some w ∧
    w.outbox.map (·.status) = [.delivered, .deadLettered] ∧ OutboxSafe sampleRunner w := by
  have hrun : (run (step sampleRunner) (World.start ∅) sampleRun).map (·.outbox.map (·.status)) =
      some [.delivered, .deadLettered] := by decide
  obtain ⟨w, hw, hstatus⟩ := Option.map_eq_some_iff.1 hrun
  exact ⟨w, hw, hstatus, outbox_runner_safe sampleRunner ∅ w ⟨sampleRun, hw⟩⟩

end Projection
