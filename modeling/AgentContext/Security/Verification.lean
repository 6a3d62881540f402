import AgentContext.Lib.Awaiting
import AgentContext.Lib.Transition

/-!
# Verifications in worker threads

`Argon2Verifier` of one plane, under any number of authentications.  A caller that is admitted awaits a slot, then the
lookup of its record, then its verification in a worker thread; it may be cancelled at any of the three.

    enter        `admission` up to its first wait, or refused
    cancel       a caller that waits for a slot is cancelled
    resume       such a caller runs, after its result or its cancellation
    looked       the lookup returns, or raises
    start        a worker thread takes a verification
    finish       the thread is done with it
    answer       the caller takes what it came to
    abandon      the caller is cancelled at its verification: a verification that no thread has taken is withdrawn, one
                 that runs goes on without its caller

The slot is the caller's and not the thread's.
-/

namespace AgentContext.Verification

open Awaiting Transition

structure Settings where
  maxConcurrency : Nat
  maxQueueDepth : Nat
deriving DecidableEq, Repr

/-- `_capacity`. -/
def Settings.capacity (settings : Settings) : Nat := settings.maxConcurrency + settings.maxQueueDepth

/-- A verification on the executor. -/
inductive Job where
  | queued
  | running
  | finished
deriving DecidableEq, Repr

/-- Where a caller is: at the awaits of `authenticate`. -/
inductive Phase where
  | slot
  | lookup
  | verifying (job : Job)
deriving DecidableEq, Repr

/-- The caller is inside `async with self._slots`. -/
def Phase.hasSlot : Phase → Bool
  | .slot => false
  | _ => true

/-- The steps that a caller is from its end, at most. -/
def Phase.weight : Phase → Nat
  | .slot => 5
  | .lookup => 4
  | .verifying .queued => 3
  | .verifying .running => 2
  | .verifying .finished => 1

structure Caller (κ : Type) where
  id : κ
  phase : Phase
deriving DecidableEq, Repr

/-- A verifier, who is inside, the computations that run without their callers, who was admitted, who gave back. -/
structure World (κ : Type) where
  slots : Semaphore κ
  pending : Int
  callers : List (Caller κ)
  orphans : List κ
  entered : List κ
  left : List κ
deriving DecidableEq, Repr

inductive Act (κ : Type) where
  | enter (id : κ)
  | cancel (id : κ)
  | resume (id : κ)
  | looked (id : κ) (raised : Bool)
  | start (id : κ)
  | finish (id : κ)
  | finishOrphan (id : κ)
  | answer (id : κ)
  | abandon (id : κ)
deriving DecidableEq, Repr

section Model

variable {κ : Type} [DecidableEq κ] (settings : Settings)

/-- `Argon2Verifier.__init__`. -/
def World.start : World κ := ⟨⟨settings.maxConcurrency, []⟩, 0, [], [], [], []⟩

def World.put (w : World κ) (caller : Caller κ) : World κ := { w with callers := replace Caller.id w.callers caller }

/-- The end of `admission`. -/
def World.leave (w : World κ) (caller : Caller κ) (holdsSlot : Bool) : World κ :=
  { w with
    slots := if holdsSlot then w.slots.release else w.slots
    pending := w.pending - 1
    callers := discard Caller.id w.callers caller.id
    left := caller.id :: w.left }

/-- `admission` up to its first wait. -/
def enter (w : World κ) (id : κ) : World κ :=
  if w.pending ≥ settings.capacity then w
  else
    let (got, slots) := w.slots.acquire id
    { w with
      slots
      pending := w.pending + 1
      callers := ⟨id, if got then .lookup else .slot⟩ :: w.callers
      entered := id :: w.entered }

def cancel (w : World κ) (caller : Caller κ) : Option (World κ) :=
  match caller.phase with
  | .slot => some { w with slots := w.slots.cancel caller.id }
  | _ => none

def resume (w : World κ) (caller : Caller κ) : Option (World κ) :=
  match caller.phase with
  | .slot =>
    (w.slots.resume caller.id).map fun (got, slots) =>
      let w := { w with slots }
      if got then w.put { caller with phase := .lookup } else w.leave caller false
  | _ => none

/-- `authenticate` from its lookup to its next wait. -/
def looked (w : World κ) (caller : Caller κ) (raised : Bool) : Option (World κ) :=
  match caller.phase with
  | .lookup => some (if raised then w.leave caller true else w.put { caller with phase := .verifying .queued })
  | _ => none

def startJob (w : World κ) (caller : Caller κ) : Option (World κ) :=
  match caller.phase with
  | .verifying .queued => some (w.put { caller with phase := .verifying .running })
  | _ => none

def finishJob (w : World κ) (caller : Caller κ) : Option (World κ) :=
  match caller.phase with
  | .verifying .running => some (w.put { caller with phase := .verifying .finished })
  | _ => none

/-- `authenticate` from its verification to the end of `admission`. -/
def answer (w : World κ) (caller : Caller κ) : Option (World κ) :=
  match caller.phase with
  | .verifying .finished => some (w.leave caller true)
  | _ => none

/-- `authenticate` where its wait for the thread is cancelled. -/
def abandon (w : World κ) (caller : Caller κ) : Option (World κ) :=
  match caller.phase with
  | .verifying .running => some { w.leave caller true with orphans := caller.id :: w.orphans }
  | .verifying _ => some (w.leave caller true)
  | _ => none

/-- A step about a caller that is inside. -/
def World.at (w : World κ) (id : κ) (f : Caller κ → Option (World κ)) : Option (World κ) :=
  (entry Caller.id w.callers id).bind f

def step (w : World κ) : Act κ → Option (World κ)
  | .enter id => if id ∈ w.entered then none else some (enter settings w id)
  | .cancel id => w.at id (cancel w)
  | .resume id => w.at id (resume w)
  | .looked id raised => w.at id (looked w · raised)
  | .start id => w.at id (startJob w)
  | .finish id => w.at id (finishJob w)
  | .finishOrphan id => if id ∈ w.orphans then some { w with orphans := w.orphans.erase id } else none
  | .answer id => w.at id (answer w)
  | .abandon id => w.at id (abandon w)

/-- The Argon2 computations that run. -/
def World.running (w : World κ) : Nat :=
  (w.callers.countP fun caller => caller.phase = .verifying .running) + w.orphans.length

/-- A caller is cancelled while a thread computes for it. -/
def CancelsWork (w : World κ) : Act κ → Prop
  | .abandon id => ∃ caller ∈ w.callers, caller.id = id ∧ caller.phase = .verifying .running
  | _ => False

instance (w : World κ) (act : Act κ) : Decidable (CancelsWork w act) := by
  cases act <;> unfold CancelsWork <;> infer_instance

/-- What goes on by itself: neither a new caller nor a cancellation, and about a caller. -/
def Act.internal : Act κ → Bool
  | .enter _ | .cancel _ | .abandon _ | .finishOrphan _ => false
  | _ => true

def World.Quiet (w : World κ) : Prop := ∀ act : Act κ, act.internal → step settings w act = none

def World.weight (w : World κ) : Nat := (w.callers.map fun caller => caller.phase.weight).sum

end Model

/-! ## What holds between two steps -/

section Invariants

variable {κ : Type}

/-- The slots, the count and the log. -/
structure Inv (settings : Settings) (w : World κ) : Prop where
  slots : w.slots.Serves Caller.id (fun caller => caller.phase = .slot) (fun caller => caller.phase.hasSlot)
    settings.maxConcurrency w.callers
  pending : w.pending = w.callers.length
  capacity : w.callers.length ≤ settings.capacity
  log : (w.left ++ w.callers.map Caller.id).Perm w.entered
  fresh : w.entered.Nodup

variable {settings : Settings} {w w' : World κ} {a : Caller κ} {rest : List (Caller κ)}
variable {phase : Phase} {act : Act κ}

theorem Inv.nodup (h : Inv settings w) : (w.callers.map Caller.id).Nodup :=
  (List.nodup_append.1 (h.log.nodup_iff.2 h.fresh)).2.1

theorem Phase.ne_slot (h : phase.hasSlot = true) : phase ≠ .slot := fun heq => by
  rw [heq] at h
  cases h

variable [DecidableEq κ]
variable {slots : Semaphore κ}

section

variable (h : Inv settings w) (hsplit : Split Caller.id w.callers a rest)
include h hsplit

theorem Inv.leave {holdsSlot : Bool}
    (hslots : Semaphore.Serves Caller.id (fun caller : Caller κ => caller.phase = .slot) (fun caller => caller.phase.hasSlot)
      settings.maxConcurrency (if holdsSlot then slots.release else slots) rest) :
    Inv settings ({ w with slots }.leave a holdsSlot) := by
  have hlength := hsplit.perm.length_eq
  have hpending := h.pending
  have hcapacity := h.capacity
  rw [List.length_cons] at hlength
  have hrest := hsplit.discard
  refine ⟨hslots.perm hrest.symm, ?_, ?_, ?_, h.fresh⟩
  · show w.pending - 1 = ((discard Caller.id w.callers a.id).length : Int)
    rw [hrest.length_eq]
    omega
  · show (discard Caller.id w.callers a.id).length ≤ settings.capacity
    rw [hrest.length_eq]
    omega
  · calc (a.id :: w.left) ++ (discard Caller.id w.callers a.id).map Caller.id
        _ |>.Perm (a.id :: w.left ++ rest.map Caller.id) := (hrest.map _).append_left _
        _ |>.Perm (w.left ++ (a :: rest).map Caller.id) := List.perm_middle.symm
        _ |>.Perm (w.left ++ w.callers.map Caller.id) := (hsplit.perm.map _).symm.append_left _
        _ |>.Perm w.entered := h.log

theorem Inv.put
    (hslots : slots.Serves Caller.id (fun caller => caller.phase = .slot) (fun caller => caller.phase.hasSlot)
      settings.maxConcurrency ({ a with phase } :: rest)) : Inv settings ({ w with slots }.put { a with phase }) := by
  have hlength : (replace Caller.id w.callers { a with phase }).length = w.callers.length := List.length_map _
  refine ⟨hslots.perm (hsplit.replace { a with phase } rfl).symm, ?_, ?_, ?_, h.fresh⟩
  · show w.pending = ((replace Caller.id w.callers { a with phase }).length : Int)
    rw [hlength, h.pending]
  · show (replace Caller.id w.callers { a with phase }).length ≤ settings.capacity
    rw [hlength]
    exact h.capacity
  · show (w.left ++ (replace Caller.id w.callers { a with phase }).map Caller.id).Perm w.entered
    rw [map_replace]
    exact h.log

theorem Inv.finish (ha : a.phase.hasSlot = true) : Inv settings (w.leave a true) := by
  have hslots : w.slots.release.Serves Caller.id (fun caller : Caller κ => caller.phase = .slot)
      (fun caller => caller.phase.hasSlot) settings.maxConcurrency rest :=
    Semaphore.Serves.release (h.slots.perm hsplit.perm) (by simp [Phase.ne_slot ha]) ha
  exact Inv.leave h hsplit hslots

theorem Inv.next (ha : a.phase.hasSlot = true)
    (hphase : phase.hasSlot = true) : Inv settings (w.put { a with phase }) := by
  have hslots : w.slots.Serves Caller.id (fun caller : Caller κ => caller.phase = .slot)
      (fun caller => caller.phase.hasSlot) settings.maxConcurrency ({ a with phase } :: rest) :=
    Semaphore.Serves.congr (h.slots.perm hsplit.perm) rfl (by simp [Phase.ne_slot ha, Phase.ne_slot hphase])
      (by rw [ha, hphase])
  exact Inv.put h hsplit hslots

end

/-- What one step can do: besides, a caller goes on to its next phase, or it leaves with its slot. -/
theorem step_cases (hstep : step settings w act = some w') :
    (∃ id, act = .enter id ∧ id ∉ w.entered ∧ w' = enter settings w id) ∨
      (∃ id, act = .finishOrphan id ∧ w' = { w with orphans := w.orphans.erase id }) ∨
      ∃ a, entry Caller.id w.callers a.id = some a ∧
        ((act.internal = false ∧ w' = { w with slots := w.slots.cancel a.id }) ∨
          (a.phase = .slot ∧ ∃ got slots, w.slots.resume a.id = some (got, slots) ∧
            w' = if got then { w with slots }.put { a with phase := .lookup } else { w with slots }.leave a false) ∨
          (a.phase.hasSlot = true ∧ ∃ phase : Phase, phase.hasSlot = true ∧ phase.weight < a.phase.weight ∧
            w' = w.put { a with phase }) ∨
          (a.phase.hasSlot = true ∧ w' = w.leave a true) ∨
          (act = .abandon a.id ∧ a.phase = .verifying .running ∧
            w' = { w.leave a true with orphans := a.id :: w.orphans })) := by
  have hat : ∀ {id : κ} {f : Caller κ → Option (World κ)}, w.at id f = some w' →
      ∃ a, a.id = id ∧ entry Caller.id w.callers a.id = some a ∧ f a = some w' := fun hf => by
    obtain ⟨a, hentry, ha⟩ := Option.bind_eq_some_iff.1 hf
    exact ⟨a, entry_key hentry, by rwa [entry_key hentry], ha⟩
  cases act with
  | enter id =>
    simp only [step, Option.ite_none_left_eq_some, Option.some.injEq] at hstep
    exact .inl ⟨id, rfl, hstep.1, hstep.2.symm⟩
  | finishOrphan id =>
    simp only [step, Option.ite_none_right_eq_some, Option.some.injEq] at hstep
    exact .inr (.inl ⟨id, rfl, hstep.2.symm⟩)
  | cancel =>
    obtain ⟨a, rfl, hentry, ha⟩ := hat hstep
    unfold cancel at ha
    split at ha <;> cases ha
    exact .inr (.inr ⟨a, hentry, .inl ⟨rfl, rfl⟩⟩)
  | resume =>
    obtain ⟨a, rfl, hentry, ha⟩ := hat hstep
    unfold resume at ha
    split at ha
    · next hphase =>
      obtain ⟨⟨got, slots⟩, hresume, rfl⟩ := Option.map_eq_some_iff.1 ha
      exact .inr (.inr ⟨a, hentry, .inr (.inl ⟨hphase, got, slots, hresume, rfl⟩)⟩)
    · cases ha
  | looked id raised =>
    obtain ⟨a, rfl, hentry, ha⟩ := hat hstep
    unfold looked at ha
    split at ha <;> cases ha
    next hphase =>
      cases raised with
      | true => exact .inr (.inr ⟨a, hentry, .inr (.inr (.inr (.inl ⟨by rw [hphase]; rfl, rfl⟩)))⟩)
      | false => exact .inr (.inr ⟨a, hentry, .inr (.inr (.inl ⟨by rw [hphase]; rfl, _, rfl, by rw [hphase]; decide, rfl⟩))⟩)
  | start =>
    obtain ⟨a, rfl, hentry, ha⟩ := hat hstep
    unfold startJob at ha
    split at ha <;> cases ha
    next hphase =>
      exact .inr (.inr ⟨a, hentry, .inr (.inr (.inl ⟨by rw [hphase]; rfl, _, rfl, by rw [hphase]; decide, rfl⟩))⟩)
  | finish =>
    obtain ⟨a, rfl, hentry, ha⟩ := hat hstep
    unfold finishJob at ha
    split at ha <;> cases ha
    next hphase =>
      exact .inr (.inr ⟨a, hentry, .inr (.inr (.inl ⟨by rw [hphase]; rfl, _, rfl, by rw [hphase]; decide, rfl⟩))⟩)
  | answer =>
    obtain ⟨a, rfl, hentry, ha⟩ := hat hstep
    unfold answer at ha
    split at ha <;> cases ha
    next hphase => exact .inr (.inr ⟨a, hentry, .inr (.inr (.inr (.inl ⟨by rw [hphase]; rfl, rfl⟩)))⟩)
  | abandon =>
    obtain ⟨a, rfl, hentry, ha⟩ := hat hstep
    unfold abandon at ha
    split at ha <;> cases ha
    · next hphase => exact .inr (.inr ⟨a, hentry, .inr (.inr (.inr (.inr ⟨rfl, hphase, rfl⟩)))⟩)
    · next hphase => exact .inr (.inr ⟨a, hentry, .inr (.inr (.inr (.inl ⟨by rw [hphase]; rfl, rfl⟩)))⟩)

omit [DecidableEq κ] in
theorem enter_inv {id : κ} (h : Inv settings w) (hnew : id ∉ w.entered) : Inv settings (enter settings w id) := by
  unfold enter
  split
  · exact h
  · rename_i hroom
    have hpending := h.pending
    rcases hacquire : w.slots.acquire id with ⟨got, slots⟩
    refine ⟨Semaphore.Serves.acquire h.slots hacquire (by cases got <;> rfl) (by cases got <;> rfl), ?_, ?_, ?_,
      List.nodup_cons.2 ⟨hnew, h.fresh⟩⟩
    · simp [hpending]
    · simp only [List.length_cons]
      omega
    · exact List.perm_middle.trans (h.log.cons id)

theorem step_inv (h : Inv settings w) (hstep : step settings w act = some w') : Inv settings w' := by
  rcases step_cases hstep with ⟨id, -, hnew, rfl⟩ | ⟨id, -, rfl⟩ | ⟨a, hentry, hcase⟩
  · exact enter_inv h hnew
  · exact ⟨h.slots, h.pending, h.capacity, h.log, h.fresh⟩
  · obtain ⟨rest, hsplit⟩ := Split.of_entry h.nodup hentry
    rcases hcase with ⟨-, rfl⟩ | ⟨hphase, got, slots, hresume, rfl⟩ | ⟨hslot, phase, hphase, -, rfl⟩ | ⟨hslot, rfl⟩ |
      ⟨-, hphase, rfl⟩
    · exact ⟨h.slots.cancel, h.pending, h.capacity, h.log, h.fresh⟩
    · have hslots := Semaphore.Serves.resume hsplit.nodup (h.slots.perm hsplit.perm) (by simp [hphase])
        (by simp [hphase, Phase.hasSlot]) hresume
      cases got with
      | true =>
        rw [if_pos rfl] at hslots
        exact h.put hsplit (hslots _ rfl rfl)
      | false =>
        rw [if_neg Bool.false_ne_true] at hslots
        exact h.leave hsplit hslots
    · exact h.next hsplit hslot hphase
    · exact h.finish hsplit hslot
    · have hleft := h.finish hsplit (by rw [hphase]; rfl)
      exact ⟨hleft.slots, hleft.pending, hleft.capacity, hleft.log, hleft.fresh⟩

omit [DecidableEq κ] in
theorem start_inv : Inv settings (World.start settings : World κ) :=
  ⟨⟨rfl, nofun, List.Perm.refl _⟩, rfl, Nat.zero_le _, List.Perm.refl _, List.nodup_nil⟩

/-! ### Computations without a caller -/

/-- A computation loses its caller by one kind of step only. -/
theorem step_orphans (hcareful : ¬CancelsWork w act) (horphans : w.orphans = [])
    (hstep : step settings w act = some w') : w'.orphans = [] := by
  rcases step_cases hstep with ⟨id, -, -, rfl⟩ | ⟨id, -, rfl⟩ | ⟨a, hentry, ⟨-, rfl⟩ | ⟨-, got, slots, -, rfl⟩ |
    ⟨-, phase, -, -, rfl⟩ | ⟨-, rfl⟩ | ⟨rfl, hphase, -⟩⟩
  · unfold enter
    split <;> exact horphans
  · simp [horphans]
  · exact horphans
  · cases got <;> exact horphans
  · exact horphans
  · exact horphans
  · exact absurd ⟨a, entry_mem hentry, rfl, hphase⟩ hcareful

omit [DecidableEq κ] in
/-- Who has a computation has a slot. -/
theorem running_le (h : Inv settings w) : w.running ≤ settings.maxConcurrency + w.orphans.length := by
  have hfree := h.slots.free
  have hle : (w.callers.countP fun caller => caller.phase = .verifying .running) ≤
      w.callers.countP fun caller => caller.phase.hasSlot :=
    List.countP_mono_left fun caller _ hruns => by
      simp only [decide_eq_true_eq] at hruns
      rw [hruns]
      rfl
  rw [World.running]
  omega

omit [DecidableEq κ] in
theorem empty_verifier (h : Inv settings w) (hempty : w.callers = []) :
    w.pending = 0 ∧ w.slots = ⟨settings.maxConcurrency, []⟩ := by
  obtain ⟨hslots, hpending, -, -, -⟩ := h
  rw [hempty] at hslots hpending
  exact ⟨hpending, hslots.empty⟩

/-! ### Nobody waits for ever -/

/-- While a caller is inside, somebody can go on. -/
theorem not_stuck (h : Inv settings w) (hslots : 0 < settings.maxConcurrency) (hcallers : w.callers ≠ []) :
    ∃ act : Act κ, act.internal ∧ (step settings w act).isSome := by
  have hon : ∀ {a : Caller κ} (act : Act κ) {f : Caller κ → Option (World κ)}, a ∈ w.callers → act.internal →
      step settings w act = w.at a.id f → (f a).isSome → ∃ act : Act κ, act.internal ∧ (step settings w act).isSome :=
    fun act _ ha hinternal hstep hsome => ⟨act, hinternal, by rw [hstep, World.at, entry_of_mem h.nodup ha]; exact hsome⟩
  by_cases hslot : ∃ a ∈ w.callers, a.phase.hasSlot = true
  · obtain ⟨a, ha, hslot⟩ := hslot
    cases hphase : a.phase with
    | slot =>
      rw [hphase] at hslot
      cases hslot
    | lookup => exact hon (.looked a.id true) ha rfl rfl (by simp [looked, hphase])
    | verifying job =>
      cases job with
      | queued => exact hon (.start a.id) ha rfl rfl (by simp [startJob, hphase])
      | running => exact hon (.finish a.id) ha rfl rfl (by simp [finishJob, hphase])
      | finished => exact hon (.answer a.id) ha rfl rfl (by simp [answer, hphase])
  · have hnone : ∀ b ∈ w.callers, b.phase.hasSlot = false := fun b hb => by simpa using fun hb' => hslot ⟨b, hb, hb'⟩
    obtain ⟨a, ha⟩ := List.exists_mem_of_ne_nil _ hcallers
    have hwaits : a.phase = .slot := by
      cases hphase : a.phase with
      | slot => rfl
      | _ => exact absurd ⟨a, ha, by rw [hphase]; rfl⟩ hslot
    obtain ⟨b, hb, hwaits, hsome⟩ := h.slots.not_stuck h.nodup hslots hnone ha (by simp [hwaits])
    simp only [decide_eq_true_eq] at hwaits
    exact hon (.resume b.id) hb rfl rfl (by simpa [resume, hwaits] using hsome)

omit [DecidableEq κ] in
theorem weight_perm (h : w.callers.Perm rest) : w.weight = (rest.map fun caller => caller.phase.weight).sum :=
  (h.map _).sum_nat

theorem weight_put (hsplit : Split Caller.id w.callers a rest) (hlt : phase.weight < a.phase.weight) :
    (w.put { a with phase }).weight < w.weight := by
  rw [weight_perm (w := w.put { a with phase }) (hsplit.replace { a with phase } rfl), weight_perm hsplit.perm]
  simpa using hlt

theorem weight_leave {holdsSlot : Bool} (hsplit : Split Caller.id w.callers a rest) :
    (w.leave a holdsSlot).weight < w.weight := by
  have hpos : 0 < a.phase.weight := by
    cases a.phase with
    | verifying job => cases job <;> decide
    | _ => decide
  rw [weight_perm (w := w.leave a holdsSlot) hsplit.discard, weight_perm hsplit.perm]
  simpa using hpos

/-- Who goes on comes nearer to its end. -/
theorem step_weight (h : Inv settings w) (hinternal : act.internal) (hstep : step settings w act = some w') :
    w'.weight < w.weight := by
  rcases step_cases hstep with ⟨id, rfl, -⟩ | ⟨id, rfl, -⟩ | ⟨a, hentry, hcase⟩
  · cases hinternal
  · cases hinternal
  · obtain ⟨rest, hsplit⟩ := Split.of_entry h.nodup hentry
    rcases hcase with ⟨hout, -⟩ | ⟨hphase, got, slots, -, rfl⟩ | ⟨-, phase, -, hlt, rfl⟩ | ⟨-, rfl⟩ | ⟨rfl, -⟩
    · rw [hinternal] at hout
      cases hout
    · cases got with
      | true => exact weight_put (w := { w with slots }) hsplit (by rw [hphase]; decide)
      | false => exact weight_leave (w := { w with slots }) hsplit
    · exact weight_put hsplit hlt
    · exact weight_leave hsplit
    · cases hinternal

/-- Left alone, the verifier comes to rest, and then every place was given back. -/
theorem drained (hslots : 0 < settings.maxConcurrency) {acts : List (Act κ)} (hinternal : ∀ act ∈ acts, act.internal)
    (h : Inv settings w) (hrun : run (step settings) w acts = some w') :
    acts.length ≤ w.weight ∧ (w'.Quiet settings → w'.callers = []) := by
  have hmeasure := run_measure (P := fun act : Act κ => act.internal) (fun _ _ _ => step_inv)
    (fun _ _ _ => step_weight) h hinternal hrun
  refine ⟨by omega, fun hquiet => ?_⟩
  by_contra hcallers
  obtain ⟨act, hact, hsome⟩ := not_stuck (run_invariant (fun _ _ _ => step_inv) h hrun) hslots hcallers
  rw [hquiet act hact] at hsome
  cases hsome

/-! ## Bounds -/

/-- The places of a verifier: never more than its capacity, each given back once, and all of them at the end. -/
structure Accounts (settings : Settings) (w : World κ) : Prop where
  admitted : w.pending = w.callers.length ∧ w.callers.length ≤ settings.capacity
  once : w.entered.Nodup ∧ ∀ id, w.left.count id + (w.callers.map Caller.id).count id = w.entered.count id
  empty : w.callers = [] → w.pending = 0 ∧ w.slots = ⟨settings.maxConcurrency, []⟩
  drains : 0 < settings.maxConcurrency → ∀ acts w', (∀ act ∈ acts, act.internal) →
    run (step settings) w acts = some w' → acts.length ≤ w.weight ∧ (w'.Quiet settings → w'.callers = [])

/-- The places of a verifier come out right in every run. -/
theorem Inv.accounts (h : Inv settings w) : Accounts settings w where
  admitted := ⟨h.pending, h.capacity⟩
  once := ⟨h.fresh, fun id => by rw [← List.count_append, h.log.count_eq]⟩
  empty := empty_verifier h
  drains hslots _ _ hinternal hrun := drained hslots hinternal h hrun

/-- **A verifier whose computations keep their callers.**  In a run where no caller is cancelled while a thread computes
for it, no more computations run than there are slots. -/
theorem verifications_bounded {acts : List (Act κ)}
    (hcareful : Meets (step settings) (fun w act => ¬CancelsWork w act) (World.start settings) acts)
    (hrun : run (step settings) (World.start settings) acts = some w) :
    w.running ≤ settings.maxConcurrency ∧ Accounts settings w := by
  obtain ⟨hinv, horphans⟩ := run_invariant_where (I := fun w => Inv settings w ∧ w.orphans = [])
    (fun _ _ _ hI hok hstep => ⟨step_inv hI.1 hstep, step_orphans hok hI.2 hstep⟩) ⟨start_inv, rfl⟩ hcareful hrun
  have hle := running_le hinv
  rw [horphans] at hle
  exact ⟨hle, hinv.accounts⟩

/-- A caller that is cancelled at its lookup hands its slot on. -/
theorem verifications_bounded_cancelled_lookup :
    (run (step ⟨1, 1⟩) (World.start ⟨1, 1⟩) [.enter 0, .enter 1, .looked 0 true, .resume 1, .looked 1 false, .start 1]).any
        (fun w => w.running = 1) ∧
      ∀ w : World Nat, run (step ⟨1, 1⟩) (World.start ⟨1, 1⟩)
        [.enter 0, .enter 1, .looked 0 true, .resume 1, .looked 1 false, .start 1] = some w → w.running ≤ 1 :=
  ⟨by decide, fun _ h => And.left (verifications_bounded (by decide) h)⟩

/-- Two authentications one after the other, the second while the thread of the first still runs. -/
def abandonedRun : List (Act Nat) :=
  [.enter 0, .looked 0 false, .start 0, .abandon 0, .enter 1, .looked 1 false, .start 1]

/-- One slot, and two computations that run. -/
theorem verifications_exceed :
    ¬∀ (settings : Settings) (acts : List (Act Nat)) (w : World Nat),
      run (step settings) (World.start settings) acts = some w → w.running ≤ settings.maxConcurrency := fun h =>
  absurd (h ⟨1, 1⟩ abandonedRun ((run (step ⟨1, 1⟩) (World.start ⟨1, 1⟩) abandonedRun).get (by decide)) (by simp))
    (by decide)

end Invariants

end AgentContext.Verification
