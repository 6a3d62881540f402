import Mathlib.Logic.Function.Basic
import AgentContext.Lib.Awaiting
import AgentContext.Lib.Transition

/-!
# The gate before the decodes

`DecodeGate` of the OTLP receiver, with any number of requests in flight.  A request that is admitted awaits its
producer's turn, then a worker slot, then whether its client is still there, then its decode on a worker thread.  A task
is cancelled at any of these awaits; the thread of a decode runs on, and the place is given back when it is finished.

    enter        `run` up to its first wait, or refused
    cancel       a task that waits for its turn or for a slot is cancelled
    resume       such a task runs, after its result or its cancellation
    checked      `is_disconnected` returns or raises
    start        a worker thread takes a decode
    finish       the thread is done with it, by a result or by an error
    answer       the task takes what the decode came to
    abandon      the task is cancelled at its shielded decode
    callback     the release of a decode that was handed over

A lock is an object: a place keeps the one it was admitted with, the table may come to name another.
-/

namespace AgentContext.DecodeGate

open Awaiting Transition

/-! ## The gate -/

structure Settings where
  workers : Nat
  queueDepth : Nat
  perProducer : Nat
deriving DecidableEq, Repr

/-- `_capacity`. -/
def Settings.capacity (settings : Settings) : Nat := settings.workers + settings.queueDepth

/-- A decode on the executor. -/
inductive Job where
  | queued
  | running
  | finished
deriving DecidableEq, Repr

/-- Where a place is: at the awaits of `run`, or handed over to its decode. -/
inductive Phase where
  | turn
  | slot
  | checking
  | decoding (job : Job)
  | handedOver (job : Job)
deriving DecidableEq, Repr

/-- The place has its producer's turn. -/
def Phase.hasTurn : Phase → Bool
  | .turn => false
  | _ => true

variable {phase : Phase}

theorem Phase.hasTurn_of_ne (h : phase ≠ .turn) : phase.hasTurn = true := by
  cases phase <;> first | exact absurd rfl h | rfl

/-- The place has a worker slot. -/
def Phase.hasSlot : Phase → Bool
  | .turn | .slot => false
  | _ => true

/-- A thread decodes. -/
def Phase.decodes : Phase → Bool
  | .decoding .running | .handedOver .running => true
  | _ => false

theorem Phase.hasSlot_of_decodes (h : phase.decodes = true) : phase.hasSlot = true := by
  cases phase <;> first | rfl | cases h

theorem Phase.hasTurn_of_decodes (h : phase.decodes = true) : phase.hasTurn = true := by
  cases phase <;> first | rfl | cases h

/-- The steps that a place is from its release, at most. -/
def Phase.weight : Phase → Nat
  | .turn => 6
  | .slot => 5
  | .checking => 4
  | .decoding .queued | .handedOver .queued => 3
  | .decoding .running | .handedOver .running => 2
  | .decoding .finished | .handedOver .finished => 1

structure Place (ρ π : Type) where
  request : ρ
  producer : π
  turn : Nat
  phase : Phase
deriving DecidableEq, Repr

/-- The fields of `DecodeGate`, and the locks that were created. -/
structure Gate (ρ π : Type) where
  slots : Semaphore ρ
  admitted : Int
  byProducer : π → Option Int
  turns : π → Option Nat
  locks : Nat → Lock ρ
  created : Nat

/-- A gate, the places that were not given back, who was admitted, who gave back, and whether the gate's own
bookkeeping failed: a key that is missing, a lock that is not held. -/
structure World (ρ π : Type) where
  gate : Gate ρ π
  places : List (Place ρ π)
  entered : List ρ
  released : List ρ
  failed : Bool

/-- What `is_disconnected` comes to. -/
inductive Check where
  | connected
  | disconnected
  | raised
deriving DecidableEq, Repr

inductive Act (ρ π : Type) where
  | enter (request : ρ) (producer : π)
  | cancel (request : ρ)
  | resume (request : ρ)
  | checked (request : ρ) (result : Check)
  | start (request : ρ)
  | finish (request : ρ)
  | answer (request : ρ)
  | abandon (request : ρ)
  | callback (request : ρ)
deriving DecidableEq, Repr

section Model

variable {ρ π : Type} [DecidableEq ρ] [DecidableEq π] (settings : Settings)

/-- `DecodeGate.__init__`. -/
def World.start : World ρ π :=
  ⟨⟨⟨settings.workers, []⟩, 0, fun _ => none, fun _ => none, fun _ => ⟨false, []⟩, 0⟩, [], [], [], false⟩

/-- `_admit`, with the lock it returns. -/
def Gate.admitPlace (gate : Gate ρ π) (producer : π) : Nat × Gate ρ π :=
  let gate := { gate with
    admitted := gate.admitted + 1
    byProducer := Function.update gate.byProducer producer (some ((gate.byProducer producer).getD 0 + 1)) }
  match gate.turns producer with
  | some turn => (turn, gate)
  | none =>
    (gate.created,
      { gate with
        turns := Function.update gate.turns producer (some gate.created)
        locks := Function.update gate.locks gate.created ⟨false, []⟩
        created := gate.created + 1 })

def Gate.setLock (gate : Gate ρ π) (turn : Nat) (lock : Lock ρ) : Gate ρ π :=
  { gate with locks := Function.update gate.locks turn lock }

/-- The slot and the turn of `_release`. -/
def Gate.giveBack (gate : Gate ρ π) (producer : π) : Option (Gate ρ π) := do
  let turn ← gate.turns producer
  let lock ← (gate.locks turn).release
  return { gate with slots := gate.slots.release }.setLock turn lock

/-- The counts of `_release`. -/
def Gate.drop (gate : Gate ρ π) (producer : π) : Option (Gate ρ π) := do
  let count ← gate.byProducer producer
  let gate := { gate with admitted := gate.admitted - 1 }
  let remaining := count - 1
  if remaining ≠ 0 then
    return { gate with byProducer := Function.update gate.byProducer producer (some remaining) }
  let _ ← gate.turns producer
  return { gate with
    byProducer := Function.update gate.byProducer producer none
    turns := Function.update gate.turns producer none }

/-- `_release`. -/
def Gate.release (gate : Gate ρ π) (producer : π) (holdsSlot : Bool) : Option (Gate ρ π) :=
  if holdsSlot then (gate.giveBack producer).bind (·.drop producer) else gate.drop producer

/-! ## The requests -/

def World.fail (w : World ρ π) : World ρ π := { w with failed := true }

def World.put (w : World ρ π) (place : Place ρ π) : World ρ π :=
  { w with places := replace Place.request w.places place }

/-- A place is given back. -/
def World.leave (w : World ρ π) (place : Place ρ π) (holdsSlot : Bool) : World ρ π :=
  match w.gate.release place.producer holdsSlot with
  | none => w.fail
  | some gate =>
    { w with
      gate
      places := discard Place.request w.places place.request
      released := place.request :: w.released }

/-- `run` from its turn to its next wait. -/
def World.takeSlot (w : World ρ π) (place : Place ρ π) : World ρ π :=
  let (got, slots) := w.gate.slots.acquire place.request
  { w with gate := { w.gate with slots } }.put { place with phase := if got then .checking else .slot }

/-- `run` up to its first wait. -/
def enter (w : World ρ π) (request : ρ) (producer : π) : World ρ π :=
  if w.gate.admitted ≥ settings.capacity ∨ (w.gate.byProducer producer).getD 0 ≥ settings.perProducer then w
  else
    let (turn, gate) := w.gate.admitPlace producer
    let place := ⟨request, producer, turn, .turn⟩
    let (got, lock) := (gate.locks turn).acquire request
    let w := { w with gate := gate.setLock turn lock, places := place :: w.places, entered := request :: w.entered }
    if got then w.takeSlot place else w

/-- `task.cancel()`, for a task that waits for its turn or for a slot. -/
def cancel (w : World ρ π) (place : Place ρ π) : Option (World ρ π) :=
  match place.phase with
  | .turn => some { w with gate := w.gate.setLock place.turn ((w.gate.locks place.turn).cancel place.request) }
  | .slot => some { w with gate := { w.gate with slots := w.gate.slots.cancel place.request } }
  | _ => none

/-- `run` after a wait for its turn or for a slot. -/
def resume (w : World ρ π) (place : Place ρ π) : Option (World ρ π) :=
  match place.phase with
  | .turn =>
    ((w.gate.locks place.turn).resume place.request).map fun (got, lock) =>
      let w := { w with gate := w.gate.setLock place.turn lock }
      if got then w.takeSlot place else w.leave place false
  | .slot =>
    (w.gate.slots.resume place.request).map fun (got, slots) =>
      let w := { w with gate := { w.gate with slots } }
      if got then w.put { place with phase := .checking }
      else
        -- the cancelled wait gives its turn back itself
        match (w.gate.locks place.turn).release with
        | none => w.fail
        | some lock => { w with gate := w.gate.setLock place.turn lock }.leave place false
  | _ => none

/-- `run` from the answer of `is_disconnected` to its next wait. -/
def checked (w : World ρ π) (place : Place ρ π) (result : Check) : Option (World ρ π) :=
  match place.phase, result with
  | .checking, .connected => some (w.put { place with phase := .decoding .queued })
  | .checking, _ => some (w.leave place true)
  | _, _ => none

/-- A worker thread takes a decode. -/
def startJob (w : World ρ π) (place : Place ρ π) : Option (World ρ π) :=
  match place.phase with
  | .decoding .queued => some (w.put { place with phase := .decoding .running })
  | .handedOver .queued => some (w.put { place with phase := .handedOver .running })
  | _ => none

/-- The thread is done. -/
def finishJob (w : World ρ π) (place : Place ρ π) : Option (World ρ π) :=
  match place.phase with
  | .decoding .running => some (w.put { place with phase := .decoding .finished })
  | .handedOver .running => some (w.put { place with phase := .handedOver .finished })
  | _ => none

/-- `run` after its decode. -/
def answer (w : World ρ π) (place : Place ρ π) : Option (World ρ π) :=
  match place.phase with
  | .decoding .finished => some (w.leave place true)
  | _ => none

/-- `run` where its wait for the decode is cancelled. -/
def abandon (w : World ρ π) (place : Place ρ π) : Option (World ρ π) :=
  match place.phase with
  | .decoding job => some (w.put { place with phase := .handedOver job })
  | _ => none

/-- The release that was handed over. -/
def callback (w : World ρ π) (place : Place ρ π) : Option (World ρ π) :=
  match place.phase with
  | .handedOver .finished => some (w.leave place true)
  | _ => none

/-- A step about a request that has a place. -/
def World.at (w : World ρ π) (request : ρ) (f : Place ρ π → Option (World ρ π)) : Option (World ρ π) :=
  (entry Place.request w.places request).bind f

def step (w : World ρ π) : Act ρ π → Option (World ρ π)
  | .enter request producer => if request ∈ w.entered then none else some (enter settings w request producer)
  | .cancel request => w.at request (cancel w)
  | .resume request => w.at request (resume w)
  | .checked request result => w.at request (checked w · result)
  | .start request => w.at request (startJob w)
  | .finish request => w.at request (finishJob w)
  | .answer request => w.at request (answer w)
  | .abandon request => w.at request (abandon w)
  | .callback request => w.at request (callback w)

/-- What goes on by itself: neither a new request nor a cancellation. -/
def Act.internal : Act ρ π → Bool
  | .enter .. | .cancel _ | .abandon _ => false
  | _ => true

/-- No task is to run, and no thread. -/
def World.Quiet (w : World ρ π) : Prop := ∀ act : Act ρ π, act.internal → step settings w act = none

/-- The decodes that run. -/
def World.running (w : World ρ π) : Nat := w.places.countP fun place => place.phase.decodes

def World.weight (w : World ρ π) : Nat := (w.places.map fun place => place.phase.weight).sum

/-- The decodes of a producer that run. -/
def World.runningOf (w : World ρ π) (producer : π) : Nat :=
  w.places.countP fun place => place.producer = producer && place.phase.decodes

end Model

/-! ## What holds between two steps

Three invariants, each about some fields of the gate and the places: who is counted, who has or awaits which turn, who
has or awaits a slot.  The places are a set here: their order does not matter. -/

section Invariants

variable {ρ π : Type} [DecidableEq π]

def share (places : List (Place ρ π)) (producer : π) : Nat := places.countP fun place => place.producer = producer

/-- The table counts the places, and has a lock for who has one. -/
structure Counted (settings : Settings) (gate : Gate ρ π) (places : List (Place ρ π)) : Prop where
  admitted : gate.admitted = places.length
  capacity : places.length ≤ settings.capacity
  count : ∀ p, gate.byProducer p = if share places p = 0 then none else some (share places p : Int)
  bound : ∀ p, share places p ≤ settings.perProducer
  turn : ∀ place ∈ places, gate.turns place.producer = some place.turn
  idle : ∀ p, share places p = 0 → gate.turns p = none

def Turn (lock : Lock ρ) (producer : π) (places : List (Place ρ π)) : Prop :=
  lock.Serves Place.request (fun place => place.producer = producer && place.phase = .turn)
    (fun place => place.producer = producer && place.phase.hasTurn) places

structure Turns (gate : Gate ρ π) (places : List (Place ρ π)) : Prop where
  created : ∀ p k, gate.turns p = some k → k < gate.created
  distinct : ∀ p q k, gate.turns p = some k → gate.turns q = some k → p = q
  turn : ∀ p k, gate.turns p = some k → Turn (gate.locks k) p places

/-- The worker slots. -/
def Slots (settings : Settings) (slots : Semaphore ρ) (places : List (Place ρ π)) : Prop :=
  slots.Serves Place.request (fun place => place.phase = .slot) (fun place => place.phase.hasSlot) settings.workers places

variable {settings : Settings} {gate gate' : Gate ρ π} {places places' rest : List (Place ρ π)} {a a' : Place ρ π}
variable {producer : π} {lock : Lock ρ}

theorem share_perm (h : places.Perm places') (p : π) : share places p = share places' p := h.countP_eq _

theorem Counted.perm (hcounted : Counted settings gate places) (h : places.Perm places') :
    Counted settings gate places' where
  admitted := by rw [← h.length_eq, hcounted.admitted]
  capacity := h.length_eq ▸ hcounted.capacity
  count p := by rw [← share_perm h, hcounted.count]
  bound p := share_perm h p ▸ hcounted.bound p
  turn place hplace := hcounted.turn place (h.mem_iff.2 hplace)
  idle p hp := hcounted.idle p (by rw [share_perm h, hp])

theorem Turns.perm (hturns : Turns gate places) (h : places.Perm places') : Turns gate places' :=
  ⟨hturns.created, hturns.distinct, fun p k hk => Lock.Serves.perm (hturns.turn p k hk) h⟩

/-! ### Counts -/

theorem share_cons (p : π) : share (a :: places) p = share places p + if a.producer = p then 1 else 0 := by
  simp [share, List.countP_cons]

theorem share_congr (h : a'.producer = a.producer) (p : π) : share (a' :: rest) p = share (a :: rest) p := by
  rw [share_cons, share_cons, h]

theorem share_pos (h : a ∈ places) : 0 < share places a.producer := List.countP_pos_iff.2 ⟨a, h, by simp⟩

/-- Only who admits and who releases change the counts. -/
theorem Counted.congr (h : Counted settings gate (a :: rest)) (hproducer : a'.producer = a.producer)
    (hturn : a'.turn = a.turn) : Counted settings gate (a' :: rest) where
  admitted := h.admitted
  capacity := h.capacity
  count p := share_congr hproducer p ▸ h.count p
  bound p := share_congr hproducer p ▸ h.bound p
  turn place hplace := by
    rcases List.mem_cons.1 hplace with rfl | hmem
    · rw [hproducer, hturn]
      exact h.turn a List.mem_cons_self
    · exact h.turn place (List.mem_cons_of_mem _ hmem)
  idle p hp := h.idle p (share_congr hproducer p ▸ hp)

theorem Counted.frame (h : Counted settings gate places) (hadmitted : gate'.admitted = gate.admitted)
    (hby : gate'.byProducer = gate.byProducer) (hturns : gate'.turns = gate.turns) : Counted settings gate' places :=
  ⟨hadmitted ▸ h.admitted, h.capacity, hby ▸ h.count, h.bound, hturns ▸ h.turn, hturns ▸ h.idle⟩

section Admit

variable {request : ρ} {producer : π}

theorem admit_admitted : (gate.admitPlace producer).2.admitted = gate.admitted + 1 := by
  unfold Gate.admitPlace
  dsimp only
  split <;> rfl

theorem admit_byProducer : (gate.admitPlace producer).2.byProducer =
    Function.update gate.byProducer producer (some ((gate.byProducer producer).getD 0 + 1)) := by
  unfold Gate.admitPlace
  dsimp only
  split <;> rfl

theorem admit_slots : (gate.admitPlace producer).2.slots = gate.slots := by
  unfold Gate.admitPlace
  dsimp only
  split <;> rfl

theorem admit_turns : (gate.admitPlace producer).2.turns =
    Function.update gate.turns producer (some (gate.admitPlace producer).1) := by
  unfold Gate.admitPlace
  dsimp only
  split
  · rename_i turn hturn
    exact (Function.update_eq_self_iff.2 hturn.symm).symm
  · rfl

theorem Counted.admitPlace (h : Counted settings gate rest) (hfull : ¬gate.admitted ≥ settings.capacity)
    (hshare : ¬(gate.byProducer producer).getD 0 ≥ settings.perProducer) :
    Counted settings (gate.admitPlace producer).2 (⟨request, producer, (gate.admitPlace producer).1, .turn⟩ :: rest) := by
  have hcount : (gate.byProducer producer).getD 0 = share rest producer := by
    rw [h.count]
    split
    · rename_i hzero
      rw [hzero]
      rfl
    · rfl
  rw [h.admitted] at hfull
  rw [hcount] at hshare
  refine ⟨?_, ?_, fun p => ?_, fun p => ?_, fun place hplace => ?_, fun p hp => ?_⟩
  · rw [admit_admitted, h.admitted]
    simp
  · rw [List.length_cons]
    omega
  · rw [admit_byProducer, share_cons, Function.update_apply, hcount]
    by_cases hp : p = producer
    · subst hp
      simp
    · rw [if_neg hp, if_neg (Ne.symm hp), h.count, Nat.add_zero]
  · rw [share_cons]
    split
    · rename_i hp
      subst hp
      dsimp only
      omega
    · exact h.bound p
  · rw [admit_turns, Function.update_apply]
    rcases List.mem_cons.1 hplace with rfl | hmem
    · exact if_pos rfl
    · split
      · rename_i hp
        have := h.turn place hmem
        rw [hp] at this
        unfold Gate.admitPlace
        simp [this]
      · exact h.turn place hmem
  · rw [share_cons] at hp
    have hne : producer ≠ p := fun heq => by simp [heq] at hp
    rw [admit_turns, Function.update_of_ne hne.symm]
    exact h.idle p (by omega)

end Admit

theorem drop_eq {count : Int} {k : Nat} (hcount : gate.byProducer producer = some count)
    (hturn : gate.turns producer = some k) :
    gate.drop producer = some { gate with
      admitted := gate.admitted - 1
      byProducer := Function.update gate.byProducer producer (if count - 1 = 0 then none else some (count - 1))
      turns := if count - 1 = 0 then Function.update gate.turns producer none else gate.turns } := by
  unfold Gate.drop
  by_cases hlast : count - 1 = 0 <;> simp [hcount, hturn, hlast]

/-- Who releases is not counted any more; the lock of a producer without a place is forgotten. -/
theorem Counted.drop (h : Counted settings gate (a :: rest)) :
    ∃ gate', gate.drop a.producer = some gate' ∧ Counted settings gate' rest ∧ gate'.slots = gate.slots ∧
      gate'.locks = gate.locks ∧ gate'.created = gate.created ∧
      ∀ p k, gate'.turns p = some k → gate.turns p = some k := by
  have hcount := h.count a.producer
  have hadmitted := h.admitted
  have hcapacity := h.capacity
  rw [share_cons, if_pos rfl, if_neg (by omega)] at hcount
  rw [List.length_cons] at hcapacity hadmitted
  have hlast : ((share rest a.producer + 1 : Nat) : Int) - 1 = share rest a.producer := by omega
  have hother : ∀ p, p ≠ a.producer → share (a :: rest) p = share rest p := fun p hp => by
    rw [share_cons, if_neg (Ne.symm hp), Nat.add_zero]
  refine ⟨_, drop_eq hcount (h.turn a List.mem_cons_self), ⟨?_, by omega, fun p => ?_, fun p => ?_, fun place hplace => ?_,
    fun p hp => ?_⟩, rfl, rfl, rfl, fun p k hk => ?_⟩
  · dsimp only
    omega
  · by_cases hp : p = a.producer
    · subst hp
      simp
    · simp only [Function.update_of_ne hp]
      rw [h.count, hother p hp]
  · have := h.bound p
    rw [share_cons] at this
    omega
  · have hpos := share_pos hplace
    have hold := h.turn place (List.mem_cons_of_mem _ hplace)
    dsimp only
    split
    · rename_i hzero
      rw [Function.update_of_ne, hold]
      exact fun heq => by rw [heq] at hpos; omega
    · exact hold
  · dsimp only
    by_cases hpa : p = a.producer
    · subst hpa
      simp [hp]
    · have := h.idle p (by rw [hother p hpa, hp])
      split
      · rwa [Function.update_of_ne hpa]
      · exact this
  · dsimp only at hk
    split at hk
    · by_cases hpa : p = a.producer
      · subst hpa
        simp at hk
      · rwa [Function.update_of_ne hpa] at hk
    · exact hk

/-! ### Turns -/

theorem Turn.cons_ne {p : π} (hne : a.producer ≠ p) : Turn lock p (a :: places) ↔ Turn lock p places :=
  Lock.Serves.cons_out (by simp [hne]) (by simp [hne])

/-- A place that keeps its turn. -/
theorem Turn.congr {p : π} {phase : Phase} (h : Turn lock p (a :: rest)) (ha : a.phase ≠ .turn)
    (hphase : phase ≠ .turn) : Turn lock p ({ a with phase } :: rest) :=
  Lock.Serves.congr h rfl (by simp [ha, hphase]) (by simp [Phase.hasTurn_of_ne ha, Phase.hasTurn_of_ne hphase])

theorem Turns.setLock {p : π} {k : Nat} (h : Turns gate places) (hk : gate.turns p = some k)
    (hlock : Turn lock p places') (hother : ∀ q, q ≠ p → ∀ l : Lock ρ, Turn l q places → Turn l q places') :
    Turns (gate.setLock k lock) places' := by
  refine ⟨h.created, h.distinct, fun q j hj => ?_⟩
  by_cases hq : q = p
  · subst hq
    cases Option.some.inj (hk.symm.trans hj)
    simpa [Gate.setLock] using hlock
  · have hne : j ≠ k := fun heq => hq (h.distinct q p j hj (heq ▸ hk))
    simp only [Gate.setLock, Function.update_of_ne hne]
    exact hother q hq _ (h.turn q j hj)

theorem Turns.frame (h : Turns gate places) (hlocks : gate'.locks = gate.locks) (hcreated : gate'.created = gate.created)
    (hturns : ∀ p k, gate'.turns p = some k → gate.turns p = some k) : Turns gate' places :=
  ⟨fun p k hk => hcreated ▸ h.created p k (hturns p k hk),
    fun p q k hp hq => h.distinct p q k (hturns p k hp) (hturns q k hq),
    fun p k hk => hlocks ▸ h.turn p k (hturns p k hk)⟩

/-- A producer that comes gets a lock that nobody has, or the one that it has. -/
theorem Turns.admitPlace (h : Turns gate rest) (hcounted : Counted settings gate rest) :
    Turns (gate.admitPlace producer).2 rest := by
  unfold Gate.admitPlace
  dsimp only
  split
  · exact h.frame rfl rfl fun _ _ hk => hk
  · rename_i hnone
    have hfresh : ∀ {p k}, gate.turns p = some k → k ≠ gate.created := fun hk => Nat.ne_of_lt (h.created _ _ hk)
    have hempty : ∀ place ∈ rest, place.producer ≠ producer := fun place hplace heq => by
      have := hcounted.turn place hplace
      rw [heq, hnone] at this
      cases this
    refine ⟨fun p k hk => ?_, fun p q k hp hq => ?_, fun p k hk => ?_⟩
    · simp only [Function.update_apply] at hk
      split at hk
      · cases hk
        exact Nat.lt_succ_self _
      · exact Nat.lt_succ_of_lt (h.created p k hk)
    · simp only [Function.update_apply] at hp hq
      split at hp <;> split at hq
      · rename_i hp' hq'
        exact hp'.trans hq'.symm
      · cases hp
        exact absurd rfl (hfresh hq)
      · cases hq
        exact absurd rfl (hfresh hp)
      · exact h.distinct p q k hp hq
    · simp only [Function.update_apply] at hk
      split at hk
      · rename_i hp
        subst hp
        cases hk
        simp only [Function.update_self]
        exact Lock.Serves.new (fun b hb => by simp [hempty b hb]) fun b hb => by simp [hempty b hb]
      · simp only [Function.update_of_ne (hfresh hk)]
        exact h.turn p k hk

/-! ### The gate -/

variable [DecidableEq ρ]

structure Good (settings : Settings) (gate : Gate ρ π) (places : List (Place ρ π)) : Prop where
  counted : Counted settings gate places
  turns : Turns gate places
  slots : Slots settings gate.slots places

section

omit [DecidableEq ρ]

theorem Good.perm (h : Good settings gate places) (hperm : places.Perm places') : Good settings gate places' :=
  ⟨h.counted.perm hperm, h.turns.perm hperm, Semaphore.Serves.perm h.slots hperm⟩

/-- A place that is out of all queues is given back. -/
theorem Good.drop (hcounted : Counted settings gate (a :: rest)) (hturns : Turns gate rest)
    (hslots : Slots settings gate.slots rest) : ∃ gate', gate.drop a.producer = some gate' ∧ Good settings gate' rest := by
  obtain ⟨gate', hdrop, hcounted', hsame, hlocks, hcreated, hturns'⟩ := hcounted.drop
  exact ⟨gate', hdrop, hcounted', hturns.frame hlocks hcreated hturns', hsame ▸ hslots⟩

/-- A place with its slot is given back. -/
theorem Good.release (h : Good settings gate (a :: rest)) (ha : a.phase.hasSlot = true) :
    ∃ gate', gate.release a.producer true = some gate' ∧ Good settings gate' rest := by
  have hturn := h.counted.turn a List.mem_cons_self
  have hne : a.phase ≠ .turn := fun heq => by rw [heq] at ha; cases ha
  have hne' : a.phase ≠ .slot := fun heq => by rw [heq] at ha; cases ha
  obtain ⟨lock, hrelease, hlock⟩ := Lock.Serves.release (h.turns.turn _ _ hturn) (by simp [hne])
    (by simp [Phase.hasTurn_of_ne hne])
  have hturns : Turns (gate.setLock a.turn lock) rest := h.turns.setLock hturn hlock fun q hq l hl =>
    (Turn.cons_ne (Ne.symm hq)).1 hl
  have hframe : Turns ({ gate with slots := gate.slots.release }.setLock a.turn lock) rest :=
    hturns.frame rfl rfl fun _ _ hk => hk
  have hcounted : Counted settings ({ gate with slots := gate.slots.release }.setLock a.turn lock) (a :: rest) :=
    h.counted.frame rfl rfl rfl
  have hslots : Slots settings gate.slots.release rest := Semaphore.Serves.release h.slots (by simp [hne']) ha
  obtain ⟨gate', hdrop, hgood⟩ := Good.drop hcounted hframe hslots
  refine ⟨gate', ?_, hgood⟩
  rw [Gate.release, if_pos rfl]
  simp [Gate.giveBack, hturn, hrelease, hdrop]

end

/-! ### The requests -/

/-- Who was admitted has a place or gave it back, once. -/
structure Logged (w : World ρ π) : Prop where
  log : (w.released ++ w.places.map Place.request).Perm w.entered
  fresh : w.entered.Nodup
  sound : w.failed = false

structure Inv (settings : Settings) (w : World ρ π) : Prop where
  good : Good settings w.gate w.places
  logged : Logged w

variable {w w' : World ρ π}

omit [DecidableEq ρ] [DecidableEq π] in
theorem Logged.nodup (h : Logged w) : (w.places.map Place.request).Nodup :=
  (List.nodup_append.1 (h.log.nodup_iff.2 h.fresh)).2.1

section

variable (hlogged : Logged w) (hsplit : Split Place.request w.places a rest)
include hlogged hsplit

/-- A place is given back. -/
theorem Inv.leave {holdsSlot : Bool}
    (hrelease : w.gate.release a.producer holdsSlot = some gate') (hgood : Good settings gate' rest) :
    Inv settings (w.leave a holdsSlot) := by
  unfold World.leave
  rw [hrelease]
  refine ⟨hgood.perm hsplit.discard.symm, ⟨?_, hlogged.fresh, hlogged.sound⟩⟩
  have hmove : ((a :: rest).map Place.request).Perm (w.places.map Place.request) := (hsplit.perm.map _).symm
  have hrest := hsplit.discard.map Place.request
  calc (a.request :: w.released) ++ (discard Place.request w.places a.request).map Place.request
      _ |>.Perm (a.request :: w.released ++ rest.map Place.request) := hrest.append_left _
      _ |>.Perm (w.released ++ (a :: rest).map Place.request) := List.perm_middle.symm
      _ |>.Perm (w.released ++ w.places.map Place.request) := hmove.append_left _
      _ |>.Perm w.entered := hlogged.log

theorem Inv.put (hrequest : a'.request = a.request)
    (hgood : Good settings w.gate (a' :: rest)) : Inv settings (w.put a') :=
  ⟨hgood.perm (hsplit.replace a' hrequest).symm, ⟨by
    rw [World.put, map_replace]
    exact hlogged.log, hlogged.fresh, hlogged.sound⟩⟩

theorem Inv.takeSlot (hcounted : Counted settings w.gate (a :: rest))
    (hturns : ∀ a' : Place ρ π, a'.request = a.request → a'.producer = a.producer → a'.phase ≠ .turn →
      Turns w.gate (a' :: rest))
    (hslots : Slots settings w.gate.slots rest) : Inv settings (w.takeSlot a) := by
  unfold World.takeSlot
  split
  rename_i got slots hacquire
  refine Inv.put (w := { w with gate := { w.gate with slots } }) ⟨hlogged.log, hlogged.fresh, hlogged.sound⟩ hsplit rfl
    ⟨?_, ?_, ?_⟩
  · have hcounted' : Counted settings w.gate ({ a with phase := if got then .checking else .slot } :: rest) :=
      hcounted.congr rfl rfl
    exact hcounted'.frame rfl rfl rfl
  · exact (hturns { a with phase := if got then .checking else .slot } rfl rfl (by cases got <;> simp)).frame rfl rfl
      fun _ _ hk => hk
  · exact Semaphore.Serves.acquire (a := { a with phase := if got then .checking else .slot }) hslots hacquire
      (by cases got <;> rfl) (by cases got <;> rfl)

end

theorem enter_inv {request : ρ} (h : Inv settings w) (hnew : request ∉ w.entered) :
    Inv settings (enter settings w request producer) := by
  unfold enter
  split
  · exact h
  · rename_i hroom
    rw [not_or] at hroom
    have hcounted : Counted settings (w.gate.admitPlace producer).2
        (⟨request, producer, (w.gate.admitPlace producer).1, .turn⟩ :: w.places) :=
      h.good.counted.admitPlace hroom.1 hroom.2
    have hturns : Turns (w.gate.admitPlace producer).2 w.places := h.good.turns.admitPlace h.good.counted
    have hturn : (w.gate.admitPlace producer).2.turns producer = some (w.gate.admitPlace producer).1 := by
      rw [admit_turns, Function.update_self]
    have hslots : Slots settings (w.gate.admitPlace producer).2.slots w.places := by
      rw [admit_slots]
      exact h.good.slots
    have hlog : (w.released ++ request :: w.places.map Place.request).Perm (request :: w.entered) :=
      List.perm_middle.trans (h.logged.log.cons request)
    have hfresh : (request :: w.entered).Nodup := List.nodup_cons.2 ⟨hnew, h.logged.fresh⟩
    generalize w.gate.admitPlace producer = admitted at hcounted hturns hturn hslots
    obtain ⟨turn, gate⟩ := admitted
    dsimp only at hcounted hturns hturn hslots ⊢
    have hother : ∀ (a' : Place ρ π), a'.producer = producer → ∀ q, q ≠ producer → ∀ l : Lock ρ,
        Turn l q w.places → Turn l q (a' :: w.places) := fun a' ha' q hq l hl =>
      (Turn.cons_ne (by rw [ha']; exact Ne.symm hq)).2 hl
    have hlock := hturns.turn producer turn hturn
    rcases hacquire : (gate.locks turn).acquire request with ⟨got, lock⟩
    dsimp only
    cases got with
    | false =>
      rw [if_neg Bool.false_ne_true]
      refine ⟨⟨hcounted.frame rfl rfl rfl, ?_, (Semaphore.Serves.cons_out rfl rfl).2 hslots⟩, ⟨hlog, hfresh, h.logged.sound⟩⟩
      have hlock' : Turn lock producer (⟨request, producer, turn, .turn⟩ :: w.places) :=
        Lock.Serves.acquire hlock hacquire (by simp) (by simp [Phase.hasTurn])
      exact hturns.setLock hturn hlock' (hother _ rfl)
    | true =>
      rw [if_pos rfl]
      set w' : World ρ π := { w with
        gate := gate.setLock turn lock
        places := ⟨request, producer, turn, .turn⟩ :: w.places
        entered := request :: w.entered }
      have hlogged : Logged w' := ⟨hlog, hfresh, h.logged.sound⟩
      obtain ⟨rest, hsplit⟩ := Split.of_entry (t := request) (a := ⟨request, producer, turn, .turn⟩) hlogged.nodup (by
        simp [w', entry])
      have hrest : w.places.Perm rest := List.Perm.cons_inv hsplit.perm
      refine Inv.takeSlot hlogged hsplit ?_ (fun a' hrequest hproducer hphase => ?_) (Semaphore.Serves.perm hslots hrest)
      · exact (hcounted.perm (hrest.cons _)).frame rfl rfl rfl
      · refine Turns.perm (?_ : Turns _ (a' :: w.places)) (hrest.cons _)
        refine hturns.setLock hturn ?_ (hother a' hproducer)
        rw [← show a'.request = request from hrequest] at hacquire
        exact Lock.Serves.acquire hlock hacquire (by simp [hphase]) (by simp [hproducer, Phase.hasTurn_of_ne hphase])

section

variable (h : Inv settings w) (hsplit : Split Place.request w.places a rest)
include h hsplit

theorem cancel_inv (hstep : cancel w a = some w') : Inv settings w' := by
  unfold cancel at hstep
  split at hstep
  · cases hstep
    have hturn := h.good.counted.turn a (hsplit.perm.mem_iff.2 List.mem_cons_self)
    refine ⟨⟨h.good.counted.frame rfl rfl rfl, ?_, h.good.slots⟩, ⟨h.logged.log, h.logged.fresh, h.logged.sound⟩⟩
    exact h.good.turns.setLock hturn (Lock.Serves.cancel (h.good.turns.turn _ _ hturn)) fun _ _ _ hl => hl
  · cases hstep
    exact ⟨⟨h.good.counted.frame rfl rfl rfl, h.good.turns.frame rfl rfl fun _ _ hk => hk, Semaphore.Serves.cancel h.good.slots⟩,
      ⟨h.logged.log, h.logged.fresh, h.logged.sound⟩⟩
  · cases hstep

theorem resume_inv (hstep : resume w a = some w') : Inv settings w' := by
  have hgood := h.good.perm hsplit.perm
  have hturn := hgood.counted.turn a List.mem_cons_self
  have hother : ∀ {b : Place ρ π}, b.producer = a.producer → ∀ q, q ≠ a.producer → ∀ l : Lock ρ,
      Turn l q (a :: rest) → Turn l q rest ∧ Turn l q (b :: rest) := fun hb q hq l hl => by
    have hl' := (Turn.cons_ne (Ne.symm hq)).1 hl
    exact ⟨hl', (Turn.cons_ne (by rw [hb]; exact Ne.symm hq)).2 hl'⟩
  unfold resume at hstep
  split at hstep
  · rename_i hphase
    obtain ⟨⟨got, lock⟩, hresume, rfl⟩ := Option.map_eq_some_iff.1 hstep
    have hlock := Lock.Serves.resume hsplit.nodup (hgood.turns.turn _ _ hturn) (by simp [hphase])
      (by simp [hphase, Phase.hasTurn]) hresume
    have hslots : Slots settings w.gate.slots rest :=
      (Semaphore.Serves.cons_out (by simp [hphase]) (by simp [hphase, Phase.hasSlot])).1 hgood.slots
    have hlogged : Logged { w with gate := w.gate.setLock a.turn lock } :=
      ⟨h.logged.log, h.logged.fresh, h.logged.sound⟩
    cases got with
    | true =>
      rw [if_pos rfl] at hlock
      exact Inv.takeSlot hlogged hsplit (hgood.counted.frame rfl rfl rfl) (fun a' _ hproducer hne =>
        hgood.turns.setLock hturn (hlock a' (by simp [hne]) (by simp [hproducer, Phase.hasTurn_of_ne hne]))
          fun q hq l hl => (hother hproducer q hq l hl).2) hslots
    | false =>
      rw [if_neg Bool.false_ne_true] at hlock
      have hcounted : Counted settings (w.gate.setLock a.turn lock) (a :: rest) := hgood.counted.frame rfl rfl rfl
      obtain ⟨gate', hdrop, hgood'⟩ := Good.drop hcounted
        (hgood.turns.setLock hturn hlock fun q hq l hl => (hother rfl q hq l hl).1) hslots
      exact Inv.leave hlogged hsplit hdrop hgood'
  · rename_i hphase
    obtain ⟨⟨got, slots⟩, hresume, rfl⟩ := Option.map_eq_some_iff.1 hstep
    have hslots := Semaphore.Serves.resume hsplit.nodup hgood.slots (by simp [hphase]) (by simp [hphase, Phase.hasSlot])
      hresume
    cases got with
    | true =>
      rw [if_pos rfl] at hslots
      refine Inv.put (w := { w with gate := { w.gate with slots } }) ⟨h.logged.log, h.logged.fresh, h.logged.sound⟩
        hsplit rfl ⟨?_, ?_, hslots _ rfl rfl⟩
      · have hcounted : Counted settings w.gate ({ a with phase := .checking } :: rest) := hgood.counted.congr rfl rfl
        exact hcounted.frame rfl rfl rfl
      · refine Turns.frame (?_ : Turns w.gate _) rfl rfl fun _ _ hk => hk
        refine ⟨hgood.turns.created, hgood.turns.distinct, fun p k hk => ?_⟩
        exact (hgood.turns.turn p k hk).congr (by simp [hphase]) (by simp)
    | false =>
      rw [if_neg Bool.false_ne_true] at hslots
      obtain ⟨lock, hrelease, hlock⟩ := Lock.Serves.release (hgood.turns.turn _ _ hturn) (by simp [hphase])
        (by simp [hphase, Phase.hasTurn])
      have hslots' : Slots settings slots rest := hslots
      have hcounted : Counted settings ({ w.gate with slots }.setLock a.turn lock) (a :: rest) :=
        hgood.counted.frame rfl rfl rfl
      have hturns : Turns { w.gate with slots } (a :: rest) := hgood.turns.frame rfl rfl fun _ _ hk => hk
      obtain ⟨gate', hdrop, hgood'⟩ := Good.drop hcounted
        (hturns.setLock hturn hlock fun q hq l hl => (hother rfl q hq l hl).1) hslots'
      simp only [hrelease, Bool.false_eq_true, if_false]
      refine Inv.leave (w := { w with gate := { w.gate with slots }.setLock a.turn lock })
        ⟨h.logged.log, h.logged.fresh, h.logged.sound⟩ hsplit ?_ hgood'
      rw [Gate.release, if_neg Bool.false_ne_true]
      exact hdrop
  · cases hstep

theorem Inv.next {phase : Phase} (ha : a.phase.hasSlot = true)
    (hphase : phase.hasSlot = true) : Inv settings (w.put { a with phase }) := by
  have hgood := h.good.perm hsplit.perm
  have hne : ∀ {p : Phase}, p.hasSlot = true → p ≠ .turn ∧ p ≠ .slot := fun hp =>
    ⟨fun heq => (by rw [heq] at hp; cases hp), fun heq => (by rw [heq] at hp; cases hp)⟩
  refine Inv.put h.logged hsplit rfl ⟨hgood.counted.congr rfl rfl, ⟨hgood.turns.created, hgood.turns.distinct,
    fun p k hk => ?_⟩, Semaphore.Serves.congr hgood.slots rfl (by simp [(hne ha).2, (hne hphase).2]) (by rw [ha, hphase])⟩
  exact (hgood.turns.turn p k hk).congr (hne ha).1 (hne hphase).1

theorem Inv.finish (ha : a.phase.hasSlot = true) : Inv settings (w.leave a true) := by
  obtain ⟨gate', hrelease, hgood⟩ := (h.good.perm hsplit.perm).release ha
  exact Inv.leave h.logged hsplit hrelease hgood

end

variable {f : Place ρ π → Option (World ρ π)}

theorem Inv.at (h : Inv settings w) {request : ρ} (hf : w.at request f = some w') :
    ∃ a rest, Split Place.request w.places a rest ∧ f a = some w' := by
  obtain ⟨a, hentry, ha⟩ := Option.bind_eq_some_iff.1 hf
  obtain ⟨rest, hsplit⟩ := Split.of_entry h.logged.nodup hentry
  exact ⟨a, rest, hsplit, ha⟩

theorem step_inv {act : Act ρ π} (h : Inv settings w) (hstep : step settings w act = some w') : Inv settings w' := by
  cases act with
  | enter request producer =>
    simp only [step] at hstep
    split at hstep
    · cases hstep
    · rename_i hnew
      cases hstep
      exact enter_inv h hnew
  | cancel request =>
    obtain ⟨a, rest, hsplit, ha⟩ := h.at hstep
    exact cancel_inv h hsplit ha
  | resume request =>
    obtain ⟨a, rest, hsplit, ha⟩ := h.at hstep
    exact resume_inv h hsplit ha
  | checked request result =>
    obtain ⟨a, rest, hsplit, ha⟩ := h.at hstep
    unfold checked at ha
    split at ha
    · rename_i hphase
      cases ha
      exact h.next hsplit (by rw [hphase]; rfl) rfl
    · rename_i hphase _
      cases ha
      exact h.finish hsplit (by rw [hphase]; rfl)
    · cases ha
  | start request =>
    obtain ⟨a, rest, hsplit, ha⟩ := h.at hstep
    unfold startJob at ha
    split at ha
    · rename_i hphase
      cases ha
      exact h.next hsplit (by rw [hphase]; rfl) rfl
    · rename_i hphase
      cases ha
      exact h.next hsplit (by rw [hphase]; rfl) rfl
    · cases ha
  | finish request =>
    obtain ⟨a, rest, hsplit, ha⟩ := h.at hstep
    unfold finishJob at ha
    split at ha
    · rename_i hphase
      cases ha
      exact h.next hsplit (by rw [hphase]; rfl) rfl
    · rename_i hphase
      cases ha
      exact h.next hsplit (by rw [hphase]; rfl) rfl
    · cases ha
  | answer request =>
    obtain ⟨a, rest, hsplit, ha⟩ := h.at hstep
    unfold answer at ha
    split at ha
    · rename_i hphase
      cases ha
      exact h.finish hsplit (by rw [hphase]; rfl)
    · cases ha
  | abandon request =>
    obtain ⟨a, rest, hsplit, ha⟩ := h.at hstep
    unfold abandon at ha
    split at ha
    · rename_i hphase
      cases ha
      exact h.next hsplit (by rw [hphase]; rfl) rfl
    · cases ha
  | callback request =>
    obtain ⟨a, rest, hsplit, ha⟩ := h.at hstep
    unfold callback at ha
    split at ha
    · rename_i hphase
      cases ha
      exact h.finish hsplit (by rw [hphase]; rfl)
    · cases ha

omit [DecidableEq ρ] in
theorem start_inv : Inv settings (World.start settings : World ρ π) where
  good := ⟨⟨rfl, Nat.zero_le _, fun _ => rfl, fun _ => Nat.zero_le _, nofun, fun _ _ => rfl⟩, ⟨nofun, nofun, nofun⟩,
    ⟨rfl, nofun, List.Perm.refl _⟩⟩
  logged := ⟨List.Perm.refl _, List.nodup_nil, rfl⟩

theorem reachable_inv (h : Reachable (step settings) (World.start settings) w) : Inv settings w :=
  h.invariant start_inv fun _ _ _ => step_inv

/-! ## Bounds -/

section

omit [DecidableEq ρ]

theorem running_le (h : Good settings w.gate w.places) : w.running ≤ settings.workers := by
  have hslots := h.slots.free
  have hle : w.running ≤ w.places.countP fun place => place.phase.hasSlot :=
    List.countP_mono_left fun place _ hdecodes => Phase.hasSlot_of_decodes hdecodes
  omega

theorem runningOf_le (h : Good settings w.gate w.places) (p : π) : w.runningOf p ≤ 1 := by
  have hle : w.runningOf p ≤ w.places.countP fun place => place.producer = p && place.phase.hasTurn :=
    List.countP_mono_left fun place _ hruns => by
      simp only [Bool.and_eq_true, decide_eq_true_eq] at hruns ⊢
      exact ⟨hruns.1, Phase.hasTurn_of_decodes hruns.2⟩
  cases hturn : w.gate.turns p with
  | none =>
    -- without a lock, without a place
    have hnobody : w.runningOf p = 0 := List.countP_eq_zero.2 fun place hplace hruns => by
      simp only [Bool.and_eq_true, decide_eq_true_eq] at hruns
      have := h.counted.turn place hplace
      rw [hruns.1, hturn] at this
      cases this
    omega
  | some k =>
    have hholds := Lock.Serves.holds_le (h.turns.turn p k hturn)
    omega

theorem empty_gate (h : Good settings w.gate w.places) (hempty : w.places = []) :
    w.gate.admitted = 0 ∧ (∀ p, w.gate.byProducer p = none ∧ w.gate.turns p = none) ∧
      w.gate.slots = ⟨settings.workers, []⟩ := by
  obtain ⟨hcounted, -, hslots⟩ := h
  rw [hempty] at hcounted hslots
  exact ⟨hcounted.admitted, fun p => ⟨hcounted.count p, hcounted.idle p rfl⟩, Semaphore.Serves.empty hslots⟩

end

/-! ## Nobody waits for ever -/

omit [DecidableEq π] in
theorem at_some {request : ρ} (h : Logged w) (ha : a ∈ w.places)
    (hrequest : a.request = request) : w.at request f = f a := by
  rw [World.at, ← hrequest, entry_of_mem h.nodup ha]
  rfl

theorem not_stuck (h : Inv settings w) (hworkers : 0 < settings.workers) (hplaces : w.places ≠ []) :
    ∃ act : Act ρ π, act.internal ∧ (step settings w act).isSome := by
  have hon : ∀ {a : Place ρ π} (act : Act ρ π) {f : Place ρ π → Option (World ρ π)}, a ∈ w.places → act.internal →
      step settings w act = w.at a.request f → (f a).isSome →
      ∃ act : Act ρ π, act.internal ∧ (step settings w act).isSome := fun act _ ha hinternal hstep hsome =>
    ⟨act, hinternal, by rw [hstep, at_some h.logged ha rfl]; exact hsome⟩
  by_cases hslot : ∃ a ∈ w.places, a.phase.hasSlot = true
  · obtain ⟨a, ha, hslot⟩ := hslot
    cases hphase : a.phase with
    | turn | slot =>
      rw [hphase] at hslot
      cases hslot
    | checking => exact hon (.checked a.request .disconnected) ha rfl rfl (by simp [checked, hphase])
    | decoding job =>
      cases job with
      | queued => exact hon (.start a.request) ha rfl rfl (by simp [startJob, hphase])
      | running => exact hon (.finish a.request) ha rfl rfl (by simp [finishJob, hphase])
      | finished => exact hon (.answer a.request) ha rfl rfl (by simp [answer, hphase])
    | handedOver job =>
      cases job with
      | queued => exact hon (.start a.request) ha rfl rfl (by simp [startJob, hphase])
      | running => exact hon (.finish a.request) ha rfl rfl (by simp [finishJob, hphase])
      | finished => exact hon (.callback a.request) ha rfl rfl (by simp [callback, hphase])
  have hnone : ∀ b ∈ w.places, b.phase.hasSlot = false := fun b hb => by simpa using fun hb' => hslot ⟨b, hb, hb'⟩
  by_cases hwaits : ∃ a ∈ w.places, a.phase = .slot
  · obtain ⟨a, ha, hphase⟩ := hwaits
    obtain ⟨b, hb, hwaits, hsome⟩ := Semaphore.Serves.not_stuck h.logged.nodup h.good.slots hworkers hnone ha
      (by simp [hphase])
    simp only [decide_eq_true_eq] at hwaits
    exact hon (.resume b.request) hb rfl rfl (by simpa [resume, hwaits] using hsome)
  · obtain ⟨a, ha⟩ := List.exists_mem_of_ne_nil _ hplaces
    have hall : ∀ b ∈ w.places, b.phase = .turn := fun b hb => by
      cases hphase : b.phase with
      | turn => rfl
      | slot => exact absurd ⟨b, hb, hphase⟩ hwaits
      | _ => exact absurd ⟨b, hb, by rw [hphase]; rfl⟩ hslot
    have hturn := h.good.counted.turn a ha
    obtain ⟨b, hb, hwaits, hsome⟩ := Lock.Serves.not_stuck h.logged.nodup (h.good.turns.turn _ _ hturn)
      (fun b hb => by simp [hall b hb, Phase.hasTurn]) ha (by simp [hall a ha])
    simp only [Bool.and_eq_true, decide_eq_true_eq] at hwaits
    have hsame : b.turn = a.turn := by
      have := h.good.counted.turn b hb
      rw [hwaits.1, hturn] at this
      exact (Option.some.inj this).symm
    rw [← hsame] at hsome
    exact hon (.resume b.request) hb rfl rfl (by simpa [resume, hwaits.2] using hsome)

/-! ### How long it takes -/

omit [DecidableEq ρ] [DecidableEq π] in
theorem weight_perm (h : w.places.Perm places) : w.weight = (places.map fun place => place.phase.weight).sum :=
  (h.map _).sum_nat

omit [DecidableEq π] in
theorem weight_put {phase : Phase} (hsplit : Split Place.request w.places a rest) (hlt : phase.weight < a.phase.weight) :
    (w.put { a with phase }).weight < w.weight := by
  rw [weight_perm (w := w.put { a with phase }) (hsplit.replace { a with phase } rfl), weight_perm hsplit.perm]
  simpa using hlt

theorem weight_leave {holdsSlot : Bool} (hsplit : Split Place.request w.places a rest) (hsound : (w.leave a holdsSlot).failed = false) :
    (w.leave a holdsSlot).weight < w.weight := by
  have hpos : 0 < a.phase.weight := by
    cases a.phase with
    | decoding job | handedOver job => cases job <;> decide
    | _ => decide
  unfold World.leave at hsound ⊢
  split at hsound
  · cases hsound
  · rename_i gate hrelease
    have hdiscard : (discard Place.request w.places a.request).Perm rest := hsplit.discard
    rw [weight_perm hdiscard, weight_perm hsplit.perm]
    simpa using hpos

omit [DecidableEq π] in
theorem weight_takeSlot (hsplit : Split Place.request w.places a rest) (ha : a.phase = .turn) : (w.takeSlot a).weight < w.weight := by
  unfold World.takeSlot
  split
  rename_i got slots hacquire
  refine weight_put (w := { w with gate := { w.gate with slots } }) hsplit ?_
  rw [ha]
  cases got <;> decide

/-- What goes on comes nearer to its release. -/
theorem step_weight {act : Act ρ π} (h : Inv settings w) (hinternal : act.internal)
    (hstep : step settings w act = some w') : w'.weight < w.weight := by
  have hsound : w'.failed = false := (step_inv h hstep).logged.sound
  cases act with
  | enter | cancel | abandon => cases hinternal
  | resume request =>
    obtain ⟨a, rest, hsplit, ha⟩ := h.at hstep
    unfold resume at ha
    split at ha
    · rename_i hphase
      obtain ⟨⟨got, lock⟩, hresume, rfl⟩ := Option.map_eq_some_iff.1 ha
      cases got with
      | true => exact weight_takeSlot (w := { w with gate := w.gate.setLock a.turn lock }) hsplit hphase
      | false => exact weight_leave (w := { w with gate := w.gate.setLock a.turn lock }) hsplit hsound
    · rename_i hphase
      obtain ⟨⟨got, slots⟩, hresume, rfl⟩ := Option.map_eq_some_iff.1 ha
      cases got with
      | true =>
        refine weight_put (w := { w with gate := { w.gate with slots } }) hsplit ?_
        rw [hphase]
        decide
      | false =>
        simp only [Bool.false_eq_true, if_false] at hsound ⊢
        split at hsound
        · cases hsound
        · rename_i lock hrelease
          exact weight_leave (w := { w with gate := { w.gate with slots }.setLock a.turn lock }) hsplit
            hsound
    · cases ha
  | checked request result =>
    obtain ⟨a, rest, hsplit, ha⟩ := h.at hstep
    unfold checked at ha
    split at ha
    · rename_i hphase
      cases ha
      exact weight_put hsplit (by rw [hphase]; decide)
    · cases ha
      exact weight_leave hsplit hsound
    · cases ha
  | start request =>
    obtain ⟨a, rest, hsplit, ha⟩ := h.at hstep
    unfold startJob at ha
    split at ha
    · rename_i hphase
      cases ha
      exact weight_put hsplit (by rw [hphase]; decide)
    · rename_i hphase
      cases ha
      exact weight_put hsplit (by rw [hphase]; decide)
    · cases ha
  | finish request =>
    obtain ⟨a, rest, hsplit, ha⟩ := h.at hstep
    unfold finishJob at ha
    split at ha
    · rename_i hphase
      cases ha
      exact weight_put hsplit (by rw [hphase]; decide)
    · rename_i hphase
      cases ha
      exact weight_put hsplit (by rw [hphase]; decide)
    · cases ha
  | answer request =>
    obtain ⟨a, rest, hsplit, ha⟩ := h.at hstep
    unfold answer at ha
    split at ha
    · cases ha
      exact weight_leave hsplit hsound
    · cases ha
  | callback request =>
    obtain ⟨a, rest, hsplit, ha⟩ := h.at hstep
    unfold callback at ha
    split at ha
    · cases ha
      exact weight_leave hsplit hsound
    · cases ha

/-- Left alone, the gate comes to rest, and then every place was given back. -/
theorem drained (hworkers : 0 < settings.workers) {acts : List (Act ρ π)} (hinternal : ∀ act ∈ acts, act.internal)
    (h : Inv settings w) (hrun : run (step settings) w acts = some w') :
    acts.length ≤ w.weight ∧ (w'.Quiet settings → w'.places = []) := by
  have hmeasure := run_measure (P := fun act : Act ρ π => act.internal) (fun _ _ _ => step_inv)
    (fun _ _ _ => step_weight) h hinternal hrun
  refine ⟨by omega, fun hquiet => ?_⟩
  by_contra hplaces
  obtain ⟨act, hact, hsome⟩ := not_stuck (run_invariant (fun _ _ _ => step_inv) h hrun) hworkers hplaces
  rw [hquiet act hact] at hsome
  cases hsome

/-- **The gate's accounts.**  At every moment of any number of requests, of which any may be cancelled at any await: no
more decodes than workers and one of each producer, no more places than the capacity; who was admitted has its place or
gave it back, once; without a place the gate is as it started; and left alone, it comes to that. -/
theorem decode_gate_accounts (h : Reachable (step settings) (World.start settings) w) :
    w.running ≤ settings.workers ∧ (∀ p, w.runningOf p ≤ 1) ∧
      (w.gate.admitted = w.places.length ∧ w.gate.admitted ≤ settings.capacity) ∧
      (w.entered.Nodup ∧
        ∀ r, w.released.count r + (w.places.map Place.request).count r = w.entered.count r) ∧
      (w.places = [] → w.gate.admitted = 0 ∧ (∀ p, w.gate.byProducer p = none ∧ w.gate.turns p = none) ∧
        w.gate.slots = ⟨settings.workers, []⟩) ∧
      w.failed = false ∧
      (0 < settings.workers → ∀ acts w', (∀ act ∈ acts, act.internal) → run (step settings) w acts = some w' →
        acts.length ≤ w.weight ∧ (w'.Quiet settings → w'.places = [])) := by
  have hinv := reachable_inv h
  have hadmitted := hinv.good.counted.admitted
  have hcapacity := hinv.good.counted.capacity
  refine ⟨running_le hinv.good, runningOf_le hinv.good, ⟨hadmitted, by omega⟩, ⟨hinv.logged.fresh, fun r => ?_⟩,
    empty_gate hinv.good, hinv.logged.sound, fun hworkers acts w' hinternal hrun => ?_⟩
  · rw [← List.count_append, hinv.logged.log.count_eq]
  · exact drained hworkers hinternal hinv hrun

/-- A request is cancelled in its decode, another of its producer in the queue. -/
def handedOverRun : List (Act Nat Nat) :=
  [.enter 0 7, .enter 1 7, .checked 0 .connected, .start 0, .abandon 0, .cancel 1, .resume 1]

/-- The thread of the first has the only slot until it is done, and the place of the second is given back. -/
theorem decode_gate_accounts_handed_over :
    ((run (step ⟨1, 1, 2⟩) (World.start ⟨1, 1, 2⟩) handedOverRun).map fun w => (w.running, w.gate.admitted, w.released)) =
        some (1, 1, [1]) ∧
      ∀ w, run (step ⟨1, 1, 2⟩) (World.start ⟨1, 1, 2⟩) handedOverRun = some w → w.running ≤ 1 ∧ w.runningOf 7 ≤ 1 := by
  refine ⟨by decide, fun w h => ?_⟩
  have hreachable : Reachable (step ⟨1, 1, 2⟩) (World.start ⟨1, 1, 2⟩) w := ⟨_, h⟩
  obtain ⟨hrunning, hproducer, -⟩ := decode_gate_accounts hreachable
  exact ⟨hrunning, hproducer 7⟩

end Invariants

end AgentContext.DecodeGate
