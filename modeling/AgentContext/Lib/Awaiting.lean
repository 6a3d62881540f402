import Mathlib.Algebra.GroupWithZero.Nat
import Mathlib.Data.List.Nodup
import Mathlib.Data.List.Count

/-!
# Semaphores and locks of one event loop

The tasks of a loop run one at a time and give way where they await.  Who waits has a future in a queue, first come
first served.  Who gives back sets a result on a future, and its task runs later: until then the task may still be
cancelled, so that the place it was given has to be passed on.

    entry, replace, discard     the records of a list, by key: one split of the list says all three  (entry_split)
    Semaphore                   `free` counts what is not taken, what is kept for a woken task included
    Lock                        at most one task is woken, and only while nobody has the lock  (Lock.Fair)

Nobody sleeps over a free place: `Semaphore.Alert` and `Lock.Fair` say that a queue with a free place has a task that
is about to run.
-/

namespace Awaiting

open List

/-! ## Records by key -/

section Records

variable {α κ : Type} [DecidableEq κ] (key : α → κ)

/-- The record of a key. -/
def entry (records : List α) (k : κ) : Option α := records.find? fun a => key a = k

/-- A record in the place of the one of its key. -/
def replace (records : List α) (a : α) : List α := records.map fun b => if key b = key a then a else b

/-- The records without a key. -/
def discard (records : List α) (k : κ) : List α := records.filter fun a => key a ≠ k

variable {key} {records : List α} {k : κ} {a : α}

theorem entry_none : entry key records k = none ↔ k ∉ records.map key := by simp [entry, List.find?_eq_none]

theorem entry_mem (h : entry key records k = some a) : a ∈ records := List.mem_of_find?_eq_some h

theorem entry_key (h : entry key records k = some a) : key a = k := by simpa using List.find?_some h

theorem entry_of_mem (nodup : (records.map key).Nodup) (h : a ∈ records) : entry key records (key a) = some a := by
  cases hentry : entry key records (key a) with
  | none => exact absurd (mem_map_of_mem h) (entry_none.1 hentry)
  | some b => rw [inj_on_of_nodup_map nodup (entry_mem hentry) h (entry_key hentry)]

theorem entry_split (nodup : (records.map key).Nodup) (h : entry key records k = some a) :
    ∃ l₁ l₂, records = l₁ ++ a :: l₂ ∧ discard key records k = l₁ ++ l₂ ∧
      ∀ b, key b = k → replace key records b = l₁ ++ b :: l₂ := by
  obtain ⟨l₁, l₂, rfl⟩ := append_of_mem (entry_mem h)
  have hkey := entry_key h
  subst hkey
  simp only [map_append, map_cons, nodup_append, nodup_cons, mem_cons, mem_map] at nodup
  obtain ⟨-, ⟨hafter, -⟩, hbefore⟩ := nodup
  have hne₁ : ∀ b ∈ l₁, key b ≠ key a := fun b hb => hbefore _ ⟨b, hb, rfl⟩ _ (.inl rfl)
  have hne₂ : ∀ b ∈ l₂, key b ≠ key a := fun b hb heq => hafter ⟨b, hb, heq⟩
  refine ⟨l₁, l₂, rfl, ?_, fun b hb => ?_⟩
  · rw [discard, filter_append, filter_cons_of_neg (by simp), filter_eq_self.2, filter_eq_self.2]
    · exact fun b hb => by simpa using hne₂ b hb
    · exact fun b hb => by simpa using hne₁ b hb
  · have hself : ∀ l : List α, (∀ c ∈ l, key c ≠ key a) → l.map (fun c => if key c = key b then b else c) = l :=
      fun l hl => (map_congr_left fun c hc => if_neg (hb ▸ hl c hc)).trans (map_id l)
    rw [replace, map_append, map_cons, hself l₁ hne₁, hself l₂ hne₂, if_pos hb.symm]

theorem map_replace : (replace key records a).map key = records.map key := by
  rw [replace, map_map]
  refine map_congr_left fun b _ => ?_
  dsimp only [Function.comp]
  split
  · rename_i h
    exact h.symm
  · rfl

theorem map_discard : (discard key records k).map key = (records.map key).filter (· ≠ k) := by
  simp [discard, filter_map, Function.comp_def]

end Records

/-! ## Futures -/

/-- A task that waits: its future has no result yet, has one, or is cancelled; `overtaken` where the task was cancelled
after its future had a result and before it ran. -/
inductive Future where
  | pending
  | set
  | cancelled
  | overtaken
deriving DecidableEq, Repr

structure Waiter (τ : Type) where
  task : τ
  future : Future
deriving DecidableEq, Repr

/-- A result was set on the future. -/
def Waiter.woken {τ : Type} (w : Waiter τ) : Bool := w.future = .set || w.future = .overtaken

/-- `task.cancel()`, for a task that waits. -/
def Future.cancel : Future → Future
  | .pending => .cancelled
  | .set => .overtaken
  | f => f

@[simp] theorem Future.cancel_ne_pending {f : Future} : f.cancel ≠ .pending := by cases f <;> simp [Future.cancel]

section Queue

variable {τ : Type} [DecidableEq τ]

def cancelWaiter (ws : List (Waiter τ)) (t : τ) : List (Waiter τ) :=
  ws.map fun w => if w.task = t then { w with future := w.future.cancel } else w

variable {ws ws' : List (Waiter τ)} {t : τ}

theorem cancelWaiter_tasks : (cancelWaiter ws t).map Waiter.task = ws.map Waiter.task := by
  rw [cancelWaiter, map_map]
  refine map_congr_left fun w _ => ?_
  dsimp only [Function.comp]
  split <;> rfl

omit [DecidableEq τ] in
theorem woken_cancel {w : Waiter τ} : Waiter.woken { w with future := w.future.cancel } = w.woken := by
  obtain ⟨_, f⟩ := w
  cases f <;> rfl

theorem cancelWaiter_woken : (cancelWaiter ws t).countP Waiter.woken = ws.countP Waiter.woken := by
  rw [cancelWaiter, countP_map]
  refine countP_congr fun w _ => ?_
  dsimp only [Function.comp]
  split
  · rw [woken_cancel]
  · rfl

/-- A cancellation leaves who it does not name as it was. -/
theorem mem_cancelWaiter {w : Waiter τ} (h : w ∈ cancelWaiter ws t) :
    w ∈ ws ∨ ∃ v ∈ ws, w = { v with future := v.future.cancel } := by
  obtain ⟨v, hv, rfl⟩ := mem_map.1 h
  split
  · exact .inr ⟨v, hv, rfl⟩
  · exact .inl hv

end Queue

/-! ## Semaphores -/

section Semaphores

variable {τ : Type}
variable {ws ws' : List (Waiter τ)}

/-- The first future without a result gets one. -/
def setNext : List (Waiter τ) → Option (List (Waiter τ))
  | [] => none
  | w :: ws => if w.future = .pending then some ({ w with future := .set } :: ws) else (setNext ws).map (w :: ·)

structure Semaphore (τ : Type) where
  value : Nat
  waiters : List (Waiter τ)
deriving DecidableEq, Repr

namespace Semaphore

def tasks (s : Semaphore τ) : List τ := s.waiters.map Waiter.task

/-- `locked`. -/
def locked (s : Semaphore τ) : Bool := s.value = 0 || s.waiters.any fun w => w.future ≠ .cancelled

/-- `acquire` up to its first wait: at once, or in the queue. -/
def acquire (s : Semaphore τ) (t : τ) : Bool × Semaphore τ :=
  if s.locked then (false, { s with waiters := s.waiters ++ [⟨t, .pending⟩] }) else (true, { s with value := s.value - 1 })

/-- `_wake_up_next` while there is a value and who waits for it. -/
def wakeAll : Nat → List (Waiter τ) → Semaphore τ
  | 0, ws => ⟨0, ws⟩
  | n + 1, ws =>
    match setNext ws with
    | some ws' => wakeAll n ws'
    | none => ⟨n + 1, ws⟩

/-- `release`. -/
def release (s : Semaphore τ) : Semaphore τ :=
  match setNext s.waiters with
  | some ws => { s with waiters := ws }
  | none => { s with value := s.value + 1 }

section

variable [DecidableEq τ]

def cancel (s : Semaphore τ) (t : τ) : Semaphore τ := { s with waiters := cancelWaiter s.waiters t }

/-- `acquire` after its wait: whether the task got its place.  A task that runs before its wait is over is none. -/
def resume (s : Semaphore τ) (t : τ) : Option (Bool × Semaphore τ) :=
  match entry Waiter.task s.waiters t with
  | none => none
  | some w =>
    let ws := discard Waiter.task s.waiters t
    match w.future with
    | .pending => none
    | .set => some (true, wakeAll s.value ws)
    | .cancelled => some (false, wakeAll s.value ws)
    | .overtaken => some (false, wakeAll (s.value + 1) ws)

end

/-- What is not taken: the value, and what is kept for a task that was woken. -/
def free (s : Semaphore τ) : Nat := s.value + s.waiters.countP Waiter.woken

/-- Nobody sleeps over a value: where there is one and a task waits, a task is about to run. -/
def Alert (s : Semaphore τ) : Prop :=
  0 < s.value → (∃ w ∈ s.waiters, w.future = .pending) → ∃ w ∈ s.waiters, w.future ≠ .pending

end Semaphore

theorem setNext_none {ws : List (Waiter τ)} : setNext ws = none ↔ ∀ w ∈ ws, w.future ≠ .pending := by
  induction ws with
  | nil => simp [setNext]
  | cons w ws ih =>
    by_cases h : w.future = .pending
    · simp [setNext, h]
    · simp [setNext, h, ih]

theorem setNext_some (h : setNext ws = some ws') :
    ∃ l₁ w l₂, ws = l₁ ++ w :: l₂ ∧ w.future = .pending ∧ ws' = l₁ ++ { w with future := .set } :: l₂ := by
  induction ws generalizing ws' with
  | nil => cases h
  | cons w ws ih =>
    rw [setNext] at h
    split at h
    · rename_i hpending
      cases h
      exact ⟨[], w, ws, rfl, hpending, rfl⟩
    · obtain ⟨ws₀, hws, rfl⟩ := Option.map_eq_some_iff.1 h
      obtain ⟨l₁, v, l₂, rfl, hv, rfl⟩ := ih hws
      exact ⟨w :: l₁, v, l₂, rfl, hv, rfl⟩

theorem setNext_tasks (h : setNext ws = some ws') : ws'.map Waiter.task = ws.map Waiter.task := by
  obtain ⟨l₁, w, l₂, rfl, -, rfl⟩ := setNext_some h
  simp

theorem setNext_woken (h : setNext ws = some ws') : ws'.countP Waiter.woken = ws.countP Waiter.woken + 1 := by
  obtain ⟨l₁, w, l₂, rfl, hw, rfl⟩ := setNext_some h
  simp [countP_append, Waiter.woken, hw]
  omega

namespace Semaphore

theorem wakeAll_free (n : Nat) (ws : List (Waiter τ)) : (wakeAll n ws).free = n + ws.countP Waiter.woken := by
  induction n generalizing ws with
  | zero => rfl
  | succ n ih =>
    rw [wakeAll]
    split
    · rename_i ws' h
      rw [ih, setNext_woken h]
      omega
    · rfl

theorem wakeAll_tasks (n : Nat) (ws : List (Waiter τ)) : (wakeAll n ws).tasks = ws.map Waiter.task := by
  induction n generalizing ws with
  | zero => rfl
  | succ n ih =>
    rw [wakeAll]
    split
    · rename_i ws' h
      rw [ih, setNext_tasks h]
    · rfl

/-- What is left after the last waiter was woken, nobody waits for. -/
theorem wakeAll_alert (n : Nat) (ws : List (Waiter τ)) : (wakeAll n ws).Alert := by
  induction n generalizing ws with
  | zero => exact fun h => absurd h (Nat.lt_irrefl 0)
  | succ n ih =>
    rw [wakeAll]
    split
    · exact ih _
    · rename_i h
      rintro - ⟨w, hw, hpending⟩
      exact absurd hpending (setNext_none.1 h w hw)

variable {s s' : Semaphore τ} {t : τ}

theorem acquire_true (h : s.acquire t = (true, s')) : s'.free + 1 = s.free ∧ s'.tasks = s.tasks ∧ s'.Alert := by
  unfold acquire at h
  split at h
  · cases h
  · rename_i hlocked
    cases h
    simp only [locked, Bool.or_eq_true, decide_eq_true_eq, any_eq_true, not_or, not_exists, not_and, not_not] at hlocked
    obtain ⟨hvalue, hcancelled⟩ := hlocked
    refine ⟨?_, rfl, ?_⟩
    · unfold free
      dsimp only
      omega
    · rintro - ⟨w, hw, hpending⟩
      rw [hcancelled w hw] at hpending
      cases hpending

theorem acquire_false (halert : s.Alert) (h : s.acquire t = (false, s')) :
    s'.free = s.free ∧ s'.tasks = s.tasks ++ [t] ∧ s'.Alert := by
  unfold acquire at h
  split at h
  · rename_i hlocked
    cases h
    refine ⟨?_, ?_, fun hvalue _ => ?_⟩
    · simp [free, Waiter.woken]
    · simp [tasks]
    · simp only [locked, Bool.or_eq_true, decide_eq_true_eq, any_eq_true] at hlocked
      obtain ⟨w, hw, hnot⟩ := hlocked.resolve_left (by dsimp only at hvalue; omega)
      -- who is not cancelled is about to run, or waits beside one who is
      by_cases hpending : w.future = .pending
      · obtain ⟨v, hv, hready⟩ := halert hvalue ⟨w, hw, hpending⟩
        exact ⟨v, mem_append_left _ hv, hready⟩
      · exact ⟨w, mem_append_left _ hw, hpending⟩
  · cases h

theorem release_free : s.release.free = s.free + 1 := by
  unfold release
  split
  · rename_i ws h
    simp only [free, setNext_woken h]
    omega
  · simp only [free]
    omega

theorem release_tasks : s.release.tasks = s.tasks := by
  unfold release
  split
  · rename_i ws h
    exact setNext_tasks h
  · rfl

theorem release_alert : s.release.Alert := by
  unfold release
  split
  · rename_i ws h
    obtain ⟨l₁, w, l₂, -, -, rfl⟩ := setNext_some h
    exact fun _ _ => ⟨_, mem_append_right _ mem_cons_self, by simp⟩
  · rename_i h
    rintro - ⟨w, hw, hpending⟩
    exact absurd hpending (setNext_none.1 h w hw)

variable [DecidableEq τ]
variable {got : Bool}

theorem cancel_free : (s.cancel t).free = s.free := by simp [free, cancel, cancelWaiter_woken]

theorem cancel_tasks : (s.cancel t).tasks = s.tasks := cancelWaiter_tasks

theorem cancel_alert (halert : s.Alert) : (s.cancel t).Alert := by
  rintro hvalue ⟨w, hw, hpending⟩
  rcases mem_cancelWaiter hw with hmem | ⟨v, -, rfl⟩
  · obtain ⟨v, hv, hready⟩ := halert hvalue ⟨w, hmem, hpending⟩
    refine ⟨_, mem_map_of_mem hv, ?_⟩
    split
    · exact Future.cancel_ne_pending
    · exact hready
  · exact absurd hpending Future.cancel_ne_pending

theorem resume_cases (h : s.resume t = some (got, s')) :
    ∃ w n, entry Waiter.task s.waiters t = some w ∧ s' = wakeAll n (discard Waiter.task s.waiters t) ∧
      (got = true ∧ w.future = .set ∧ n = s.value ∨ got = false ∧ w.future = .cancelled ∧ n = s.value ∨
        got = false ∧ w.future = .overtaken ∧ n = s.value + 1) := by
  unfold resume at h
  split at h
  · cases h
  · next w hentry =>
    split at h
    · cases h
    all_goals
      next hfuture =>
        cases h
        exact ⟨w, _, hentry, rfl, by simp [hfuture]⟩

/-- A task takes what was kept for it, or leaves it. -/
theorem resume_free (nodup : s.tasks.Nodup) (h : s.resume t = some (got, s')) :
    s'.free + (if got then 1 else 0) = s.free := by
  obtain ⟨w, n, hentry, rfl, hcases⟩ := resume_cases h
  obtain ⟨l₁, l₂, hsplit, hdiscard, -⟩ := entry_split nodup hentry
  rw [wakeAll_free, hdiscard]
  simp only [free, hsplit, countP_append, countP_cons]
  obtain ⟨rfl, hfuture, rfl⟩ | ⟨rfl, hfuture, rfl⟩ | ⟨rfl, hfuture, rfl⟩ := hcases <;>
    simp only [Waiter.woken, hfuture] <;> simp <;> omega

theorem resume_tasks (h : s.resume t = some (got, s')) : s'.tasks = s.tasks.filter (· ≠ t) := by
  obtain ⟨w, n, -, rfl, -⟩ := resume_cases h
  rw [wakeAll_tasks, map_discard]
  rfl

theorem resume_alert (h : s.resume t = some (got, s')) : s'.Alert := by
  obtain ⟨w, n, -, rfl, -⟩ := resume_cases h
  exact wakeAll_alert _ _

/-- Who was woken or cancelled can run. -/
theorem resume_isSome {w : Waiter τ} (nodup : s.tasks.Nodup) (hw : w ∈ s.waiters) (hready : w.future ≠ .pending) :
    (s.resume w.task).isSome := by
  unfold resume
  rw [entry_of_mem nodup hw]
  cases hfuture : w.future with
  | pending => exact absurd hfuture hready
  | _ => simp [hfuture]

end Semaphore

end Semaphores

/-! ## Who waits and who has a place

The clients of a semaphore or a lock are records: some wait for it, some have it.  Their order does not matter. -/

section Clients

variable {α τ : Type} {key : α → τ}

def tasksOf (key : α → τ) (q : α → Bool) (clients : List α) : List τ := (clients.filter q).map key

variable {q : α → Bool} {clients clients' rest : List α} {a a' : α} {tasks : List τ}

theorem tasksOf_perm (h : clients.Perm clients') : (tasksOf key q clients).Perm (tasksOf key q clients') :=
  (h.filter q).map _

theorem tasksOf_cons : tasksOf key q (a :: rest) = (if q a then [key a] else []) ++ tasksOf key q rest := by
  unfold tasksOf
  rw [filter_cons]
  split <;> rfl

theorem tasksOf_nodup (nodup : (clients.map key).Nodup) (h : tasks.Perm (tasksOf key q clients)) : tasks.Nodup :=
  h.nodup_iff.2 (nodup.sublist (filter_sublist.map _))

theorem tasksOf_leave [DecidableEq τ] (nodup : ((a :: rest).map key).Nodup) (hq : q a = true)
    (h : tasks.Perm (tasksOf key q (a :: rest))) : (tasks.filter (· ≠ key a)).Perm (tasksOf key q rest) := by
  rw [tasksOf_cons, if_pos hq, singleton_append] at h
  have hout : key a ∉ tasksOf key q rest := fun hmem => by
    obtain ⟨b, hb, heq⟩ := mem_map.1 hmem
    exact (nodup_cons.1 nodup).1 (mem_map.2 ⟨b, mem_of_mem_filter hb, heq⟩)
  have hrest : (tasksOf key q rest).filter (· ≠ key a) = tasksOf key q rest :=
    filter_eq_self.2 fun t ht => by simpa using fun heq : t = key a => hout (heq ▸ ht)
  have := h.filter (· ≠ key a)
  rwa [filter_cons_of_neg (by simp), hrest] at this

/-- The record of a task, and the others. -/
structure Split [DecidableEq τ] (key : α → τ) (clients : List α) (a : α) (rest : List α) : Prop where
  perm : clients.Perm (a :: rest)
  discard : (discard key clients (key a)).Perm rest
  replace : ∀ a' : α, key a' = key a → (replace key clients a').Perm (a' :: rest)
  nodup : ((a :: rest).map key).Nodup

theorem Split.of_entry [DecidableEq τ] {t : τ} (nodup : (clients.map key).Nodup) (h : entry key clients t = some a) :
    ∃ rest, Split key clients a rest := by
  obtain ⟨l₁, l₂, hclients, hdiscard, hreplace⟩ := entry_split nodup h
  have hkey := entry_key h
  have hperm : clients.Perm (a :: (l₁ ++ l₂)) := hclients ▸ perm_middle
  refine ⟨l₁ ++ l₂, hperm, ?_, fun a' ha' => ?_, (hperm.map _).nodup_iff.1 nodup⟩
  · rw [hkey, hdiscard]
  · rw [hreplace a' (ha'.trans hkey)]
    exact perm_middle

/-- A semaphore of `total` places: what is free and what its clients have, and the queue of those who wait. -/
structure Semaphore.Serves (key : α → τ) (waits holds : α → Bool) (total : Nat) (s : Semaphore τ) (clients : List α) :
    Prop where
  free : s.free + clients.countP holds = total
  alert : s.Alert
  waiting : s.tasks.Perm (tasksOf key waits clients)

namespace Semaphore.Serves

variable {waits holds : α → Bool} {total : Nat} {s s' : Semaphore τ}

theorem perm (h : s.Serves key waits holds total clients) (hperm : clients.Perm clients') :
    s.Serves key waits holds total clients' :=
  ⟨by rw [← hperm.countP_eq, h.free], h.alert, h.waiting.trans (tasksOf_perm hperm)⟩

/-- Who neither waits nor has a place. -/
theorem cons_out (hwaits : waits a = false) (hholds : holds a = false) :
    s.Serves key waits holds total (a :: rest) ↔ s.Serves key waits holds total rest := by
  constructor
  · rintro ⟨hfree, halert, hwaiting⟩
    exact ⟨by simpa [countP_cons, hholds] using hfree, halert, by simpa [tasksOf_cons, hwaits] using hwaiting⟩
  · rintro ⟨hfree, halert, hwaiting⟩
    exact ⟨by simpa [countP_cons, hholds] using hfree, halert, by simpa [tasksOf_cons, hwaits] using hwaiting⟩

/-- Who comes takes a place, or waits for one. -/
theorem acquire {got : Bool} (h : s.Serves key waits holds total rest) (hacquire : s.acquire (key a) = (got, s'))
    (hwaits : waits a = !got) (hholds : holds a = got) : s'.Serves key waits holds total (a :: rest) := by
  have hfree := h.free
  cases got with
  | true =>
    obtain ⟨htaken, htasks, halert⟩ := Semaphore.acquire_true hacquire
    refine ⟨?_, halert, ?_⟩
    · rw [countP_cons_of_pos hholds]
      omega
    · rw [htasks, tasksOf_cons, hwaits]
      exact h.waiting
  | false =>
    obtain ⟨hsame, htasks, halert⟩ := Semaphore.acquire_false h.alert hacquire
    refine ⟨?_, halert, ?_⟩
    · rw [countP_cons_of_neg (by simp [hholds]), hsame, hfree]
    · rw [htasks, tasksOf_cons, if_pos (by simp [hwaits])]
      exact perm_append_comm.trans (h.waiting.append_left _)

theorem release (h : s.Serves key waits holds total (a :: rest)) (hwaits : waits a = false) (hholds : holds a = true) :
    s.release.Serves key waits holds total rest := by
  have hfree := h.free
  have hwaiting := h.waiting
  rw [countP_cons_of_pos hholds] at hfree
  rw [tasksOf_cons, hwaits] at hwaiting
  refine ⟨?_, release_alert, ?_⟩
  · rw [release_free]
    omega
  · rw [release_tasks]
    exact hwaiting

/-- A client that stays what it is for the semaphore. -/
theorem congr (h : s.Serves key waits holds total (a :: rest)) (hkey : key a' = key a) (hwaits : waits a' = waits a)
    (hholds : holds a' = holds a) : s.Serves key waits holds total (a' :: rest) := by
  refine ⟨?_, h.alert, ?_⟩
  · rw [← h.free, countP_cons, countP_cons, hholds]
  · have := h.waiting
    rwa [tasksOf_cons, ← hkey, ← hwaits, ← tasksOf_cons] at this

variable [DecidableEq τ]

theorem cancel {t : τ} (h : s.Serves key waits holds total clients) : (s.cancel t).Serves key waits holds total clients :=
  ⟨by rw [cancel_free, h.free], cancel_alert h.alert, by rw [cancel_tasks]; exact h.waiting⟩

/-- A client whose wait is over: with a place, or out of the queue. -/
theorem resume {got : Bool} (nodup : ((a :: rest).map key).Nodup) (h : s.Serves key waits holds total (a :: rest))
    (hwaits : waits a = true) (hholds : holds a = false) (hresume : s.resume (key a) = some (got, s')) :
    if got then ∀ a', waits a' = false → holds a' = true → s'.Serves key waits holds total (a' :: rest)
    else s'.Serves key waits holds total rest := by
  have hfree := resume_free (tasksOf_nodup nodup h.waiting) hresume
  have halert := resume_alert hresume
  have hwaiting : s'.tasks.Perm (tasksOf key waits rest) := by
    rw [resume_tasks hresume]
    exact tasksOf_leave nodup hwaits h.waiting
  have hcount := h.free
  rw [countP_cons_of_neg (by simp [hholds])] at hcount
  cases got with
  | false =>
    rw [if_neg Bool.false_ne_true] at hfree ⊢
    exact ⟨by omega, halert, hwaiting⟩
  | true =>
    rw [if_pos rfl] at hfree ⊢
    intro a' hwaits' hholds'
    refine ⟨?_, halert, ?_⟩
    · rw [countP_cons_of_pos hholds']
      omega
    · rw [tasksOf_cons, hwaits']
      exact hwaiting

/-- While nobody has a place and somebody waits, somebody runs. -/
theorem not_stuck (nodup : (clients.map key).Nodup) (h : s.Serves key waits holds total clients) (htotal : 0 < total)
    (hholds : ∀ b ∈ clients, holds b = false) (ha : a ∈ clients) (hwaits : waits a = true) :
    ∃ b ∈ clients, waits b = true ∧ (s.resume (key b)).isSome := by
  obtain ⟨v, hv, hready⟩ : ∃ v ∈ s.waiters, v.future ≠ .pending := by
    by_contra hnone
    push Not at hnone
    obtain ⟨v, hv, -⟩ := mem_map.1 (h.waiting.mem_iff.2 (mem_map_of_mem (mem_filter.2 ⟨ha, hwaits⟩)))
    have hfree := h.free
    rw [countP_eq_zero.2 fun b hb => by simp [hholds b hb], Semaphore.free,
      countP_eq_zero.2 fun v hv => by simp [Waiter.woken, hnone v hv]] at hfree
    obtain ⟨v', hv', hready⟩ := h.alert (by omega) ⟨v, hv, hnone v hv⟩
    exact hready (hnone v' hv')
  obtain ⟨b, hb, hkey⟩ := mem_map.1 (h.waiting.mem_iff.1 (mem_map_of_mem hv))
  obtain ⟨hb, hwaits'⟩ := mem_filter.1 hb
  refine ⟨b, hb, hwaits', ?_⟩
  rw [hkey]
  exact resume_isSome (tasksOf_nodup nodup h.waiting) hv hready

omit [DecidableEq τ] in
/-- Without clients all places are free. -/
theorem empty (h : s.Serves key waits holds total []) : s = ⟨total, []⟩ := by
  obtain ⟨value, waiters⟩ := s
  have hwaiters : waiters = [] := map_eq_nil_iff.1 h.waiting.eq_nil
  subst hwaiters
  have hfree : value = total := h.free
  rw [hfree]

end Semaphore.Serves

end Clients

/-! ## Locks -/

section Locks

variable {τ : Type}

/-- The future of who is first gets a result. -/
def setFirst : List (Waiter τ) → List (Waiter τ)
  | [] => []
  | w :: ws => if w.future = .pending then { w with future := .set } :: ws else w :: ws

structure Lock (τ : Type) where
  locked : Bool
  waiters : List (Waiter τ)
deriving DecidableEq, Repr

namespace Lock

def tasks (l : Lock τ) : List τ := l.waiters.map Waiter.task

/-- `acquire` up to its first wait. -/
def acquire (l : Lock τ) (t : τ) : Bool × Lock τ :=
  if !l.locked && l.waiters.all fun w => w.future = .cancelled then (true, { l with locked := true })
  else (false, { l with waiters := l.waiters ++ [⟨t, .pending⟩] })

/-- `release`: none is a `RuntimeError`. -/
def release (l : Lock τ) : Option (Lock τ) := if l.locked then some ⟨false, setFirst l.waiters⟩ else none

section

variable [DecidableEq τ]

def cancel (l : Lock τ) (t : τ) : Lock τ := { l with waiters := cancelWaiter l.waiters t }

/-- `acquire` after its wait. -/
def resume (l : Lock τ) (t : τ) : Option (Bool × Lock τ) :=
  match entry Waiter.task l.waiters t with
  | none => none
  | some w =>
    let ws := discard Waiter.task l.waiters t
    match w.future with
    | .pending => none
    | .set => some (true, ⟨true, ws⟩)
    | .cancelled | .overtaken => some (false, ⟨l.locked, if l.locked then ws else setFirst ws⟩)

end

/-- Only who is first was woken, and only while the lock is free; while it is free, who is first is about to run. -/
structure Fair (l : Lock τ) : Prop where
  behind : ∀ w ∈ l.waiters.tail, ¬w.woken
  taken : l.locked → ∀ w ∈ l.waiters, ¬w.woken
  ready : ¬l.locked → ∀ w ∈ l.waiters.head?, w.future ≠ .pending

theorem fair_new : (⟨false, []⟩ : Lock τ).Fair := ⟨by simp, by simp, by simp⟩

end Lock

theorem setFirst_tasks (ws : List (Waiter τ)) : (setFirst ws).map Waiter.task = ws.map Waiter.task := by
  cases ws with
  | nil => rfl
  | cons w ws =>
    rw [setFirst]
    split <;> rfl

theorem setFirst_fair {ws : List (Waiter τ)} (h : ∀ w ∈ ws.tail, ¬w.woken) : (⟨false, setFirst ws⟩ : Lock τ).Fair := by
  cases ws with
  | nil => exact Lock.fair_new
  | cons w ws =>
    rw [setFirst]
    split
    · exact ⟨h, nofun, fun _ v hv => by cases hv; simp⟩
    · rename_i hready
      exact ⟨h, nofun, fun _ v hv => by cases hv; exact hready⟩

namespace Lock

variable {l l' : Lock τ} {t : τ}

theorem acquire_true (h : l.acquire t = (true, l')) :
    l.locked = false ∧ l'.locked = true ∧ l'.tasks = l.tasks ∧ l'.Fair := by
  unfold acquire at h
  split at h
  · rename_i hfree
    cases h
    simp only [Bool.and_eq_true, Bool.not_eq_true', all_eq_true, decide_eq_true_eq] at hfree
    obtain ⟨hlocked, hcancelled⟩ := hfree
    have hnone : ∀ w ∈ l.waiters, ¬w.woken := fun w hw => by simp [Waiter.woken, hcancelled w hw]
    exact ⟨hlocked, rfl, rfl, ⟨fun w hw => hnone w (mem_of_mem_tail hw), fun _ => hnone, fun h => absurd rfl h⟩⟩
  · cases h

theorem acquire_false (hfair : l.Fair) (h : l.acquire t = (false, l')) :
    l'.locked = l.locked ∧ l'.tasks = l.tasks ++ [t] ∧ l'.Fair := by
  unfold acquire at h
  split at h
  · cases h
  · rename_i htaken
    cases h
    refine ⟨rfl, by simp [tasks], fun w hw => ?_, fun hlocked w hw => ?_, fun hfree w hw => ?_⟩
    · cases hws : l.waiters with
      | nil =>
        rw [hws] at hw
        cases hw
      | cons v ws =>
        rw [hws, cons_append, tail_cons, mem_append, mem_singleton] at hw
        rcases hw with hw | rfl
        · exact hfair.behind w (by rwa [hws])
        · simp [Waiter.woken]
    · rw [mem_append, mem_singleton] at hw
      rcases hw with hw | rfl
      · exact hfair.taken hlocked w hw
      · simp [Waiter.woken]
    · cases hws : l.waiters with
      | nil =>
        -- a free lock that nobody waits for is taken at once
        exact absurd (by simp [hws]; simpa using hfree) htaken
      | cons v ws =>
        rw [hws] at hw
        exact hfair.ready hfree w (by rw [hws]; exact hw)

theorem release_some (hfair : l.Fair) (h : l.locked = true) :
    ∃ l', l.release = some l' ∧ l'.locked = false ∧ l'.tasks = l.tasks ∧ l'.Fair :=
  ⟨_, if_pos h, rfl, setFirst_tasks _, setFirst_fair hfair.behind⟩

variable [DecidableEq τ]
variable {got : Bool}

theorem cancel_tasks : (l.cancel t).tasks = l.tasks := cancelWaiter_tasks

theorem cancel_fair (hfair : l.Fair) : (l.cancel t).Fair := by
  have hwoken : ∀ {ws : List (Waiter τ)}, (∀ w ∈ ws, ¬w.woken) → ∀ w ∈ cancelWaiter ws t, ¬w.woken := by
    intro ws h w hw
    rcases mem_cancelWaiter hw with hmem | ⟨v, hv, rfl⟩
    · exact h w hmem
    · rw [woken_cancel]
      exact h v hv
  refine ⟨?_, fun hlocked => hwoken (hfair.taken hlocked), fun hfree w hw => ?_⟩
  · have := hwoken hfair.behind
    rwa [cancelWaiter, map_tail] at this
  · obtain ⟨v, hv, rfl⟩ := Option.map_eq_some_iff.1 ((List.head?_map ..).symm.trans hw)
    split
    · exact Future.cancel_ne_pending
    · exact hfair.ready hfree v hv

theorem resume_cases (h : l.resume t = some (got, l')) : ∃ w, entry Waiter.task l.waiters t = some w ∧
      (got = true ∧ w.future = .set ∧ l' = ⟨true, discard Waiter.task l.waiters t⟩ ∨
        got = false ∧ l' = ⟨l.locked, if l.locked then discard Waiter.task l.waiters t
          else setFirst (discard Waiter.task l.waiters t)⟩) := by
  unfold resume at h
  split at h
  · cases h
  · next w hentry =>
    refine ⟨w, hentry, ?_⟩
    split at h
    · cases h
    · next hfuture =>
      cases h
      exact .inl ⟨rfl, hfuture, rfl⟩
    all_goals
      cases h
      exact .inr ⟨rfl, rfl⟩

theorem resume_tasks (h : l.resume t = some (got, l')) : l'.tasks = l.tasks.filter (· ≠ t) := by
  obtain ⟨w, -, ⟨-, -, rfl⟩ | ⟨-, rfl⟩⟩ := resume_cases h
  · exact map_discard
  · rw [tasks]
    dsimp only
    split
    · exact map_discard
    · rw [setFirst_tasks]
      exact map_discard

/-- Who gets the lock finds it free. -/
theorem resume_true (hfair : l.Fair) (h : l.resume t = some (true, l')) : l.locked = false ∧ l'.locked = true := by
  obtain ⟨w, hentry, ⟨-, hset, rfl⟩ | ⟨hgot, -⟩⟩ := resume_cases h
  · refine ⟨?_, rfl⟩
    by_contra hlocked
    exact hfair.taken (by simpa using hlocked) w (entry_mem hentry) (by simp [Waiter.woken, hset])
  · cases hgot

theorem resume_false (h : l.resume t = some (false, l')) : l'.locked = l.locked := by
  obtain ⟨w, -, ⟨hgot, -⟩ | ⟨-, rfl⟩⟩ := resume_cases h
  · cases hgot
  · rfl

/-- Who leaves the queue leaves nobody woken behind the first. -/
theorem discard_behind (hfair : l.Fair) : ∀ w ∈ (discard Waiter.task l.waiters t).tail, ¬w.woken := by
  intro w hw
  cases hws : l.waiters with
  | nil =>
    rw [hws] at hw
    cases hw
  | cons v ws =>
    refine hfair.behind w ?_
    rw [hws] at hw ⊢
    rw [discard, filter_cons] at hw
    split at hw
    · exact mem_of_mem_filter hw
    · exact mem_of_mem_filter (mem_of_mem_tail hw)

theorem resume_fair (hfair : l.Fair) (h : l.resume t = some (got, l')) : l'.Fair := by
  have hsubset : ∀ v ∈ discard Waiter.task l.waiters t, v ∈ l.waiters ∧ v.task ≠ t := fun v hv => by
    simpa [discard] using hv
  obtain ⟨w, hentry, ⟨-, hset, rfl⟩ | ⟨-, rfl⟩⟩ := resume_cases h
  · -- who was woken was first, and nobody behind it was
    have hnone : ∀ v ∈ discard Waiter.task l.waiters t, ¬v.woken := fun v hv hwoken => by
      have hmem := entry_mem hentry
      have hkey := entry_key hentry
      obtain ⟨hv, hne⟩ := hsubset v hv
      cases hws : l.waiters with
      | nil =>
        rw [hws] at hmem
        cases hmem
      | cons u us =>
        have hbehind := hfair.behind
        rw [hws] at hmem hv hbehind
        have hw : w = u := (mem_cons.1 hmem).resolve_right fun hin => hbehind w hin (by simp [Waiter.woken, hset])
        rcases mem_cons.1 hv with rfl | hin
        · exact hne (hw ▸ hkey)
        · exact hbehind v hin hwoken
    exact ⟨fun v hv => hnone v (mem_of_mem_tail hv), fun _ => hnone, fun h => absurd rfl h⟩
  · cases hlocked : l.locked with
    | false => exact setFirst_fair (discard_behind hfair)
    | true =>
      exact ⟨discard_behind hfair, fun _ v hv => hfair.taken hlocked v (hsubset v hv).1, fun h => absurd rfl h⟩

theorem resume_isSome {w : Waiter τ} (nodup : l.tasks.Nodup) (hw : w ∈ l.waiters) (hready : w.future ≠ .pending) :
    (l.resume w.task).isSome := by
  unfold resume
  rw [entry_of_mem nodup hw]
  cases hfuture : w.future with
  | pending => exact absurd hfuture hready
  | _ => simp [hfuture]

end Lock

end Locks

section Clients

variable {α τ : Type} {key : α → τ} {waits holds : α → Bool} {clients clients' rest : List α} {a a' : α}

/-- A lock: one of its clients has it at most, and the queue of those who wait. -/
structure Lock.Serves (key : α → τ) (waits holds : α → Bool) (l : Lock τ) (clients : List α) : Prop where
  fair : l.Fair
  holder : clients.countP holds = if l.locked then 1 else 0
  waiting : l.tasks.Perm (tasksOf key waits clients)

namespace Lock.Serves

variable {l l' : Lock τ}

theorem perm (h : l.Serves key waits holds clients) (hperm : clients.Perm clients') : l.Serves key waits holds clients' :=
  ⟨h.fair, by rw [← hperm.countP_eq, h.holder], h.waiting.trans (tasksOf_perm hperm)⟩

theorem cons_out (hwaits : waits a = false) (hholds : holds a = false) :
    l.Serves key waits holds (a :: rest) ↔ l.Serves key waits holds rest := by
  constructor
  · rintro ⟨hfair, hholder, hwaiting⟩
    exact ⟨hfair, by simpa [countP_cons, hholds] using hholder, by simpa [tasksOf_cons, hwaits] using hwaiting⟩
  · rintro ⟨hfair, hholder, hwaiting⟩
    exact ⟨hfair, by simpa [countP_cons, hholds] using hholder, by simpa [tasksOf_cons, hwaits] using hwaiting⟩

theorem new (hwaits : ∀ b ∈ clients, waits b = false) (hholds : ∀ b ∈ clients, holds b = false) :
    (⟨false, []⟩ : Lock τ).Serves key waits holds clients := by
  refine ⟨fair_new, ?_, ?_⟩
  · rw [if_neg Bool.false_ne_true, countP_eq_zero]
    exact fun b hb => by simp [hholds b hb]
  · rw [tasksOf, filter_eq_nil_iff.2 fun b hb => by simp [hwaits b hb]]
    exact List.Perm.refl _

/-- Who comes takes the lock, or waits for it. -/
theorem acquire {got : Bool} (h : l.Serves key waits holds rest) (hacquire : l.acquire (key a) = (got, l'))
    (hwaits : waits a = !got) (hholds : holds a = got) : l'.Serves key waits holds (a :: rest) := by
  have hholder := h.holder
  cases got with
  | true =>
    obtain ⟨hfree, htaken, htasks, hfair⟩ := Lock.acquire_true hacquire
    refine ⟨hfair, ?_, ?_⟩
    · rw [countP_cons_of_pos hholds, hholder, hfree, htaken]
      rfl
    · rw [htasks, tasksOf_cons, hwaits]
      exact h.waiting
  | false =>
    obtain ⟨hlocked, htasks, hfair⟩ := Lock.acquire_false h.fair hacquire
    refine ⟨hfair, ?_, ?_⟩
    · rw [countP_cons_of_neg (by simp [hholds]), hlocked, hholder]
    · rw [htasks, tasksOf_cons, if_pos (by simp [hwaits])]
      exact perm_append_comm.trans (h.waiting.append_left _)

/-- Who has the lock can give it back. -/
theorem release (h : l.Serves key waits holds (a :: rest)) (hwaits : waits a = false) (hholds : holds a = true) :
    ∃ l', l.release = some l' ∧ l'.Serves key waits holds rest := by
  have hholder := h.holder
  have hwaiting := h.waiting
  rw [countP_cons_of_pos hholds] at hholder
  rw [tasksOf_cons, hwaits] at hwaiting
  have hlocked : l.locked = true := by
    by_contra hfree
    rw [if_neg hfree] at hholder
    omega
  rw [if_pos hlocked] at hholder
  obtain ⟨l', hrelease, hfree, htasks, hfair⟩ := release_some h.fair hlocked
  refine ⟨l', hrelease, hfair, ?_, ?_⟩
  · rw [hfree, if_neg Bool.false_ne_true]
    omega
  · rw [htasks]
    exact hwaiting

/-- A client that stays what it is for the lock. -/
theorem congr (h : l.Serves key waits holds (a :: rest)) (hkey : key a' = key a) (hwaits : waits a' = waits a)
    (hholds : holds a' = holds a) : l.Serves key waits holds (a' :: rest) := by
  refine ⟨h.fair, ?_, ?_⟩
  · rw [← h.holder, countP_cons, countP_cons, hholds]
  · have := h.waiting
    rwa [tasksOf_cons, ← hkey, ← hwaits, ← tasksOf_cons] at this

/-- One client has the lock at most. -/
theorem holds_le (h : l.Serves key waits holds clients) : clients.countP holds ≤ 1 := by
  rw [h.holder]
  split <;> omega

variable [DecidableEq τ]

theorem cancel {t : τ} (h : l.Serves key waits holds clients) : (l.cancel t).Serves key waits holds clients :=
  ⟨cancel_fair h.fair, h.holder, by rw [cancel_tasks]; exact h.waiting⟩

/-- A client whose wait is over: with the lock, or out of the queue. -/
theorem resume {got : Bool} (nodup : ((a :: rest).map key).Nodup) (h : l.Serves key waits holds (a :: rest))
    (hwaits : waits a = true) (hholds : holds a = false) (hresume : l.resume (key a) = some (got, l')) :
    if got then ∀ a', waits a' = false → holds a' = true → l'.Serves key waits holds (a' :: rest)
    else l'.Serves key waits holds rest := by
  have hfair := resume_fair h.fair hresume
  have hwaiting : l'.tasks.Perm (tasksOf key waits rest) := by
    rw [resume_tasks hresume]
    exact tasksOf_leave nodup hwaits h.waiting
  have hholder := h.holder
  rw [countP_cons_of_neg (by simp [hholds])] at hholder
  cases got with
  | false =>
    rw [if_neg Bool.false_ne_true]
    exact ⟨hfair, by rw [hholder, resume_false hresume], hwaiting⟩
  | true =>
    rw [if_pos rfl]
    intro a' hwaits' hholds'
    obtain ⟨hfree, htaken⟩ := resume_true h.fair hresume
    refine ⟨hfair, ?_, ?_⟩
    · rw [countP_cons_of_pos hholds', hholder, hfree, htaken]
      rfl
    · rw [tasksOf_cons, hwaits']
      exact hwaiting

/-- While nobody has the lock and somebody waits, somebody runs. -/
theorem not_stuck (nodup : (clients.map key).Nodup) (h : l.Serves key waits holds clients)
    (hholds : ∀ b ∈ clients, holds b = false) (ha : a ∈ clients) (hwaits : waits a = true) :
    ∃ b ∈ clients, waits b = true ∧ (l.resume (key b)).isSome := by
  have hfree : ¬l.locked := fun hlocked => by
    have hholder := h.holder
    rw [if_pos hlocked, countP_eq_zero.2 fun b hb => by simp [hholds b hb]] at hholder
    omega
  obtain ⟨v, hv, -⟩ := mem_map.1 (h.waiting.mem_iff.2 (mem_map_of_mem (mem_filter.2 ⟨ha, hwaits⟩)))
  cases hws : l.waiters with
  | nil =>
    rw [hws] at hv
    cases hv
  | cons u us =>
    have hu : u ∈ l.waiters := by rw [hws]; exact mem_cons_self
    obtain ⟨b, hb, hkey⟩ := mem_map.1 (h.waiting.mem_iff.1 (mem_map_of_mem hu))
    obtain ⟨hb, hwaits'⟩ := mem_filter.1 hb
    refine ⟨b, hb, hwaits', ?_⟩
    rw [hkey]
    exact resume_isSome (tasksOf_nodup nodup h.waiting) hu (h.fair.ready hfree u (by rw [hws]; rfl))

end Lock.Serves

end Clients

end Awaiting
