import Mathlib.Data.List.Perm.Basic

/-!
# At-least-once, unordered delivery

Messages `b` act on a state by `apply : σ → β → σ`.  When the messages of a set commute and each of them is
idempotent, the state after a delivery depends on the set only:

    apply (… apply s b …) b  =  … apply s b …                          (absorb)
    same messages, any order, any repetition  →  same state            (deliver_eq)
-/

namespace Delivery

variable {σ β : Type}

/-- The messages of a list commute and are idempotent. -/
structure Converges (apply : σ → β → σ) (messages : List β) : Prop where
  comm : ∀ a ∈ messages, ∀ b ∈ messages, ∀ s, apply (apply s a) b = apply (apply s b) a
  idem : ∀ a ∈ messages, ∀ s, apply (apply s a) a = apply s a

variable {apply : σ → β → σ} {messages delivered : List β}

section

variable (h : Converges apply messages)
include h

/-- A message moves past the ones that follow it. -/
theorem Converges.push {b : β} (hb : b ∈ messages)
    (hsub : ∀ a ∈ delivered, a ∈ messages) (s : σ) :
    delivered.foldl apply (apply s b) = apply (delivered.foldl apply s) b := by
  induction delivered generalizing s with
  | nil => rfl
  | cons a delivered ih =>
    have ha := hsub a List.mem_cons_self
    rw [List.foldl_cons, List.foldl_cons, h.comm b hb a ha]
    exact ih (fun c hc => hsub c (List.mem_cons_of_mem _ hc)) (apply s a)

/-- A message that was delivered changes nothing when it comes again. -/
theorem Converges.absorb {b : β} (hb : b ∈ delivered)
    (hsub : ∀ a ∈ delivered, a ∈ messages) (s : σ) :
    apply (delivered.foldl apply s) b = delivered.foldl apply s := by
  obtain ⟨before, after, rfl⟩ := List.append_of_mem hb
  have hbm := hsub b hb
  have hafter : ∀ a ∈ after, a ∈ messages := fun a ha => hsub a (List.mem_append_right _ (List.mem_cons_of_mem _ ha))
  rw [List.foldl_append, List.foldl_cons, h.push hbm hafter, h.idem b hbm]

theorem Converges.absorb_all {repeated : List β}
    (hrep : ∀ b ∈ repeated, b ∈ delivered) (hsub : ∀ a ∈ delivered, a ∈ messages) (s : σ) :
    repeated.foldl apply (delivered.foldl apply s) = delivered.foldl apply s := by
  induction repeated with
  | nil => rfl
  | cons b repeated ih =>
    rw [List.foldl_cons, h.absorb (hrep b List.mem_cons_self) hsub]
    exact ih fun c hc => hrep c (List.mem_cons_of_mem _ hc)

end

/-- **Deliveries of the same messages end in the same state.** -/
theorem Converges.deliver_eq {xs ys : List β} (h : Converges apply xs) (hmem : ∀ b, b ∈ xs ↔ b ∈ ys) (s : σ) :
    xs.foldl apply s = ys.foldl apply s := by
  have hys : ∀ b ∈ ys, b ∈ xs := fun b hb => (hmem b).2 hb
  have hboth : ∀ b ∈ xs ++ ys, b ∈ xs := fun b hb => (List.mem_append.1 hb).elim id (hys b)
  calc xs.foldl apply s = ys.foldl apply (xs.foldl apply s) := (h.absorb_all hys (fun _ hb => hb) s).symm
    _ = (xs ++ ys).foldl apply s := List.foldl_append.symm
    _ = (ys ++ xs).foldl apply s := by
      refine List.perm_append_comm.foldl_eq' (fun a ha b hb s => ?_) s
      exact h.comm a (hboth a ha) b (hboth b hb) s
    _ = xs.foldl apply (ys.foldl apply s) := List.foldl_append
    _ = ys.foldl apply s := h.absorb_all (fun b hb => (hmem b).1 hb) hys s

end Delivery
