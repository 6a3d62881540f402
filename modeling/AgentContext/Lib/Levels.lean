import Mathlib.Tactic.Common

/-!
# The levels of a search

    Reaches      a walk of `n` steps leads there
    Distance     the shortest one has `n`

    distance_succ    the next level is next to the last one, and on none before
-/

namespace Levels

variable {α : Type}

inductive Reaches (adj : α → α → Prop) (a : α) : Nat → α → Prop
  | here : Reaches adj a 0 a
  | step {n : Nat} {x y : α} : Reaches adj a n x → adj x y → Reaches adj a (n + 1) y

def Distance (adj : α → α → Prop) (a : α) (n : Nat) (x : α) : Prop :=
  Reaches adj a n x ∧ ∀ k < n, ¬ Reaches adj a k x

variable {adj : α → α → Prop} {a x y : α} {k m n : Nat}

theorem distance_zero : Distance adj a 0 x ↔ x = a := by
  constructor
  · rintro ⟨h, -⟩
    cases h
    rfl
  · rintro rfl
    exact ⟨.here, fun k hk => absurd hk k.not_lt_zero⟩

theorem Reaches.distance (h : Reaches adj a n x) : ∃ k ≤ n, Distance adj a k x := by
  induction n using Nat.strongRecOn with
  | ind n ih =>
    by_cases hless : ∃ k < n, Reaches adj a k x
    · obtain ⟨k, hk, hx⟩ := hless
      obtain ⟨j, hj, hd⟩ := ih k hk hx
      exact ⟨j, by omega, hd⟩
    · exact ⟨n, Nat.le_refl n, h, fun k hk hx => hless ⟨k, hk, hx⟩⟩

theorem distance_succ :
    Distance adj a (n + 1) y ↔ (∃ x, Distance adj a n x ∧ adj x y) ∧ ∀ k ≤ n, ¬ Distance adj a k y := by
  constructor
  · rintro ⟨h, hmin⟩
    refine ⟨?_, fun k hk hy => hmin k (by omega) hy.1⟩
    cases h with
    | @step _ x _ hx hadj => refine ⟨x, ⟨hx, fun k hk hshort => hmin (k + 1) (by omega) (hshort.step hadj)⟩, hadj⟩
  · rintro ⟨⟨x, hx, hadj⟩, hmin⟩
    refine ⟨hx.1.step hadj, fun k hk hy => ?_⟩
    obtain ⟨j, hj, hd⟩ := hy.distance
    exact hmin j (by omega) hd

theorem Distance.unique (hm : Distance adj a m x) (hn : Distance adj a n x) : m = n := by
  rcases Nat.lt_trichotomy m n with h | h | h
  · exact absurd hm.1 (hn.2 m h)
  · exact h
  · exact absurd hn.1 (hm.2 n h)

/-- Past an empty level there is no other. -/
theorem Distance.earlier (h : Distance adj a n y) (hk : k ≤ n) : ∃ x, Distance adj a k x := by
  induction n generalizing y with
  | zero => exact ⟨y, Nat.le_zero.1 hk ▸ h⟩
  | succ n ih =>
    rcases Nat.le_succ_iff.1 hk with hk | rfl
    · obtain ⟨⟨x, hx, -⟩, -⟩ := distance_succ.1 h
      exact ih hx hk
    · exact ⟨y, h⟩

end Levels
