import Mathlib.Data.List.Basic
import Mathlib.Order.Lattice

/-!
# The nearest earlier place that is high enough

    last       the last place before `n` that is at least as high as `e`
    turn       one turn of the loop that keeps a stack of falling heights
    parents    for each place, the nearest earlier one that is as high
    climb      from a place to its parent, until one is high enough

    climb_parents    climbing finds the last place that is high enough
-/

namespace Nearest

variable {κ : Type} [LinearOrder κ] (f : Nat → κ)

/-- The last place before `n` that is at least as high as `e`. -/
def last (e : κ) : Nat → Option Nat
  | 0 => none
  | n + 1 => if e ≤ f n then some n else last e n

/-- The stack without what is lower than the place, whose parent is then on top. -/
def turn (acc : List Nat × List (Option Nat)) (i : Nat) : List Nat × List (Option Nat) :=
  let stack := acc.1.dropWhile (f · < f i)
  (i :: stack, acc.2 ++ [stack.head?])

def parents (n : Nat) : List (Option Nat) := ((List.range n).foldl (turn f) ([], [])).2

def climb (parents : List (Option Nat)) (e : κ) : Nat → Option Nat → Option Nat
  | 0, _ => none
  | _, none => none
  | fuel + 1, some i => if e ≤ f i then some i else climb parents e fuel (parents.getD i none)

variable {f} {e : κ} {n i : Nat}

theorem last_succ : last f e (n + 1) = if e ≤ f n then some n else last f e n := rfl

theorem last_eq_none (h : last f e n = none) : ∀ j < n, f j < e := by
  induction n with
  | zero => exact fun j hj => absurd hj (Nat.not_lt_zero j)
  | succ n ih =>
    rw [last_succ] at h
    split at h
    · cases h
    · next hlow =>
      intro j hj
      rcases Nat.lt_succ_iff_lt_or_eq.1 hj with hj | rfl
      · exact ih h j hj
      · exact not_le.1 hlow

theorem last_eq_some (h : last f e n = some i) : i < n ∧ e ≤ f i ∧ ∀ j, i < j → j < n → f j < e := by
  induction n with
  | zero => cases h
  | succ n ih =>
    rw [last_succ] at h
    split at h
    · next hhigh =>
      cases h
      exact ⟨Nat.lt_succ_self _, hhigh, fun j hij hj => absurd hij (Nat.not_lt.2 (Nat.lt_succ_iff.1 hj))⟩
    · next hlow =>
      obtain ⟨hi, hle, hlast⟩ := ih h
      refine ⟨Nat.lt_succ_of_lt hi, hle, fun j hij hj => ?_⟩
      rcases Nat.lt_succ_iff_lt_or_eq.1 hj with hj | rfl
      · exact hlast j hij hj
      · exact not_le.1 hlow

/-- Where the places between are all lower. -/
theorem last_of_lower {m : Nat} (hm : m ≤ n) (h : ∀ j, m ≤ j → j < n → f j < e) : last f e n = last f e m := by
  induction n with
  | zero => rw [Nat.le_zero.1 hm]
  | succ n ih =>
    rcases Nat.le_or_eq_of_le_succ hm with hm | rfl
    · rw [last_succ, if_neg (not_le.2 (h n hm (Nat.lt_succ_self n))), ih hm fun j hj hlt => h j hj (Nat.lt_succ_of_lt hlt)]
    · rfl

/-- The stack has on top, above a height, the last place that is so high. -/
theorem turns_eq (n : Nat) :
    (∀ e, ((((List.range n).foldl (turn f) ([], [])).1).dropWhile (f · < e)).head? = last f e n) ∧
      parents f n = (List.range n).map fun i => last f (f i) i := by
  unfold parents
  induction n with
  | zero => exact ⟨fun e => rfl, rfl⟩
  | succ n ih =>
    obtain ⟨htop, hparents⟩ := ih
    rw [List.range_succ, List.foldl_append, List.map_append, ← hparents]
    generalize (List.range n).foldl (turn f) ([], []) = acc at htop ⊢
    refine ⟨fun e => ?_, ?_⟩
    · rw [last_succ]
      by_cases hhigh : e ≤ f n
      · rw [if_pos hhigh]
        exact congrArg List.head? (List.dropWhile_cons_of_neg (by simpa using hhigh))
      · -- what was dropped for the place is lower than the height
        rw [if_neg hhigh, ← htop e]
        have hdrop : ∀ stack : List Nat, (stack.dropWhile (f · < f n)).dropWhile (f · < e) = stack.dropWhile (f · < e) := by
          intro stack
          induction stack with
          | nil => rfl
          | cons j stack ih =>
            by_cases hj : f j < f n
            · rw [List.dropWhile_cons_of_pos (by simpa using hj), ih,
                List.dropWhile_cons_of_pos (by simpa using lt_trans hj (not_le.1 hhigh))]
            · rw [List.dropWhile_cons_of_neg (by simpa using hj)]
        refine congrArg List.head? ?_
        show List.dropWhile _ (n :: acc.1.dropWhile (f · < f n)) = _
        rw [List.dropWhile_cons_of_pos (by simpa using hhigh), hdrop]
    · show acc.2 ++ [(acc.1.dropWhile (f · < f n)).head?] = _
      rw [htop]
      rfl

/-- **Climbing finds the last place that is high enough.** -/
theorem climb_parents {fuel : Nat} (hi : i < n) (hfuel : i < fuel) :
    climb f (parents f n) e fuel (some i) = last f e (i + 1) := by
  induction fuel generalizing i with
  | zero => exact absurd hfuel (Nat.not_lt_zero i)
  | succ fuel ih =>
    show (if e ≤ f i then some i else climb f (parents f n) e fuel ((parents f n).getD i none)) = _
    rw [last_succ]
    split
    · rfl
    · next hlow =>
      have hparent : (parents f n).getD i none = last f (f i) i := by
        rw [(turns_eq n).2, List.getD_eq_getElem?_getD, List.getElem?_map, List.getElem?_range hi]
        rfl
      rw [hparent]
      cases h : last f (f i) i with
      | none =>
        rw [last_of_lower (Nat.zero_le i) fun j _ hj => lt_trans (last_eq_none h j hj) (not_le.1 hlow)]
        cases fuel <;> rfl
      | some j =>
        obtain ⟨hj, -, hlast⟩ := last_eq_some h
        rw [ih (Nat.lt_trans hj hi) (Nat.lt_of_lt_of_le hj (Nat.lt_succ_iff.1 hfuel)),
          last_of_lower hj fun k hjk hk => lt_trans (hlast k hjk hk) (not_le.1 hlow)]

end Nearest
