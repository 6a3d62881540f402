import Mathlib.Data.List.Induction
import Mathlib.Tactic.Common

/-!
# Rows under one bound

Several queries share a bound.  Each reads one row more than there is room for, which tells whether rows are left
out, and a later query may depend on the rows of the earlier ones.

    readAll    the rows without the bound
    capped     the first `bound` of them, and whether there are more
-/

namespace Capped

open List

variable {α κ : Type}

structure Rows (α : Type) where
  rows : List α
  cut : Bool

def Rows.add (bound : Nat) (acc : Rows α) (found : List α) : Rows α :=
  let room := bound - acc.rows.length
  let rows := found.take (room + 1)
  if room < rows.length then ⟨acc.rows ++ rows.take room, true⟩ else ⟨acc.rows ++ rows, acc.cut⟩

variable (query : List α → κ → List α)

def readAll (keys : List κ) : List α := keys.foldl (fun rows key => rows ++ query rows key) []

def readCapped (bound : Nat) (keys : List κ) : Rows α :=
  keys.foldl (fun acc key => acc.add bound (query acc.rows key)) ⟨[], false⟩

@[simp] theorem readAll_snoc (keys : List κ) (key : κ) :
    readAll query (keys ++ [key]) = readAll query keys ++ query (readAll query keys) key := by
  simp [readAll]

theorem capped (bound : Nat) (keys : List κ) :
    readCapped query bound keys = ⟨(readAll query keys).take bound, decide (bound < (readAll query keys).length)⟩ := by
  induction keys using reverseRecOn with
  | nil => simp [readCapped, readAll]
  | append_singleton keys key ih =>
    rw [readCapped, foldl_append, ← readCapped, ih, readAll_snoc]
    simp only [foldl_cons, foldl_nil, Rows.add]
    generalize readAll query keys = all
    by_cases hfull : bound < all.length
    · -- there is no room, so whatever the query finds changes nothing
      have hroom : bound - (all.take bound).length = 0 := by rw [length_take]; omega
      have htake : (all ++ query all key).take bound = all.take bound :=
        take_append_of_le_length (Nat.le_of_lt hfull)
      have hmore : bound < (all ++ query all key).length := by rw [length_append]; omega
      simp only [hroom, htake, take_zero, append_nil, hmore, hfull, decide_true]
      split
      · rfl
      · next hnone => rw [length_eq_zero_iff.1 (Nat.le_zero.1 (Nat.not_lt.1 hnone)), append_nil]
    · have htake : all.take bound = all := take_of_length_le (by omega)
      simp only [htake, take_append, length_append, length_take, take_take]
      split
      · next h =>
        have hmore : bound < all.length + (query all key).length := by omega
        simp only [hmore, decide_true]
        rw [Nat.min_eq_left (by omega)]
      · next h =>
        have hless : ¬ bound < all.length + (query all key).length := by omega
        simp only [hless, hfull, decide_false]
        rw [take_of_length_le (by omega), take_of_length_le (by omega)]

/-- A row past the cut is not before it. -/
theorem getElem_notMem_take {xs ys : List α} {i : Nat} (h : (xs ++ ys).Nodup) (hi : i < ys.length) :
    ys[i] ∉ xs ++ ys.take i := by
  rw [← take_append_drop i ys, drop_eq_getElem_cons hi, ← append_assoc] at h
  exact fun hin => (nodup_append.1 h).2.2 _ hin _ mem_cons_self rfl

end Capped
