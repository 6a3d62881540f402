import Mathlib.Data.List.Basic
import Mathlib.Tactic.Common

/-!
# Values that are computed once

A memo keeps the first value of every key.  Whoever asks again gets that value, also where its own would be another:

    answer          the value of a key, beside a memo
    note            the memo after a key was asked for, `noteAll` after some
    lookup_noteAll  what is in the memo then
    answer_noteAll  asking for other keys, or again, changes no value
-/

namespace Memo

variable {κ α : Type} [BEq κ]

/-- The value of a key: the one that is kept, or its own. -/
def answer (own : κ → α) (memo : List (κ × α)) (k : κ) : α := (memo.lookup k).getD (own k)

/-- The memo after a key was asked for. -/
def note (own : κ → α) (memo : List (κ × α)) (k : κ) : List (κ × α) :=
  if (memo.lookup k).isSome then memo else (k, own k) :: memo

def noteAll (own : κ → α) (memo : List (κ × α)) (ks : List κ) : List (κ × α) := ks.foldl (note own) memo

variable {own : κ → α} {memo : List (κ × α)} {k k' : κ} {ks ks' : List κ}

@[simp] theorem noteAll_nil : noteAll own memo [] = memo := rfl

theorem noteAll_append : noteAll own memo (ks ++ ks') = noteAll own (noteAll own memo ks) ks' := List.foldl_append

@[simp] theorem noteAll_singleton : noteAll own memo [k] = note own memo k := rfl

variable [LawfulBEq κ]

theorem lookup_note : (note own memo k).lookup k' = if k' == k then some (answer own memo k) else memo.lookup k' := by
  unfold note answer
  cases h : memo.lookup k with
  | some a =>
    rw [Option.isSome_some, if_pos rfl]
    split
    · next heq => rw [beq_iff_eq.1 heq, h]; rfl
    · rfl
  | none =>
    rw [Option.isSome_none, if_neg Bool.false_ne_true, List.lookup_cons]
    cases heq : k' == k <;> rfl

theorem answer_note : answer own (note own memo k) k' = answer own memo k' := by
  unfold answer
  rw [lookup_note]
  split
  · next heq => rw [beq_iff_eq.1 heq]; rfl
  · rfl

theorem answer_noteAll : answer own (noteAll own memo ks) k = answer own memo k := by
  induction ks generalizing memo with
  | nil => rfl
  | cons k' ks ih => exact ih.trans answer_note

theorem lookup_noteAll :
    (noteAll own memo ks).lookup k = if k ∈ ks then some (answer own memo k) else memo.lookup k := by
  induction ks generalizing memo with
  | nil => rfl
  | cons k' ks ih =>
    show (noteAll own (note own memo k') ks).lookup k = _
    rw [ih, answer_note, lookup_note]
    by_cases hks : k ∈ ks
    · rw [if_pos hks, if_pos (List.mem_cons_of_mem _ hks)]
    · rw [if_neg hks]
      split
      · next heq => rw [if_pos (beq_iff_eq.1 heq ▸ List.mem_cons_self), beq_iff_eq.1 heq]
      · next hne => rw [if_neg fun h => hks ((List.mem_cons.1 h).resolve_left (mt beq_iff_eq.2 hne))]

end Memo
