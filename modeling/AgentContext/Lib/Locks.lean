import Mathlib.Logic.Function.Basic

/-!
# Exclusive locks held to the end of a transaction

Who holds each key.  An owner takes a key that nobody else holds, keeps what it has, and gives all its keys back at
once.

    acquire       one more key for an owner
    releaseAll    an owner ends
    Holds         the owner of a key: there is one at most  (Holds.unique)
-/

namespace Locking

variable {κ τ : Type} [DecidableEq κ] [DecidableEq τ]

/-- The owner of each key. -/
abbrev Locks (κ τ : Type) : Type := κ → Option τ

def Locks.free : Locks κ τ := fun _ => none

/-- A key for an owner, unless another owner has it. -/
def Locks.acquire (locks : Locks κ τ) (k : κ) (owner : τ) : Option (Locks κ τ) :=
  if locks k = none ∨ locks k = some owner then some (Function.update locks k (some owner)) else none

def Locks.releaseAll (locks : Locks κ τ) (owner : τ) : Locks κ τ :=
  fun k => if locks k = some owner then none else locks k

def Locks.Holds (locks : Locks κ τ) (owner : τ) (k : κ) : Prop := locks k = some owner

variable {locks locks' : Locks κ τ} {owner other : τ} {k j : κ}

omit [DecidableEq κ] [DecidableEq τ] in
theorem Locks.Holds.unique (h : locks.Holds owner k) (h' : locks.Holds other k) : owner = other :=
  Option.some.inj (h.symm.trans h')

theorem Locks.acquire_holds (h : locks.acquire k owner = some locks') : locks'.Holds owner k := by
  unfold Locks.acquire at h
  split at h
  · cases h
    exact Function.update_self ..
  · cases h

/-- Nobody loses a key to who takes one. -/
theorem Locks.Holds.acquire (h : locks.acquire k owner = some locks') (hholds : locks.Holds other j) :
    locks'.Holds other j := by
  unfold Locks.acquire at h
  split at h
  · rename_i havailable
    cases h
    unfold Locks.Holds at hholds ⊢
    by_cases hkey : j = k
    · subst hkey
      rw [Function.update_self]
      rcases havailable with hfree | hmine
      · rw [hfree] at hholds
        cases hholds
      · exact hmine.symm.trans hholds
    · rw [Function.update_of_ne hkey]
      exact hholds
  · cases h

omit [DecidableEq κ] in
/-- Who ends gives back its own keys only. -/
theorem Locks.Holds.releaseAll (hholds : locks.Holds other j) (hne : other ≠ owner) :
    (locks.releaseAll owner).Holds other j := by
  unfold Locks.Holds Locks.releaseAll at *
  rw [if_neg, hholds]
  rw [hholds]
  exact fun h => hne (Option.some.inj h)

end Locking
