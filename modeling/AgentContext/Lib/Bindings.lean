import Mathlib.Data.Set.Function
import Mathlib.Logic.Function.Basic
import Mathlib.Tactic.Common

/-!
# Keys bound by their first entry

Entries that come one after another each name a key and a value, and the first entry of a key binds it.

    Agree     no two entries of one key name different values
    Binds     a map that holds, for each key that an entry names, the value they all name

    Binds m entries → (Agree (entries ++ [a]) ↔ m has no other value for a's key)      (Binds.agree_snoc)
    and then the map with a's key bound binds entries ++ [a]                           (Binds.snoc)
-/

namespace Bindings

variable {ε κ ι : Type} (key : ε → κ) (value : ε → ι)

def Agree (entries : List ε) : Prop := ∀ a ∈ entries, ∀ b ∈ entries, key a = key b → value a = value b

def Binds (m : κ → Option ι) (entries : List ε) : Prop := ∀ k i, m k = some i ↔ ∃ a ∈ entries, key a = k ∧ value a = i

variable {key value} {m : κ → Option ι} {entries entries' : List ε} {a : ε}

theorem Agree.of_subset (h : Agree key value entries) (hsub : ∀ a ∈ entries', a ∈ entries) : Agree key value entries' :=
  fun a ha b hb => h a (hsub a ha) b (hsub b hb)

theorem binds_nil : Binds key value (fun _ => none) [] := fun k i => by simp

section

variable (h : Binds key value m entries)
include h

theorem Binds.agree : Agree key value entries := by
  intro a ha b hb hkey
  have hma : m (key a) = some (value a) := (h _ _).2 ⟨a, ha, rfl, rfl⟩
  have hmb : m (key a) = some (value b) := (h _ _).2 ⟨b, hb, hkey.symm, rfl⟩
  exact Option.some.inj (hma.symm.trans hmb)

theorem Binds.bound (ha : a ∈ entries) : m (key a) = some (value a) := (h _ _).2 ⟨a, ha, rfl, rfl⟩

theorem Binds.free {k : κ} (hk : ∀ a ∈ entries, key a ≠ k) : m k = none := by
  cases hm : m k with
  | none => rfl
  | some i =>
    obtain ⟨a, ha, hkey, -⟩ := (h k i).1 hm
    exact absurd hkey (hk a ha)

theorem Binds.agree_snoc : Agree key value (entries ++ [a]) ↔ ∀ i, m (key a) = some i → i = value a := by
  constructor
  · intro hagree i hi
    obtain ⟨b, hb, hkey, rfl⟩ := (h _ _).1 hi
    exact hagree b (List.mem_append_left _ hb) a (List.mem_append_right _ (List.mem_singleton_self a)) hkey
  · intro hsame
    have hone : ∀ b ∈ entries, key b = key a → value b = value a := fun b hb hkey => hsame _ (hkey ▸ h.bound hb)
    intro b hb c hc hkey
    rw [List.mem_append, List.mem_singleton] at hb hc
    rcases hb with hb | rfl
    · rcases hc with hc | rfl
      · exact h.agree b hb c hc hkey
      · exact hone b hb hkey
    · rcases hc with hc | rfl
      · exact (hone c hc hkey.symm).symm
      · rfl

theorem Binds.snoc {m' : κ → Option ι}
    (hsame : ∀ i, m (key a) = some i → i = value a) (hself : m' (key a) = some (value a))
    (hother : ∀ k, k ≠ key a → m' k = m k) : Binds key value m' (entries ++ [a]) := by
  intro k i
  by_cases hk : k = key a
  · subst hk
    rw [hself]
    constructor
    · intro hi
      exact ⟨a, List.mem_append_right _ (List.mem_singleton_self a), rfl, Option.some.inj hi⟩
    · rintro ⟨b, hb, hkey, rfl⟩
      rcases List.mem_append.1 hb with hb | hb
      · exact congrArg some (hsame _ (hkey ▸ h.bound hb)).symm
      · rw [List.mem_singleton.1 hb]
  · rw [hother k hk, h k i]
    constructor
    · rintro ⟨b, hb, hrest⟩
      exact ⟨b, List.mem_append_left _ hb, hrest⟩
    · rintro ⟨b, hb, hkey, hvalue⟩
      rcases List.mem_append.1 hb with hb | hb
      · exact ⟨b, hb, hkey, hvalue⟩
      · rw [List.mem_singleton.1 hb] at hkey
        exact absurd hkey.symm hk

end

end Bindings
