import Mathlib.Tactic.Common

/-!
# Computations that raise

Lemmas of `Except`: which step of a sequence, of a loop or of a comprehension raises.

    bind_eq_ok          a sequence returns where both parts do
    forM_eq_ok          a loop of checks
    mapM_eq_ok          a comprehension, item by item
    mapM_forall₂        a comprehension of which no item raises
    foldlM_run          a loop with a state: what every turn preserves, with the items done
-/

namespace Fallible

open List

variable {α β γ ε : Type}
variable {f : α → Except ε β} {x : Except ε α} {as : List α}
variable {P : List α → β → Prop}

/-! ## Sequences -/

theorem ok_bind {a : α} : ((.ok a : Except ε α) >>= f) = f a := rfl

theorem bind_eq_ok {b : β} : x >>= f = .ok b ↔ ∃ a, x = .ok a ∧ f a = .ok b := by
  cases x with
  | error e =>
    constructor
    · intro h
      cases h
    · rintro ⟨_, h, _⟩
      cases h
  | ok a =>
    constructor
    · intro h
      exact ⟨a, rfl, h⟩
    · rintro ⟨_, h, hf⟩
      cases h
      exact hf

theorem bind_eq_error {e : ε} : x >>= f = .error e ↔ x = .error e ∨ ∃ a, x = .ok a ∧ f a = .error e := by
  cases x with
  | error e' =>
    constructor
    · intro h
      cases h
      exact .inl rfl
    · rintro (h | ⟨_, h, -⟩)
      · cases h
        rfl
      · cases h
  | ok a =>
    constructor
    · intro h
      exact .inr ⟨a, rfl, h⟩
    · rintro (h | ⟨_, h, hf⟩)
      · cases h
      · cases h
        exact hf

theorem discard_eq_ok {u : Unit} : discard x = .ok u ↔ ∃ a, x = .ok a := by
  cases x with
  | error e => exact ⟨nofun, nofun⟩
  | ok a => exact ⟨fun _ => ⟨a, rfl⟩, fun _ => rfl⟩

/-! ## Loops of checks -/

theorem forM_ok {f : α → Except ε Unit} : ∀ {as : List α}, (∀ a ∈ as, f a = .ok ()) → as.forM f = .ok ()
  | [], _ => rfl
  | a :: as, h => by
    rw [forM_eq_forM, forM_cons, h a mem_cons_self]
    exact forM_ok fun b hb => h b (mem_cons_of_mem a hb)

theorem forM_eq_ok {f : α → Except ε Unit} {u : Unit} : as.forM f = .ok u ↔ ∀ a ∈ as, f a = .ok () := by
  induction as with
  | nil => exact ⟨fun _ => forall_mem_nil _, fun _ => rfl⟩
  | cons a as ih =>
    rw [forM_eq_forM, forM_cons, bind_eq_ok, forall_mem_cons, ← forM_eq_forM, ih]
    exact ⟨fun ⟨_, ha, has⟩ => ⟨ha, has⟩, fun ⟨ha, has⟩ => ⟨(), ha, has⟩⟩

/-! ## Comprehensions -/

theorem mapM_ok {g : α → β} : ∀ {as : List α}, (∀ a ∈ as, f a = .ok (g a)) → as.mapM f = .ok (as.map g)
  | [], _ => rfl
  | a :: as, h => by
    rw [mapM_cons, h a mem_cons_self, mapM_ok fun b hb => h b (mem_cons_of_mem a hb)]
    rfl

/-- A loop of which no step raises. -/
theorem mapM_forall₂ {P : α → β → Prop} :
    ∀ {as : List α}, (∀ a ∈ as, ∃ b, f a = .ok b ∧ P a b) → ∃ bs, as.mapM f = .ok bs ∧ List.Forall₂ P as bs
  | [], _ => ⟨[], rfl, .nil⟩
  | a :: as, h => by
    obtain ⟨b, hb, hab⟩ := h a mem_cons_self
    obtain ⟨bs, hbs, hall⟩ := mapM_forall₂ fun a' ha' => h a' (mem_cons_of_mem a ha')
    refine ⟨b :: bs, ?_, .cons hab hall⟩
    rw [mapM_cons, hb, hbs]
    rfl

theorem mapM_eq_ok {bs : List β} : as.mapM f = .ok bs ↔ List.Forall₂ (fun a b => f a = .ok b) as bs := by
  induction as generalizing bs with
  | nil =>
    constructor
    · intro h
      cases h
      exact .nil
    · rintro ⟨⟩
      rfl
  | cons a as ih =>
    rw [mapM_cons, bind_eq_ok]
    constructor
    · rintro ⟨b, ha, h⟩
      obtain ⟨rest, has, heq⟩ := bind_eq_ok.1 h
      cases heq
      exact .cons ha (ih.1 has)
    · rintro (_ | ⟨ha, has⟩)
      refine ⟨_, ha, ?_⟩
      rw [ih.2 has]
      rfl

theorem foldlM_from {f : β → α → Except ε β}
    (hstep : ∀ {before b a b'}, P before b → f b a = .ok b' → P (before ++ [a]) b') :
    ∀ {as before : List α} {b b' : β}, P before b → as.foldlM f b = .ok b' → P (before ++ as) b'
  | [], before, b, b', hb, h => by
    rw [foldlM_nil] at h
    rw [append_nil, ← Except.ok.inj h]
    exact hb
  | a :: as, before, b, b', hb, h => by
    rw [foldlM_cons] at h
    obtain ⟨between, hturn, hrest⟩ := bind_eq_ok.1 h
    rw [append_cons]
    exact foldlM_from hstep (hstep hb hturn) hrest

/-- What every turn of a loop preserves holds when the loop returns. -/
theorem foldlM_run {f : β → α → Except ε β}
    (hstep : ∀ {before b a b'}, P before b → f b a = .ok b' → P (before ++ [a]) b') {b b' : β} (hb : P [] b)
    (h : as.foldlM f b = .ok b') : P as b' := foldlM_from hstep hb h

section Forall₂

variable {P : α → β → Prop} {as : List α} {bs : List β}

theorem forall₂_map {f : α → γ} {g : β → γ} (h : List.Forall₂ P as bs) (hP : ∀ a b, P a b → g b = f a) :
    bs.map g = as.map f := by
  induction h with
  | nil => rfl
  | cons hab _ ih => rw [map_cons, map_cons, hP _ _ hab, ih]

theorem forall₂_left (h : List.Forall₂ P as bs) : ∀ a ∈ as, ∃ b ∈ bs, P a b := by
  induction h with
  | nil => exact forall_mem_nil _
  | cons hab _ ih =>
    refine forall_mem_cons.2 ⟨⟨_, mem_cons_self, hab⟩, fun a ha => ?_⟩
    obtain ⟨b, hb, h⟩ := ih a ha
    exact ⟨b, mem_cons_of_mem _ hb, h⟩

theorem forall₂_right (h : List.Forall₂ P as bs) : ∀ b ∈ bs, ∃ a ∈ as, P a b := by
  induction h with
  | nil => exact forall_mem_nil _
  | cons hab _ ih =>
    refine forall_mem_cons.2 ⟨⟨_, mem_cons_self, hab⟩, fun b hb => ?_⟩
    obtain ⟨a, ha, h⟩ := ih b hb
    exact ⟨a, mem_cons_of_mem _ ha, h⟩

end Forall₂

end Fallible
