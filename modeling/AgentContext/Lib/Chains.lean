import Mathlib.Data.List.Basic
import Mathlib.Logic.Relation

/-!
# Chains of a functional relation

Everyone replaces at most one.  A chain is walked from one of its members:

    Descent   who the start replaces, one after the other
    Ascent    who replaces the start, level by level, with those that were seen left out

Both end, and together they list the members that are on a chain with the start, where no one from outside replaces a
later member of a cycle through the start.
-/

namespace Chains

open Relation List

variable {α : Type} {E : α → α → Prop} {start current : α} {earlier later frontier level : List α}

/-- On a chain with the start, either way. -/
def Related (E : α → α → Prop) (start d : α) : Prop := ReflTransGen E start d ∨ ReflTransGen E d start

/-- Where the start is on a cycle, only the cycle replaces its other members. -/
def Uncrossed (E : α → α → Prop) (start : α) : Prop :=
  TransGen E start start → ∀ a b, E a b → ReflTransGen E start b → b ≠ start → ReflTransGen E start a

/-! ## Down -/

/-- The walk has come to `current`. -/
structure Descent (E : α → α → Prop) (start : α) (earlier : List α) (current : α) : Prop where
  reached : ∀ d ∈ start :: earlier, ReflTransGen E start d
  here : current ∈ start :: earlier
  closed : ∀ a ∈ start :: earlier, a ≠ current → ∀ b, E a b → b ∈ start :: earlier

theorem Descent.init : Descent E start [] start where
  reached d hd := by rw [mem_singleton.1 hd]
  here := mem_singleton_self _
  closed a ha hne := absurd (mem_singleton.1 ha) hne

theorem Descent.step {next : α} (h : Descent E start earlier current) (functional : Relator.RightUnique E) (hnext : E current next) :
    Descent E start (earlier ++ [next]) next where
  reached d hd := by
    rw [← cons_append] at hd
    rcases mem_append.1 hd with hd | hd
    · exact h.reached d hd
    · rw [mem_singleton.1 hd]
      exact (h.reached current h.here).tail hnext
  here := by simp
  closed a ha hne b hb := by
    rw [← cons_append] at ha ⊢
    rcases mem_append.1 ha with ha | ha
    · by_cases hcurrent : a = current
      · subst hcurrent
        rw [functional hb hnext]
        simp
      · exact mem_append_left _ (h.closed a ha hcurrent b hb)
    · exact absurd (mem_singleton.1 ha) hne

/-- Who the start replaces, all of them. -/
theorem Descent.complete (h : Descent E start earlier current) (hstop : ∀ b, E current b → b ∈ start :: earlier) {d : α} :
    ReflTransGen E start d ↔ d ∈ start :: earlier := by
  refine ⟨fun hd => ?_, h.reached d⟩
  induction hd with
  | refl => exact mem_cons_self
  | tail _ hbc ih =>
    rename_i b c _
    by_cases hcurrent : b = current
    · exact hstop c (hcurrent ▸ hbc)
    · exact h.closed b ih hcurrent c hbc

/-! ## Up -/

/-- The walk has the replacements up to a level, whose own replacements it looks for next. -/
structure Ascent (E : α → α → Prop) (start : α) (earlier later frontier : List α) : Prop where
  fresh : ∀ d ∈ later, d ∉ start :: earlier
  reaches : ∀ d ∈ later, ReflTransGen E d start
  step : ∀ d ∈ later, ∃ b ∈ start :: later, E d b
  front : ∀ d ∈ frontier, d ∈ start :: later
  closed : ∀ b ∈ start :: later, b ∉ frontier → ∀ a, E a b → a ∈ start :: earlier ∨ a ∈ later

theorem Ascent.init : Ascent E start earlier [] [start] where
  fresh := nofun
  reaches := nofun
  step := nofun
  front _ hd := hd
  closed _ hb hnot := absurd hb hnot

theorem Ascent.next (h : Ascent E start earlier later frontier)
    (hlevel : ∀ a, a ∈ level ↔ (a ∉ start :: earlier ∧ a ∉ later) ∧ ∃ b ∈ frontier, E a b) :
    Ascent E start earlier (later ++ level) level where
  fresh d hd := by
    rcases mem_append.1 hd with hd | hd
    · exact h.fresh d hd
    · exact ((hlevel d).1 hd).1.1
  reaches d hd := by
    rcases mem_append.1 hd with hd | hd
    · exact h.reaches d hd
    · obtain ⟨-, b, hb, hdb⟩ := (hlevel d).1 hd
      rcases mem_cons.1 (h.front b hb) with rfl | hb
      · exact .single hdb
      · exact (h.reaches b hb).head hdb
  step d hd := by
    rw [← cons_append]
    rcases mem_append.1 hd with hd | hd
    · obtain ⟨b, hb, hdb⟩ := h.step d hd
      exact ⟨b, mem_append_left _ hb, hdb⟩
    · obtain ⟨-, b, hb, hdb⟩ := (hlevel d).1 hd
      exact ⟨b, mem_append_left _ (h.front b hb), hdb⟩
  front d hd := mem_cons_of_mem _ (mem_append_right _ hd)
  closed b hb hnot a hab := by
    rw [← cons_append] at hb
    have hold : b ∈ start :: later := (mem_append.1 hb).resolve_right hnot
    by_cases hseen : a ∈ start :: earlier ∨ a ∈ later
    · exact hseen.imp_right (mem_append_left _)
    · rw [not_or] at hseen
      by_cases hfront : b ∈ frontier
      · exact .inr (mem_append_right _ ((hlevel a).2 ⟨hseen, b, hfront, hab⟩))
      · exact absurd (h.closed b hold hfront a hab) (not_or.2 hseen)

/-! ## Both ways -/

/-- Who is reached from a cycle is on it. -/
theorem back_of_cycle {d : α} (functional : Relator.RightUnique E) (hcycle : TransGen E start start)
    (hd : ReflTransGen E start d) : ReflTransGen E d start := by
  induction hd with
  | refl => exact .refl
  | tail _ hbc ih =>
    obtain ⟨next, hnext, hback⟩ := TransGen.head'_iff.1 (TransGen.trans_right ih hcycle)
    rw [functional hbc hnext]
    exact hback

/-- **What a walk lists.**  Walks down and up that came to their ends list the members on a chain with the start, exactly
where the start is on no cycle, or on one that is replaced only at the start. -/
theorem complete_iff (functional : Relator.RightUnique E) (hdown : ∀ d, ReflTransGen E start d ↔ d ∈ start :: earlier)
    (hup : Ascent E start earlier later []) :
    (∀ d, d ∈ start :: earlier ∨ d ∈ later ↔ Related E start d) ↔ Uncrossed E start := by
  constructor
  · intro hlisted hcycle a b hab hb hne
    -- the rest of the cycle leads back to the start
    have hback : ReflTransGen E b start := back_of_cycle functional hcycle hb
    rcases (hlisted a).2 (.inr (hback.head hab)) with ha | ha
    · exact (hdown a).2 ha
    · obtain ⟨c, hc, hac⟩ := hup.step a ha
      obtain rfl := functional hab hac
      exact absurd ((hdown b).1 hb) (hup.fresh b ((mem_cons.1 hc).resolve_left hne))
  · intro huncrossed d
    refine ⟨fun h => h.elim (fun h => .inl ((hdown d).2 h)) fun h => .inr (hup.reaches d h), fun h => ?_⟩
    rcases h with h | h
    · exact .inl ((hdown d).1 h)
    · induction h using ReflTransGen.head_induction_on with
      | refl => exact .inl mem_cons_self
      | head hab hbs ih =>
        rename_i a b
        by_cases hlater : b ∈ start :: later
        · exact hup.closed b hlater not_mem_nil a hab
        · -- a cycle through the start
          have hb : ReflTransGen E start b := (hdown b).2 (ih.resolve_right fun h => hlater (mem_cons_of_mem _ h))
          have hne : b ≠ start := fun heq => hlater (heq ▸ mem_cons_self)
          have hcycle : TransGen E start start := by
            rcases reflTransGen_iff_eq_or_transGen.1 hb with heq | hb
            · exact absurd heq hne
            · exact hb.trans_left hbs
          exact .inl ((hdown a).1 (huncrossed hcycle a b hab hb hne))

end Chains
