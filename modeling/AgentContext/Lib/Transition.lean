import Mathlib.Logic.Relation

/-!
# Labelled transition functions

A system is a partial step function `step : σ → ℓ → Option σ`: the label carries every choice the
environment makes, and `none` says that the step is not enabled.  `run` takes a list of labels,
`Reachable` is "some run ends here", and the two rules below are the only inductions over runs
that the system models need:

    invariant holds at the start, every step keeps it  →  every reachable state has it   (Reachable.invariant)
    the same over runs whose steps all meet a condition                                  (run_invariant_where)
    every step of a kind brings a measure down  →  runs of that kind are short           (run_measure)
-/

namespace Transition

variable {σ ℓ : Type}

/-- The steps `ls` in order; `none` as soon as one of them is not enabled. -/
def run (step : σ → ℓ → Option σ) : σ → List ℓ → Option σ
  | s, [] => some s
  | s, l :: ls => (step s l).bind fun s' => run step s' ls

/-- Some run from `init` ends in `s`. -/
def Reachable (step : σ → ℓ → Option σ) (init s : σ) : Prop :=
  ∃ ls, run step init ls = some s

/-- Every step of the run `ls` from `s` meets `ok`, a condition on the label and the state before it. -/
def Meets (step : σ → ℓ → Option σ) (ok : σ → ℓ → Prop) : σ → List ℓ → Prop
  | _, [] => True
  | s, l :: ls => ok s l ∧ ∀ s', step s l = some s' → Meets step ok s' ls

variable {step : σ → ℓ → Option σ}
variable {ls : List ℓ} {I : σ → Prop}
variable {ok : σ → ℓ → Prop}

instance decidableMeets {ok : σ → ℓ → Prop} [∀ s l, Decidable (ok s l)] :
    (s : σ) → (ls : List ℓ) → Decidable (Meets step ok s ls)
  | _, [] => isTrue trivial
  | s, l :: ls =>
    match h : step s l with
    | none => decidable_of_iff (ok s l) ⟨fun hok => ⟨hok, fun s' hs => by rw [h] at hs; cases hs⟩, And.left⟩
    | some t =>
      have : Decidable (Meets step ok t ls) := decidableMeets t ls
      decidable_of_iff (ok s l ∧ Meets step ok t ls)
        ⟨fun hok => ⟨hok.1, fun s' hs => by rw [h] at hs; cases hs; exact hok.2⟩, fun hok => ⟨hok.1, hok.2 t h⟩⟩

/-- A condition on the labels alone. -/
theorem Meets.of_labels : ∀ {ls : List ℓ}, (∀ l ∈ ls, ∀ s, ok s l) → ∀ s, Meets step ok s ls
  | [], _, _ => trivial
  | l :: _, h, s => ⟨h l List.mem_cons_self s, fun s' _ => Meets.of_labels (fun m hm => h m (List.mem_cons_of_mem l hm)) s'⟩

@[simp] theorem run_nil (s : σ) : run step s [] = some s := rfl

theorem run_cons {s t : σ} {l : ℓ} :
    run step s (l :: ls) = some t ↔ ∃ s', step s l = some s' ∧ run step s' ls = some t := by
  simp [run, Option.bind_eq_some_iff]

theorem run_append {s t : σ} {ls ms : List ℓ} :
    run step s (ls ++ ms) = some t ↔ ∃ s', run step s ls = some s' ∧ run step s' ms = some t := by
  induction ls generalizing s with
  | nil => simp
  | cons l ls ih =>
    rw [List.cons_append, run_cons]
    constructor
    · rintro ⟨s', h1, h2⟩
      obtain ⟨u, h3, h4⟩ := ih.1 h2
      exact ⟨u, run_cons.2 ⟨s', h1, h3⟩, h4⟩
    · rintro ⟨u, h1, h2⟩
      obtain ⟨s', h3, h4⟩ := run_cons.1 h1
      exact ⟨s', h3, ih.2 ⟨u, h4, h2⟩⟩

theorem Reachable.refl (s : σ) : Reachable step s s := ⟨[], rfl⟩

theorem Reachable.next {init s t : σ} {l : ℓ} (h : Reachable step init s) (hs : step s l = some t) :
    Reachable step init t := by
  obtain ⟨ls, hls⟩ := h
  exact ⟨ls ++ [l], run_append.2 ⟨s, hls, run_cons.2 ⟨t, hs, rfl⟩⟩⟩

theorem Reachable.trans {s t u : σ} (h : Reachable step s t) (h' : Reachable step t u) : Reachable step s u := by
  obtain ⟨ls, hls⟩ := h
  obtain ⟨ms, hms⟩ := h'
  exact ⟨ls ++ ms, run_append.2 ⟨t, hls, hms⟩⟩

/-- A property kept by every step is kept by every run. -/
theorem run_invariant (keep : ∀ s l t, I s → step s l = some t → I t) :
    ∀ {s t : σ}, I s → run step s ls = some t → I t := by
  induction ls with
  | nil =>
    intro s t hi h
    simp only [run_nil, Option.some.injEq] at h
    exact h ▸ hi
  | cons l ls ih =>
    intro s t hi h
    obtain ⟨s', h1, h2⟩ := run_cons.1 h
    exact ih (keep s l s' hi h1) h2

/-- **Invariant rule.** -/
theorem Reachable.invariant {init s : σ} (h : Reachable step init s) (start : I init)
    (keep : ∀ s l t, I s → step s l = some t → I t) : I s := by
  obtain ⟨ls, hls⟩ := h
  exact run_invariant keep start hls

/-- **Invariant rule under a condition on the steps.** -/
theorem run_invariant_where (keep : ∀ s l t, I s → ok s l → step s l = some t → I t) :
    ∀ {s t : σ}, I s → Meets step ok s ls → run step s ls = some t → I t := by
  induction ls with
  | nil =>
    intro s t hi _ h
    simp only [run_nil, Option.some.injEq] at h
    exact h ▸ hi
  | cons l ls ih =>
    intro s t hi hm h
    obtain ⟨s', h1, h2⟩ := run_cons.1 h
    exact ih (keep s l s' hi hm.1 h1) (hm.2 s' h1) h2

/-- **Measure rule.** -/
theorem run_measure {P : ℓ → Prop} {μ : σ → Nat} (keep : ∀ s l t, I s → step s l = some t → I t)
    (less : ∀ s l t, I s → P l → step s l = some t → μ t < μ s) :
    ∀ {s t : σ}, I s → (∀ l ∈ ls, P l) → run step s ls = some t → ls.length + μ t ≤ μ s := by
  induction ls with
  | nil =>
    intro s t _ _ h
    simp only [run_nil, Option.some.injEq] at h
    simp [h]
  | cons l ls ih =>
    intro s t hi hl h
    obtain ⟨s', h1, h2⟩ := run_cons.1 h
    have hrest := ih (keep s l s' hi h1) (fun m hm => hl m (List.mem_cons_of_mem l hm)) h2
    have hless := less s l s' hi (hl l List.mem_cons_self) h1
    rw [List.length_cons]
    omega

end Transition
