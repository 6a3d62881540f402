import AgentContext.Retrieval.Evidence
import Mathlib.Data.List.Flatten

/-!
# What a page has loaded

A page that starts at `s` loads the candidates' events window after window: `loadWindow` candidates at `s`, the next
ones at `s + loadWindow`, and so on.  Each load asks for the events it has not asked for before (`freshIds`) and gets
the newest of them.

    Evidence     what may be cited of an id
    Kept         what a page has of it when it comes to a position
-/

namespace Retrieval

open Keyset List

variable {U E R : Type} [LinearOrder U] (src : Sources U E R) (ranked : Ranked E)

/-! ## Evidence -/

/-- The event that an id may be cited by: one that was loaded before and is admitted, or one that the store finds. -/
def Evidence (id : String) (e : E) : Prop :=
  (ranked.loaded id = some e ∧ src.admits e = true) ∨ ∃ u, src.uuid.text u = id ∧ src.found u = some e

/-- The store has one event of an id, and finds only what the scope admits. -/
def Consistent : Prop :=
  ∀ u e e', ranked.loaded (src.uuid.text u) = some e → src.found u = some e' → e' = e ∧ src.admits e' = true

/-- The candidate at a position has citable evidence. -/
def Citable (p : Nat) : Prop :=
  ∃ candidate, ranked.candidates[p]? = some candidate ∧
    ∃ c ∈ candidate.citations, ∃ e, Evidence src ranked c.eventId e ∧ (src.ref e c).isSome = true

/-! ## Windows -/

/-- The ids that the candidates of a window cite. -/
def askedIds (s i : Nat) : List String := citedIds (windowAt ranked (s + loadWindow * i))

/-- The ids that no earlier load of the page asked for, and none before it. -/
def freshIds (s i : Nat) : List String :=
  (askedIds ranked s i).filter fun id => (ranked.loaded id).isNone && decide (∀ j < i, id ∉ askedIds ranked s j)

/-- What a page from `s` has of an id after `n` windows: the newest of each window's fresh ids. -/
def Kept (s n : Nat) (id : String) (e : E) : Prop :=
  (ranked.loaded id = some e ∧ src.admits e = true) ∨
    ∃ i < n, ∃ u ∈ newestIds (sortedSet ((freshIds ranked s i).filterMap src.uuid.parse)),
      src.uuid.text u = id ∧ src.found u = some e

/-- The candidate at a position keeps a citation when a page from `s` comes to it. -/
def Shown (s p : Nat) : Prop :=
  ∃ candidate, ranked.candidates[p]? = some candidate ∧ ∃ c ∈ candidate.citations, ∃ e,
    Kept src ranked s ((p - s) / loadWindow + 1) c.eventId e ∧ (src.ref e c).isSome = true

variable {src ranked} {s n p : Nat} {id : String} {e e' : E}
variable {st : Renderer E}

omit [LinearOrder U] in
theorem text_inj {u u' : U} (h : src.uuid.text u = src.uuid.text u') : u = u' := by
  have hparse := src.uuid.parse_text u
  rw [h, src.uuid.parse_text] at hparse
  exact (Option.some.inj hparse).symm

theorem Kept.evidence (h : Kept src ranked s n id e) : Evidence src ranked id e :=
  h.imp (fun h => h) fun ⟨_, _, u, _, htext, hfound⟩ => ⟨u, htext, hfound⟩

omit [LinearOrder U] in
theorem Evidence.unique (hconsistent : Consistent src ranked) (h : Evidence src ranked id e)
    (h' : Evidence src ranked id e') : e = e' := by
  rcases h with ⟨hloaded, -⟩ | ⟨u, rfl, hfound⟩ <;> rcases h' with ⟨hloaded', -⟩ | ⟨u', htext, hfound'⟩
  · exact Option.some.inj (hloaded.symm.trans hloaded')
  · exact (hconsistent u' e e' (htext ▸ hloaded) hfound').1.symm
  · exact (hconsistent u e' e hloaded' hfound).1
  · rw [text_inj htext, hfound] at hfound'
    exact Option.some.inj hfound'

theorem Shown.citable (h : Shown src ranked s p) : Citable src ranked p := by
  obtain ⟨candidate, hcandidate, c, hc, e, hkept, href⟩ := h
  exact ⟨candidate, hcandidate, c, hc, e, hkept.evidence, href⟩

/-! ## Loads -/

/-- What a load finds. -/
theorem events_eq_some {ids : List String} : (src.events ids).events id = some e ↔
      ∃ u ∈ newestIds (sortedSet (ids.filterMap src.uuid.parse)), src.uuid.text u = id ∧ src.found u = some e := by
  unfold Sources.events
  simp only
  rw [Option.bind_eq_some_iff]
  constructor
  · rintro ⟨u, hu, hfound⟩
    exact ⟨u, mem_of_find?_eq_some hu, by simpa using find?_some hu, hfound⟩
  · rintro ⟨u, hu, htext, hfound⟩
    refine ⟨u, ?_, hfound⟩
    cases hfind : (newestIds (sortedSet (ids.filterMap src.uuid.parse))).find? fun u => src.uuid.text u = id with
    | none => exact absurd (find?_eq_none.1 hfind u hu) (by simp [htext])
    | some u' =>
      have htext' : src.uuid.text u' = id := by simpa using find?_some hfind
      rw [text_inj (htext'.trans htext.symm)]

/-- What a renderer knows after `n` windows of a page from `s`. -/
structure AfterWindows (src : Sources U E R) (ranked : Ranked E) (s n : Nat) (st : Renderer E) : Prop where
  seen : ∀ id, st.seen id = true ↔ (ranked.loaded id).isSome = true ∨ ∃ j < n, id ∈ askedIds ranked s j
  events : ∀ id e, st.events id = some e ↔ Kept src ranked s n id e

theorem AfterWindows.loadEvents (hconsistent : Consistent src ranked) (h : AfterWindows src ranked s n st) :
    AfterWindows src ranked s (n + 1) (st.loadEvents src (windowAt ranked (s + loadWindow * n))) := by
  have hfresh : (citedIds (windowAt ranked (s + loadWindow * n))).filter (fun id => !st.seen id) = freshIds ranked s n := by
    refine filter_congr fun id _ => ?_
    rw [Bool.eq_iff_iff, Bool.not_eq_true', ← Bool.not_eq_true, h.seen]
    simp [Option.isNone_iff_eq_none, Option.isSome_iff_ne_none, not_or]
  have hkept : ∀ id e, Kept src ranked s (n + 1) id e ↔
      (src.events (freshIds ranked s n)).events id = some e ∨ Kept src ranked s n id e := by
    intro id e
    rw [events_eq_some]
    constructor
    · rintro (hloaded | ⟨i, hi, hrest⟩)
      · exact Or.inr (Or.inl hloaded)
      · rcases Nat.lt_succ_iff_lt_or_eq.1 hi with hi | rfl
        · exact Or.inr (Or.inr ⟨i, hi, hrest⟩)
        · exact Or.inl hrest
    · rintro (hrest | hloaded | ⟨i, hi, hrest⟩)
      · exact Or.inr ⟨n, Nat.lt_succ_self n, hrest⟩
      · exact Or.inl hloaded
      · exact Or.inr ⟨i, Nat.lt_succ_of_lt hi, hrest⟩
  have hasked : ∀ id, st.seen id = true ∨ id ∈ freshIds ranked s n ↔
      (ranked.loaded id).isSome = true ∨ ∃ j < n + 1, id ∈ askedIds ranked s j := by
    intro id
    rw [← hfresh, mem_filter, Bool.not_eq_true', h.seen]
    constructor
    · rintro ((hloaded | ⟨j, hj, hin⟩) | ⟨hin, -⟩)
      · exact Or.inl hloaded
      · exact Or.inr ⟨j, Nat.lt_succ_of_lt hj, hin⟩
      · exact Or.inr ⟨n, Nat.lt_succ_self n, hin⟩
    · rintro (hloaded | ⟨j, hj, hin⟩)
      · exact Or.inl (Or.inl hloaded)
      · rcases Nat.lt_succ_iff_lt_or_eq.1 hj with hj | rfl
        · exact Or.inl (Or.inr ⟨j, hj, hin⟩)
        · by_cases hseen : st.seen id = true
          · exact Or.inl ((h.seen id).1 hseen)
          · exact Or.inr ⟨hin, Bool.not_eq_true _ ▸ hseen⟩
  unfold Renderer.loadEvents
  simp only [hfresh]
  by_cases hempty : freshIds ranked s n = []
  · rw [if_pos (by simp [hempty])]
    refine ⟨fun id => ?_, fun id e => ?_⟩
    · rw [← hasked id, hempty]
      simp
    · rw [hkept, h.events, hempty, events_eq_some]
      simp [newestIds, sortedSet]
  · rw [if_neg (by simpa using hempty)]
    refine ⟨fun id => ?_, fun id e => ?_⟩
    · rw [← hasked id]
      simp
    · rw [hkept, ← h.events]
      dsimp only
      rw [Option.or_eq_some_iff]
      constructor
      · rintro (hfound | ⟨-, hkeep⟩)
        · exact Or.inl hfound
        · exact Or.inr hkeep
      · rintro (hfound | hkeep)
        · exact Or.inl hfound
        · cases hfind : (src.events (freshIds ranked s n)).events id with
          | none => exact Or.inr ⟨rfl, hkeep⟩
          | some e' =>
            -- an event that is loaded again is the same event
            have hsame := Evidence.unique hconsistent ((hkept id e').2 (Or.inl hfind)).evidence
              ((h.events id e).1 hkeep).evidence
            exact Or.inl (congrArg some hsame)

/-! ## Positions -/

/-- What a renderer knows, and how far it has loaded. -/
structure Loaded (src : Sources U E R) (ranked : Ranked E) (s n : Nat) (st : Renderer E) : Prop
    extends AfterWindows src ranked s n st where
  loadedTo : st.loadedTo = if n = 0 then 0 else min (s + loadWindow * n) ranked.candidates.length

/-- The windows of a page from `s` that has come to a position, and of one that is about to. -/
def windowsTo (s p : Nat) : Nat := (p - s) / loadWindow + 1

def windowsBefore (s p : Nat) : Nat := (p - s + (loadWindow - 1)) / loadWindow

theorem windowsBefore_succ (hs : s ≤ p) : windowsBefore s (p + 1) = windowsTo s p := by
  unfold windowsBefore windowsTo loadWindow
  omega

theorem Loaded.load (hconsistent : Consistent src ranked) (h : Loaded src ranked s n st)
    (hn : n = windowsBefore s p ∨ n = windowsTo s p) (hs : s ≤ p) (hp : p < ranked.candidates.length) :
    Loaded src ranked s (windowsTo s p) (st.load src ranked p) := by
  have hto := h.loadedTo
  unfold Renderer.load
  by_cases hin : n = windowsTo s p
  · have hpos : n ≠ 0 := hin ▸ Nat.succ_ne_zero _
    have hlt : p < st.loadedTo := by
      rw [hto, if_neg hpos, hin]
      unfold windowsTo loadWindow
      omega
    rw [if_pos hlt]
    exact hin ▸ h
  · have hbefore : n = windowsBefore s p := hn.resolve_right hin
    have hstart : p = s + loadWindow * n ∧ windowsTo s p = n + 1 := by
      simp only [windowsTo, windowsBefore, loadWindow] at hin hbefore ⊢
      omega
    have hge : ¬p < st.loadedTo := by
      rw [hto]
      split <;> omega
    rw [if_neg hge, hstart.2]
    have hwindows := h.toAfterWindows.loadEvents hconsistent
    rw [← hstart.1] at hwindows
    refine { seen := hwindows.seen, events := hwindows.events, loadedTo := ?_ }
    have hlen : (windowAt ranked p).length = min loadWindow (ranked.candidates.length - p) := by simp [windowAt]
    dsimp only
    rw [if_neg (Nat.succ_ne_zero n), hlen]
    have hp' := hstart.1
    unfold loadWindow at *
    omega

/-! ## Items -/

theorem Loaded.citable_iff (h : Loaded src ranked s (windowsTo s p) st) {candidate : Candidate}
    (hcandidate : ranked.candidates[p]? = some candidate) :
    st.citable src candidate = true ↔ Shown src ranked s p := by
  unfold Renderer.citable Shown
  rw [any_eq_true]
  constructor
  · rintro ⟨c, hc, hsome⟩
    obtain ⟨r, hr⟩ := Option.isSome_iff_exists.1 hsome
    obtain ⟨e, he, href⟩ := Option.bind_eq_some_iff.1 hr
    exact ⟨candidate, hcandidate, c, hc, e, (h.events _ _).1 he, by rw [href]; rfl⟩
  · rintro ⟨candidate', hcandidate', c, hc, e, hkept, href⟩
    cases hcandidate.symm.trans hcandidate'
    refine ⟨c, hc, ?_⟩
    rw [(h.events _ _).2 hkept]
    exact href

omit [LinearOrder U] in
theorem render_isSome {candidate : Candidate} {quoted : Bool} :
    (st.render src candidate quoted).isSome = st.citable src candidate := by
  have hrefs : (refsOf src candidate st.events).isEmpty = !st.citable src candidate := by
    rw [Bool.eq_iff_iff, Bool.not_eq_true', ← Bool.not_eq_true, Renderer.citable, any_eq_true, List.isEmpty_iff,
      refsOf, filterMap_eq_nil_iff]
    constructor
    · rintro h ⟨c, hc, hsome⟩
      simp [h c hc] at hsome
    · intro h c hc
      rw [← Option.not_isSome_iff_eq_none]
      exact fun hsome => h ⟨c, hc, hsome⟩
  unfold Renderer.render renderItem
  simp only [hrefs]
  cases st.citable src candidate <;> simp

omit [LinearOrder U] in
theorem render_itemId {st : Renderer E} {candidate : Candidate} {quoted : Bool} {item : ContextItem R}
    (h : st.render src candidate quoted = some item) : item.itemId = candidate.itemId := by
  unfold Renderer.render renderItem at h
  simp only at h
  split at h
  · cases h
  · cases h
    rfl

/-! ## Few citations -/

end Retrieval
