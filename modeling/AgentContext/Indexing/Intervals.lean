import AgentContext.Lib.Keyset
import AgentContext.Lib.Nearest
import Mathlib.Data.List.Induction
import Mathlib.Data.Prod.Lex

/-!
# Spans that nest

`_Intervals` of `emitter.py`.

    Intervals           the arrays, as `__init__` builds them
    innermost           the climb from the last span that starts at or before the query
    smallest            the linear scan
    innermost_spec      the climb ends at the containing span that is last in the order of the arrays, nested or not
    innermost_iff       of spans that nest, both find the same, but where an empty query stands between two spans
-/

namespace Indexing.Spans

open List

/-- An entry: `start`, `end` and what is there. -/
structure Span (T : Type) where
  start : Int
  stop : Int
  item : T
deriving DecidableEq, Repr

variable {T : Type}
variable {a b : Span T × Nat}

/-- The sort key `(start, -end, -index)`. -/
def key (entry : Span T × Nat) : Int ×ₗ Int ×ₗ Int := toLex (entry.1.start, toLex (-entry.1.stop, -entry.2))

structure Intervals (T : Type) where
  starts : List Int
  ends : List Int
  items : List T
  parents : List (Option Nat)

def ordered (entries : List (Span T)) : List (Span T × Nat) := Keyset.sortBy key entries.zipIdx

def height (ends : List Int) (position : Nat) : Int := ends.getD position 0

/-- `__init__`. -/
def Intervals.of (entries : List (Span T)) : Intervals T where
  starts := (ordered entries).map (·.1.start)
  ends := (ordered entries).map (·.1.stop)
  items := (ordered entries).map (·.1.item)
  parents := Nearest.parents (height ((ordered entries).map (·.1.stop))) (ordered entries).length

/-- `bisect_right` in an ascending list. -/
def bisectRight (xs : List Int) (x : Int) : Nat := (xs.takeWhile (· ≤ x)).length

def Intervals.innermost (spans : Intervals T) (begin stop : Int) : Option T :=
  -- A position more than the last one that may be climbed from, which is none at zero.
  let position := bisectRight spans.starts begin
  (Nearest.climb (height spans.ends) spans.parents stop position (if position = 0 then none else some (position - 1))).bind
    fun found => spans.items[found]?

/-! ## The linear scan -/

def Span.Contains (span : Span T) (begin stop : Int) : Prop := span.start ≤ begin ∧ stop ≤ span.stop

instance (span : Span T) (begin stop : Int) : Decidable (span.Contains begin stop) :=
  inferInstanceAs (Decidable (_ ∧ _))

def Span.size (span : Span T) : Int := span.stop - span.start

def scanStep (begin stop : Int) (best : Option (Span T)) (span : Span T) : Option (Span T) :=
  if span.Contains begin stop ∧ best.all (span.size < ·.size) then some span else best

/-- The smallest span that contains the query, the first listed of those. -/
def smallest (entries : List (Span T)) (begin stop : Int) : Option T :=
  (entries.foldl (scanStep begin stop) none).map (·.item)

/-- Smaller, or as small and listed before. -/
def Before (a b : Span T × Nat) : Prop := a.1.size < b.1.size ∨ a.1.size = b.1.size ∧ a.2 < b.2

/-- One is inside the other, or they do not overlap. -/
def Nested (a b : Span T) : Prop :=
  a.start ≤ b.start ∧ b.stop ≤ a.stop ∨ b.start ≤ a.start ∧ a.stop ≤ b.stop ∨ a.stop ≤ b.start ∨ b.stop ≤ a.start

/-- Where an empty query stands at the end of a span, of the spans that start there one is before it. -/
def Apart (entries : List (Span T)) (begin stop : Int) : Prop :=
  begin = stop → ∀ l ∈ entries.zipIdx, l.1.start < begin → l.1.stop = begin → ∀ r ∈ entries.zipIdx, r.1.start = begin →
    ∃ r' ∈ entries.zipIdx, r'.1.start = begin ∧ Before r' l

/-! ## What the climb finds -/

theorem key_le : key a ≤ key b ↔ a.1.start < b.1.start ∨
    a.1.start = b.1.start ∧ (b.1.stop < a.1.stop ∨ a.1.stop = b.1.stop ∧ b.2 ≤ a.2) := by
  unfold key
  rw [Prod.Lex.toLex_le_toLex, Prod.Lex.toLex_le_toLex]
  omega

variable {entries : List (Span T)} {begin stop : Int}

theorem mem_ordered {entry : Span T × Nat} : entry ∈ ordered entries ↔ entry ∈ entries.zipIdx := Keyset.mem_sortBy

theorem lt_bisectRight {i : Nat} (hi : i < (ordered entries).length) :
    i < bisectRight (Intervals.of entries).starts begin ↔ (ordered entries)[i].1.start ≤ begin := by
  have hsorted := Keyset.sortBy_le key entries.zipIdx
  show i < (((ordered entries).map (·.1.start)).takeWhile (· ≤ begin)).length ↔ _
  change (ordered entries).Pairwise _ at hsorted
  generalize ordered entries = rows at hi hsorted ⊢
  induction rows generalizing i with
  | nil => exact absurd hi (Nat.not_lt_zero i)
  | cons row rows ih =>
    obtain ⟨hrow, hrows⟩ := pairwise_cons.1 hsorted
    rw [map_cons, takeWhile_cons]
    by_cases hstart : row.1.start ≤ begin
    · rw [if_pos (by simpa using hstart), length_cons]
      cases i with
      | zero => exact iff_of_true (Nat.succ_pos _) hstart
      | succ i => exact Nat.succ_lt_succ_iff.trans (ih (Nat.lt_of_succ_lt_succ hi) hrows)
    · rw [if_neg (by simpa using hstart), length_nil]
      refine iff_of_false (Nat.not_lt_zero i) ?_
      cases i with
      | zero => exact hstart
      | succ i =>
        have := key_le.1 (hrow _ (getElem_mem (Nat.lt_of_succ_lt_succ hi)))
        rw [getElem_cons_succ]
        omega

/-- **The climb ends at the last of the spans that contain the query**, whether they nest or not. -/
theorem innermost_spec (entries : List (Span T)) (begin stop : Int) :
    (∀ entry ∈ entries.zipIdx, ¬entry.1.Contains begin stop) ∧ (Intervals.of entries).innermost begin stop = none ∨
      ∃ entry ∈ entries.zipIdx, entry.1.Contains begin stop ∧
        (Intervals.of entries).innermost begin stop = some entry.1.item ∧
        ∀ other ∈ entries.zipIdx, other.1.Contains begin stop → key other ≤ key entry := by
  have hheight : ∀ i (hi : i < (ordered entries).length),
      height ((ordered entries).map (·.1.stop)) i = (ordered entries)[i].1.stop := by
    intro i hi
    rw [height, getD_eq_getElem?_getD, getElem?_map, getElem?_eq_getElem hi]
    rfl
  have hle : bisectRight (Intervals.of entries).starts begin ≤ (ordered entries).length := by
    have := (List.takeWhile_prefix (· ≤ begin) (l := (ordered entries).map (·.1.start))).length_le
    rwa [length_map] at this
  have hclimb : (Intervals.of entries).innermost begin stop =
      (Nearest.last (height ((ordered entries).map (·.1.stop))) stop (bisectRight (Intervals.of entries).starts begin)).bind
        fun found => ((ordered entries).map (·.1.item))[found]? := by
    unfold Intervals.innermost
    dsimp only
    generalize bisectRight (Intervals.of entries).starts begin = position at hle ⊢
    cases position with
    | zero => rfl
    | succ position =>
      rw [if_neg (Nat.succ_ne_zero position), Nat.add_sub_cancel]
      exact congrArg (Option.bind · _) (Nearest.climb_parents hle (Nat.lt_succ_self position))
  rw [hclimb]
  cases hlast : Nearest.last (height ((ordered entries).map (·.1.stop))) stop
      (bisectRight (Intervals.of entries).starts begin) with
  | none =>
    refine .inl ⟨fun entry hentry hcontains => ?_, rfl⟩
    obtain ⟨i, hi, rfl⟩ := mem_iff_getElem.1 (mem_ordered.2 hentry)
    have hlow := Nearest.last_eq_none hlast i ((lt_bisectRight hi).2 hcontains.1)
    rw [hheight i hi] at hlow
    exact absurd hcontains.2 (by omega)
  | some i =>
    obtain ⟨hbisect, hhigh, hlow⟩ := Nearest.last_eq_some hlast
    have hi : i < (ordered entries).length := Nat.lt_of_lt_of_le hbisect hle
    rw [hheight i hi] at hhigh
    refine .inr ⟨(ordered entries)[i], mem_ordered.1 (getElem_mem hi), ⟨(lt_bisectRight hi).1 hbisect, hhigh⟩, ?_, ?_⟩
    · rw [Option.bind_some, getElem?_map, getElem?_eq_getElem hi]
      rfl
    · intro other hother hcontains
      obtain ⟨j, hj, rfl⟩ := mem_iff_getElem.1 (mem_ordered.2 hother)
      rcases Nat.lt_trichotomy i j with hij | rfl | hij
      · have := hlow j hij ((lt_bisectRight hj).2 hcontains.1)
        rw [hheight j hj] at this
        exact absurd hcontains.2 (by omega)
      · exact le_refl _
      · exact pairwise_iff_getElem.1 (Keyset.sortBy_le key entries.zipIdx) j i hj hi hij

/-! ## What the scan finds -/

theorem smallest_spec (entries : List (Span T)) (begin stop : Int) :
    (∀ entry ∈ entries.zipIdx, ¬entry.1.Contains begin stop) ∧ entries.foldl (scanStep begin stop) none = none ∨
      ∃ entry ∈ entries.zipIdx, entry.1.Contains begin stop ∧ entries.foldl (scanStep begin stop) none = some entry.1 ∧
        ∀ other ∈ entries.zipIdx, other.1.Contains begin stop → ¬Before other entry := by
  induction entries using reverseRecOn with
  | nil => exact .inl ⟨fun entry hentry => (nomatch hentry), rfl⟩
  | append_singleton entries span ih =>
    have hmem : ∀ entry, entry ∈ (entries ++ [span]).zipIdx ↔ entry ∈ entries.zipIdx ∨ entry = (span, entries.length) := by
      intro entry
      rw [zipIdx_append, mem_append, Nat.zero_add]
      exact or_congr_right mem_singleton
    have hlt : ∀ entry ∈ entries.zipIdx, entry.2 < entries.length := fun entry hentry => by
      simpa using snd_lt_of_mem_zipIdx hentry
    rw [foldl_append, foldl_cons, foldl_nil]
    rcases ih with ⟨hnone, hbest⟩ | ⟨entry, hentry, hcontains, hbest, hleast⟩
    · rw [hbest]
      by_cases hspan : span.Contains begin stop
      · refine .inr ⟨(span, entries.length), (hmem _).2 (.inr rfl), hspan, if_pos ⟨hspan, rfl⟩, fun other hother ho => ?_⟩
        rcases (hmem other).1 hother with hother | rfl
        · exact absurd ho (hnone other hother)
        · unfold Before
          omega
      · refine .inl ⟨fun other hother ho => ?_, if_neg fun h => hspan h.1⟩
        rcases (hmem other).1 hother with hother | rfl
        · exact hnone other hother ho
        · exact hspan ho
    · rw [hbest]
      by_cases hspan : span.Contains begin stop ∧ span.size < entry.1.size
      · refine .inr ⟨(span, entries.length), (hmem _).2 (.inr rfl), hspan.1,
          if_pos ⟨hspan.1, decide_eq_true hspan.2⟩, fun other hother ho hbefore => ?_⟩
        rcases (hmem other).1 hother with hother | rfl
        · refine hleast other hother ho (.inl ?_)
          rcases hbefore with hbefore | hbefore
          · exact hbefore.trans hspan.2
          · exact hbefore.1 ▸ hspan.2
        · unfold Before at hbefore
          omega
      · refine .inr ⟨entry, (hmem _).2 (.inl hentry), hcontains, if_neg fun h => hspan ⟨h.1, of_decide_eq_true h.2⟩,
          fun other hother ho hbefore => ?_⟩
        rcases (hmem other).1 hother with hother | rfl
        · exact hleast other hother ho hbefore
        · have := hlt entry hentry
          rcases hbefore with hbefore | hbefore
          · exact hspan ⟨ho, hbefore⟩
          · exact absurd hbefore.2 (by omega)

/-! ## Both -/

theorem eq_of_index (ha : a ∈ entries.zipIdx) (hb : b ∈ entries.zipIdx) (h : a.2 = b.2) : a = b := by
  have ha := mk_mem_zipIdx_iff_getElem?.1 ha
  have hb := mk_mem_zipIdx_iff_getElem?.1 hb
  rw [h, hb] at ha
  exact Prod.ext (Option.some.inj ha).symm h

theorem nested_entries (hnested : entries.Pairwise Nested) (ha : a ∈ entries.zipIdx) (hb : b ∈ entries.zipIdx)
    (hne : a ≠ b) : Nested a.1 b.1 := by
  have hget : ∀ {c : Span T × Nat}, c ∈ entries.zipIdx → ∃ hlt : c.2 < entries.length, entries[c.2] = c.1 := fun hc =>
    List.getElem?_eq_some_iff.1 (mk_mem_zipIdx_iff_getElem?.1 hc)
  obtain ⟨hlta, hgeta⟩ := hget ha
  obtain ⟨hltb, hgetb⟩ := hget hb
  have hpairs := pairwise_iff_getElem.1 hnested
  rcases Nat.lt_trichotomy a.2 b.2 with h | h | h
  · exact hgeta ▸ hgetb ▸ hpairs _ _ hlta hltb h
  · exact absurd (eq_of_index ha hb h) hne
  · have := hgeta ▸ hgetb ▸ hpairs _ _ hltb hlta h
    unfold Nested at this ⊢
    omega

/-- Of spans that nest, where the two disagree an empty query is between a span that ends and one that starts. -/
theorem found_eq (hproper : ∀ span ∈ entries, span.start ≤ span.stop) (hnested : entries.Pairwise Nested)
    (hquery : begin ≤ stop) {last least : Span T × Nat} (hlast : last ∈ entries.zipIdx) (hleast : least ∈ entries.zipIdx)
    (hcontains : last.1.Contains begin stop) (hcontains' : least.1.Contains begin stop)
    (hkey : key least ≤ key last) (hbefore : ¬Before last least) :
    last = least ∨ begin = stop ∧ least.1.start < begin ∧ least.1.stop = begin ∧ last.1.start = begin := by
  by_cases hne : last = least
  · exact .inl hne
  · have hindex : last.2 ≠ least.2 := fun h => hne (eq_of_index hlast hleast h)
    have hlaminar := nested_entries hnested hlast hleast hne
    have hp := hproper _ (fst_mem_of_mem_zipIdx hlast)
    have hp' := hproper _ (fst_mem_of_mem_zipIdx hleast)
    rw [key_le] at hkey
    unfold Before Span.size at hbefore
    unfold Nested at hlaminar
    unfold Span.Contains at hcontains hcontains'
    omega

/-- **The climb finds what the scan finds exactly where no empty query is at the end of a span that is smaller than those
that start there.** -/
theorem innermost_iff (hproper : ∀ span ∈ entries, span.start ≤ span.stop) (hnested : entries.Pairwise Nested)
    (hquery : begin ≤ stop) :
    (Apart entries begin stop → (Intervals.of entries).innermost begin stop = smallest entries begin stop) ∧
      ((entries.map (·.item)).Nodup →
        (Intervals.of entries).innermost begin stop = smallest entries begin stop → Apart entries begin stop) := by
  unfold smallest
  rcases innermost_spec entries begin stop with ⟨hnone, hclimb⟩ | ⟨last, hlast, hcontains, hclimb, hgreatest⟩
  · rcases smallest_spec entries begin stop with ⟨-, hscan⟩ | ⟨least, hleast, hcontains, -⟩
    · rw [hclimb, hscan]
      refine ⟨fun _ => rfl, fun _ _ heq l hl hstart hstop => ?_⟩
      exact absurd ⟨Int.le_of_lt hstart, by omega⟩ (hnone l hl)
    · exact absurd hcontains (hnone least hleast)
  · rcases smallest_spec entries begin stop with ⟨hnone, -⟩ | ⟨least, hleast, hcontains', hscan, hfirst⟩
    · exact absurd hcontains (hnone last hlast)
    · rw [hclimb, hscan]
      refine ⟨fun hapart => ?_, fun hnodup heq => ?_⟩
      · rcases found_eq hproper hnested hquery hlast hleast hcontains hcontains' (hgreatest least hleast hcontains')
          (hfirst last hlast hcontains) with rfl | ⟨hempty, hstart, hstop, hstart'⟩
        · rfl
        · obtain ⟨r, hr, hrstart, hrbefore⟩ := hapart hempty least hleast hstart hstop last hlast hstart'
          have := hproper _ (List.fst_mem_of_mem_zipIdx hr)
          exact absurd hrbefore (hfirst r hr ⟨by omega, by omega⟩)
      · have hsame : last = least := by
          have hget := fun {c : Span T × Nat} (hc : c ∈ entries.zipIdx) =>
            congrArg (Option.map (·.item)) (List.mk_mem_zipIdx_iff_getElem?.1 hc)
          have hitems := (hget hlast).trans (heq.trans (hget hleast).symm)
          rw [← List.getElem?_map, ← List.getElem?_map] at hitems
          have hlt : last.2 < (entries.map (·.item)).length := by
            simpa using List.snd_lt_of_mem_zipIdx hlast
          exact eq_of_index hlast hleast ((List.getElem?_inj hlt hnodup).1 hitems)
        subst hsame
        intro hempty l hl hstart hstop r hr hrstart
        have hlcontains : l.1.Contains begin stop := ⟨Int.le_of_lt hstart, by omega⟩
        have hp := hproper _ (List.fst_mem_of_mem_zipIdx hr)
        have hkey := key_le.1 (hgreatest r hr ⟨by omega, by omega⟩)
        have hstarts : last.1.start = begin := by
          have := hcontains.1
          omega
        refine ⟨last, hlast, hstarts, ?_⟩
        have hnot := hfirst l hl hlcontains
        have hindex : last.2 ≠ l.2 := fun h => by
          have := congrArg (·.1.start) (eq_of_index hlast hl h)
          omega
        unfold Before at hnot ⊢
        omega

/-- A function, and the next one right behind it. -/
def adjacentSpans : List (Span String) := [⟨0, 5, "f"⟩, ⟨5, 12, "g"⟩]

theorem adjacent_nested : (∀ span ∈ adjacentSpans, span.start ≤ span.stop) ∧ adjacentSpans.Pairwise Nested := by
  unfold adjacentSpans Nested
  refine ⟨?_, ?_⟩ <;> simp

theorem innermost_iff_adjacent :
    (Intervals.of adjacentSpans).innermost 5 6 = smallest adjacentSpans 5 6 ∧ Apart adjacentSpans 5 6 := by
  have hiff := innermost_iff adjacent_nested.1 adjacent_nested.2 (by decide : (5 : Int) ≤ 6)
  have hfound := hiff.1 fun h => absurd h (by decide)
  exact ⟨hfound, hiff.2 (by decide) hfound⟩

/-- Between the two, the larger is found. -/
theorem innermost_between : ¬∀ (entries : List (Span String)) (begin stop : Int),
    (∀ span ∈ entries, span.start ≤ span.stop) → entries.Pairwise Nested → begin ≤ stop →
      (Intervals.of entries).innermost begin stop = smallest entries begin stop := by
  intro h
  have hfound := h adjacentSpans 5 5 adjacent_nested.1 adjacent_nested.2 (le_refl _)
  have hclimb : (Intervals.of adjacentSpans).innermost 5 5 = some "g" := rfl
  have hscan : smallest adjacentSpans 5 5 = some "f" := rfl
  rw [hclimb, hscan] at hfound
  exact absurd hfound (by decide)

end Indexing.Spans
