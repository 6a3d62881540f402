import Mathlib.Order.Lattice
import Mathlib.Data.List.Basic
import Mathlib.Data.Option.Basic

/-!
# Validity spans

Half-open spans of time with a key each, as a log of observations builds them.  An observation sees a key, or sees
that there is none, or says nothing:

    spans_ordered    the spans of a log in time order end before the next one starts
    keyAt_spans      the span at a time has the key of the last telling observation at or before it
    keyAt_clip       clipping to a window is the intersection with it, time by time
    spanAt_last      at a time that no span starts after, only the last span can be the one
-/

namespace Validity

variable {τ κ : Type} [LinearOrder τ]
variable {t : τ} {opened : Option (κ × τ)}

/-! ## Spans -/

/-- `[start, stop)`, or from `start` on. -/
structure Span (τ κ : Type) where
  key : κ
  start : τ
  stop : Option τ

def Span.Covers (s : Span τ κ) (t : τ) : Prop := s.start ≤ t ∧ ∀ e ∈ s.stop, t < e

instance (s : Span τ κ) (t : τ) : Decidable (s.Covers t) := inferInstanceAs (Decidable (_ ∧ _))

/-- The first span that covers a time. -/
def spanAt (spans : List (Span τ κ)) (t : τ) : Option (Span τ κ) := spans.find? fun s => s.Covers t

def keyAt (spans : List (Span τ κ)) (t : τ) : Option κ := (spanAt spans t).map (·.key)

/-- No span ends before it starts, and each ends before the later ones start. -/
structure Ordered (spans : List (Span τ κ)) : Prop where
  forward : ∀ s ∈ spans, ∀ e ∈ s.stop, s.start ≤ e
  apart : spans.Pairwise fun s s' => ∃ e ∈ s.stop, e ≤ s'.start

theorem Ordered.nil : Ordered ([] : List (Span τ κ)) := ⟨fun _ h => (nomatch h), List.Pairwise.nil⟩

variable {s : Span τ κ}
variable {u : τ}

theorem Ordered.cons {spans : List (Span τ κ)} (h : Ordered spans) (hforward : ∀ e ∈ s.stop, s.start ≤ e)
    (hapart : ∀ s' ∈ spans, ∃ e ∈ s.stop, e ≤ s'.start) :
    Ordered (s :: spans) where
  forward := by
    intro s' hs'
    rcases List.mem_cons.1 hs' with rfl | hs'
    · exact hforward
    · exact h.forward s' hs'
  apart := List.pairwise_cons.2 ⟨hapart, h.apart⟩

theorem Ordered.tail {spans : List (Span τ κ)} (h : Ordered (s :: spans)) : Ordered spans :=
  ⟨fun s' hs' => h.forward s' (List.mem_cons_of_mem _ hs'), (List.pairwise_cons.1 h.apart).2⟩

/-- **Ordered spans are disjoint.** -/
theorem Ordered.disjoint {spans : List (Span τ κ)} (h : Ordered spans) :
    spans.Pairwise fun s s' => ∀ t, ¬ (s.Covers t ∧ s'.Covers t) := by
  refine h.apart.imp ?_
  rintro s s' ⟨e, he, hle⟩ t ⟨hs, hs'⟩
  exact absurd (lt_of_lt_of_le (hs.2 e he) hle) (not_lt.2 hs'.1)

@[simp] theorem spanAt_nil (t : τ) : spanAt ([] : List (Span τ κ)) t = none := rfl

theorem spanAt_cons (s : Span τ κ) (spans : List (Span τ κ)) (t : τ) :
    spanAt (s :: spans) t = if s.Covers t then some s else spanAt spans t := by
  unfold spanAt
  rw [List.find?_cons]
  by_cases h : s.Covers t <;> simp [h]

theorem keyAt_cons (s : Span τ κ) (spans : List (Span τ κ)) (t : τ) :
    keyAt (s :: spans) t = if s.Covers t then some s.key else keyAt spans t := by
  unfold keyAt
  rw [spanAt_cons]
  split_ifs <;> rfl

inductive Observation (κ : Type) where
  | present (key : κ)
  | absent
  | unknown

def Observation.key? : Observation κ → Option κ
  | .present key => some key
  | _ => none

/-- Does it say anything? -/
def Observation.tells : Observation κ → Bool
  | .unknown => false
  | _ => true

/-- The key of the last telling observation at or before a time, or `before` where there is none. -/
def lastKnown (before : Option κ) (log : List (τ × Observation κ)) (t : τ) : Option κ :=
  ((log.filter fun o => o.1 ≤ t ∧ o.2.tells).getLast?).elim before (·.2.key?)

@[simp] theorem lastKnown_nil (before : Option κ) (t : τ) : lastKnown before [] t = before := rfl

theorem lastKnown_cons (before : Option κ) (o : τ × Observation κ) (log : List (τ × Observation κ)) (t : τ) :
    lastKnown before (o :: log) t = lastKnown (if o.1 ≤ t ∧ o.2.tells then o.2.key? else before) log t := by
  unfold lastKnown
  rw [List.filter_cons]
  by_cases h : o.1 ≤ t ∧ o.2.tells
  · simp only [decide_eq_true h, if_true, if_pos h, List.getLast?_cons]
    cases (log.filter fun o => o.1 ≤ t ∧ o.2.tells).getLast? <;> rfl
  · simp only [decide_eq_false h, Bool.false_eq_true, if_false, if_neg h]

variable {log : List (τ × Observation κ)}

/-- Observations after a time tell nothing about it. -/
theorem lastKnown_early (h : ∀ o ∈ log, t < o.1) (before : Option κ) : lastKnown before log t = before := by
  unfold lastKnown
  rw [List.filter_eq_nil_iff.2 fun o ho => by simp [not_le.2 (h o ho)]]
  rfl

variable [DecidableEq κ]

/-- The spans of a log, from one that may be open. -/
def spansFrom : Option (κ × τ) → List (τ × Observation κ) → List (Span τ κ)
  | opened, [] => (opened.map fun o => ⟨o.1, o.2, none⟩).toList
  | opened, (_, .unknown) :: log => spansFrom opened log
  | opened, (t, .absent) :: log => (opened.map fun o => ⟨o.1, o.2, some t⟩).toList ++ spansFrom none log
  | none, (t, .present key) :: log => spansFrom (some (key, t)) log
  | some (k, u), (t, .present key) :: log =>
    if k = key then spansFrom (some (k, u)) log else ⟨k, u, some t⟩ :: spansFrom (some (key, t)) log

def spans (log : List (τ × Observation κ)) : List (Span τ κ) := spansFrom none log

/-- In time order. -/
abbrev InOrder (log : List (τ × Observation κ)) : Prop := log.Pairwise (·.1 ≤ ·.1)

theorem spansFrom_start (hopened : ∀ o ∈ opened, u ≤ o.2) (hlog : ∀ o ∈ log, u ≤ o.1) :
    ∀ s ∈ spansFrom opened log, u ≤ s.start := by
  induction log generalizing opened with
  | nil =>
    intro s hs
    obtain ⟨o, ho, rfl⟩ := Option.map_eq_some_iff.1 (Option.mem_toList.1 hs)
    exact hopened o ho
  | cons o log ih =>
    obtain ⟨t, seen⟩ := o
    have ht : u ≤ t := hlog (t, seen) List.mem_cons_self
    have ih := fun opened hopened => @ih opened hopened fun o ho => hlog o (List.mem_cons_of_mem _ ho)
    have hnew : ∀ (key : κ), ∀ o ∈ some (key, t), u ≤ o.2 := fun _ o ho => Option.some.inj ho ▸ ht
    cases seen with
    | unknown => exact ih opened hopened
    | absent =>
      intro s hs
      rcases List.mem_append.1 hs with hs | hs
      · obtain ⟨o, ho, rfl⟩ := Option.map_eq_some_iff.1 (Option.mem_toList.1 hs)
        exact hopened o ho
      · exact ih none (fun _ h => nomatch h) s hs
    | present key =>
      cases opened with
      | none => exact ih _ (hnew key)
      | some o =>
        intro s hs
        unfold spansFrom at hs
        split_ifs at hs with hsame
        · exact ih _ hopened s hs
        · rcases List.mem_cons.1 hs with rfl | hs
          · exact hopened o rfl
          · exact ih _ (hnew key) s hs

theorem spansFrom_ordered (hlog : InOrder log) (hopened : ∀ o ∈ opened, ∀ o' ∈ log, o.2 ≤ o'.1) :
    Ordered (spansFrom opened log) := by
  induction log generalizing opened with
  | nil =>
    cases opened with
    | none => exact .nil
    | some o => exact Ordered.nil.cons (fun _ h => nomatch h) fun _ h => nomatch h
  | cons o log ih =>
    obtain ⟨t, seen⟩ := o
    obtain ⟨hafter, hrest⟩ := List.pairwise_cons.1 hlog
    have hnew : ∀ (key : κ), ∀ o ∈ some (key, t), ∀ o' ∈ log, o.2 ≤ o'.1 := fun _ o ho => Option.some.inj ho ▸ hafter
    have hrest' := fun opened h => @ih opened hrest h
    have hkept : ∀ o ∈ opened, ∀ o' ∈ log, o.2 ≤ o'.1 := fun o ho o' ho' => hopened o ho o' (List.mem_cons_of_mem _ ho')
    -- the open span is closed now, and what is opened from here on starts no earlier
    have hclosed : ∀ o ∈ opened, ∀ opened' : Option (κ × τ), (∀ o' ∈ opened', t ≤ o'.2) →
        Ordered (spansFrom opened' log) → Ordered (⟨o.1, o.2, some t⟩ :: spansFrom opened' log) := by
      intro o ho opened' hopened' h
      refine h.cons (fun e he => ?_) fun s hs => ⟨t, rfl, spansFrom_start hopened' hafter s hs⟩
      obtain rfl := Option.some.inj he
      exact hopened o ho (t, seen) List.mem_cons_self
    cases seen with
    | unknown => exact hrest' opened hkept
    | absent =>
      have hnone : Ordered (spansFrom none log) := hrest' none fun _ h => nomatch h
      cases opened with
      | none => exact hnone
      | some o => exact hclosed o rfl none (fun _ h => nomatch h) hnone
    | present key =>
      cases opened with
      | none => exact hrest' _ (hnew key)
      | some o =>
        unfold spansFrom
        split_ifs with hsame
        · exact hrest' _ hkept
        · exact hclosed o rfl _ (fun o' ho' => by rw [← Option.some.inj ho']) (hrest' _ (hnew key))

/-- **The spans of a log are ordered.** -/
theorem spans_ordered (hlog : InOrder log) : Ordered (spans log) := spansFrom_ordered hlog fun _ h => nomatch h

/-- The key of an open span, at a time that it has started by. -/
def openKey (opened : Option (κ × τ)) (t : τ) : Option κ := (opened.filter (·.2 ≤ t)).map (·.1)

section

omit [DecidableEq κ]

@[simp] theorem openKey_none (t : τ) : openKey (none : Option (κ × τ)) t = none := rfl

@[simp] theorem openKey_some (o : κ × τ) (t : τ) : openKey (some o) t = if o.2 ≤ t then some o.1 else none := by
  rw [openKey, Option.filter_some]
  by_cases h : o.2 ≤ t <;> simp [h]

/-- A span that is closed covers the times before its end, of which later observations tell nothing. -/
theorem closed_lastKnown {o : κ × τ} (hafter : ∀ o' ∈ log, u ≤ o'.1) (seen : Option κ) (t : τ) :
    (if (⟨o.1, o.2, some u⟩ : Span τ κ).Covers t then some o.1
      else lastKnown (if u ≤ t then seen else none) log t) =
      lastKnown (if u ≤ t then seen else openKey (some o) t) log t := by
  by_cases hu : u ≤ t
  · rw [if_neg fun hs => absurd (hs.2 u rfl) (not_lt.2 hu), if_pos hu, if_pos hu]
  · have hlate : ∀ o' ∈ log, t < o'.1 := fun o' ho' => lt_of_lt_of_le (not_le.1 hu) (hafter o' ho')
    have hcovers : (⟨o.1, o.2, some u⟩ : Span τ κ).Covers t ↔ o.2 ≤ t :=
      ⟨fun hs => hs.1, fun ho => ⟨ho, fun e he => Option.some.inj he ▸ not_le.1 hu⟩⟩
    rw [if_neg hu, if_neg hu, lastKnown_early hlate, lastKnown_early hlate, openKey_some]
    simp only [hcovers]

end

theorem keyAt_spansFrom (hlog : InOrder log) (hopened : ∀ o ∈ opened, ∀ o' ∈ log, o.2 ≤ o'.1) (t : τ) :
    keyAt (spansFrom opened log) t = lastKnown (openKey opened t) log t := by
  induction log generalizing opened with
  | nil =>
    cases opened with
    | none => rfl
    | some o =>
      show keyAt [⟨o.1, o.2, none⟩] t = _
      rw [keyAt_cons, lastKnown_nil, openKey_some]
      simp [Span.Covers, keyAt]
  | cons o log ih =>
    obtain ⟨u, seen⟩ := o
    obtain ⟨hafter, hrest⟩ := List.pairwise_cons.1 hlog
    have hkept : ∀ o ∈ opened, ∀ o' ∈ log, o.2 ≤ o'.1 := fun o ho o' ho' => hopened o ho o' (List.mem_cons_of_mem _ ho')
    rw [lastKnown_cons]
    cases seen with
    | unknown =>
      rw [if_neg (by simp [Observation.tells])]
      exact ih hrest hkept
    | absent =>
      have hnone : keyAt (spansFrom none log) t = lastKnown none log t := @ih none hrest fun _ h => nomatch h
      have htells : ((u, Observation.absent (κ := κ)).1 ≤ t ∧ (u, Observation.absent (κ := κ)).2.tells) ↔ u ≤ t :=
        and_iff_left rfl
      simp only [htells]
      cases opened with
      | none =>
        show keyAt (spansFrom none log) t = _
        rw [hnone, openKey_none]
        simp [Observation.key?]
      | some o =>
        show keyAt (⟨o.1, o.2, some u⟩ :: spansFrom none log) t = _
        have hclosed := closed_lastKnown (o := o) hafter none t
        rw [ite_self] at hclosed
        rw [keyAt_cons, hnone]
        exact hclosed
    | present key =>
      have hopen : keyAt (spansFrom (some (key, u)) log) t = lastKnown (if u ≤ t then some key else none) log t := by
        rw [@ih (some (key, u)) hrest fun o ho => Option.some.inj ho ▸ hafter, openKey_some]
      have htells : ((u, Observation.present key).1 ≤ t ∧ (u, Observation.present key).2.tells) ↔ u ≤ t :=
        and_iff_left rfl
      simp only [htells]
      cases opened with
      | none => exact hopen
      | some o =>
        have hou : o.2 ≤ u := hopened o rfl (u, .present key) List.mem_cons_self
        by_cases hsame : o.1 = key
        · -- nothing changes: the key is the open one
          have hstays : spansFrom (some o) ((u, .present key) :: log) = spansFrom (some o) log := if_pos hsame
          rw [hstays, ih hrest hkept, openKey_some]
          by_cases hu : u ≤ t
          · rw [if_pos (le_trans hou hu), if_pos hu, hsame]
            rfl
          · rw [if_neg hu]
        · have hcloses : spansFrom (some o) ((u, .present key) :: log) =
              ⟨o.1, o.2, some u⟩ :: spansFrom (some (key, u)) log := if_neg hsame
          rw [hcloses, keyAt_cons, hopen]
          exact closed_lastKnown hafter (some key) t

/-- **The span at a time has the key of the last telling observation at or before it.** -/
theorem keyAt_spans (hlog : InOrder log) (t : τ) : keyAt (spans log) t = lastKnown none log t :=
  @keyAt_spansFrom _ _ _ none log _ hlog (fun _ h => nomatch h) t

/-! ## Clipping -/

omit [DecidableEq κ]

/-- `[start, stop)`, or from `start` on. -/
structure Window (τ : Type) where
  start : τ
  stop : Option τ

def Window.Contains (w : Window τ) (t : τ) : Prop := w.start ≤ t ∧ ∀ e ∈ w.stop, t < e

instance (w : Window τ) (t : τ) : Decidable (w.Contains t) := inferInstanceAs (Decidable (_ ∧ _))

/-- A span cut down to end with a window. -/
def Span.endBy (s : Span τ κ) : Option τ → Option (Span τ κ)
  | none => some s
  | some e => if e ≤ s.start then none else if s.stop.all (e < ·) then some { s with stop := some e } else some s

/-- A span cut down to start with a window. -/
def Span.startAt (s : Span τ κ) (u : τ) : Option (Span τ κ) :=
  if s.start < u then (if s.stop.any (· ≤ u) then none else some { s with start := u }) else some s

def Window.clip (w : Window τ) (s : Span τ κ) : Option (Span τ κ) := (s.endBy w.stop).bind (·.startAt w.start)

theorem covers_endBy {s s' : Span τ κ} {stop : Option τ} (h : s.endBy stop = some s') (t : τ) :
    s'.Covers t ↔ s.Covers t ∧ ∀ e ∈ stop, t < e := by
  cases stop with
  | none =>
    obtain rfl := Option.some.inj h
    simp
  | some e =>
    simp only [Span.endBy] at h
    split_ifs at h with hlate hlonger
    · obtain rfl := Option.some.inj h
      have hbefore : ∀ e' ∈ s.stop, e < e' := by simpa [Option.all_eq_true] using hlonger
      constructor
      · intro hs
        have hte : t < e := hs.2 e rfl
        exact ⟨⟨hs.1, fun e' he' => lt_trans hte (hbefore e' he')⟩, fun e' he' => Option.some.inj he' ▸ hte⟩
      · exact fun hs => ⟨hs.1.1, hs.2⟩
    · obtain rfl := Option.some.inj h
      refine ⟨fun hs => ⟨hs, fun e' he' => ?_⟩, And.left⟩
      obtain rfl := Option.some.inj he'
      obtain ⟨e', he', hle⟩ : ∃ e' ∈ s.stop, e' ≤ e := by simpa [Option.all_eq_true] using hlonger
      exact lt_of_lt_of_le (hs.2 e' he') hle

theorem endBy_none {stop : Option τ} (h : s.endBy stop = none) (hs : s.Covers t) : ∃ e ∈ stop, e ≤ t := by
  cases stop with
  | none => cases h
  | some e =>
    simp only [Span.endBy] at h
    split_ifs at h with hlate
    exact ⟨e, rfl, le_trans hlate hs.1⟩

theorem covers_startAt {s s' : Span τ κ} (h : s.startAt u = some s') (t : τ) : s'.Covers t ↔ s.Covers t ∧ u ≤ t := by
  unfold Span.startAt at h
  split_ifs at h with hearly hended
  · obtain rfl := Option.some.inj h
    exact ⟨fun hs => ⟨⟨le_trans (le_of_lt hearly) hs.1, hs.2⟩, hs.1⟩, fun hs => ⟨hs.2, hs.1.2⟩⟩
  · obtain rfl := Option.some.inj h
    exact ⟨fun hs => ⟨hs, le_trans (not_lt.1 hearly) hs.1⟩, And.left⟩

theorem startAt_none (h : s.startAt u = none) (hs : s.Covers t) : t < u := by
  unfold Span.startAt at h
  split_ifs at h with hearly hended
  obtain ⟨e, he, hle⟩ : ∃ e ∈ s.stop, e ≤ u := by simpa [Option.any_eq_true] using hended
  exact lt_of_lt_of_le (hs.2 e he) hle

/-- **Clipping is the intersection with the window.** -/
theorem covers_clip {w : Window τ} : (∃ s' ∈ w.clip s, s'.Covers t) ↔ s.Covers t ∧ w.Contains t := by
  unfold Window.clip
  cases hend : s.endBy w.stop with
  | none =>
    constructor
    · rintro ⟨s', hs', -⟩
      cases hs'
    · rintro ⟨hs, hw⟩
      obtain ⟨e, he, hle⟩ := endBy_none hend hs
      exact absurd (hw.2 e he) (not_lt.2 hle)
  | some ended =>
    have hended := covers_endBy hend t
    rw [Option.bind_some]
    cases hstart : ended.startAt w.start with
    | none =>
      constructor
      · rintro ⟨s', hs', -⟩
        cases hs'
      · rintro ⟨hs, hw⟩
        exact absurd hw.1 (not_le.2 (startAt_none hstart (hended.2 ⟨hs, hw.2⟩)))
    | some started =>
      have hstarted := covers_startAt hstart t
      constructor
      · rintro ⟨s', hs', hcovers⟩
        obtain rfl := Option.some.inj hs'
        obtain ⟨hcovers, hafter⟩ := hstarted.1 hcovers
        exact ⟨(hended.1 hcovers).1, hafter, (hended.1 hcovers).2⟩
      · rintro ⟨hs, hafter, hbefore⟩
        exact ⟨started, rfl, hstarted.2 ⟨hended.2 ⟨hs, hbefore⟩, hafter⟩⟩

/-- What clipping leaves of a span: its key, an end that is no later, and a start that is no earlier, and in the
window or the span's own. -/
structure Clipped (w : Window τ) (s s' : Span τ κ) : Prop where
  key : s'.key = s.key
  start : s.start ≤ s'.start
  after : w.start ≤ s'.start
  start_eq : s'.start = s.start ∨ s'.start = w.start
  stop : ∀ e ∈ s.stop, ∃ e' ∈ s'.stop, e' ≤ e
  forward : (∀ e ∈ s.stop, s.start ≤ e) → ∀ e ∈ s'.stop, s'.start ≤ e

theorem clipped_of_clip {w : Window τ} {s s' : Span τ κ} (h : w.clip s = some s') : Clipped w s s' := by
  obtain ⟨ended, hend, hstart⟩ := Option.bind_eq_some_iff.1 h
  have hended : ended.key = s.key ∧ ended.start = s.start ∧ (∀ e ∈ s.stop, ∃ e' ∈ ended.stop, e' ≤ e) ∧
      ((∀ e ∈ s.stop, s.start ≤ e) → ∀ e ∈ ended.stop, s.start ≤ e) := by
    cases hstop : w.stop with
    | none =>
      rw [hstop] at hend
      obtain rfl := Option.some.inj hend
      exact ⟨rfl, rfl, fun e he => ⟨e, he, le_refl e⟩, id⟩
    | some e =>
      rw [hstop] at hend
      simp only [Span.endBy] at hend
      split_ifs at hend with hlate hlonger
      · obtain rfl := Option.some.inj hend
        have hbefore : ∀ e' ∈ s.stop, e < e' := by simpa [Option.all_eq_true] using hlonger
        refine ⟨rfl, rfl, fun e' he' => ⟨e, rfl, le_of_lt (hbefore e' he')⟩, fun _ e' he' => ?_⟩
        obtain rfl := Option.some.inj he'
        exact le_of_lt (not_le.1 hlate)
      · obtain rfl := Option.some.inj hend
        exact ⟨rfl, rfl, fun e he => ⟨e, he, le_refl e⟩, id⟩
  obtain ⟨hkey, hstarts, hstops, hforward⟩ := hended
  unfold Span.startAt at hstart
  split_ifs at hstart with hearly hover
  · obtain rfl := Option.some.inj hstart
    have hafter : ∀ e ∈ ended.stop, w.start < e := by simpa [Option.any_eq_true] using hover
    exact ⟨hkey, hstarts ▸ le_of_lt hearly, le_refl _, Or.inr rfl, hstops, fun _ e he => le_of_lt (hafter e he)⟩
  · obtain rfl := Option.some.inj hstart
    exact ⟨hkey, le_of_eq hstarts.symm, not_lt.1 hearly, Or.inl hstarts, hstops,
      fun h e he => hstarts ▸ hforward h e he⟩

theorem Ordered.clip {spans : List (Span τ κ)} (h : Ordered spans) (w : Window τ) :
    Ordered (spans.filterMap w.clip) where
  forward := by
    intro s' hs'
    obtain ⟨s, hs, hclip⟩ := List.mem_filterMap.1 hs'
    exact (clipped_of_clip hclip).forward (h.forward s hs)
  apart := by
    rw [List.pairwise_filterMap]
    refine h.apart.imp ?_
    rintro a b ⟨e, he, hle⟩ a' ha' b' hb'
    obtain ⟨e', he', hle'⟩ := (clipped_of_clip ha').stop e he
    exact ⟨e', he', le_trans hle' (le_trans hle (clipped_of_clip hb').start)⟩

theorem keyAt_clip (w : Window τ) (spans : List (Span τ κ)) (t : τ) :
    keyAt (spans.filterMap w.clip) t = if w.Contains t then keyAt spans t else none := by
  induction spans with
  | nil =>
    show none = _
    rw [show keyAt ([] : List (Span τ κ)) t = none from rfl, ite_self]
  | cons s spans ih =>
    have hcovers := covers_clip (w := w) (s := s) (t := t)
    rw [keyAt_cons]
    cases hclip : w.clip s with
    | none =>
      rw [List.filterMap_cons_none hclip, ih]
      simp only [hclip] at hcovers
      by_cases hw : w.Contains t
      · rw [if_pos hw, if_pos hw, if_neg fun hs => by simpa using hcovers.2 ⟨hs, hw⟩]
      · rw [if_neg hw, if_neg hw]
    | some s' =>
      rw [List.filterMap_cons_some hclip, keyAt_cons, ih, (clipped_of_clip hclip).key]
      have hcovers : s'.Covers t ↔ s.Covers t ∧ w.Contains t := by simpa [hclip] using hcovers
      by_cases hw : w.Contains t <;> simp [hcovers, hw]

end Validity
