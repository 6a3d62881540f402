import AgentContext.Code.Derive
import AgentContext.Lib.Validity

/-!
# Timelines

The intervals of a timeline are the spans of the log of its runs, and clipping an assertion's intervals is clipping
spans to what it declares:

    timeline_spans    timeline   =   the spans of the run times with their statuses
    clipOne_span      _clip      =   clipping to [valid_from, valid_to)
    timeline_exact    what an interval at a time says, run by run
-/

namespace Code

open Validity

variable {intervals : List Interval}
variable {t : Moment} {status : Run → Status}

/-! ## Intervals as spans -/

def Interval.Covers (i : Interval) (t : Moment) : Prop := i.start.occurredAt ≤ t ∧ ∀ r ∈ i.stop, t < r.occurredAt

instance (i : Interval) (t : Moment) : Decidable (i.Covers t) := inferInstanceAs (Decidable (_ ∧ _))

def Interval.span (i : Interval) : Span Moment (String × Option (String × String)) :=
  ⟨(i.key, i.extra), i.start.occurredAt, i.stop.map (·.occurredAt)⟩

@[simp] theorem Interval.span_covers {i : Interval} : i.span.Covers t ↔ i.Covers t := by
  simp [Span.Covers, Interval.Covers, Interval.span]

/-- Intervals end before the later ones start, and none before it starts. -/
def InOrder (intervals : List Interval) : Prop := Ordered (intervals.map Interval.span)

theorem InOrder.apart (h : InOrder intervals) :
    intervals.Pairwise fun i j => ∃ r ∈ i.stop, r.occurredAt ≤ j.start.occurredAt := by
  refine (List.pairwise_map.1 (Ordered.apart h)).imp ?_
  rintro i j ⟨e, he, hle⟩
  obtain ⟨r, hr, rfl⟩ := Option.map_eq_some_iff.1 he
  exact ⟨r, hr, hle⟩

theorem InOrder.forward (h : InOrder intervals) :
    ∀ i ∈ intervals, ∀ r ∈ i.stop, i.start.occurredAt ≤ r.occurredAt := fun i hi r hr =>
  Ordered.forward h i.span (List.mem_map_of_mem hi) r.occurredAt (Option.mem_map_of_mem _ hr)

theorem InOrder.disjoint (h : InOrder intervals) : intervals.Pairwise fun i j => ∀ t, ¬ (i.Covers t ∧ j.Covers t) :=
  (List.pairwise_map.1 (Ordered.disjoint h)).imp fun hapart t hboth =>
    hapart t ⟨Interval.span_covers.2 hboth.1, Interval.span_covers.2 hboth.2⟩

theorem covers_iff {i : Interval} :
    (i.start.occurredAt ≤ t && i.stop.all (t < ·.occurredAt)) = true ↔ i.Covers t := by
  simp [Interval.Covers, Option.all_eq_true]

theorem intervalAt_span (intervals : List Interval) (t : Moment) :
    (intervalAt intervals t).map Interval.span = spanAt (intervals.map Interval.span) t := by
  induction intervals with
  | nil => rfl
  | cons i intervals ih =>
    rw [List.map_cons, spanAt_cons, ← ih, intervalAt, List.find?_cons]
    by_cases h : i.Covers t
    · rw [covers_iff.2 h, if_pos (Interval.span_covers.2 h)]
      rfl
    · rw [Bool.eq_false_iff.2 fun hc => h (covers_iff.1 hc), if_neg fun hs => h (Interval.span_covers.1 hs)]
      rfl

theorem intervalAt_key (intervals : List Interval) (t : Moment) :
    (intervalAt intervals t).map (·.key) = (keyAt (intervals.map Interval.span) t).map (·.1) := by
  rw [keyAt, ← intervalAt_span]
  cases intervalAt intervals t <;> rfl

/-! ## Statuses as observations -/

def Status.observation : Status → Observation (String × Option (String × String))
  | .present key extra _ => .present (key, extra)
  | .absent _ => .absent
  | .unknown => .unknown

/-- What the runs say, run by run. -/
def logOf (runs : List Run) (status : Run → Status) : List (Moment × Observation (String × Option (String × String))) :=
  runs.map fun r => (r.occurredAt, (status r).observation)

theorem logOf_inOrder {runs : List Run} (hruns : runs.Pairwise (·.order ≤ ·.order)) :
    Validity.InOrder (logOf runs status) := by
  refine List.pairwise_map.2 (hruns.imp ?_)
  intro r r' h
  rcases Prod.Lex.toLex_le_toLex.1 h with hlt | ⟨heq, -⟩
  · exact le_of_lt hlt
  · exact le_of_eq heq

theorem timelineFrom_spans (runs : List Run) (status : Run → Status) {opened : Option Interval}
    (hopened : ∀ i ∈ opened, i.stop = none) :
    (timelineFrom status opened runs).map Interval.span =
      spansFrom (opened.map fun i => ((i.key, i.extra), i.start.occurredAt)) (logOf runs status) := by
  induction runs generalizing opened with
  | nil =>
    cases opened with
    | none => rfl
    | some i => simp [timelineFrom, spansFrom, logOf, Interval.span, hopened i rfl]
  | cons r runs ih =>
    have hnew : ∀ key extra seenAt, ∀ i ∈ some (⟨key, extra, r, none, seenAt, none⟩ : Interval), i.stop = none :=
      fun _ _ _ i hi => Option.some.inj hi ▸ rfl
    have hlog : logOf (r :: runs) status = (r.occurredAt, (status r).observation) :: logOf runs status := rfl
    rw [hlog]
    unfold timelineFrom
    cases hstatus : status r with
    | unknown => exact ih hopened
    | absent seenAt =>
      have hnone := @ih none fun _ h => nomatch h
      simp only [List.map_append, hnone]
      cases opened <;> rfl
    | present key extra seenAt =>
      cases opened with
      | none => exact ih (hnew key extra seenAt)
      | some i =>
        have hsame : (i.key, i.extra) = (key, extra) ↔ i.key = key ∧ i.extra = extra := Prod.mk.injEq .. ▸ Iff.rfl
        simp only [Option.map_some, Status.observation, spansFrom, hsame]
        split_ifs with h
        · exact ih hopened
        · rw [List.map_cons, ih (hnew key extra seenAt)]
          rfl

theorem timeline_spans (runs : List Run) (status : Run → Status) :
    (timeline runs status).map Interval.span = spans (logOf runs status) :=
  timelineFrom_spans runs status fun _ h => nomatch h

theorem timeline_inOrder {runs : List Run} (hruns : runs.Pairwise (·.order ≤ ·.order)) :
    InOrder (timeline runs status) := by
  show Ordered ((timeline runs status).map Interval.span)
  rw [timeline_spans]
  exact spans_ordered (logOf_inOrder hruns)

def Status.key? : Status → Option String
  | .present key _ _ => some key
  | _ => none

/-- The key of the last run at or before a time that is not unknown. -/
def lastShown (runs : List Run) (status : Run → Status) (t : Moment) : Option String :=
  (runs.filter fun r => r.occurredAt ≤ t ∧ status r ≠ .unknown).getLast?.bind fun r => (status r).key?

theorem lastKnown_runs (runs : List Run) (status : Run → Status) (t : Moment) :
    (lastKnown none (logOf runs status) t).map (·.1) = lastShown runs status t := by
  have htells : ∀ r, (status r).observation.tells = decide (status r ≠ .unknown) := by
    intro r
    cases status r <;> rfl
  have hfilter : (logOf runs status).filter (fun o => o.1 ≤ t ∧ o.2.tells) =
      logOf (runs.filter fun r => r.occurredAt ≤ t ∧ status r ≠ .unknown) status := by
    rw [logOf, logOf, List.filter_map]
    congr 2
    funext r
    simp [htells]
  rw [lastKnown, hfilter, lastShown, logOf, List.getLast?_map]
  cases (runs.filter fun r => r.occurredAt ≤ t ∧ status r ≠ .unknown).getLast? with
  | none => rfl
  | some r =>
    show ((status r).observation.key?).map (·.1) = (status r).key?
    cases status r <;> rfl

/-! ## What an assertion declares -/

def AssertionFact.window (fact : AssertionFact) : Window Moment := ⟨fact.validFrom, fact.validTo⟩

theorem clipOne_span (fact : AssertionFact) (i : Interval) :
    (clipOne fact i).map Interval.span = fact.window.clip i.span := by
  have hall : ∀ (i : Interval) validTo, i.stop.all (validTo < ·.occurredAt) = i.span.stop.all (validTo < ·) := by
    intro i validTo
    cases hstop : i.stop <;> simp [Interval.span, hstop]
  have hany : ∀ (i : Interval) validFrom, i.stop.any (·.occurredAt ≤ validFrom) = i.span.stop.any (· ≤ validFrom) := by
    intro i validFrom
    cases hstop : i.stop <;> simp [Interval.span, hstop]
  have hstart : ∀ i : Interval,
      (if i.start.occurredAt < fact.validFrom then
        if i.stop.any (·.occurredAt ≤ fact.validFrom) then none
        else some { i with start := declaredRun fact.validFrom, recordedFrom := max i.recordedFrom fact.observedAt }
      else some i).map Interval.span = i.span.startAt fact.validFrom := by
    intro i
    rw [hany, apply_ite (Option.map Interval.span), apply_ite (Option.map Interval.span)]
    rfl
  unfold clipOne Window.clip Span.endBy AssertionFact.window
  cases hvalidTo : fact.validTo with
  | none => exact hstart i
  | some validTo =>
    simp only [hall]
    show _ = Option.bind (if validTo ≤ i.start.occurredAt then none else _) _
    split_ifs
    · rfl
    · exact hstart { i with stop := some (declaredRun validTo), recordedTo := some fact.observedAt }
    · exact hstart i

theorem clip_spans (fact : AssertionFact) (intervals : List Interval) :
    (clip fact intervals).map Interval.span = (intervals.map Interval.span).filterMap fact.window.clip := by
  rw [clip, List.map_filterMap, List.filterMap_map]
  exact congrArg (List.filterMap · intervals) (funext (clipOne_span fact))

theorem InOrder.clip (h : InOrder intervals) (fact : AssertionFact) : InOrder (clip fact intervals) := by
  show Ordered ((Code.clip fact intervals).map Interval.span)
  rw [clip_spans]
  exact Ordered.clip h fact.window

theorem covers_clip {fact : AssertionFact} {key : String} : (∃ i ∈ clip fact intervals, i.key = key ∧ i.Covers t) ↔
      (∃ i ∈ intervals, i.key = key ∧ i.Covers t) ∧ fact.validFrom ≤ t ∧ ∀ validTo ∈ fact.validTo, t < validTo := by
  have hone : ∀ i j, clipOne fact i = some j → j.key = i.key := by
    intro i j hj
    have hclip : fact.window.clip i.span = some j.span := by rw [← clipOne_span, hj]; rfl
    exact congrArg Prod.fst (clipped_of_clip hclip).key
  have hcovers : ∀ i, (∃ j, clipOne fact i = some j ∧ j.Covers t) ↔ i.Covers t ∧ fact.window.Contains t := by
    intro i
    rw [← Interval.span_covers, ← Validity.covers_clip, ← clipOne_span]
    simp
  constructor
  · rintro ⟨j, hj, rfl, ht⟩
    obtain ⟨i, hi, hclip⟩ := List.mem_filterMap.1 hj
    obtain ⟨hi', hwindow⟩ := (hcovers i).1 ⟨j, hclip, ht⟩
    exact ⟨⟨i, hi, (hone i j hclip).symm, hi'⟩, hwindow⟩
  · rintro ⟨⟨i, hi, rfl, ht⟩, hwindow⟩
    obtain ⟨j, hclip, hj⟩ := (hcovers i).2 ⟨ht, hwindow⟩
    exact ⟨j, List.mem_filterMap.2 ⟨i, hi, hclip⟩, hone i j hclip, hj⟩

theorem intervalAt_clip (fact : AssertionFact) (intervals : List Interval) (t : Moment) :
    (intervalAt (clip fact intervals) t).map (·.key) =
      if fact.validFrom ≤ t ∧ ∀ validTo ∈ fact.validTo, t < validTo then (intervalAt intervals t).map (·.key)
      else none := by
  rw [intervalAt_key, clip_spans, keyAt_clip, intervalAt_key, apply_ite (Option.map Prod.fst)]
  rfl

/-- **What a timeline says.**  For runs in order and any statuses, the intervals are ordered and disjoint, the one
at a time has the key of the last run at or before it that is not unknown, and clipping them to what an assertion
declares is the intersection with it, time by time. -/
theorem timeline_exact (runs : List Run) (status : Run → Status) (hruns : runs.Pairwise (·.order ≤ ·.order)) :
    (∀ i ∈ timeline runs status, ∀ r ∈ i.stop, i.start.occurredAt ≤ r.occurredAt) ∧
      (timeline runs status).Pairwise (fun i j => ∃ r ∈ i.stop, r.occurredAt ≤ j.start.occurredAt) ∧
      (timeline runs status).Pairwise (fun i j => ∀ t, ¬ (i.Covers t ∧ j.Covers t)) ∧
      (∀ t, (intervalAt (timeline runs status) t).map (·.key) = lastShown runs status t) ∧
      ∀ (fact : AssertionFact) (t : Moment),
        (∀ key, (∃ i ∈ clip fact (timeline runs status), i.key = key ∧ i.Covers t) ↔
          (∃ i ∈ timeline runs status, i.key = key ∧ i.Covers t) ∧
            fact.validFrom ≤ t ∧ ∀ validTo ∈ fact.validTo, t < validTo) ∧
        (intervalAt (clip fact (timeline runs status)) t).map (·.key) =
          if fact.validFrom ≤ t ∧ ∀ validTo ∈ fact.validTo, t < validTo then lastShown runs status t else none := by
  have hordered : InOrder (timeline runs status) := timeline_inOrder hruns
  have hat : ∀ t, (intervalAt (timeline runs status) t).map (·.key) = lastShown runs status t := by
    intro t
    rw [intervalAt_key, timeline_spans, keyAt_spans (logOf_inOrder hruns), lastKnown_runs]
  refine ⟨hordered.forward, hordered.apart, hordered.disjoint, hat, fun fact t => ⟨fun key => covers_clip, ?_⟩⟩
  rw [intervalAt_clip, hat]

/-- Two runs at one time, and one that says nothing. -/
def sameTime : List Run :=
  [⟨runKey "i" "a", "2026-03-01", true, none, ""⟩, ⟨runKey "j" "a", "2026-03-01", true, none, ""⟩,
   ⟨runKey "k" "a", "2026-03-02", false, none, ""⟩]

def sameTimeStatus (r : Run) : Status :=
  if r.key = runKey "i" "a" then .present "k" none ""
  else if r.key = runKey "j" "a" then .present "l" none ""
  else .unknown

/-- The second run decides, and the third changes nothing. -/
theorem timeline_exact_sameTime :
    (intervalAt (timeline sameTime sameTimeStatus) "2026-03-02").map (·.key) = some "l" :=
  ((timeline_exact sameTime sameTimeStatus (by decide)).2.2.2.1 "2026-03-02").trans (by decide)

end Code
