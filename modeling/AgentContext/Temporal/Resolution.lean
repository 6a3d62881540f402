import AgentContext.Temporal.Failures

/-!
# When a failure is resolved

The resolution of a failure, said of its runs and observations instead of the loops:

    resolved   ↔  each target passed after its newest failing run, and nothing was observed after the pass that
                  follows the newest failing run of all
-/

namespace Temporal

open Keyset List
open Knowledge (Moment EventOrder)

/-! ## Runs and passes -/

section Runs

variable (v : VisibleRuns) (rows : List Observation)

def Failing (r : CIRun) : Prop := r ∈ v.ci ∧ ∃ row ∈ rows, named row.ciRunId = some r.runId

/-- The newest failing run of its target. -/
def LastOfTarget (r : CIRun) : Prop := Failing v rows r ∧ ∀ r', Failing v rows r' → r'.target = r.target → r'.occurred ≤ r.occurred

def Newest (r : CIRun) : Prop := Failing v rows r ∧ ∀ r', Failing v rows r' → r'.occurred ≤ r.occurred

def FirstPass (r p : CIRun) : Prop := p ∈ v.ci ∧ passesAfter r p ∧ ∀ p' ∈ v.ci, passesAfter r p' → p.occurred ≤ p'.occurred

/-- Each target passed after its newest failing run. -/
def EachPassed : Prop := ∀ r, LastOfTarget v rows r → ∃ p ∈ v.ci, passesAfter r p

/-- Nothing was observed after a pass. -/
def QuietAfter (p : CIRun) : Prop := ∀ row ∈ rows, occurrence v row ≤ p.completedAt

end Runs

variable {v : VisibleRuns} {rows : List Observation} {r r' p : CIRun} {id : String}

theorem ciRun_eq_some : v.ciRun id = some r ↔ r ∈ v.ci ∧ r.runId = id := by
  constructor
  · intro h
    exact ⟨List.mem_of_find?_eq_some h, by simpa using List.find?_some h⟩
  · rintro ⟨hr, rfl⟩
    cases h : v.ciRun r.runId with
    | none => exact absurd (decide_eq_true rfl) (List.find?_eq_none.1 h r hr)
    | some r' =>
      have hid : r'.runId = r.runId := by simpa using List.find?_some h
      exact congrArg some (inj_on_of_nodup_map v.ciIds (List.mem_of_find?_eq_some h) hr hid)

theorem occurred_inj (hr : r ∈ v.ci) (hr' : r' ∈ v.ci) (h : r.occurred = r'.occurred) : r = r' :=
  inj_on_of_nodup_map v.ciIds hr hr' (congrArg (fun o => (ofLex o).2) h)

theorem mem_ciRuns : r ∈ ciRuns v rows ↔ Failing v rows r := by
  unfold ciRuns Failing
  rw [mem_filterMap]
  simp only [mem_sortedSet, mem_filterMap]
  constructor
  · rintro ⟨id, ⟨row, hrow, hid⟩, hr⟩
    obtain ⟨hmem, rfl⟩ := ciRun_eq_some.1 hr
    exact ⟨hmem, row, hrow, hid⟩
  · rintro ⟨hr, row, hrow, hid⟩
    exact ⟨r.runId, ⟨row, hrow, hid⟩, ciRun_eq_some.2 ⟨hr, rfl⟩⟩

theorem exists_last {runs : List CIRun} (hr : r ∈ runs) :
    ∃ last ∈ runs, last.target = r.target ∧ ∀ r' ∈ runs, r'.target = r.target → r'.occurred ≤ last.occurred := by
  have hmem : r ∈ runs.filter (·.target = r.target) := by simp [hr]
  cases h : (runs.filter (·.target = r.target)).argmax CIRun.occurred with
  | none =>
    rw [argmax_eq_none.1 h] at hmem
    exact absurd hmem not_mem_nil
  | some last =>
    obtain ⟨hlast, ht⟩ := mem_filter.1 (argmax_mem h)
    refine ⟨last, hlast, of_decide_eq_true ht, fun r' hr' ht' => ?_⟩
    exact le_of_mem_argmax (mem_filter.2 ⟨hr', decide_eq_true ht'⟩) h

theorem mem_foldl_holdLatest {runs : List CIRun} (hinj : ∀ a ∈ runs, ∀ b ∈ runs, a.occurred = b.occurred → a = b) :
    r ∈ runs.foldl holdLatest [] ↔ r ∈ runs ∧ ∀ r' ∈ runs, r'.target = r.target → r'.occurred ≤ r.occurred := by
  induction runs using List.reverseRecOn generalizing r with
  | nil => simp
  | append_singleton runs x ih =>
    have hih : ∀ {r}, r ∈ runs.foldl holdLatest [] ↔ _ :=
      ih fun a ha b hb => hinj a (mem_append_left _ ha) b (mem_append_left _ hb)
    have hx : x ∈ runs ++ [x] := mem_append_right _ (mem_singleton_self x)
    rw [foldl_append]
    show r ∈ holdLatest (runs.foldl holdLatest []) x ↔ _
    generalize runs.foldl holdLatest [] = latest at hih
    unfold holdLatest
    cases hfind : latest.find? (·.target = x.target) with
    | none =>
      -- no run before has the target: its newest one would be held
      have hnew : ∀ a ∈ runs, a.target ≠ x.target := fun a ha hax => by
        obtain ⟨last, hlast, ht, hmax⟩ := exists_last ha
        have hheld := hih.2 ⟨hlast, fun r' hr' ht' => hmax r' hr' (ht'.trans ht)⟩
        exact List.find?_eq_none.1 hfind last hheld (decide_eq_true (ht.trans hax))
      rw [mem_append, mem_singleton, hih]
      constructor
      · rintro (⟨hr, hmax⟩ | rfl)
        · refine ⟨mem_append_left _ hr, fun r' hr' ht => ?_⟩
          rcases mem_append.1 hr' with hr' | hr'
          · exact hmax r' hr' ht
          · obtain rfl := mem_singleton.1 hr'
            exact absurd ht.symm (hnew r hr)
        · refine ⟨hx, fun r' hr' ht => ?_⟩
          rcases mem_append.1 hr' with hr' | hr'
          · exact absurd ht (hnew r' hr')
          · obtain rfl := mem_singleton.1 hr'
            exact le_rfl
      · rintro ⟨hr, hmax⟩
        rcases mem_append.1 hr with hr | hr
        · exact Or.inl ⟨hr, fun r' hr' => hmax r' (mem_append_left _ hr')⟩
        · exact Or.inr (mem_singleton.1 hr)
    | some best =>
      have hheld := List.mem_of_find?_eq_some hfind
      have hbt : best.target = x.target := by simpa using List.find?_some hfind
      obtain ⟨hbest, hbmax⟩ := hih.1 hheld
      by_cases hlt : best.occurred < x.occurred
      · -- the new run takes the place of the one held
        show r ∈ (if _ then _ else _) ↔ _
        rw [if_pos hlt]
        have hmap : r ∈ latest.map (fun held => if held.target = x.target then x else held) ↔
            r = x ∨ r ∈ latest ∧ r.target ≠ x.target := by
          rw [mem_map]
          constructor
          · rintro ⟨held, hh, rfl⟩
            split
            · exact Or.inl rfl
            · next hne => exact Or.inr ⟨hh, hne⟩
          · rintro (rfl | ⟨hh, hne⟩)
            · exact ⟨best, hheld, if_pos hbt⟩
            · exact ⟨r, hh, if_neg hne⟩
        rw [hmap, hih]
        constructor
        · rintro (rfl | ⟨⟨hr, hmax⟩, hne⟩)
          · refine ⟨hx, fun r' hr' ht => ?_⟩
            rcases mem_append.1 hr' with hr' | hr'
            · exact le_of_lt (lt_of_le_of_lt (hbmax r' hr' (ht.trans hbt.symm)) hlt)
            · obtain rfl := mem_singleton.1 hr'
              exact le_rfl
          · refine ⟨mem_append_left _ hr, fun r' hr' ht => ?_⟩
            rcases mem_append.1 hr' with hr' | hr'
            · exact hmax r' hr' ht
            · obtain rfl := mem_singleton.1 hr'
              exact absurd ht.symm hne
        · rintro ⟨hr, hmax⟩
          rcases mem_append.1 hr with hr | hr
          · refine Or.inr ⟨⟨hr, fun r' hr' => hmax r' (mem_append_left _ hr')⟩, fun ht => ?_⟩
            have hxr := hmax x hx ht.symm
            exact absurd (lt_of_le_of_lt (hbmax r hr (ht.trans hbt.symm)) hlt) (not_lt.2 hxr)
          · exact Or.inl (mem_singleton.1 hr)
      · show r ∈ (if _ then _ else _) ↔ _
        rw [if_neg hlt, hih]
        constructor
        · rintro ⟨hr, hmax⟩
          refine ⟨mem_append_left _ hr, fun r' hr' ht => ?_⟩
          rcases mem_append.1 hr' with hr' | hr'
          · exact hmax r' hr' ht
          · obtain rfl := mem_singleton.1 hr'
            exact le_trans (not_lt.1 hlt) (hmax best hbest (hbt.trans ht))
        · rintro ⟨hr, hmax⟩
          rcases mem_append.1 hr with hr | hr
          · exact ⟨hr, fun r' hr' => hmax r' (mem_append_left _ hr')⟩
          · obtain rfl := mem_singleton.1 hr
            have hle := hmax best (mem_append_left _ hbest) hbt
            have heq := hinj best (mem_append_left _ hbest) r hx (le_antisymm hle (not_lt.1 hlt))
            exact heq ▸ ⟨hbest, hbmax⟩

theorem mem_latestRuns : r ∈ latestRuns v rows ↔ LastOfTarget v rows r := by
  unfold latestRuns LastOfTarget
  have hinj : ∀ a ∈ ciRuns v rows, ∀ b ∈ ciRuns v rows, a.occurred = b.occurred → a = b := fun a ha b hb =>
    occurred_inj (mem_ciRuns.1 ha).1 (mem_ciRuns.1 hb).1
  rw [mem_foldl_holdLatest hinj]
  simp only [mem_ciRuns]

theorem nextPass_eq_some : nextPass v.ci r = some p ↔ FirstPass v r p := by
  unfold nextPass FirstPass
  have hmem : ∀ p, p ∈ v.ci.filter (passesAfter r) ↔ p ∈ v.ci ∧ passesAfter r p := fun p => mem_filter
  constructor
  · intro h
    obtain ⟨hp, hpass⟩ := (hmem p).1 (argmin_mem h)
    exact ⟨hp, hpass, fun p' hp' hpass' => le_of_mem_argmin ((hmem p').2 ⟨hp', hpass'⟩) h⟩
  · rintro ⟨hp, hpass, hmin⟩
    cases h : (v.ci.filter (passesAfter r)).argmin CIRun.occurred with
    | none =>
      have hin := (hmem p).2 ⟨hp, hpass⟩
      rw [argmin_eq_none.1 h] at hin
      exact absurd hin not_mem_nil
    | some p' =>
      obtain ⟨hp', hpass'⟩ := (hmem p').1 (argmin_mem h)
      have hle : p'.occurred ≤ p.occurred := le_of_mem_argmin ((hmem p).2 ⟨hp, hpass⟩) h
      exact congrArg some (occurred_inj hp' hp (le_antisymm hle (hmin p' hp' hpass')))

theorem nextPass_isSome : (nextPass v.ci r).isSome ↔ ∃ p ∈ v.ci, passesAfter r p := by
  unfold nextPass
  rw [← Option.ne_none_iff_isSome, ne_eq, argmin_eq_none, filter_eq_nil_iff]
  simp

theorem mem_fixedRuns : (r, p) ∈ fixedRuns v rows ↔ LastOfTarget v rows r ∧ FirstPass v r p := by
  unfold fixedRuns
  rw [mem_filterMap, ← mem_latestRuns, ← nextPass_eq_some]
  constructor
  · rintro ⟨r', hr', h⟩
    obtain ⟨p', hp', heq⟩ := Option.map_eq_some_iff.1 h
    cases heq
    exact ⟨hr', hp'⟩
  · rintro ⟨hr, hp⟩
    exact ⟨r, hr, by rw [hp, Option.map_some]⟩

theorem eachPassed_iff : (fixedRuns v rows).length = (latestRuns v rows).length ↔ EachPassed v rows := by
  unfold fixedRuns EachPassed
  rw [filterMap_length_eq_length]
  simp only [mem_latestRuns, Option.isSome_map, nextPass_isSome]

theorem Newest.lastOfTarget (h : Newest v rows r) : LastOfTarget v rows r := ⟨h.1, fun r' hr' _ => h.2 r' hr'⟩

theorem reportedFix_eq_some :
    reportedFix v rows = some (r, p) ↔ EachPassed v rows ∧ Newest v rows r ∧ FirstPass v r p := by
  unfold reportedFix
  constructor
  · intro h
    split at h
    · next hlength =>
      have hpassed := eachPassed_iff.1 hlength.2
      obtain ⟨hlast, hfirst⟩ := mem_fixedRuns.1 (argmax_mem h)
      refine ⟨hpassed, ⟨hlast.1, fun r' hr' => ?_⟩, hfirst⟩
      -- the newest run of its target is fixed as well, and the argmax is no older
      obtain ⟨last, hlast', ht, hmax⟩ := exists_last (mem_ciRuns.2 hr')
      have hlast' : LastOfTarget v rows last :=
        ⟨mem_ciRuns.1 hlast', fun a ha hat => hmax a (mem_ciRuns.2 ha) (hat.trans ht)⟩
      obtain ⟨pass, hpass⟩ := Option.isSome_iff_exists.1 (nextPass_isSome.2 (hpassed last hlast'))
      have hle : last.occurred ≤ r.occurred :=
        le_of_mem_argmax (f := fun fix : CIRun × CIRun => fix.1.occurred)
          (mem_fixedRuns.2 ⟨hlast', nextPass_eq_some.1 hpass⟩) h
      exact le_trans (hmax r' (mem_ciRuns.2 hr') rfl) hle
    · exact nomatch h
  · rintro ⟨hpassed, hnewest, hfirst⟩
    have hmem : (r, p) ∈ fixedRuns v rows := mem_fixedRuns.2 ⟨hnewest.lastOfTarget, hfirst⟩
    rw [if_pos ⟨ne_nil_of_mem (mem_latestRuns.2 hnewest.lastOfTarget), eachPassed_iff.2 hpassed⟩]
    cases h : (fixedRuns v rows).argmax fun fix => fix.1.occurred with
    | none =>
      rw [argmax_eq_none.1 h] at hmem
      exact absurd hmem not_mem_nil
    | some fix =>
      obtain ⟨r', p'⟩ := fix
      obtain ⟨hlast', hfirst'⟩ := mem_fixedRuns.1 (argmax_mem h)
      have hle : r.occurred ≤ r'.occurred :=
        le_of_mem_argmax (f := fun fix : CIRun × CIRun => fix.1.occurred) hmem h
      obtain rfl := occurred_inj hlast'.1.1 hnewest.1.1 (le_antisymm (hnewest.2 r' hlast'.1) hle)
      obtain rfl := Option.some_inj.1 ((nextPass_eq_some.2 hfirst').symm.trans (nextPass_eq_some.2 hfirst))
      rfl

theorem recurring_eq_nil : recurring v rows p = [] ↔ QuietAfter v rows p := by
  unfold recurring QuietAfter
  rw [filter_eq_nil_iff]
  constructor
  · intro h row hrow
    exact not_lt.1 fun hlt => h row hrow (decide_eq_true hlt)
  · intro h row hrow hlt
    exact absurd (of_decide_eq_true hlt) (not_lt.2 (h row hrow))

/-! ## Resolved -/

/-- The fix a failure is resolved by. -/
def ResolvedBy (v : VisibleRuns) (rows : List Observation) (r p : CIRun) : Prop :=
  EachPassed v rows ∧ Newest v rows r ∧ FirstPass v r p ∧ QuietAfter v rows p

theorem resolution_resolved {failureId : String} {capped : Option Totals} :
    (resolution v rows failureId capped).status = .resolved ↔ capped = none ∧ ∃ r p, ResolvedBy v rows r p ∧
      resolution v rows failureId capped = ⟨.resolved, none, some (fixPath failureId r p), []⟩ := by
  unfold resolution
  constructor
  · intro h
    split at h
    · exact nomatch h
    · next hcapped =>
      rw [if_neg hcapped]
      refine ⟨not_not.1 hcapped, ?_⟩
      cases hfix : reportedFix v rows with
      | none =>
        rw [hfix] at h
        simp only at h
        split at h
        · exact nomatch h
        · split at h <;> exact nomatch h
      | some fix =>
        obtain ⟨r, p⟩ := fix
        rw [hfix] at h
        simp only at h
        split at h
        · next hlate =>
          obtain ⟨hpassed, hnewest, hfirst⟩ := reportedFix_eq_some.1 hfix
          exact ⟨r, p, ⟨hpassed, hnewest, hfirst, recurring_eq_nil.1 hlate⟩, if_pos hlate⟩
        · exact nomatch h
  · rintro ⟨-, r, p, -, h⟩
    rw [h]

end Temporal
