import AgentContext.Code.Current

/-!
# Absence

An interval of a symbol or an assertion ends where a run shows another revision, or where the run is evidence that
it is gone.  Such evidence is complete: the run's outcome permits absence, and every file that ever owned the entity
is gone from the run or completely covered in it.

    ended_timeline        an interval ends   →   at a run that shows something else, or an absence
    ownerStatus_absent    an absence         ↔   complete evidence
    absence_complete      what ends the intervals of a symbol and of an assertion
-/

namespace Code

open Keyset

variable {isIdentifier : String → Bool} {F : Facts} {run : Run}
variable {evidence : Moment}
variable {status : Run → Status} {fact : AssertionFact}

/-! ## How an interval ends -/

/-- **An interval ends at a run that shows an absence, or something else.** -/
theorem ended_timeline {runs : List Run} {i : Interval} (hi : i ∈ timeline runs status) {r : Run} (hr : r ∈ i.stop) :
    r ∈ runs ∧ Ends status i r :=
  ⟨(shown_timeline hi).stop r hr, (ends_timeline hi).2 r hr⟩

/-! ## Evidence of an absence -/

/-- The run shows that a file is gone: it has no revision of it and reports no coverage of it. -/
def FileGone (F : Facts) (run : Run) (fileId : String) : Prop :=
  (F.file fileId).member run.key = none ∧ (F.file fileId).covered run.key = false

/-- The run covers the revision that it has of a file completely. -/
def FileCovered (F : Facts) (run : Run) (fileId : String) : Prop :=
  ∃ member report, (F.file fileId).member run.key = some member ∧
    (F.file fileId).report run.key member.revisionId = some report ∧ report.complete = true

theorem fileGone_isSome {fileId : String} : (∃ evidence', fileGone F run evidence fileId = some evidence') ↔
      FileGone F run fileId ∨ FileCovered F run fileId := by
  unfold fileGone FileGone FileCovered
  cases (F.file fileId).member run.key with
  | none => cases (F.file fileId).covered run.key <;> simp
  | some member =>
    cases hreport : (F.file fileId).report run.key member.revisionId with
    | none => simp [hreport]
    | some report => cases hcomplete : report.complete <;> simp [hreport, hcomplete]

theorem foldlM_fileGone {files : List String} :
    (∃ evidence', files.foldlM (fileGone F run) evidence = some evidence') ↔
      ∀ f ∈ files, FileGone F run f ∨ FileCovered F run f := by
  induction files generalizing evidence with
  | nil => simp
  | cons f files ih =>
    rw [List.forall_mem_cons, ← @fileGone_isSome F run evidence f, List.foldlM_cons]
    constructor
    · rintro ⟨evidence', h⟩
      obtain ⟨next, hf, hrest⟩ := Option.bind_eq_some_iff.1 h
      exact ⟨⟨next, hf⟩, ih.1 ⟨evidence', hrest⟩⟩
    · rintro ⟨⟨next, hf⟩, hrest⟩
      obtain ⟨evidence', h⟩ := (@ih next).2 hrest
      exact ⟨evidence', Option.bind_eq_some_iff.2 ⟨next, hf, h⟩⟩

/-- The run is complete evidence that an entity is gone: it completed, its outcome is none that blocks absence, no
claim on the entity holds in it, and every file that a claim is for is gone from it or completely covered in it. -/
structure GoneFrom (isIdentifier : String → Bool) (F : Facts) (run : Run) (symbols : List String)
    (claims : List Claim) : Prop where
  completed : run.completed = true
  outcome : ∀ c ∈ run.errorClass, c ∉ blockingErrorClasses
  unheld : ∀ c ∈ claims, holds isIdentifier F run symbols c = false
  files : ∀ c ∈ claims, FileGone F run c.fileId ∨ FileCovered F run c.fileId

theorem permitsAbsence_iff {r : Run} :
    r.permitsAbsence = true ↔ r.completed = true ∧ ∀ c ∈ r.errorClass, c ∉ blockingErrorClasses := by
  rw [Run.permitsAbsence, Bool.and_eq_true, Option.all_eq_true]
  simp only [decide_eq_true_eq, Option.mem_def]

/-- **An absence takes complete evidence.** -/
theorem ownerStatus_absent {symbols : List String} {claims : List Claim} :
    (∃ evidence, ownerStatus isIdentifier F run symbols claims = .absent evidence) ↔
      GoneFrom isIdentifier F run symbols claims := by
  have hunheld : live isIdentifier F run symbols claims = [] ↔ ∀ c ∈ claims, holds isIdentifier F run symbols c = false := by
    rw [live, List.filter_eq_nil_iff]
    simp only [Bool.not_eq_true]
  have hfiles : (∃ evidence, (sortedSet (claims.map (·.fileId))).foldlM (fileGone F run) run.outcomeObservedAt =
      some evidence) ↔ ∀ c ∈ claims, FileGone F run c.fileId ∨ FileCovered F run c.fileId := by
    rw [foldlM_fileGone]
    simp only [mem_sortedSet, List.forall_mem_map]
  constructor
  · rintro ⟨evidence, h⟩
    unfold ownerStatus at h
    cases hlive : live isIdentifier F run symbols claims with
    | cons c cs =>
      rw [hlive] at h
      cases h
    | nil =>
      rw [hlive] at h
      simp only at h
      split_ifs at h with hpermits
      split at h
      · obtain ⟨hcompleted, houtcome⟩ := permitsAbsence_iff.1 hpermits
        exact ⟨hcompleted, houtcome, hunheld.1 hlive, hfiles.1 ⟨_, ‹_›⟩⟩
      · cases h
  · intro gone
    obtain ⟨evidence, hevidence⟩ := hfiles.2 gone.files
    refine ⟨evidence, ?_⟩
    unfold ownerStatus
    rw [hunheld.2 gone.unheld]
    simp only
    rw [if_pos (permitsAbsence_iff.2 ⟨gone.completed, gone.outcome⟩), hevidence]

/-! ## Symbols and assertions -/

theorem symbolPresent_absent {x : String} : (∃ evidence, symbolPresent isIdentifier F x run = .absent evidence) ↔
      GoneFrom isIdentifier F run [x] (F.symbol x).claims := by
  rw [← ownerStatus_absent]
  cases h : ownerStatus isIdentifier F run [x] (F.symbol x).claims <;> simp [symbolPresent, h]

theorem assertionStatus_absent {a : String} (h : assertionStatus isIdentifier F a fact run = .absent evidence) :
    GoneFrom isIdentifier F run fact.ends (F.assertion a).claims ∨
      ∃ x, fact.family = .relation ∧ fact.objectId = some x ∧ GoneFrom isIdentifier F run [x] (F.symbol x).claims := by
  unfold assertionStatus at h
  cases howner : ownerStatus isIdentifier F run fact.ends (F.assertion a).claims with
  | absent ownEvidence => exact Or.inl (ownerStatus_absent.1 ⟨ownEvidence, howner⟩)
  | unknown =>
    rw [howner] at h
    cases h
  | present ownEvidence =>
    rw [howner] at h
    simp only at h
    split at h
    · rename_i x hfamily hobject
      cases htarget : symbolPresent isIdentifier F x run with
      | absent targetEvidence => exact Or.inr ⟨x, hfamily, hobject, symbolPresent_absent.1 ⟨targetEvidence, htarget⟩⟩
      | _ =>
        rw [htarget] at h
        cases h
    · cases h

theorem clipOne_stop {i j : Interval} (h : clipOne fact j = some i) :
    i.stop = j.stop ∨ ∃ validTo, fact.validTo = some validTo ∧ i.stop = some (declaredRun validTo) := by
  obtain ⟨ended, hended, hstarted⟩ := Option.bind_eq_some_iff.1 h
  have hstop : i.stop = ended.stop := by
    split_ifs at hstarted with hearly hover
    · rw [← Option.some.inj hstarted]
    · rw [← Option.some.inj hstarted]
  rw [hstop]
  cases hvalidTo : fact.validTo with
  | none =>
    rw [hvalidTo] at hended
    exact Or.inl (by rw [← Option.some.inj hended])
  | some validTo =>
    rw [hvalidTo] at hended
    simp only at hended
    split_ifs at hended with hlate hlonger
    · exact Or.inr ⟨validTo, rfl, by rw [← Option.some.inj hended]⟩
    · exact Or.inl (by rw [← Option.some.inj hended])

/-- **What ends an interval.**  A symbol's ends at a run that shows another revision, or that is complete evidence
that the symbol is gone; an assertion's ends where it is declared to, or at a run that is complete evidence that the
assertion or the symbol it points to is gone. -/
theorem absence_complete (isIdentifier : String → Bool) (F : Facts) :
    (∀ x, ∀ i ∈ deriveSymbol isIdentifier F x, ∀ r ∈ i.stop, r ∈ F.runs ∧
      ((∃ revision seenAt, symbolPresent isIdentifier F x r = .present revision none seenAt ∧ revision ≠ i.key) ∨
        GoneFrom isIdentifier F r [x] (F.symbol x).claims)) ∧
    ∀ a fact, ∀ i ∈ deriveAssertion isIdentifier F a fact, ∀ r ∈ i.stop,
      (∃ validTo, fact.validTo = some validTo ∧ r = declaredRun validTo) ∨
      r ∈ F.runs ∧
        (GoneFrom isIdentifier F r fact.ends (F.assertion a).claims ∨
          ∃ x, fact.family = .relation ∧ fact.objectId = some x ∧
            GoneFrom isIdentifier F r [x] (F.symbol x).claims) := by
  constructor
  · intro x i hi r hr
    obtain ⟨hrun, hends⟩ := ended_timeline hi hr
    refine ⟨hrun, ?_⟩
    rcases hends with hgone | ⟨key, extra, seenAt, hshown, hother⟩
    · exact Or.inr (symbolPresent_absent.1 hgone)
    · obtain ⟨firstSeen, hstart⟩ := (shown_timeline hi).shown
      have hextra := symbolPresent_extra hshown
      refine Or.inl ⟨key, seenAt, hextra ▸ hshown, fun hkey => hother ⟨hkey.symm, ?_⟩⟩
      rw [symbolPresent_extra hstart, hextra]
  · intro a fact i hi r hr
    unfold deriveAssertion at hi
    split_ifs at hi with hsupersedes
    · obtain ⟨j, hj, hclip⟩ := List.mem_filterMap.1 hi
      obtain rfl := List.mem_singleton.1 hj
      rcases clipOne_stop hclip with hstop | ⟨validTo, hvalidTo, hstop⟩
      · rw [hstop] at hr
        cases hr
      · rw [hstop] at hr
        exact Or.inl ⟨validTo, hvalidTo, (Option.some.inj hr).symm⟩
    · obtain ⟨j, hj, hclip⟩ := List.mem_filterMap.1 hi
      rcases clipOne_stop hclip with hstop | ⟨validTo, hvalidTo, hstop⟩
      · rw [hstop] at hr
        obtain ⟨hrun, hends⟩ := ended_timeline hj hr
        refine Or.inr ⟨hrun, ?_⟩
        rcases hends with ⟨seenAt, hgone⟩ | ⟨key, extra, seenAt, hshown, hother⟩
        · exact assertionStatus_absent hgone
        · -- an assertion is never shown as anything else
          obtain ⟨firstSeen, hstart⟩ := (shown_timeline hj).shown
          obtain ⟨hkey, hextra⟩ := assertionStatus_present hshown
          obtain ⟨hkey', hextra'⟩ := assertionStatus_present hstart
          exact absurd ⟨hkey'.trans hkey.symm, hextra'.trans hextra.symm⟩ hother
      · rw [hstop] at hr
        exact Or.inl ⟨validTo, hvalidTo, (Option.some.inj hr).symm⟩

/-! ## An interrupted run -/

/-- A run states a symbol and completes; a second run starts, with another revision of its file. -/
def statedOnce : List Event :=
  [⟨"e1", "2026-03-01T12:01:00", "2026-03-01T12:01:00", .indexStarted ⟨"i", "commit:c"⟩⟩,
   ⟨"e2", "2026-03-01T12:01:00", "2026-03-01T12:01:00",
    .fileIndexed ⟨"i", "commit:c", "f", "r", "pkg/a.py", "m", "sha", "python", "indexer", "1"⟩⟩,
   ⟨"e3", "2026-03-01T12:01:00", "2026-03-01T12:01:00",
    .symbolIndexed ⟨"i", "commit:c", "f", "r", "x", "sr", "pkg.a.g", "function", none, none, "indexer", "1", none⟩⟩,
   ⟨"e4", "2026-03-01T12:01:00", "2026-03-01T12:01:00", .indexCompleted ⟨"i", "commit:c", true, none⟩⟩,
   ⟨"e5", "2026-03-01T12:02:00", "2026-03-01T12:02:00", .indexStarted ⟨"j", "commit:d"⟩⟩,
   ⟨"e6", "2026-03-01T12:02:00", "2026-03-01T12:02:00",
    .fileIndexed ⟨"j", "commit:d", "f", "q", "pkg/a.py", "m", "sha2", "python", "indexer", "1"⟩⟩]

/-- The second run states another revision of the symbol, and never completes. -/
def interrupted : List Event :=
  statedOnce ++
    [⟨"e7", "2026-03-01T12:02:00", "2026-03-01T12:02:00",
      .symbolIndexed
        ⟨"j", "commit:d", "f", "q", "x", "sr2", "pkg.a.g", "function", none, none, "indexer", "1", none⟩⟩]

/-- The second run completes, and covers the file without the symbol. -/
def removed : List Event :=
  statedOnce ++
    [⟨"e7", "2026-03-01T12:02:00", "2026-03-01T12:02:00", .fileCoverageReported ⟨"j", "commit:d", "f", "q", true, []⟩⟩,
     ⟨"e8", "2026-03-01T12:02:00", "2026-03-01T12:02:00", .indexCompleted ⟨"j", "commit:d", true, none⟩⟩]

/-- **A run that never completes ends an interval**: it shows the symbol at another revision. -/
theorem interrupted_ends :
    Agreeing interrupted ∧
      ∃ i ∈ deriveSymbol asciiIdentifier (allFacts (factsOf interrupted) none) "x", ∃ r ∈ i.stop, r.completed = false := by
  decide +kernel

/-- The second run of `removed` is complete evidence that the symbol is gone. -/
theorem absence_complete_removed :
    ∃ i ∈ deriveSymbol asciiIdentifier (allFacts (factsOf removed) none) "x", ∃ r ∈ i.stop,
      GoneFrom asciiIdentifier (allFacts (factsOf removed) none) r ["x"]
        ((allFacts (factsOf removed) none).symbol "x").claims := by
  have hended : ∃ i ∈ deriveSymbol asciiIdentifier (allFacts (factsOf removed) none) "x", i.stop.isSome ∧
      ∀ r ∈ i.stop, (symbolPresent asciiIdentifier (allFacts (factsOf removed) none) "x" r).key? = none := by
    decide +kernel
  obtain ⟨i, hi, hstop, hshown⟩ := hended
  obtain ⟨r, hr⟩ := Option.isSome_iff_exists.1 hstop
  rcases ((absence_complete asciiIdentifier _).1 "x" i hi r hr).2 with ⟨revision, seenAt, h, -⟩ | hgone
  · have hnone := hshown r hr
    rw [h] at hnone
    cases hnone
  · exact ⟨i, hi, r, hr, hgone⟩

end Code
