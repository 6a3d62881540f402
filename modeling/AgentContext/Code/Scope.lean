import AgentContext.Code.Derived
import AgentContext.Code.Frame

/-!
# The scope of an event

An event re-derives the entities in its scope (`expand`), and nothing else.  That is enough for an event that is
`Quiet` and neither starts nor ends a run:

    it lowers the time of no run
    it moves the horizon past the start of no open-ended assertion outside its scope
    it creates no file that is an end of a recorded relation outside its scope

Then what is outside the scope stays as it is (`quiet_file`, `quiet_symbol`, `quiet_assertion`, `quiet_edge`).
-/

namespace Code

open PropertyGraph Keyset List

variable {pre : List Event} {e : Event}
variable {run : RunKey} {F : Facts}
variable {status : Run → Status} {fact : AssertionFact} {isIdentifier : String → Bool}

/-! ## Runs after an event -/

variable {es : List Event}

theorem mem_visibleKeys : run ∈ visibleKeys (factsOf es) none ↔ ∃ e ∈ es, e.run = some run := by
  constructor
  · intro h
    obtain ⟨row, hrow, rfl⟩ := mem_map.1 h
    obtain ⟨k, hk, hrow⟩ := mem_filterMap.1 (mem_of_mem_filter hrow)
    obtain rfl := runRow_key hrow
    obtain ⟨e, he, n, hn⟩ := mem_keys_factsOf.1 hk
    exact ⟨e, he, (indexed_written.1 hn).1⟩
  · rintro ⟨e, he, hrun⟩
    exact run_visible he hrun

theorem mem_loadRuns {s : FactStore} {r : Run} : r ∈ loadRuns s none ↔ ∃ run, Key.indexed run ∈ s.keys ∧
      r = runOf (visibleOutcomes s none) ⟨run, momentOf (s.read (.indexed run)) "occurred_at",
        momentOf (s.read (.indexed run)) "observed_at"⟩ := by
  rw [loadRuns, mem_sortBy, mem_map]
  constructor
  · rintro ⟨row, hrow, rfl⟩
    obtain ⟨k, hk, hrow⟩ := mem_filterMap.1 (mem_of_mem_filter hrow)
    have hkey := runRow_key hrow
    rw [hkey] at hk hrow
    exact ⟨row.run, hk, by rw [← Option.some.inj hrow]⟩
  · rintro ⟨run, hk, rfl⟩
    exact ⟨_, mem_filter.2 ⟨mem_filterMap.2 ⟨_, hk, rfl⟩, rfl⟩, rfl⟩

theorem outcomes_frame (hevent : e.everything = false) (run : RunKey) :
    (visibleOutcomes (factsOf (pre ++ [e])) none).filter (·.run = run) =
      (visibleOutcomes (factsOf pre) none).filter (·.run = run) := by
  have hunwritten : ∀ run id n, (Key.completed run id, n) ∉ factWrites e := by
    intro run id n hn
    obtain ⟨p, hp, -⟩ := completed_written.1 hn
    simp [Event.everything, hp] at hevent
  have hnone : ∀ s, visibleOutcomes s none = s.keys.filterMap (outcomeRow s) := fun s => filter_eq_self.2 fun _ _ => rfl
  rw [hnone, hnone]
  refine rows_frame ?_ ?_
  · intro k n row hn hrow
    obtain ⟨id, rfl⟩ := outcomeRow_key hrow
    exact absurd hn (hunwritten _ _ n)
  · intro k _
    cases k with
    | completed run id => simp only [outcomeRow, read_snoc (hunwritten run id)]
    | _ => rfl

/-- An event that lowers no run's time leaves the times of the runs alone. -/
theorem occurredAt_frame (hlow : e.run = some run → ∃ e₁ ∈ pre, e₁.run = some run ∧ e₁.occurredAt ≤ e.occurredAt) :
    momentOf ((factsOf (pre ++ [e])).read (.indexed run)) "occurred_at" =
      momentOf ((factsOf pre).read (.indexed run)) "occurred_at" := by
  have hleast : ((factsOf pre).read (.indexed run)).least "occurred_at" =
      ((factsOf (pre ++ [e])).read (.indexed run)).least "occurred_at" := by
    refine Store.least_eq_of_covered ?_ ?_
    · intro w hw
      obtain ⟨e, he, hw⟩ := mem_writes.1 hw
      exact mem_writes.2 ⟨e, mem_snoc_of_mem he, hw⟩
    · intro n t hn ht
      obtain ⟨e', he', hn⟩ := mem_writes.1 hn
      obtain ⟨hrun', rfl⟩ := indexed_written.1 hn
      obtain rfl : e'.occurredAt = t := Option.some.inj ht
      rcases mem_append.1 he' with he' | he'
      · exact ⟨_, _, mem_writes.2 ⟨e', he', hn⟩, rfl, le_refl _⟩
      · obtain rfl := mem_singleton.1 he'
        obtain ⟨e₁, he₁, hrun₁, hle⟩ := hlow hrun'
        exact ⟨_, _, mem_writes.2 ⟨e₁, he₁, indexed_written.2 ⟨hrun₁, rfl⟩⟩, rfl, hle⟩
  unfold momentOf
  rw [hleast]

theorem run_frame (hevent : e.everything = false)
    (hlow : e.run = some run → ∃ e₁ ∈ pre, e₁.run = some run ∧ e₁.occurredAt ≤ e.occurredAt) (t t' : Moment) :
    runOf (visibleOutcomes (factsOf (pre ++ [e])) none)
        ⟨run, momentOf ((factsOf (pre ++ [e])).read (.indexed run)) "occurred_at", t⟩ =
      runOf (visibleOutcomes (factsOf pre) none) ⟨run, momentOf ((factsOf pre).read (.indexed run)) "occurred_at", t'⟩ := by
  unfold runOf
  simp only [outcomes_frame hevent, occurredAt_frame hlow]

/-- An event that lowers no run's time adds at most a run that nothing else is known of. -/
theorem runs_extend (agree : Agreeing (pre ++ [e])) (hevent : e.everything = false)
    (hlow : ∀ run, e.run = some run → (∃ e₀ ∈ pre, e₀.run = some run) →
      ∃ e₁ ∈ pre, e₁.run = some run ∧ e₁.occurredAt ≤ e.occurredAt) :
    RunsExtend (allFacts (factsOf pre) none) (allFacts (factsOf (pre ++ [e])) none) := by
  have keyed : KeyedRows (factsOf pre) none := keyedRows_factsOf (agree.of_subset fun _ h => mem_snoc_of_mem h)
  have keyed' : KeyedRows (factsOf (pre ++ [e])) none := keyedRows_factsOf agree
  refine ⟨fun r => r.key ∈ visibleKeys (factsOf pre) none, ?_, ?_⟩
  · refine eq_of_same_mem_by (loadRuns_pairwise keyed)
      ((loadRuns_pairwise keyed').sublist filter_sublist) ?_
    intro r
    rw [mem_filter]
    show r ∈ loadRuns _ none ↔ r ∈ loadRuns _ none ∧ _
    rw [mem_loadRuns]
    constructor
    · rintro ⟨run, hk, rfl⟩
      obtain ⟨e₀, he₀, n, hn⟩ := mem_keys_factsOf.1 hk
      have hrun : ∃ e₀ ∈ pre, e₀.run = some run := ⟨e₀, he₀, (indexed_written.1 hn).1⟩
      refine ⟨mem_loadRuns.2 ⟨run, mem_keys_snoc.2 (Or.inl hk), ?_⟩, by simpa using mem_visibleKeys.2 hrun⟩
      exact (run_frame hevent (fun h => hlow run h hrun) _ _).symm
    · rintro ⟨hr, hvisible⟩
      obtain ⟨run, hk, rfl⟩ := mem_loadRuns.1 hr
      have hrun : ∃ e₀ ∈ pre, e₀.run = some run := mem_visibleKeys.1 (by simpa using hvisible)
      obtain ⟨e₀, he₀, hrun₀⟩ := hrun
      refine ⟨run, mem_keys_factsOf.2 ⟨e₀, he₀, _, indexed_written.2 ⟨hrun₀, rfl⟩⟩, ?_⟩
      exact run_frame hevent (fun h => hlow run h ⟨e₀, he₀, hrun₀⟩) _ _
  · intro r hr hnew
    obtain ⟨run, hk, rfl⟩ := mem_loadRuns.1 hr
    have hnew : run ∉ visibleKeys (factsOf pre) none := by simpa using hnew
    refine ⟨?_, fun f => ⟨?_, ?_⟩⟩
    · have hnil : (visibleOutcomes (factsOf (pre ++ [e])) none).filter (·.run = run) = [] := by
        rw [outcomes_frame hevent, filter_eq_nil_iff]
        intro row hrow hrun
        obtain ⟨k, hk, hrow⟩ := mem_filterMap.1 (mem_of_mem_filter hrow)
        obtain ⟨id, rfl⟩ := outcomeRow_key hrow
        obtain ⟨e₀, he₀, n, hn⟩ := mem_keys_factsOf.1 hk
        obtain ⟨p, hp, heq⟩ := completed_written.1 hn
        have hkey := (Key.completed.inj (congrArg Prod.fst heq)).1
        have hrun : row.run = run := by simpa using hrun
        exact hnew (mem_visibleKeys.2 ⟨e₀, he₀, by rw [Event.run, hp, ← hrun, hkey]⟩)
      have hrunOf : ∀ row : RunRow, row.run = run →
          (runOf (visibleOutcomes (factsOf (pre ++ [e])) none) row).permitsAbsence = false := by
        rintro row rfl
        rw [runOf, hnil]
        rfl
      exact hrunOf _ rfl
    · rw [runOf_key]
      show (leastBy _ _).map _ = none
      rw [Option.map_eq_none_iff, leastBy_eq_none, filter_eq_nil_iff]
      intro row hrow hrun
      have hvisible := (mem_filter.1 (mem_of_mem_filter hrow)).2
      simp only [decide_eq_true_eq] at hrun hvisible
      exact hnew (hrun ▸ hvisible.1)
    · rw [runOf_key]
      show List.any _ _ = false
      rw [any_eq_false]
      intro row hrow hrun
      have hvisible := (mem_filter.1 (mem_of_mem_filter hrow)).2
      simp only [decide_eq_true_eq] at hrun hvisible
      exact hnew (hrun ▸ hvisible.1)

/-! ## The horizon -/

theorem foldl_max_le {ts : List Moment} {init t : Moment} : ts.foldl max init ≤ t ↔ init ≤ t ∧ ∀ u ∈ ts, u ≤ t := by
  induction ts generalizing init with
  | nil => simp
  | cons u ts ih => rw [foldl_cons, ih, max_le_iff, forall_mem_cons, and_assoc]

theorem horizon_le {t : Moment} : F.horizon ≤ t ↔ "" ≤ t ∧ ∀ r ∈ F.runs, r.occurredAt ≤ t := by
  rw [Facts.horizon, foldl_max_le, forall_mem_map]

theorem le_horizon {r : Run} (hr : r ∈ F.runs) : r.occurredAt ≤ F.horizon := (horizon_le.1 (le_refl F.horizon)).2 r hr

/-- More runs move the horizon forward. -/
theorem RunsExtend.horizon {F F' : Facts} (h : RunsExtend F F') : F.horizon ≤ F'.horizon := by
  obtain ⟨K, hruns, -⟩ := h
  refine horizon_le.2 ⟨(horizon_le.1 (le_refl F'.horizon)).1, fun r hr => ?_⟩
  rw [hruns] at hr
  exact le_horizon (mem_of_mem_filter hr)

/-! ## Intervals -/

/-- An interval starts at a run that shows what it is of, and ends at a run. -/
structure Shown (runs : List Run) (status : Run → Status) (i : Interval) : Prop where
  start : i.start ∈ runs
  stop : ∀ r ∈ i.stop, r ∈ runs
  shown : ∃ seenAt, status i.start = .present i.key i.extra seenAt

/-- The run ends an interval: it shows an absence, or something else. -/
def Ends (status : Run → Status) (i : Interval) (r : Run) : Prop :=
  (∃ seenAt, status r = .absent seenAt) ∨
    ∃ key extra seenAt, status r = .present key extra seenAt ∧ ¬ (i.key = key ∧ i.extra = extra)

theorem shown_timelineFrom {all runs : List Run} (hruns : ∀ r ∈ runs, r ∈ all) {opened : Option Interval}
    (hopened : ∀ i ∈ opened, Shown all status i ∧ i.stop = none) :
    ∀ i ∈ timelineFrom status opened runs, Shown all status i ∧ ∀ r ∈ i.stop, Ends status i r := by
  induction runs generalizing opened with
  | nil =>
    intro i hi
    obtain ⟨hshown, hstop⟩ := hopened i (Option.mem_toList.1 hi)
    exact ⟨hshown, fun r hr => nomatch hstop.symm.trans hr⟩
  | cons r runs ih =>
    have ih := fun opened hopened => @ih (fun q hq => hruns q (mem_cons_of_mem _ hq)) opened hopened
    have hclosed : ∀ i seenAt, Shown all status i → Ends status i r →
        Shown all status { i with stop := some r, recordedTo := some seenAt } ∧ ∀ q ∈ some r, Ends status i q := by
      intro i seenAt hi hends
      have hq : ∀ q ∈ some r, q = r := fun q hq => (Option.some.inj hq).symm
      exact ⟨⟨hi.start, fun q h => hq q h ▸ hruns r mem_cons_self, hi.shown⟩, fun q h => hq q h ▸ hends⟩
    intro i hi
    unfold timelineFrom at hi
    cases hstatus : status r with
    | unknown =>
      simp only [hstatus] at hi
      exact ih opened hopened i hi
    | absent seenAt =>
      simp only [hstatus, mem_append, Option.mem_toList, Option.map_eq_some_iff] at hi
      rcases hi with ⟨j, hj, rfl⟩ | hi
      · exact hclosed j seenAt (hopened j hj).1 (.inl ⟨seenAt, hstatus⟩)
      · exact ih none (fun _ h => nomatch h) i hi
    | present key extra seenAt =>
      have hnew : ∀ j ∈ some (⟨key, extra, r, none, seenAt, none⟩ : Interval), Shown all status j ∧ j.stop = none := by
        intro j hj
        obtain rfl := Option.some.inj hj
        exact ⟨⟨hruns r mem_cons_self, (fun _ h => nomatch h), seenAt, hstatus⟩, rfl⟩
      simp only [hstatus] at hi
      cases opened with
      | none => exact ih _ hnew i hi
      | some j =>
        by_cases hsame : j.key = key ∧ j.extra = extra
        · simp only [if_pos hsame] at hi
          exact ih _ hopened i hi
        · simp only [if_neg hsame] at hi
          rcases mem_cons.1 hi with rfl | hi
          · exact hclosed j seenAt (hopened j rfl).1 (.inr ⟨key, extra, seenAt, hstatus, hsame⟩)
          · exact ih _ hnew i hi

theorem ends_timeline {runs : List Run} {i : Interval} (hi : i ∈ timeline runs status) :
    Shown runs status i ∧ ∀ r ∈ i.stop, Ends status i r := by
  have hnone : ∀ i ∈ (none : Option Interval), Shown runs status i ∧ i.stop = none := fun _ h => nomatch h
  exact shown_timelineFrom (fun _ h => h) hnone i hi

theorem shown_timeline {runs : List Run} {i : Interval} (hi : i ∈ timeline runs status) : Shown runs status i :=
  (ends_timeline hi).1

theorem deriveAssertion_ends {a : String} (hopen : fact.validTo = none) {i : Interval}
    (hi : i ∈ deriveAssertion isIdentifier F a fact) :
    (i.start ∈ F.runs ∨ i.start.occurredAt = fact.validFrom) ∧ ∀ r ∈ i.stop, r ∈ F.runs := by
  have hclip : ∀ j, clipOne fact j = some i →
      (j.start ∈ F.runs ∨ j.start.occurredAt = fact.validFrom) ∧ (∀ r ∈ j.stop, r ∈ F.runs) →
      (i.start ∈ F.runs ∨ i.start.occurredAt = fact.validFrom) ∧ ∀ r ∈ i.stop, r ∈ F.runs := by
    intro j hj hends
    simp only [clipOne, hopen, Option.bind_some] at hj
    split_ifs at hj with hlate hended
    · obtain rfl := Option.some.inj hj
      exact ⟨Or.inr rfl, hends.2⟩
    · obtain rfl := Option.some.inj hj
      exact hends
  unfold deriveAssertion at hi
  split_ifs at hi with hsupersedes
  · obtain ⟨j, hj, hclipped⟩ := mem_filterMap.1 hi
    obtain rfl := mem_singleton.1 hj
    exact hclip _ hclipped ⟨Or.inr rfl, fun _ h => nomatch h⟩
  · obtain ⟨j, hj, hclipped⟩ := mem_filterMap.1 hi
    exact hclip j hclipped ⟨Or.inl (shown_timeline hj).start, (shown_timeline hj).stop⟩

theorem isCurrent_frame {a : String} {horizon : Moment} (hopen : fact.validTo = none) (hle : F.horizon ≤ horizon)
    (hstart : fact.validFrom ≤ horizon → fact.validFrom ≤ F.horizon) :
    isCurrent (deriveAssertion isIdentifier F a fact) F.horizon =
      isCurrent (deriveAssertion isIdentifier F a fact) horizon := by
  unfold isCurrent
  cases hlast : (deriveAssertion isIdentifier F a fact).getLast? with
  | none => rfl
  | some i =>
    obtain ⟨hends, hstops⟩ := deriveAssertion_ends hopen (mem_of_getLast? hlast)
    have hstarts : i.start.occurredAt ≤ horizon ↔ i.start.occurredAt ≤ F.horizon := by
      constructor
      · intro h
        rcases hends with hrun | hdeclared
        · exact le_horizon hrun
        · rw [hdeclared] at h ⊢
          exact hstart h
      · exact fun h => le_trans h hle
    have hstop : i.stop.all (F.horizon < ·.occurredAt) = i.stop.all (horizon < ·.occurredAt) := by
      cases hr : i.stop with
      | none => rfl
      | some r =>
        have hrun := le_horizon (hstops r hr)
        rw [Option.all_some, Option.all_some, decide_eq_false (not_lt.2 hrun),
          decide_eq_false (not_lt.2 (le_trans hrun hle))]
    simp only [Option.any_some, hstop, hstarts]

variable {x : String} {f : String}

/-! ## The scope -/

section Scope

variable {s : FactStore} {scope : Scope}
variable {files : List String} {a : String} {n : Entry}

theorem mem_symbolsOfFiles {c : Claim} (hc : c ∈ ((allFacts s none).symbol x).claims)
    (hf : c.fileId ∈ files) : x ∈ symbolsOfFiles s files := by
  have hclaim : c ∈ claimRows s none (.symbol x) := (mem_earliestClaims hc).1
  obtain ⟨row, hrow, rfl⟩ := mem_map.1 hclaim
  obtain ⟨hrow, hx⟩ := mem_filter.1 hrow
  rw [visibleDefs_none] at hrow
  exact mem_map.2 ⟨row, mem_filter.2 ⟨hrow, by simpa using hf⟩, of_decide_eq_true hx⟩

theorem mem_assertionsOfFiles {c : Claim} (hc : c ∈ ((allFacts s none).assertion a).claims) (hf : c.fileId ∈ files) :
    a ∈ assertionsOfFiles s files := by
  have hclaim : c ∈ claimRows s none (.assertion a) := (mem_earliestClaims hc).1
  obtain ⟨row, hrow, rfl⟩ := mem_map.1 hclaim
  obtain ⟨hrow, ha⟩ := mem_filter.1 hrow
  rw [visibleObserved_none] at hrow
  exact mem_map.2 ⟨row, mem_filter.2 ⟨hrow, by simpa using hf⟩, of_decide_eq_true ha⟩

theorem mem_assertionsOfSymbols (agree : Agreeing es) {a x : String} {fact : AssertionFact}
    {symbols : List String} (hfact : assertionFact (factsOf es) a = some fact) (hx : x ∈ symbols)
    (hend : fact.subjectId = x ∨ fact.objectId = some x) : a ∈ assertionsOfSymbols (factsOf es) symbols := by
  refine mem_filter.2 ⟨mem_assertionIds.2 (rooted_factsOf agree a fact hfact), ?_⟩
  rw [Bool.or_eq_true]
  rcases hend with rfl | hobject
  · left
    rw [subject_text agree hfact]
    simpa using hx
  · right
    have hobject' : textOf ((factsOf es).read (.assertion a)) "object_id" = fact.objectId := by
      obtain ⟨validFrom, -, rfl⟩ := Option.map_eq_some_iff.1 hfact
      rfl
    rw [hobject', hobject]
    simpa using hx

theorem expand_scoped (hscope : scope.everything = false) : expand s scope =
      { files := scope.files
        symbols := scope.symbols ++ symbolsOfFiles s scope.files
        assertions := scope.assertions ++ boundedAssertions s ++ assertionsOfFiles s scope.files ++
          assertionsOfSymbols s (scope.symbols ++ symbolsOfFiles s scope.files) } :=
  if_neg (by simp [hscope])

theorem scopeOf_everything : (scopeOf e).everything = e.everything := by
  cases hp : e.payload <;> simp [scopeOf, Event.everything, hp]

theorem mem_scope_file {g f : String} (h : e.fileRevision = some (g, f)) : f ∈ (scopeOf e).files := by
  revert h
  cases hp : e.payload <;> simp +contextual [scopeOf, Event.fileRevision, hp]

theorem mem_scope_symbol {x g : String} (h : e.claim = some (.symbol x, g)) : x ∈ (scopeOf e).symbols := by
  revert h
  cases hp : e.payload <;> simp +contextual [scopeOf, Event.claim, hp]

theorem mem_scope_claimed {a g : String} (h : e.claim = some (.assertion a, g)) : a ∈ (scopeOf e).assertions := by
  revert h
  cases hp : e.payload <;> simp +contextual [scopeOf, Event.claim, hp]

theorem mem_scope_asserted (h : e.assertion = some a) : a ∈ (scopeOf e).assertions := by
  revert h
  cases hp : e.payload <;> simp +contextual [scopeOf, Event.assertion, Event.states, hp]

theorem mem_scope_assertion (hn : (Key.assertion a, n) ∈ factWrites e) : a ∈ (scopeOf e).assertions := by
  rcases assertion_written.1 hn with ⟨p, hp, rfl, -⟩ | ⟨p, hp, hn⟩ | ⟨p, hp, hn⟩
  · simp [scopeOf, hp]
  · obtain ⟨hk, -⟩ := Prod.mk.inj hn
    obtain rfl := Key.assertion.inj hk
    simp [scopeOf, hp]
  · obtain ⟨hk, -⟩ := Prod.mk.inj hn
    obtain rfl := Key.assertion.inj hk
    simp [scopeOf, hp]

theorem mem_scope_symbolNode (hn : (Key.symbol x, n) ∈ factWrites e) : x ∈ (scopeOf e).symbols := by
  obtain ⟨p, hp, rfl, -⟩ := symbol_written.1 hn
  simp [scopeOf, hp]

theorem mem_scope_fileNode (hn : (Key.file f, n) ∈ factWrites e) : f ∈ (scopeOf e).files := by
  rcases (file_written.1 hn).2 with ⟨p, hp, rfl⟩ | ⟨p, hp, rfl⟩
  · simp [scopeOf, hp]
  · simp [scopeOf, hp]

end Scope

/-! ## Outside the scope -/

section Outside

variable (agree : Agreeing (pre ++ [e])) (hevent : e.everything = false)

include agree

theorem outside_file (hf : f ∉ (scopeOf e).files) :
    (allFacts (factsOf pre) none).file f = (allFacts (factsOf (pre ++ [e])) none).file f := by
  apply file_frame agree
  rintro g f' h rfl
  exact hf (mem_scope_file h)

include hevent

theorem outside_symbol (hx : x ∉ (expand (factsOf (pre ++ [e])) (scopeOf e)).symbols) :
    SameSymbol (allFacts (factsOf pre) none) (allFacts (factsOf (pre ++ [e])) none) x := by
  rw [expand_scoped (scopeOf_everything.trans hevent), mem_append, not_or] at hx
  have hsymbol := symbol_frame agree (x := x) fun g h => hx.1 (mem_scope_symbol h)
  refine ⟨hsymbol, fun c hc => outside_file agree fun hf => hx.2 ?_⟩
  rw [hsymbol] at hc
  exact mem_symbolsOfFiles hc hf

theorem outside_assertion {a : String} {fact : AssertionFact}
    (ha : a ∉ (expand (factsOf (pre ++ [e])) (scopeOf e)).assertions)
    (hfact : assertionFact (factsOf (pre ++ [e])) a = some fact) :
    SameAssertion (allFacts (factsOf pre) none) (allFacts (factsOf (pre ++ [e])) none) a fact := by
  rw [expand_scoped (scopeOf_everything.trans hevent)] at ha
  simp only [mem_append, not_or] at ha
  obtain ⟨⟨⟨hscope, -⟩, hfiles⟩, hends⟩ := ha
  have hassertion := assertion_frame agree (a := a) (fun g h => hscope (mem_scope_claimed h))
    fun h => hscope (mem_scope_asserted h)
  have hend : ∀ x, fact.subjectId = x ∨ fact.objectId = some x →
      x ∉ (expand (factsOf (pre ++ [e])) (scopeOf e)).symbols := by
    intro x hx hmem
    rw [expand_scoped (scopeOf_everything.trans hevent)] at hmem
    exact hends (mem_assertionsOfSymbols agree hfact hmem hx)
  have hmem : ∀ x ∈ fact.ends, fact.subjectId = x ∨ fact.objectId = some x := by
    intro x hx
    rcases mem_cons.1 hx with rfl | hx
    · exact Or.inl rfl
    · split_ifs at hx
      · exact Or.inr (Option.mem_toList.1 hx)
      · cases hx
  refine ⟨hassertion, ?_, ?_, ?_⟩
  · intro x hx
    exact (outside_symbol agree hevent (hend x (hmem x hx))).symbol
  · intro c hc
    rw [hassertion] at hc
    exact outside_file agree fun hf => hfiles (mem_assertionsOfFiles hc hf)
  · intro x _ hobject
    exact (outside_symbol agree hevent (hend x (Or.inr hobject))).file

end Outside

/-! ## Quiet events -/

/-- The scope of an event covers what it moves. -/
structure Quiet (pre : List Event) (e : Event) : Prop where
  /-- The event lowers the time of no run. -/
  run : ∀ run ∈ e.run, (∃ e₀ ∈ pre, e₀.run = some run) →
    ∃ e₁ ∈ pre, e₁.run = some run ∧ e₁.occurredAt ≤ e.occurredAt
  /-- It does not move the horizon past the start of an open-ended assertion outside the scope. -/
  horizon : ∀ a ∈ assertionIds (factsOf pre), ∀ fact ∈ assertionFact (factsOf pre) a, fact.validTo = none →
    a ∉ (expand (factsOf (pre ++ [e])) (scopeOf e)).assertions →
    fact.validFrom ≤ (allFacts (factsOf (pre ++ [e])) none).horizon →
    fact.validFrom ≤ (allFacts (factsOf pre) none).horizon
  /-- It creates no file that is an end of a recorded relation outside the scope. -/
  file : ∀ f ∈ (factsOf (pre ++ [e])).keys.filterMap Key.file?, Key.file f ∉ (factsOf pre).keys →
    ∀ a ∈ assertionIds (factsOf pre), ∀ fact ∈ assertionFact (factsOf pre) a, fact.family = .relation →
    (fact.subjectId = f ∨ fact.predicate = .possiblySupersedes ∧ fact.objectId = some f) →
    a ∈ (expand (factsOf (pre ++ [e])) (scopeOf e)).assertions

instance (pre : List Event) (e : Event) : Decidable (Quiet pre e) :=
  decidable_of_iff (_ ∧ _ ∧ _) ⟨fun ⟨h₁, h₂, h₃⟩ => ⟨h₁, h₂, h₃⟩, fun h => ⟨h.run, h.horizon, h.file⟩⟩

theorem member_module (agree : Agreeing es) {member : Member}
    (h : ((allFacts (factsOf es) none).file f).member run = some member) :
    Key.moduleNode member.moduleId ∈ (factsOf es).keys := by
  obtain ⟨row, hrow, rfl⟩ := Option.map_eq_some_iff.1 h
  have hrow := mem_of_mem_filter (mem_of_mem_filter (leastBy_spec hrow).1)
  rw [visibleMembers_none] at hrow
  obtain ⟨k, hk, hrow⟩ := mem_filterMap.1 hrow
  obtain rfl := memberRow_key hrow
  obtain ⟨e, he, n, hn⟩ := mem_keys_factsOf.1 hk
  obtain ⟨p, hp, -, -, rfl⟩ := memberOf_written.1 hn
  have hmodule : row.moduleId = p.moduleId := by
    have hrow' : row.moduleId = (textOf ((factsOf es).read (.memberOf row.revisionId row.run)) "module_id").getD "" :=
      congrArg (·.moduleId) (Option.some.inj hrow).symm
    rw [hrow', textOf_factsOf agree he hn rfl]
    rfl
  rw [hmodule]
  exact mem_keys_factsOf.2 ⟨e, he, _, moduleNode_written.2 ⟨p, hp, rfl, rfl⟩⟩

section Step

variable {isIdentifier : String → Bool} (agree : Agreeing (pre ++ [e])) (hevent : e.everything = false)
  (quiet : Quiet pre e)

include agree

theorem agree_pre : Agreeing pre := agree.of_subset fun _ h => mem_snoc_of_mem h

include hevent quiet

theorem quiet_runs : RunsExtend (allFacts (factsOf pre) none) (allFacts (factsOf (pre ++ [e])) none) :=
  runs_extend agree hevent fun run hrun => quiet.run run hrun

/-- **A file outside the scope stays as it is.** -/
theorem quiet_file (hf : f ∉ (scopeOf e).files) :
    (derivedGraph isIdentifier (factsOf pre)).files f = (derivedGraph isIdentifier (factsOf (pre ++ [e]))).files f := by
  have hkeys : Key.file f ∈ (factsOf (pre ++ [e])).keys ↔ Key.file f ∈ (factsOf pre).keys := by
    rw [mem_keys_snoc, or_iff_left]
    rintro ⟨n, hn⟩
    exact hf (mem_scope_fileNode hn)
  show (if _ then some (fileState _ _) else none) = if _ then some (fileState _ _) else none
  by_cases hk : Key.file f ∈ (factsOf pre).keys
  · have hintervals := deriveFile_frame (quiet_runs agree hevent quiet) (outside_file agree hf)
    have hmodules : ∀ i ∈ deriveFile (allFacts (factsOf pre) none) f, ∀ extra ∈ i.extra,
        Key.moduleNode extra.2 ∈ (factsOf pre).keys := by
      intro i hi extra hextra
      obtain ⟨seenAt, hshown⟩ := (shown_timeline hi).shown
      unfold fileStatus at hshown
      split at hshown
      · rename_i member hmember
        obtain ⟨-, hextra', -⟩ := Status.present.inj hshown
        obtain rfl := Option.some.inj (hextra'.trans hextra)
        exact member_module (agree_pre agree) hmember
      · split_ifs at hshown
    have hfilter : ∀ o : Option String, (∀ m ∈ o, Key.moduleNode m ∈ (factsOf pre).keys) →
        o.filter (.moduleNode · ∈ (factsOf pre).keys) = o.filter (.moduleNode · ∈ (factsOf (pre ++ [e])).keys) := by
      intro o ho
      cases o with
      | none => rfl
      | some m => simp [Option.filter, ho m rfl, mem_keys_snoc]
    rw [if_pos hk, if_pos (hkeys.2 hk), ← hintervals, fileState, fileState, hfilter]
    intro m hm
    obtain ⟨i, hi, hm⟩ := Option.bind_eq_some_iff.1 hm
    obtain ⟨extra, hextra, rfl⟩ := Option.map_eq_some_iff.1 hm
    exact hmodules i (mem_of_getLast? (Option.filter_eq_some_iff.1 hi).1) extra hextra
  · rw [if_neg hk, if_neg fun h => hk (hkeys.1 h)]

/-- **A symbol outside the scope stays as it is.** -/
theorem quiet_symbol (hx : x ∉ (expand (factsOf (pre ++ [e])) (scopeOf e)).symbols) :
    (derivedGraph isIdentifier (factsOf pre)).symbols x =
      (derivedGraph isIdentifier (factsOf (pre ++ [e]))).symbols x := by
  have hkeys : Key.symbol x ∈ (factsOf (pre ++ [e])).keys ↔ Key.symbol x ∈ (factsOf pre).keys := by
    rw [mem_keys_snoc, or_iff_left]
    rintro ⟨n, hn⟩
    rw [expand_scoped (scopeOf_everything.trans hevent)] at hx
    exact hx (mem_append_left _ (mem_scope_symbolNode hn))
  show (if _ then some _ else none) = if _ then some _ else none
  rw [deriveSymbol_frame (quiet_runs agree hevent quiet) (outside_symbol agree hevent hx)]
  simp only [hkeys]

omit quiet in
theorem quiet_fact {a : String} (ha : a ∉ (expand (factsOf (pre ++ [e])) (scopeOf e)).assertions) :
    assertionFact (factsOf pre) a = assertionFact (factsOf (pre ++ [e])) a := by
  rw [expand_scoped (scopeOf_everything.trans hevent)] at ha
  simp only [mem_append, not_or] at ha
  have hassertion := assertion_frame agree (a := a) (fun g h => ha.1.1.1 (mem_scope_claimed h))
    fun h => ha.1.1.1 (mem_scope_asserted h)
  rw [← fact_none, ← fact_none, hassertion]

/-- **An assertion outside the scope stays as it is.** -/
theorem quiet_assertion {a : String} (ha : a ∉ (expand (factsOf (pre ++ [e])) (scopeOf e)).assertions) :
    derivedAssertions isIdentifier (factsOf pre) a = derivedAssertions isIdentifier (factsOf (pre ++ [e])) a := by
  have hfact := quiet_fact agree hevent ha
  rw [derivedAssertions, derivedAssertions, hfact]
  refine Option.map_congr fun fact hrecorded => ?_
  have hpre := hfact.trans hrecorded
  have hk := mem_assertionIds.2 (rooted_factsOf (agree_pre agree) a fact hpre)
  have hopen : fact.validTo = none := by
    have hvalidTo : textOf ((factsOf (pre ++ [e])).read (.assertion a)) "asserted_valid_to" = fact.validTo := by
      obtain ⟨validFrom, -, rfl⟩ := Option.map_eq_some_iff.1 hrecorded
      rfl
    have hk' := mem_assertionIds.2 (rooted_factsOf agree a fact hrecorded)
    rw [← hvalidTo, ← Option.not_isSome_iff_eq_none]
    intro h
    rw [expand_scoped (scopeOf_everything.trans hevent)] at ha
    simp only [mem_append, not_or] at ha
    exact ha.1.1.2 (mem_filter.2 ⟨hk', h⟩)
  have hruns := quiet_runs agree hevent quiet
  have hcurrent : isCurrent (deriveAssertion isIdentifier _ a fact) _ = _ :=
    isCurrent_frame hopen hruns.horizon (quiet.horizon a hk fact hpre hopen ha)
  rw [← deriveAssertion_frame hruns (outside_assertion agree hevent ha hrecorded), assertionState, assertionState,
    hcurrent]

theorem quiet_subject {subjectId : String}
    (hout : ∀ a fact, a ∈ (expand (factsOf (pre ++ [e])) (scopeOf e)).assertions →
      assertionFact (factsOf (pre ++ [e])) a = some fact → fact.subjectId ≠ subjectId) :
    currentBySubject (factsOf pre) (derivedAssertions isIdentifier (factsOf pre)) subjectId =
      currentBySubject (factsOf (pre ++ [e])) (derivedAssertions isIdentifier (factsOf (pre ++ [e]))) subjectId := by
  obtain ⟨new, hkeys, hwritten⟩ := Store.keys_putAll (factsOf pre) (factWrites e)
  rw [← factsOf_snoc] at hkeys
  have hids : assertionIds (factsOf (pre ++ [e])) = assertionIds (factsOf pre) ++ new.filterMap Key.assertion? := by
    rw [assertionIds, hkeys, filterMap_append]
    rfl
  have hscoped : ∀ a n, (Key.assertion a, n) ∈ factWrites e → a ∈ (expand (factsOf (pre ++ [e])) (scopeOf e)).assertions := by
    intro a n hn
    rw [expand_scoped (scopeOf_everything.trans hevent)]
    simp only [mem_append]
    exact Or.inl (Or.inl (Or.inl (mem_scope_assertion hn)))
  -- an assertion in scope has another subject, also before the event
  have hbefore : ∀ a fact, a ∈ (expand (factsOf (pre ++ [e])) (scopeOf e)).assertions →
      assertionFact (factsOf pre) a = some fact → fact.subjectId ≠ subjectId := by
    intro a fact ha hfact hsubject
    obtain ⟨fact', hfact', hsubject', -⟩ := fact_persists agree (fun _ h => mem_snoc_of_mem h) hfact
    exact hout a fact' ha hfact' (hsubject'.trans hsubject)
  unfold currentBySubject
  rw [hids, filterMap_append]
  have hnew : ∀ a ∈ new.filterMap Key.assertion?, a ∈ (expand (factsOf (pre ++ [e])) (scopeOf e)).assertions := by
    intro a ha
    obtain ⟨k, hk, ha⟩ := mem_filterMap.1 ha
    obtain ⟨n, hn⟩ := hwritten k hk
    cases k with
    | assertion a' => obtain rfl := Option.some.inj ha; exact hscoped a' n hn
    | _ => cases ha
  rw [filterMap_eq_nil_iff.2 fun a ha => currentRow_of_other fun fact => hout a fact (hnew a ha),
    append_nil]
  refine filterMap_congr fun a _ => ?_
  by_cases ha : a ∈ (expand (factsOf (pre ++ [e])) (scopeOf e)).assertions
  · rw [currentRow_of_other fun fact => hbefore a fact ha, currentRow_of_other fun fact => hout a fact ha]
  · have hread := @read_snoc pre e _ fun n hn => ha (hscoped a n hn)
    rw [currentRow, currentRow, quiet_fact agree hevent ha, quiet_assertion agree hevent quiet ha, hread]

/-- **The edges of a subject outside the scope stay as they are.** -/
theorem quiet_edge {k : EdgeKey} (hout : ∀ a fact, a ∈ (expand (factsOf (pre ++ [e])) (scopeOf e)).assertions →
      assertionFact (factsOf (pre ++ [e])) a = some fact → fact.subjectId ≠ k.subjectId) :
    edgeOf (factsOf pre) (derivedAssertions isIdentifier (factsOf pre)) k =
      edgeOf (factsOf (pre ++ [e])) (derivedAssertions isIdentifier (factsOf (pre ++ [e]))) k := by
  have hrows : currentBySubject _ (derivedAssertions isIdentifier _) _ = _ := quiet_subject agree hevent quiet hout
  have hresolve : ∀ {s : FactStore} {states label}, targetLabel k.predicate = some label →
      k.source.node k.subjectId ∈ s.keys → label.node k.objectId ∈ s.keys →
      edgeOf s states k = resolveEdge (currentBySubject s states k.subjectId) k.predicate k.objectId := by
    intro s states label hlabel hsource htarget
    simp only [edgeOf, hlabel, if_pos (And.intro hsource htarget)]
  ext props
  constructor
  · intro h
    obtain ⟨label, hlabel, hsource, htarget, -⟩ := edgeOf_eq_some h
    rw [hresolve hlabel hsource htarget] at h
    rw [hresolve hlabel (mem_keys_snoc.2 (Or.inl hsource)) (mem_keys_snoc.2 (Or.inl htarget)), ← hrows]
    exact h
  · intro h
    obtain ⟨label, hlabel, hsource, htarget, a, fact, -, hfact, hfamily, hsubject, hpredicate, hobject⟩ :=
      edgeOf_eq_some h
    have ha : a ∉ (expand (factsOf (pre ++ [e])) (scopeOf e)).assertions := fun ha => hout a fact ha hfact hsubject
    have hpre : assertionFact (factsOf pre) a = some fact := (quiet_fact agree hevent ha).trans hfact
    -- an end that the event creates brings the assertion into scope
    have hsymbol : ∀ x, fact.subjectId = x ∨ fact.objectId = some x → Key.symbol x ∈ (factsOf (pre ++ [e])).keys →
        Key.symbol x ∈ (factsOf pre).keys := by
      intro x hx hk
      rcases mem_keys_snoc.1 hk with hk | ⟨n, hn⟩
      · exact hk
      · rw [expand_scoped (scopeOf_everything.trans hevent)] at ha
        exact absurd (mem_append_right _
          (mem_assertionsOfSymbols agree hfact (mem_append_left _ (mem_scope_symbolNode hn)) hx)) ha
    have hfile : ∀ f, fact.subjectId = f ∨ fact.predicate = .possiblySupersedes ∧ fact.objectId = some f →
        Key.file f ∈ (factsOf (pre ++ [e])).keys → Key.file f ∈ (factsOf pre).keys := by
      intro f hf hk
      by_contra hnew
      have hid := mem_assertionIds.2 (rooted_factsOf (agree_pre agree) a fact hpre)
      exact ha (quiet.file f (mem_filterMap.2 ⟨_, hk, rfl⟩) hnew a hid fact hpre hfamily hf)
    have hsource' : k.source.node k.subjectId ∈ (factsOf pre).keys := by
      cases hs : k.source with
      | symbol => rw [hs] at hsource; exact hsymbol _ (Or.inl hsubject) hsource
      | file => rw [hs] at hsource; exact hfile _ (Or.inl hsubject) hsource
    have htarget' : label.node k.objectId ∈ (factsOf pre).keys := by
      cases label with
      | symbol => exact hsymbol _ (Or.inr hobject) htarget
      | file =>
        have hsupersedes : fact.predicate = .possiblySupersedes := by
          rw [hpredicate]
          cases hp : k.predicate <;> simp [targetLabel, hp] at hlabel ⊢
        exact hfile _ (Or.inr ⟨hsupersedes, hobject⟩) htarget
    rw [hresolve hlabel hsource htarget] at h
    rw [hresolve hlabel hsource' htarget', hrows]
    exact h

end Step

end Code
