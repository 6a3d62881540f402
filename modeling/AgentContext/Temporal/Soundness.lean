import AgentContext.Temporal.Resolution
import AgentContext.Temporal.Snapshot

/-!
# What a resolved failure rests on

A read cuts the observations at their cap, and a failure is described by those that were read.  The record of a failure
says resolved only where all that is visible of it was read:

    AllRead    the cap took none of its observations
    Sound      each target passed after its last failing run, and nothing was observed after the pass that follows the
               last failing run of all

A cap that takes observations of one failure leaves the records of the others as they are.
-/

namespace Temporal

open Table Keyset List
open Knowledge (Moment EventOrder)

/-! ## What was read -/

theorem mem_mapM {α β : Type} {f : α → Option β} {l : List α} {bs : List β} {b : β} (h : l.mapM f = some bs) (hb : b ∈ bs) :
    ∃ a ∈ l, f a = some b := by
  induction l generalizing bs with
  | nil =>
    rw [mapM_nil] at h
    cases h
    exact absurd hb not_mem_nil
  | cons a l ih =>
    rw [mapM_cons] at h
    obtain ⟨first, hfirst, h⟩ := Option.bind_eq_some_iff.1 h
    obtain ⟨others, hothers, h⟩ := Option.bind_eq_some_iff.1 h
    cases h
    rcases mem_cons.1 hb with rfl | hb
    · exact ⟨a, mem_cons_self, hfirst⟩
    · obtain ⟨a', ha', hf⟩ := ih hothers hb
      exact ⟨a', mem_cons_of_mem _ ha', hf⟩

section Read

variable {rows rows' : List ObservationRow} {id : String}

theorem readObservations_of_le (h : rows.length ≤ maxObservations) : readObservations rows = rows := by
  unfold readObservations
  rw [List.getElem?_eq_none h]

theorem readObservations_sublist : (readObservations rows).Sublist rows := by
  unfold readObservations
  split
  · exact List.Sublist.refl _
  · exact filter_sublist.trans (take_sublist _ _)

theorem observationsOf_sublist (h : rows'.Sublist rows) : (observationsOf id rows').Sublist (observationsOf id rows) :=
  (h.filter _).map _

def AllRead (rows : List ObservationRow) (id : String) : Prop :=
  observationsOf id (readObservations rows) = observationsOf id rows

theorem allRead_of_le (h : rows.length ≤ maxObservations) : AllRead rows id := by
  unfold AllRead
  rw [readObservations_of_le h]

/-- The totals tell who lost observations. -/
theorem totals_eq_none : totals rows id = none ↔ AllRead rows id := by
  have hsub : (observationsOf id (readObservations rows)).Sublist (observationsOf id rows) :=
    observationsOf_sublist readObservations_sublist
  unfold totals
  split
  · next hnil =>
    rw [hnil] at hsub
    exact iff_of_true rfl ((sublist_nil.1 hsub).trans hnil.symm)
  · next first others hall =>
    have hlength : (observationsOf id rows).length = others.length + 1 := by rw [hall, length_cons]
    split
    · next hlt =>
      refine iff_of_false nofun fun hread => ?_
      rw [hread] at hlt
      omega
    · next hnot => exact iff_of_true rfl (hsub.eq_of_length_le (by omega))

theorem capped_eq_none : (if maxObservations < rows.length then totals rows id else none) = none ↔ AllRead rows id := by
  split
  · exact totals_eq_none
  · next hle => exact iff_of_true rfl (allRead_of_le (not_lt.1 hle))

end Read

/-! ## One record -/

variable {v : VisibleRuns} {rows : List Observation} {r r' p : CIRun}

/-- A later passing run of the same target that names the state it ran on.  A project that is not given is one without
a name. -/
structure PassOf (r p : CIRun) : Prop where
  passed : p.status = some "success"
  provider : p.provider = r.provider
  workflow : p.workflow = r.workflow
  job : p.job = r.job
  project : p.projectId.getD "" = r.projectId.getD ""
  repository : p.repositoryId.getD "" = r.repositoryId.getD ""
  validates : p.commitId ≠ none ∨ p.snapshotId ≠ none
  later : r.occurred < p.occurred

theorem passOf (h : passesAfter r p) : PassOf r p := by
  unfold passesAfter sameText coalesced at h
  simp only [Bool.and_eq_true, Bool.or_eq_true, decide_eq_true_eq] at h
  obtain ⟨⟨⟨⟨⟨⟨⟨-, hstatus⟩, hprovider⟩, hworkflow⟩, hjob⟩, hproject⟩, hrepository⟩, hstate⟩ := h.1
  exact ⟨hstatus, hprovider.2, hworkflow.2, hjob.2, hproject, hrepository, hstate, h.2⟩

/-- Each target that a failure was observed in passed after its last failing run, and nothing was observed after the pass
that follows the last failing run of all. -/
structure Sound (v : VisibleRuns) (rows : List Observation) : Prop where
  fixed : ∀ r, Failing v rows r → ∃ last p, LastOfTarget v rows last ∧ last.target = r.target ∧ p ∈ v.ci ∧
    PassOf last p ∧ ∀ r', Failing v rows r' → r'.target = r.target → r'.occurred < p.occurred
  quiet : ∃ r p, Newest v rows r ∧ FirstPass v r p ∧ QuietAfter v rows p

theorem ResolvedBy.sound (h : ResolvedBy v rows r p) : Sound v rows where
  fixed r hr := by
    obtain ⟨last, hlast, ht, hmax⟩ := exists_last (mem_ciRuns.2 hr)
    have hlast : LastOfTarget v rows last :=
      ⟨mem_ciRuns.1 hlast, fun r' hr' ht' => hmax r' (mem_ciRuns.2 hr') (ht'.trans ht)⟩
    obtain ⟨p, hp, hpass⟩ := h.1 last hlast
    refine ⟨last, p, hlast, ht, hp, passOf hpass, fun r' hr' ht' => ?_⟩
    exact lt_of_le_of_lt (hlast.2 r' hr' (ht'.trans ht.symm)) (passOf hpass).later
  quiet := ⟨r, p, h.2⟩

/-- The order of the observations does not matter. -/
theorem resolvedBy_reverse : ResolvedBy v rows.reverse r p ↔ ResolvedBy v rows r p := by
  simp only [ResolvedBy, EachPassed, LastOfTarget, Newest, QuietAfter, Failing, mem_reverse]

theorem resolution_of_capped {failureId : String} {capped : Option Totals} (h : capped ≠ none) :
    (resolution v rows failureId capped).status = .unknown := by
  unfold resolution
  rw [if_pos h]

/-! ## What is visible -/

section Visible

variable {seen : Seen} {rows : List ObservationRow}

/-- The records of `_OBSERVATIONS` are those of the nodes it matches. -/
theorem mem_observationRows {row : ObservationRow} (h : observationRows seen = some rows) :
    row ∈ rows ↔ ∃ id n, seen.observations.lookup id = some n ∧ observationRow id n = some row := by
  obtain ⟨bs, hbs, rfl⟩ := Option.map_eq_some_iff.1 h
  rw [mem_sortBy, mem_parsed hbs]

theorem observationRows_nodup (h : observationRows seen = some rows) :
    (rows.map fun row => row.observation.eventId).Nodup := by
  obtain ⟨bs, hbs, rfl⟩ := Option.map_eq_some_iff.1 h
  have hname : ∀ id n row, observationRow id n = some row → row.observation.eventId = id := by
    intro id n row hn
    unfold observationRow at hn
    obtain ⟨failureId, -, hn⟩ := Option.bind_eq_some_iff.1 hn
    obtain ⟨validFrom, -, hn⟩ := Option.bind_eq_some_iff.1 hn
    obtain ⟨recordedAt, -, hn⟩ := Option.bind_eq_some_iff.1 hn
    obtain rfl := Option.some_inj.1 hn
    rfl
  exact ((sortBy_perm _ _).map _).nodup_iff.2 (parsed_nodup hname hbs)

end Visible

/-! ## A read -/

section Answers

variable {seen : Seen} {includeResolved : Bool} {result : FailuresResult} {record : FailureRecord}

/-- The observations that a record describes: the read ones of its failure, oldest first. -/
def described (rows : List ObservationRow) (id : String) : List Observation :=
  (observationsOf id (readObservations rows)).reverse

theorem mem_readFailures (h : readFailures seen = some result) (hrecord : record ∈ result.failures) :
    ∃ rows, observationRows seen = some rows ∧ failureRecord seen.runs (described rows record.failureId) record.failureId
      (if maxObservations < rows.length then totals rows record.failureId else none) = some record := by
  unfold readFailures at h
  obtain ⟨rows, hrows, h⟩ := Option.bind_eq_some_iff.1 h
  obtain ⟨records, hrecords, h⟩ := Option.bind_eq_some_iff.1 h
  obtain rfl := Option.some_inj.1 h
  refine ⟨rows, hrows, ?_⟩
  obtain ⟨id, -, hid⟩ := mem_mapM hrecords (mem_sortBy.1 hrecord)
  have hname : record.failureId = id := by
    obtain ⟨first, -, rfl⟩ := Option.map_eq_some_iff.1 hid
    rfl
  rw [hname]
  exact hid

theorem mem_failuresOf (h : failuresOf includeResolved seen = some result) (hrecord : record ∈ result.failures) :
    ∃ all, readFailures seen = some all ∧ record ∈ all.failures := by
  obtain ⟨all, hall, rfl⟩ := Option.map_eq_some_iff.1 h
  refine ⟨all, hall, ?_⟩
  split at hrecord
  · exact hrecord
  · exact (mem_filter.1 hrecord).1

theorem resolution_of_mem (h : failuresOf includeResolved seen = some result) (hrecord : record ∈ result.failures) :
    ∃ rows, observationRows seen = some rows ∧
      record.resolution = resolution seen.runs (described rows record.failureId) record.failureId
        (if maxObservations < rows.length then totals rows record.failureId else none) := by
  obtain ⟨all, hall, hrecord⟩ := mem_failuresOf h hrecord
  obtain ⟨rows, hrows, hone⟩ := mem_readFailures hall hrecord
  refine ⟨rows, hrows, ?_⟩
  obtain ⟨first, -, heq⟩ := Option.map_eq_some_iff.1 hone
  exact (congrArg FailureRecord.resolution heq).symm

/-- **Resolved is sound.**  A record of any read says resolved only where all visible observations of its failure were
read, and they and the visible runs bear it out; where the cap took some of them, it says unknown. -/
theorem resolved_sound {cut : Cut} {g : Graph} (h : failures cut includeResolved g = some result)
    (hrecord : record ∈ result.failures) :
    ∃ rows, observationRows (Temporal.seen cut g) = some rows ∧
      (record.resolution.status = .resolved →
        Sound (Temporal.seen cut g).runs (observationsOf record.failureId rows)) ∧
      (¬AllRead rows record.failureId → record.resolution.status = .unknown) := by
  obtain ⟨rows, hrows, hresolution⟩ := resolution_of_mem h hrecord
  refine ⟨rows, hrows, fun hres => ?_, fun hcut => ?_⟩
  · rw [hresolution] at hres
    obtain ⟨hcapped, r, p, hby, -⟩ := resolution_resolved.1 hres
    have hread : observationsOf record.failureId (readObservations rows) = observationsOf record.failureId rows :=
      capped_eq_none.1 hcapped
    rw [described, hread, resolvedBy_reverse] at hby
    exact hby.sound
  · rw [hresolution]
    exact resolution_of_capped fun hnone => hcut (capped_eq_none.1 hnone)

end Answers

/-! ## Two targets, and a cap -/

namespace Targets

def runNode (runId workflow status : String) (completedAt : Moment) : RunNode where
  result := some ⟨toLex (completedAt, runId), some "github", some workflow, some "unit", status, some "commit", none, completedAt⟩
  projectId := none
  repositoryId := some "repo"
  recordedAt := some completedAt

def observation (ciRunId : Option String) (failureId : String) (validFrom : Moment) : ObservationNode :=
  { ObservationNode.stub with
    failureId := some failureId
    validFrom := some validFrom
    recordedAt := some validFrom
    ciRunId := ciRunId
    repositoryId := some "repo" }

theorem inRepository : (none : Option String) ≠ none ∨ some "repo" ≠ none := Or.inr nofun

def cut : Cut := ⟨⟨none, some "repo", inRepository⟩, 10000, 10000⟩

/-- `lint` fails and passes, then `build` fails and passes. -/
def graph : Graph where
  knowledge := .empty
  observations := insertAll
    [("e1", observation (some "lint-1") "failure" 1), ("e2", observation (some "build-1") "failure" 3)] ∅
  ci := insertAll
    [("lint-1", runNode "lint-1" "lint" "failure" 1), ("lint-2", runNode "lint-2" "lint" "success" 2),
      ("build-1", runNode "build-1" "build" "failure" 3), ("build-2", runNode "build-2" "build" "success" 4)] ∅
  tests := ∅

def key (i : Nat) : String := String.ofList (List.replicate i 'x')

theorem key_inj {i j : Nat} (h : key i = key j) : i = j := by
  have hlength := congrArg String.length h
  simpa [key] using hlength

/-- A failure that was fixed, and more observations of an older one than are read. -/
def entries : List (String × ObservationNode) :=
  (key 5001, observation (some "lint-1") "failure" 9000) ::
    (List.range 5001).map fun i => (key i, observation none "other" i)

def cappedGraph : Graph where
  knowledge := .empty
  observations := insertAll entries ∅
  ci := insertAll
    [("lint-1", runNode "lint-1" "lint" "failure" 9000), ("lint-2", runNode "lint-2" "lint" "success" 9001)] ∅
  tests := ∅

theorem entries_nodup : (entries.map Prod.fst).Nodup := by
  have hkeys : entries.map Prod.fst = key 5001 :: (List.range 5001).map key := by
    rw [entries, map_cons, map_map]
    rfl
  rw [hkeys, nodup_cons]
  refine ⟨fun h => ?_, nodup_range.map fun _ _ => key_inj⟩
  obtain ⟨i, hi, heq⟩ := mem_map.1 h
  rw [key_inj heq] at hi
  exact absurd (mem_range.1 hi) (lt_irrefl _)

def fixedRow : ObservationRow where
  failureId := "failure"
  observation := ⟨key 5001, none, none, none, none, 9000, 9000, none, none, some "lint-1"⟩

def otherRow (i : Nat) : ObservationRow where
  failureId := "other"
  observation := ⟨key i, none, none, none, none, i, i, none, none, none⟩

theorem mem_entries {id : String} {n : ObservationNode} :
    (seen cut cappedGraph).observations.lookup id = some n ↔ (id, n) ∈ entries := by
  rw [seen, lookup_select, Option.filter_eq_some_iff, cappedGraph, lookup_insertAll_empty entries_nodup]
  refine ⟨And.left, fun hmem => ⟨hmem, ?_⟩⟩
  rcases mem_cons.1 hmem with heq | hmem
  · obtain ⟨-, rfl⟩ := Prod.mk.inj heq
    decide
  · obtain ⟨i, hi, heq⟩ := mem_map.1 hmem
    obtain ⟨-, rfl⟩ := Prod.mk.inj heq
    have hi : (i : Int) ≤ 10000 := by
      have := mem_range.1 hi
      omega
    simp [seesObservation, observation, cut, TemporalScope.covers, hi]

theorem mem_rows {rows : List ObservationRow} {row : ObservationRow} (h : observationRows (seen cut cappedGraph) = some rows) :
    row ∈ rows ↔ row = fixedRow ∨ ∃ i < 5001, row = otherRow i := by
  rw [mem_observationRows h]
  simp only [mem_entries]
  constructor
  · rintro ⟨id, n, hmem, hrow⟩
    rcases mem_cons.1 hmem with heq | hmem
    · obtain ⟨rfl, rfl⟩ := Prod.mk.inj heq
      exact Or.inl (Option.some_inj.1 hrow).symm
    · obtain ⟨i, hi, heq⟩ := mem_map.1 hmem
      obtain ⟨rfl, rfl⟩ := Prod.mk.inj heq
      exact Or.inr ⟨i, mem_range.1 hi, (Option.some_inj.1 hrow).symm⟩
  · rintro (rfl | ⟨i, hi, rfl⟩)
    · exact ⟨_, _, mem_cons_self, rfl⟩
    · exact ⟨_, _, mem_cons_of_mem _ (mem_map_of_mem (mem_range.2 hi)), rfl⟩

theorem exists_rows : ∃ rows, observationRows (seen cut cappedGraph) = some rows := by
  have hall : ∀ row ∈ values (mapValues (fun id n => observationRow id n) (seen cut cappedGraph).observations),
      (id row).isSome = true := by
    intro row hrow
    obtain ⟨id, hid⟩ := mem_values.1 hrow
    rw [lookup_mapValues] at hid
    obtain ⟨n, hn, rfl⟩ := Option.map_eq_some_iff.1 hid
    rcases mem_cons.1 (mem_entries.1 hn) with heq | hmem
    · obtain ⟨-, rfl⟩ := Prod.mk.inj heq
      rfl
    · obtain ⟨i, -, heq⟩ := mem_map.1 hmem
      obtain ⟨-, rfl⟩ := Prod.mk.inj heq
      rfl
  obtain ⟨rows, hrows, -⟩ := isSome_mapM hall
  exact ⟨_, by rw [observationRows, hrows]; rfl⟩

theorem rows_eq {rows : List ObservationRow} (h : observationRows (seen cut cappedGraph) = some rows) :
    ∃ rest, rows = fixedRow :: rest ∧ (∀ row ∈ rest, row.failureId = "other") ∧ 5001 ≤ rest.length := by
  have hmem : ∀ row, row ∈ rows ↔ row = fixedRow ∨ ∃ i < 5001, row = otherRow i := fun row => mem_rows h
  have hnodup := observationRows_nodup h
  have hsorted : rows.Pairwise (·.rank ≤ ·.rank) := by
    obtain ⟨bs, -, rfl⟩ := Option.map_eq_some_iff.1 h
    exact sortBy_le _ _
  cases rows with
  | nil => exact absurd ((hmem fixedRow).2 (Or.inl rfl)) not_mem_nil
  | cons first rest =>
    have hfirst : first = fixedRow := by
      rcases (hmem first).1 mem_cons_self with heq | ⟨i, hi, rfl⟩
      · exact heq
      · rcases mem_cons.1 ((hmem fixedRow).2 (Or.inl rfl)) with heq | hin
        · exact heq.symm
        · have hle := (pairwise_cons.1 hsorted).1 _ hin
          have hle : (9000 : Int) ≤ i := (Prod.Lex.monotone_fst _ _ (OrderDual.toDual_le_toDual.1 hle))
          omega
    subst hfirst
    have hnot : fixedRow ∉ rest := fun hin => by
      rw [map_cons, nodup_cons] at hnodup
      exact hnodup.1 (mem_map_of_mem hin)
    refine ⟨rest, rfl, fun row hrow => ?_, ?_⟩
    · rcases (hmem row).1 (mem_cons_of_mem _ hrow) with rfl | ⟨i, -, rfl⟩
      · exact absurd hrow hnot
      · rfl
    · have hsub : (List.range 5001).map otherRow ⊆ rest := fun row hrow => by
        obtain ⟨i, hi, rfl⟩ := mem_map.1 hrow
        rcases mem_cons.1 ((hmem (otherRow i)).2 (Or.inr ⟨i, mem_range.1 hi, rfl⟩)) with heq | hin
        · have hid : "other" = "failure" := congrArg ObservationRow.failureId heq
          exact absurd hid (by decide)
        · exact hin
      have hinj : Function.Injective otherRow := fun i j heq =>
        key_inj (congrArg (fun row : ObservationRow => row.observation.eventId) heq)
      have hle := (subperm_of_subset (nodup_range.map hinj) hsub).length_le
      rwa [length_map, length_range] at hle

theorem failures_capped : ∃ record, failures cut true cappedGraph = some ⟨[record], true⟩ ∧
    record.resolution.status = .resolved := by
  obtain ⟨rows, hrows⟩ := exists_rows
  obtain ⟨rest, rfl, hother, hlength⟩ := rows_eq hrows
  obtain ⟨next, hnext⟩ : ∃ next, rest[4999]? = some next := ⟨_, List.getElem?_eq_getElem (by omega)⟩
  have hskip : ∀ l : List ObservationRow, l ⊆ rest → l.filter (·.failureId ≠ "other") = [] := fun l hl =>
    filter_eq_nil_iff.2 fun row hrow => by simp [hother row (hl hrow)]
  have hread : readObservations (fixedRow :: rest) = [fixedRow] := by
    have hcut : (fixedRow :: rest)[maxObservations]? = some next := hnext
    unfold readObservations
    rw [hcut]
    show (fixedRow :: rest.take 4999).filter (fun row => row.failureId ≠ next.failureId) = _
    rw [hother next (mem_of_getElem? hnext), filter_cons_of_pos (by decide), hskip _ (take_subset _ _)]
  have hone : observationsOf "failure" (fixedRow :: rest) = [fixedRow.observation] := by
    have hnone : rest.filter (·.failureId = "failure") = [] :=
      filter_eq_nil_iff.2 fun row hrow => by simp [hother row hrow]
    unfold observationsOf
    rw [filter_cons_of_pos (by decide), hnone]
    rfl
  have htotals : totals (fixedRow :: rest) "failure" = none := totals_eq_none.2 (by
    unfold AllRead
    rw [hread, hone]
    rfl)
  have hrecord : (failureRecord (seen cut cappedGraph).runs [fixedRow.observation] "failure" none).map
      (·.resolution.status) = some .resolved := rfl
  obtain ⟨record, hrecord, hstatus⟩ := Option.map_eq_some_iff.1 hrecord
  refine ⟨record, ?_, hstatus⟩
  have hcapped : maxObservations < (fixedRow :: rest).length := by
    rw [length_cons]
    show 5000 < _
    omega
  have hfound : (([fixedRow].map (·.failureId)).eraseDups).take maxFailures = ["failure"] := rfl
  have hdescribed : (observationsOf "failure" [fixedRow]).reverse = [fixedRow.observation] := rfl
  have hall : readFailures (seen cut cappedGraph) = some ⟨[record], true⟩ := by
    unfold readFailures
    simp only [hrows, Option.bind_eq_bind, Option.bind_some, hread, hcapped, hfound, mapM_cons, mapM_nil,
      hdescribed, htotals, if_true, hrecord]
    rfl
  rw [failures, failuresOf, hall]
  rfl

/-- The answer of the read. -/
theorem failures_graph : ∃ result, failures cut true graph = some result ∧
    ∃ record, result.failures = [record] ∧ record.failureId = "failure" ∧ record.resolution.status = .resolved := by
  have hanswer : ((failures cut true graph).map fun result =>
      result.failures.map fun record => (record.failureId, record.resolution.status)) = some [("failure", .resolved)] := by
    decide +kernel
  obtain ⟨result, hresult, hrecords⟩ := Option.map_eq_some_iff.1 hanswer
  obtain ⟨record, hrecord, heq⟩ := map_eq_singleton_iff.1 hrecords
  exact ⟨result, hresult, record, hrecord, congrArg Prod.fst heq, congrArg Prod.snd heq⟩

end Targets

/-- No observation after the pass of any target, and no answer from a list that was cut. -/
def SoundForEach (cut : Cut) (g : Graph) : Prop :=
  ∀ result record rows, failures cut true g = some result → record ∈ result.failures →
    observationRows (seen cut g) = some rows →
    (record.resolution.status = .resolved → ∀ r, LastOfTarget (seen cut g).runs (observationsOf record.failureId rows) r →
      ∃ p, FirstPass (seen cut g).runs r p ∧ QuietAfter (seen cut g).runs (observationsOf record.failureId rows) p) ∧
    (maxObservations < rows.length → record.resolution.status = .unknown)

/-- `build` failed after `lint` passed, and is fixed as well; a cap took the observations of another failure. -/
theorem fixed_one_after_the_other : ¬SoundForEach Targets.cut Targets.graph ∧ ¬SoundForEach Targets.cut Targets.cappedGraph := by
  constructor
  · intro hclaim
    obtain ⟨result, hresult, record, hrecord, hid, hres⟩ := Targets.failures_graph
    have hlate : ((observationRows (seen Targets.cut Targets.graph)).map fun rows =>
        let v := (seen Targets.cut Targets.graph).runs
        (latestRuns v (observationsOf "failure" rows)).any fun r =>
          (nextPass v.ci r).all fun p => recurring v (observationsOf "failure" rows) p ≠ []) = some true := by
      decide +kernel
    obtain ⟨rows, hrows, hlate⟩ := Option.map_eq_some_iff.1 hlate
    obtain ⟨r, hr, hpasses⟩ := List.any_eq_true.1 hlate
    have hquiet := (hclaim result record rows hresult (hrecord ▸ List.mem_singleton_self record) hrows).1 hres
    rw [hid] at hquiet
    obtain ⟨p, hfirst, hp⟩ := hquiet r (mem_latestRuns.1 hr)
    rw [nextPass_eq_some.2 hfirst, Option.all_some, decide_eq_true_eq] at hpasses
    exact hpasses (recurring_eq_nil.2 hp)
  · intro hclaim
    obtain ⟨record, hresult, hres⟩ := Targets.failures_capped
    obtain ⟨rows, hrows⟩ := Targets.exists_rows
    obtain ⟨rest, rfl, -, hlength⟩ := Targets.rows_eq hrows
    have hcapped : maxObservations < (Targets.fixedRow :: rest).length := by
      rw [List.length_cons]
      show 5000 < _
      omega
    have hunknown := (hclaim _ record _ hresult (List.mem_singleton_self record) hrows).2 hcapped
    rw [hres] at hunknown
    cases hunknown

/-- The failure of two targets that both passed. -/
theorem resolved_sound_two_targets : ∃ result, failures Targets.cut true Targets.graph = some result ∧
    ∃ record ∈ result.failures, record.resolution.status = .resolved ∧
      ∃ rows, observationRows (seen Targets.cut Targets.graph) = some rows ∧
        Sound (seen Targets.cut Targets.graph).runs (observationsOf record.failureId rows) := by
  obtain ⟨result, hresult, record, hrecord, -, hres⟩ := Targets.failures_graph
  have hmem : record ∈ result.failures := hrecord ▸ List.mem_singleton_self record
  obtain ⟨rows, hrows, hsound, -⟩ := resolved_sound hresult hmem
  exact ⟨result, hresult, record, hmem, hres, rows, hrows, hsound hres⟩

end Temporal
