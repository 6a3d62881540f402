import AgentContext.Temporal.Resolution

/-!
# Dirty runs

`_without_dirty`: a failure as seen from a revision.  The resolution was derived over every run, and what is left of it
is one fix path, so it is judged by that path alone:

    kept      the runs of the requested workspace snapshot, and of none
    path      its failing run is kept, and its pass ran on the requested state

A failure of several targets rests on a pass of each.  Where another target's pass is dirty, the answer still says
resolved, and the kept runs alone do not.
-/

namespace Temporal

open Keyset List
open Knowledge (Moment EventOrder)

/-! ## The filter -/

/-- `in (None, snapshot)`. -/
def onState (snapshot ran : Option String) : Bool := ran = none || ran = snapshot

/-- The runs of the requested state. -/
def VisibleRuns.keep (v : VisibleRuns) (snapshot : Option String) : VisibleRuns where
  ci := v.ci.filter fun r => onState snapshot r.snapshotId
  tests := v.tests.filter fun r => onState snapshot r.snapshotId
  ciIds := (List.filter_sublist.map _).nodup v.ciIds

def madeDirty (v : VisibleRuns) (snapshot : Option String) (row : Observation) : Bool :=
  ((named row.ciRunId).bind v.ciRun).any (fun r => !onState snapshot r.snapshotId) ||
    ((named row.testRunId).bind v.testRun).any fun r => !onState snapshot r.snapshotId

def keptRows (v : VisibleRuns) (snapshot : Option String) (rows : List Observation) : List Observation :=
  rows.filter fun row => !madeDirty v snapshot row

variable {v : VisibleRuns} {rows : List Observation} {r r' p : CIRun} {snapshot : Option String}
variable {failure : FailureRecord}

theorem mem_keep : r ∈ (v.keep snapshot).ci ↔ r ∈ v.ci ∧ onState snapshot r.snapshotId := mem_filter

theorem mem_keptRows {row : Observation} : row ∈ keptRows v snapshot rows ↔ row ∈ rows ∧ madeDirty v snapshot row = false := by
  unfold keptRows
  rw [mem_filter, Bool.not_eq_true']

theorem Failing.of_keep (h : Failing (v.keep snapshot) (keptRows v snapshot rows) r) : Failing v rows r := by
  obtain ⟨hr, row, hrow, hid⟩ := h
  exact ⟨(mem_keep.1 hr).1, row, (mem_keptRows.1 hrow).1, hid⟩

theorem occurrence_keep {row : Observation} (hrow : madeDirty v snapshot row = false) :
    occurrence (v.keep snapshot) row = occurrence v row := by
  unfold occurrence
  cases hid : named row.ciRunId with
  | none => rfl
  | some id =>
    rw [Option.bind_some, Option.bind_some]
    have hsame : (v.keep snapshot).ciRun id = v.ciRun id := by
      refine Option.ext fun r => ?_
      rw [ciRun_eq_some, ciRun_eq_some, mem_keep]
      refine ⟨fun h => ⟨h.1.1, h.2⟩, fun h => ⟨⟨h.1, ?_⟩, h.2⟩⟩
      have hdirty := (Bool.or_eq_false_iff.1 hrow).1
      rw [hid, Option.bind_some, ciRun_eq_some.2 h] at hdirty
      simpa using hdirty
    rw [hsame]

theorem ResolvedBy.keep (h : ResolvedBy v rows r p) (hpassed : EachPassed (v.keep snapshot) (keptRows v snapshot rows))
    (hfailing : Failing (v.keep snapshot) (keptRows v snapshot rows) r) (hstate : onState snapshot p.snapshotId) :
    ResolvedBy (v.keep snapshot) (keptRows v snapshot rows) r p := by
  obtain ⟨-, hnewest, hfirst, hquiet⟩ := h
  refine ⟨hpassed, ⟨hfailing, fun r' hr' => hnewest.2 r' hr'.of_keep⟩, ⟨mem_keep.2 ⟨hfirst.1, hstate⟩, hfirst.2.1, ?_⟩, ?_⟩
  · exact fun p' hp' hpass' => hfirst.2.2 p' (mem_keep.1 hp').1 hpass'
  · intro row hrow
    obtain ⟨hin, hclean⟩ := mem_keptRows.1 hrow
    rw [occurrence_keep hclean]
    exact hquiet row hin

namespace Sample

def ciRun (runId workflow status : String) (completedAt : Moment) (commitId snapshotId : Option String) : CIRun where
  runId := runId
  status := some status
  workflow := some workflow
  job := some "unit"
  provider := some "github"
  projectId := none
  repositoryId := some "repo"
  completedAt := completedAt
  commitId := commitId
  snapshotId := snapshotId
  resultOrder := none

def observed (eventId ciRunId : String) : Observation where
  eventId := eventId
  component := some "auth"
  operation := some "login"
  errorClass := some "TypeError"
  fingerprintSha256 := none
  validFrom := 12
  recordedAt := 12
  sessionId := none
  testRunId := none
  ciRunId := some ciRunId

/-- The workflow `lint` passes again only in the workspace snapshot `snap-1`. -/
def runs : VisibleRuns where
  ci := [
    ciRun "lint-1" "lint" "failure" 13 (some "c1") none,
    ciRun "build-1" "build" "failure" 14 (some "c1") none,
    ciRun "lint-2" "lint" "success" 15 none (some "snap-1"),
    ciRun "build-2" "build" "success" 16 (some "c2") none]
  tests := []
  ciIds := by decide

def observations : List Observation := [observed "e1" "lint-1", observed "e2" "build-1"]

end Sample

end Temporal
