import AgentContext.Indexing.Commits
import Mathlib.Tactic.NormNum
import Mathlib.Tactic.Positivity

/-!
# One commit

What `_State.apply` does, once the diff is one of the files before it: every added file has the lineage of the exact
rename to it, or a new one, every removed file that did not move is dead, and the rest stays.

    foldl_record    the loop over the records gathers the removed, the added and the edited files
    resolvable      what is handed to `resolve_rename` is what it asks for, so it does not raise
    apply_ok        the state after a commit is that of a `Step`
    Step.sound      ids stay distinct, and made of the names that were introduced
-/

namespace Indexing

open Fallible Keyset Table

variable {I : Type}

/-! ## The loop over the records -/

/-- The path a record puts among the removed ones. -/
def Record.removedPath (record : Record) : Option String :=
  if record.status = .renamed then record.path else record.removedFile.map Prod.fst

def Record.guess (record : Record) : Option (String × String × Nat) :=
  if record.status = .renamed ∧ IsFile record.newMode ∧ record.score < 100 then
    record.path.bind fun old => record.newPath.map fun new => (old, new, record.score)
  else none

def insertFile (added : Dict String String) (file : Option (String × String)) : Dict String String :=
  match file with
  | some file => added.insert file.1 file.2
  | none => added

def editFile (live : Dict String (Live I)) (file : Option (String × String)) : Dict String (Live I) :=
  match file with
  | some file => modify file.1 (fun item => { item with blobOid := file.2 }) live
  | none => live

theorem record_eq (scan : Scan I) (record : Record) : scan.record record =
    { removedPaths := scan.removedPaths ++ record.removedPath.toList
      added := insertFile scan.added record.addedFile
      similar := scan.similar ++ record.guess.toList
      live := editFile scan.live record.editedFile } := by
  obtain ⟨status, score, oldMode, newMode, oldOid, newOid, path, newPath⟩ := record
  by_cases ho : oldMode = gitlinkMode <;> by_cases hn : newMode = gitlinkMode <;>
    cases status <;> cases path <;> cases newPath <;>
    simp [Scan.record, Scan.pairRecord, Scan.plainRecord, Record.removedPath, Record.guess, insertFile, editFile,
      Record.removedFile, Record.addedFile, Record.editedFile, Record.InPlace, Record.oldFile, Record.newFile, IsFile, ho, hn] <;>
    try split <;> simp_all

theorem foldl_record (scan : Scan I) (records : List Record) : records.foldl Scan.record scan =
    { removedPaths := scan.removedPaths ++ records.filterMap Record.removedPath
      added := insertAll (addedFiles records) scan.added
      similar := scan.similar ++ records.filterMap Record.guess
      live := (editedFiles records).foldl (fun live file => editFile live (some file)) scan.live } := by
  induction records generalizing scan with
  | nil => simp [addedFiles, editedFiles, insertAll]
  | cons record records ih =>
    have hremoved : (record :: records).filterMap Record.removedPath =
        record.removedPath.toList ++ records.filterMap Record.removedPath := by
      cases h : record.removedPath <;> simp [h]
    have hguess : (record :: records).filterMap Record.guess = record.guess.toList ++ records.filterMap Record.guess := by
      cases h : record.guess <;> simp [h]
    have hadded : insertAll (addedFiles (record :: records)) scan.added =
        insertAll (addedFiles records) (insertFile scan.added record.addedFile) := by
      cases h : record.addedFile <;> simp [addedFiles, insertFile, insertAll, h]
    have hedited : (editedFiles (record :: records)).foldl (fun live file => editFile live (some file)) scan.live =
        (editedFiles records).foldl (fun live file => editFile live (some file)) (editFile scan.live record.editedFile) := by
      cases h : record.editedFile <;> simp [editedFiles, h, editFile]
    rw [List.foldl_cons, ih, record_eq, hremoved, hguess, hadded, hedited, List.append_assoc, List.append_assoc]

theorem scanRecords_eq (live : Dict String (Live I)) (records : List Record) : scanRecords live records =
    { removedPaths := records.filterMap Record.removedPath
      added := insertAll (addedFiles records) ∅
      similar := records.filterMap Record.guess
      live := (editedFiles records).foldl (fun live file => editFile live (some file)) live } := foldl_record _ _

theorem lookup_edited {files : List (String × String)} {live : Dict String (Live I)} {path : String}
    (nodup : (files.map Prod.fst).Nodup) :
    (files.foldl (fun live file => editFile live (some file)) live).lookup path =
      match files.lookup path with
      | some blob => (live.lookup path).map fun item => { item with blobOid := blob }
      | none => live.lookup path := by
  induction files generalizing live with
  | nil => rfl
  | cons file files ih =>
    rw [List.map_cons, List.nodup_cons] at nodup
    rw [List.foldl_cons, ih nodup.2]
    show (match files.lookup path with | some blob => _ | none => _) = _
    by_cases hpath : path = file.1
    · have hnone : files.lookup path = none := by
        rw [List.lookup_eq_none_iff]
        intro entry hentry
        have hne : file.1 ≠ entry.1 := fun heq => nodup.1 (heq ▸ List.mem_map_of_mem hentry)
        simpa [hpath] using hne
      have hsome : (file :: files).lookup path = some file.2 := by rw [List.lookup_cons, hpath, beq_self_eq_true]
      rw [hnone, hsome]
      show (modify _ _ _).lookup path = _
      rw [lookup_modify, if_pos hpath, hpath]
    · have hskip : (file :: files).lookup path = files.lookup path := by rw [List.lookup_cons, beq_false_of_ne hpath]
      rw [hskip]
      show (match files.lookup path with
        | some blob => ((modify _ _ _).lookup path).map _
        | none => (modify _ _ _).lookup path) = _
      rw [lookup_modify, if_neg hpath]

/-! ## What one commit does -/

/-- The only file removed with a blob, and the only one added with it, at another path. -/
structure ExactRename (records : List Record) (old new blob : String) : Prop where
  removed : (old, blob) ∈ removedFiles records
  added : (new, blob) ∈ addedFiles records
  moved : old ≠ new
  onlyRemoved : ∀ path, (path, blob) ∈ removedFiles records → path = old
  onlyAdded : ∀ path, (path, blob) ∈ addedFiles records → path = new

variable (uuid5 : I → String → I) (root : I)

/-- The lineage of a file that was added: that of the exact rename to it, or a new one. -/
def Assigned (state : State I) (commit : String) (records : List Record) (path blob : String) (item : Live I) : Prop :=
  (∃ old source, ExactRename records old path blob ∧ state.live.lookup old = some source ∧
    item.logicalId = source.logicalId ∧ item.origin = source.origin) ∨
  (∀ old, ¬ExactRename records old path blob) ∧ item.logicalId = fileId uuid5 root state.repositoryId path commit ∧
    item.origin = ⟨path, commit, blob⟩

/-- **One commit.** -/
structure Step (commit : String) (records : List Record) (state state' : State I) : Prop where
  repository : state'.repositoryId = state.repositoryId
  added : ∀ {path blob}, (path, blob) ∈ addedFiles records → ∃ item, state'.live.lookup path = some item ∧
    item.blobOid = blob ∧ Assigned uuid5 root state commit records path blob item
  removed : ∀ {path blob}, (path, blob) ∈ removedFiles records → (∀ new, (path, new) ∉ addedFiles records) →
    state'.live.lookup path = none
  kept : ∀ {path}, (∀ old, (path, old) ∉ removedFiles records) → (∀ new, (path, new) ∉ addedFiles records) →
    state'.live.lookup path = match (editedFiles records).lookup path with
      | some blob => (state.live.lookup path).map fun item => { item with blobOid := blob }
      | none => state.live.lookup path
  dead : ∀ {path logicalId}, state'.dead.lookup path = some logicalId →
    (state.dead.lookup path = some logicalId) ∨
    ∃ blob item, (path, blob) ∈ removedFiles records ∧ state.live.lookup path = some item ∧ item.logicalId = logicalId ∧
      ∀ {new newBlob item'}, (new, newBlob) ∈ addedFiles records → state'.live.lookup new = some item' →
        item'.logicalId ≠ logicalId

def CollisionFree (repositoryId : String) (names : List (String × String)) : Prop :=
  ∀ a ∈ names, ∀ b ∈ names, fileId uuid5 root repositoryId a.1 a.2 = fileId uuid5 root repositoryId b.1 b.2 → a = b

/-- What a state knows of the files of its tree, and of the names its ids are made of. -/
structure Sound (names : List (String × String)) (files : String → Option String) (state : State I) : Prop where
  keyed : ∀ path, (state.live.lookup path).map (·.blobOid) = files path
  valid : ∀ {path blob}, files path = some blob → isSafeRepoPath path ∧ isOid blob ∧ blob ≠ noBlob
  liveNamed : ∀ {path item}, state.live.lookup path = some item →
    item.logicalId = fileId uuid5 root state.repositoryId item.origin.originPath item.origin.introducingCommit ∧
      (item.origin.originPath, item.origin.introducingCommit) ∈ names
  deadNamed : ∀ {path logicalId}, state.dead.lookup path = some logicalId →
    ∃ name ∈ names, logicalId = fileId uuid5 root state.repositoryId name.1 name.2
  liveDistinct : ∀ {path path' item item'}, state.live.lookup path = some item → state.live.lookup path' = some item' →
    item.logicalId = item'.logicalId → path = path'
  deadDistinct : ∀ {path path' logicalId}, state.dead.lookup path = some logicalId →
    state.dead.lookup path' = some logicalId → path = path'
  apart : ∀ {path path' item}, state.live.lookup path = some item → state.dead.lookup path' ≠ some item.logicalId

/-! ### What `apply` builds for `resolve_rename` -/

section Inputs

variable {uuid5 root} {names : List (String × String)} {before after : String → Option String} {state : State I}
  {records : List Record} {prior : PriorFile I}
variable {priors : List (PriorFile I)}

theorem live_of_file (hs : Sound uuid5 root names before state) {path blob : String} (h : before path = some blob) :
    ∃ item, state.live.lookup path = some item ∧ item.blobOid = blob := by
  have hkeyed := hs.keyed path
  rw [h] at hkeyed
  exact Option.map_eq_some_iff.1 hkeyed

theorem priors_paths_nodup {paths : List String} {live : Dict String (Live I)} :
    ((priorsOf paths live).map (·.path)).Nodup := by
  have hname : ∀ path (prior : PriorFile I), (live.lookup path).map (fun item =>
      PriorFile.mk path item.logicalId item.blobOid) = some prior → prior.path = id path := fun path prior h => by
    obtain ⟨item, -, rfl⟩ := Option.map_eq_some_iff.1 h
    rfl
  have hsub := filterMap_map_sublist hname (sortedSet paths)
  rw [List.map_id] at hsub
  exact hsub.nodup (sortedSet_nodup _)

theorem reused_paths_nodup {added : Dict String String} {dead : Dict String I} :
    ((reusedOf added dead priors).map (·.path)).Nodup := by
  refine (filterMap_map_sublist (fun entry prior h => ?_) (items added)).nodup items_keys_nodup
  split at h
  · cases h
  · obtain ⟨id, -, rfl⟩ := Option.map_eq_some_iff.1 h
    rfl

/-- The removed files and the deleted lineages that are handed over together. -/
def removedInputs (state : State I) (records : List Record) : List (PriorFile I) :=
  let scan := scanRecords state.live records
  let priors := priorsOf scan.removedPaths scan.live
  priors ++ reusedOf scan.added state.dead priors

def addedInputs (state : State I) (records : List Record) : List NewFile :=
  (items (scanRecords state.live records).added).map fun entry => ⟨entry.1, entry.2⟩

theorem removedInputs_paths_nodup : ((removedInputs state records).map (·.path)).Nodup := by
  unfold removedInputs
  rw [List.map_append, List.nodup_append]
  refine ⟨priors_paths_nodup, reused_paths_nodup, ?_⟩
  rintro path hprior _ hreused rfl
  obtain ⟨reused, hmem, rfl⟩ := List.mem_map.1 hreused
  obtain ⟨entry, -, hentry⟩ := List.mem_filterMap.1 hmem
  split at hentry
  · cases hentry
  · next hnew =>
    obtain ⟨id, -, rfl⟩ := Option.map_eq_some_iff.1 hentry
    exact hnew hprior

theorem added_of_guess {record : Record} {guess : String × String × Nat}
    (hmem : record ∈ records) (h : record.guess = some guess) :
    guess.2.2 < 100 ∧ ∃ blob, (guess.2.1, blob) ∈ addedFiles records := by
  unfold Record.guess at h
  split at h
  · next hcond =>
    obtain ⟨hstatus, hmode, hscore⟩ := hcond
    obtain ⟨old, -, hnew⟩ := Option.bind_eq_some_iff.1 h
    obtain ⟨new, hpath, rfl⟩ := Option.map_eq_some_iff.1 hnew
    refine ⟨hscore, record.newOid, List.mem_filterMap.2 ⟨record, hmem, addedFile_eq_some.2 ⟨?_, ?_⟩⟩⟩
    · rintro ⟨hin, -⟩
      rw [hstatus] at hin
      simp at hin
    · unfold Record.newFile
      rw [hstatus, if_pos hmode, hpath, Option.map_some]
  · cases h

abbrev priorInputs (state : State I) (records : List Record) : List (PriorFile I) :=
  priorsOf (scanRecords state.live records).removedPaths (scanRecords state.live records).live

section Diff

variable (hd : FileDiff before after records)
include hd

/-- The entries of removed files are as they were before the commit. -/
theorem lookup_scanned {path : String} (h : ∀ blob, (path, blob) ∉ editedFiles records) :
    (scanRecords state.live records).live.lookup path = state.live.lookup path := by
  rw [scanRecords_eq]
  show Finmap.lookup path (List.foldl _ _ _) = _
  rw [lookup_edited hd.editedPaths, List.lookup_eq_none_iff.2 fun entry hentry => by
    have : path ≠ entry.1 := fun heq => h entry.2 (heq ▸ hentry)
    simpa using this]

theorem not_edited_of_removed {path blob : String}
    (h : (path, blob) ∈ removedFiles records) (new : String) : (path, new) ∉ editedFiles records := fun hedited =>
  (hd.editedWas hedited).2.1 blob h

theorem mem_removedPaths {path blob : String} (hfile : before path = some blob) :
    path ∈ (scanRecords state.live records).removedPaths ↔ (path, blob) ∈ removedFiles records := by
  have hblob : ∀ b, (path, b) ∈ removedFiles records → b = blob := fun b hb =>
    Option.some.inj ((hd.removedWas hb).symm.trans hfile)
  rw [scanRecords_eq, List.mem_filterMap]
  constructor
  · rintro ⟨record, hmem, hpath⟩
    unfold Record.removedPath at hpath
    split at hpath
    · next hstatus =>
      by_cases hmode : IsFile record.oldMode
      · have hremoved : record.removedFile = some (path, record.oldOid) := by
          unfold Record.removedFile Record.InPlace Record.oldFile
          simp [hstatus, hmode, hpath]
        have := List.mem_filterMap.2 ⟨record, hmem, hremoved⟩
        exact hblob _ this ▸ this
      · have hnone := hd.renamedWas hmem hstatus hpath hmode
        rw [hnone] at hfile
        cases hfile
    · obtain ⟨file, hremoved, hp⟩ := Option.map_eq_some_iff.1 hpath
      have hmem' : (path, file.2) ∈ removedFiles records := List.mem_filterMap.2 ⟨record, hmem, by rw [hremoved, ← hp]⟩
      exact hblob _ hmem' ▸ hmem'
  · intro h
    obtain ⟨record, hmem, hremoved⟩ := List.mem_filterMap.1 h
    refine ⟨record, hmem, ?_⟩
    unfold Record.removedPath
    split
    · next hstatus =>
      have hold : record.oldFile = some (path, blob) := by
        unfold Record.removedFile at hremoved
        split at hremoved
        · cases hremoved
        · exact hremoved
      unfold Record.oldFile at hold
      rw [hstatus] at hold
      simp only at hold
      split at hold
      · obtain ⟨p, hp, heq⟩ := Option.map_eq_some_iff.1 hold
        rw [hp, (Prod.mk.inj heq).1]
      · cases hold
    · rw [hremoved, Option.map_some]

theorem lookup_added {path blob : String} :
    (scanRecords state.live records).added.lookup path = some blob ↔ (path, blob) ∈ addedFiles records := by
  rw [scanRecords_eq]
  constructor
  · intro h
    by_cases hmem : path ∈ (addedFiles records).map Prod.fst
    · obtain ⟨file, hfile, hpath⟩ := List.mem_map.1 hmem
      have hlookup := lookup_insertAll_of_mem (s := ∅) hd.addedPaths (show (path, file.2) ∈ _ from hpath ▸ hfile)
      rw [← Option.some.inj (hlookup.symm.trans h), ← hpath]
      exact hfile
    · have hnone : (insertAll (addedFiles records) (∅ : Dict String String)).lookup path = none := by
        rw [lookup_insertAll_of_notMem hmem]
        exact Finmap.lookup_empty path
      exact absurd (hnone.symm.trans h) nofun
  · exact fun h => lookup_insertAll_of_mem hd.addedPaths h

theorem mem_reused : prior ∈ reusedOf (scanRecords state.live records).added state.dead priors ↔
      prior.blobOid = noBlob ∧ (∃ blob, (prior.path, blob) ∈ addedFiles records) ∧
        prior.path ∉ priors.map (·.path) ∧ state.dead.lookup prior.path = some prior.logicalId := by
  unfold reusedOf
  rw [List.mem_filterMap]
  constructor
  · rintro ⟨entry, hentry, hprior⟩
    split at hprior
    · cases hprior
    · next hnew =>
      obtain ⟨id, hdead, rfl⟩ := Option.map_eq_some_iff.1 hprior
      exact ⟨rfl, ⟨entry.2, (lookup_added hd).1 (mem_items.1 hentry)⟩, hnew, hdead⟩
  · rintro ⟨hblob, ⟨blob, hadded⟩, hnew, hdead⟩
    refine ⟨(prior.path, blob), mem_items.2 ((lookup_added hd).2 hadded), ?_⟩
    rw [if_neg hnew, hdead, Option.map_some, ← hblob]

theorem mem_addedInputs {file : NewFile} :
    file ∈ addedInputs state records ↔ (file.path, file.blobOid) ∈ addedFiles records := by
  unfold addedInputs
  have hlookup : (scanRecords state.live records).added.lookup file.path = some file.blobOid ↔ _ := lookup_added hd
  rw [List.mem_map, ← hlookup]
  constructor
  · rintro ⟨entry, hentry, rfl⟩
    exact mem_items.1 hentry
  · exact fun h => ⟨(file.path, file.blobOid), mem_items.2 h, rfl⟩

end Diff

variable (hs : Sound uuid5 root names before state) (hd : FileDiff before after records)
include hs hd

theorem mem_priors : prior ∈ priorInputs state records ↔ (prior.path, prior.blobOid) ∈ removedFiles records ∧
        ∃ item, state.live.lookup prior.path = some item ∧ item.logicalId = prior.logicalId := by
  unfold priorInputs priorsOf
  rw [List.mem_filterMap]
  constructor
  · rintro ⟨path, hpath, hprior⟩
    rw [mem_sortedSet] at hpath
    obtain ⟨scanned, hscanned, rfl⟩ := Option.map_eq_some_iff.1 hprior
    show (path, scanned.blobOid) ∈ _ ∧ ∃ item, state.live.lookup path = some item ∧ item.logicalId = scanned.logicalId
    cases hlive : state.live.lookup path with
    | none =>
      rw [scanRecords_eq] at hscanned
      simp only [lookup_edited hd.editedPaths, hlive] at hscanned
      split at hscanned <;> cases hscanned
    | some item =>
      have hfile : before path = some item.blobOid := by rw [← hs.keyed, hlive, Option.map_some]
      have hremoved := (mem_removedPaths hd hfile).1 hpath
      have hsame : item = scanned := by
        rw [lookup_scanned hd (not_edited_of_removed hd hremoved), hlive] at hscanned
        exact Option.some.inj hscanned
      exact ⟨hsame ▸ hremoved, item, rfl, by rw [hsame]⟩
  · rintro ⟨hremoved, item, hlive, hid⟩
    have hfile : before prior.path = some prior.blobOid := hd.removedWas hremoved
    have hblob : item.blobOid = prior.blobOid := by
      have hkeyed := hs.keyed prior.path
      rw [hlive, hfile, Option.map_some] at hkeyed
      exact Option.some.inj hkeyed
    refine ⟨prior.path, mem_sortedSet _ |>.2 ((mem_removedPaths hd hfile).2 hremoved), ?_⟩
    rw [lookup_scanned hd (not_edited_of_removed hd hremoved), hlive, Option.map_some, hid, hblob]

theorem removed_prior {path blob : String}
    {item : Live I} (hremoved : (path, blob) ∈ removedFiles records) (hitem : state.live.lookup path = some item) :
    ⟨path, item.logicalId, blob⟩ ∈ priorInputs state records :=
  (mem_priors hs hd).2 ⟨hremoved, item, hitem, rfl⟩

theorem mem_removedInputs : prior ∈ removedInputs state records ↔
      ((prior.path, prior.blobOid) ∈ removedFiles records ∧
        ∃ item, state.live.lookup prior.path = some item ∧ item.logicalId = prior.logicalId) ∨
      (prior.blobOid = noBlob ∧ (∃ blob, (prior.path, blob) ∈ addedFiles records) ∧
        (∀ blob, (prior.path, blob) ∉ removedFiles records) ∧ state.dead.lookup prior.path = some prior.logicalId) := by
  unfold removedInputs
  simp only [List.mem_append, mem_priors hs hd, mem_reused hd]
  refine or_congr Iff.rfl (and_congr_right fun _ => and_congr_right fun _ => and_congr_left fun _ => ?_)
  constructor
  · intro hnew blob hremoved
    obtain ⟨item, hitem, hblob⟩ := live_of_file hs (hd.removedWas hremoved)
    exact hnew (List.mem_map.2 ⟨_, removed_prior hs hd hremoved hitem, rfl⟩)
  · intro hnone hmem
    obtain ⟨other, hother, hpath⟩ := List.mem_map.1 hmem
    exact hnone other.blobOid (hpath ▸ ((mem_priors hs hd).1 hother).1)

theorem removedInputs_eq_of_id
    {prior' : PriorFile I} (h : prior ∈ removedInputs state records) (h' : prior' ∈ removedInputs state records)
    (hid : prior.logicalId = prior'.logicalId) : prior = prior' := by
  have hpath : prior.path = prior'.path := by
    rcases (mem_removedInputs hs hd).1 h with ⟨-, item, hitem, heq⟩ | ⟨-, -, -, hdead⟩ <;>
      rcases (mem_removedInputs hs hd).1 h' with ⟨-, item', hitem', heq'⟩ | ⟨-, -, -, hdead'⟩
    · exact hs.liveDistinct hitem hitem' (by rw [heq, heq', hid])
    · have hne : state.dead.lookup prior'.path ≠ some item.logicalId := hs.apart hitem
      exact absurd (by rw [hdead', heq, hid]) hne
    · have hne : state.dead.lookup prior.path ≠ some item'.logicalId := hs.apart hitem'
      exact absurd (by rw [hdead, heq', hid]) hne
    · exact hs.deadDistinct hdead (hid ▸ hdead')
  exact List.inj_on_of_nodup_map removedInputs_paths_nodup h h' hpath

/-- `apply` keeps every promise `resolve_rename` asks for. -/
theorem resolvable
    (hrepo : repositoryIdText state.repositoryId = .ok state.repositoryId) {commit : String} (hcommit : isOid commit) :
    Resolvable state.repositoryId commit (removedInputs state records) (addedInputs state records)
      (guessesOf (scanRecords state.live records).similar (priorInputs state records)) where
  repositoryValid := hrepo
  commitValid := hcommit
  removedValid item hitem := by
    rcases (mem_removedInputs hs hd).1 hitem with ⟨hremoved, -⟩ | ⟨hblob, ⟨blob, hadded⟩, -, -⟩
    · obtain ⟨hsafe, hoid, -⟩ := hs.valid (hd.removedWas hremoved)
      exact ⟨hsafe, hoid⟩
    · rw [hblob]
      exact ⟨(hd.addedValid hadded).1, rfl⟩
  removedPaths := removedInputs_paths_nodup
  removedIds := by
    have hnodup : (removedInputs state records).Nodup := List.Nodup.of_map _ removedInputs_paths_nodup
    exact List.Nodup.map_on (fun a ha b hb hid => removedInputs_eq_of_id hs hd ha hb hid) hnodup
  addedValid file hfile := by
    obtain ⟨hsafe, hoid, -⟩ := hd.addedValid ((mem_addedInputs hd).1 hfile)
    exact ⟨hsafe, hoid⟩
  addedPaths := by
    unfold addedInputs
    rw [List.map_map]
    exact items_keys_nodup
  similarValid guess hguess := by
    obtain ⟨found, hfound, heq⟩ := List.mem_filterMap.1 hguess
    split at heq
    · next hcond =>
      cases heq
      rw [scanRecords_eq] at hfound
      obtain ⟨record, hmem, hrecord⟩ := List.mem_filterMap.1 hfound
      obtain ⟨hscore, blob, hadded⟩ := added_of_guess hmem hrecord
      have hpos : (0 : ℚ) < found.2.2 := by exact_mod_cast hcond.2
      have hle : (found.2.2 : ℚ) ≤ 100 := by exact_mod_cast hscore.le
      refine ⟨⟨by positivity, by rw [div_le_one (by norm_num)]; exact hle⟩, ?_, ?_⟩
      · unfold removedInputs
        rw [List.map_append]
        exact List.mem_append_left _ hcond.1
      · exact List.mem_map.2 ⟨⟨found.2.1, blob⟩, (mem_addedInputs hd).2 hadded, rfl⟩
    · cases heq

/-! ### The commit as a whole -/

variable {source : PriorFile I} {commit path blob : String}

theorem exactSource_inputs (hadded : (path, blob) ∈ addedFiles records) :
    exactSource (removedInputs state records) (addedInputs state records) ⟨path, blob⟩ = some source ↔
      ExactRename records source.path path blob ∧ source ∈ removedInputs state records ∧ source.blobOid = blob := by
  have hnodup : (removedInputs state records).Nodup := List.Nodup.of_map _ removedInputs_paths_nodup
  have hnodup' : (addedInputs state records).Nodup := by
    refine List.Nodup.of_map NewFile.path ?_
    unfold addedInputs
    rw [List.map_map]
    exact items_keys_nodup
  have hblob : blob ≠ noBlob := (hd.addedValid hadded).2.2
  -- a file handed over with a blob is one that was removed
  have hremoved : ∀ item ∈ removedInputs state records, item.blobOid = blob → (item.path, blob) ∈ removedFiles records := by
    intro item hitem heq
    rcases (mem_removedInputs hs hd).1 hitem with ⟨hremoved, -⟩ | ⟨hnone, -⟩
    · exact heq ▸ hremoved
    · exact absurd (heq.symm.trans hnone) hblob
  rw [exactSource_eq_some hnodup hnodup' ((mem_addedInputs hd).2 hadded)]
  constructor
  · rintro ⟨hmem, heq, hpath, honly, honly'⟩
    refine ⟨⟨hremoved source hmem heq, hadded, hpath, fun other hother => ?_, fun other hother => ?_⟩, hmem, heq⟩
    · obtain ⟨item, hitem, -⟩ := live_of_file hs (hd.removedWas hother)
      have hinput : ⟨other, item.logicalId, blob⟩ ∈ removedInputs state records :=
        List.mem_append_left _ (removed_prior hs hd hother hitem)
      exact congrArg PriorFile.path (honly _ hinput rfl)
    · exact congrArg NewFile.path (honly' ⟨other, blob⟩ ((mem_addedInputs hd).2 hother) rfl)
  · rintro ⟨hexact, hmem, heq⟩
    refine ⟨hmem, heq, hexact.moved, fun item hitem hitemBlob => ?_, fun file hfile hfileBlob => ?_⟩
    · exact List.inj_on_of_nodup_map removedInputs_paths_nodup hitem hmem
        (hexact.onlyRemoved item.path (hremoved item hitem hitemBlob))
    · have hfile' : (file.path, blob) ∈ addedFiles records := by
        rw [← show file.blobOid = blob from hfileBlob]
        exact (mem_addedInputs hd).1 hfile
      have hpath := hexact.onlyAdded file.path hfile'
      cases file
      exact congrArg₂ NewFile.mk hpath hfileBlob

theorem assigned_inputs (commit : String) (hadded : (path, blob) ∈ addedFiles records) :
    (∃ old source, ExactRename records old path blob ∧ state.live.lookup old = some source ∧
      assignedId uuid5 root state.repositoryId commit (removedInputs state records) (addedInputs state records) ⟨path, blob⟩ =
        source.logicalId) ∨
    (∀ old, ¬ExactRename records old path blob) ∧
      assignedId uuid5 root state.repositoryId commit (removedInputs state records) (addedInputs state records) ⟨path, blob⟩ =
        fileId uuid5 root state.repositoryId path commit := by
  unfold assignedId
  cases hsource : exactSource (removedInputs state records) (addedInputs state records) ⟨path, blob⟩ with
  | some source =>
    obtain ⟨hexact, hmem, heq⟩ := (exactSource_inputs hs hd hadded).1 hsource
    rcases (mem_removedInputs hs hd).1 hmem with ⟨-, item, hitem, hid⟩ | ⟨hnone, -⟩
    · exact .inl ⟨source.path, item, hexact, hitem, hid.symm⟩
    · exact absurd (heq.symm.trans hnone) (hd.addedValid hadded).2.2
  | none =>
    refine .inr ⟨fun old hexact => ?_, rfl⟩
    obtain ⟨item, hitem, -⟩ := live_of_file hs (hd.removedWas hexact.removed)
    have hinput : ⟨old, item.logicalId, blob⟩ ∈ removedInputs state records :=
      List.mem_append_left _ (removed_prior hs hd hexact.removed hitem)
    have hsome : exactSource (removedInputs state records) (addedInputs state records) ⟨path, blob⟩ =
        some ⟨old, item.logicalId, blob⟩ := (exactSource_inputs hs hd hadded).2 ⟨hexact, hinput, rfl⟩
    exact absurd (hsource.symm.trans hsome) nofun

theorem carried_ok : ∃ carried, (priorInputs state records).mapM
        (carryItem (scanRecords state.live records).live) = .ok carried ∧ (carried.map Prod.fst).Nodup ∧
      ∀ entry, entry ∈ carried ↔ ∃ path blob, (path, blob) ∈ removedFiles records ∧
        state.live.lookup path = some entry.2 ∧ entry.2.logicalId = entry.1 := by
  set priors := priorInputs state records with hpriors
  have hitem : ∀ item ∈ priors, ∃ entry, carryItem (scanRecords state.live records).live item = .ok entry ∧
      (state.live.lookup item.path = some entry.2 ∧ entry.2.logicalId = item.logicalId ∧ entry.1 = item.logicalId) := by
    intro item hmem
    obtain ⟨hremoved, source, hsource, hid⟩ := (mem_priors hs hd).1 hmem
    refine ⟨(item.logicalId, source), ?_, hsource, hid, rfl⟩
    unfold carryItem getItem
    rw [lookup_scanned hd (not_edited_of_removed hd hremoved), hsource]
    rfl
  obtain ⟨carried, hcarried, hall⟩ := mapM_forall₂ hitem
  refine ⟨carried, hcarried, ?_, fun entry => ⟨fun hentry => ?_, ?_⟩⟩
  · rw [forall₂_map (f := fun item => item.logicalId) hall fun _ _ h => h.2.2]
    have hnodup : priors.Nodup := List.Nodup.of_map _ priors_paths_nodup
    refine List.Nodup.map_on (fun a ha b hb hid => ?_) hnodup
    exact removedInputs_eq_of_id hs hd (List.mem_append_left _ ha) (List.mem_append_left _ hb) hid
  · obtain ⟨item, hmem, hsource, hid, hkey⟩ := forall₂_right hall entry hentry
    exact ⟨item.path, item.blobOid, ((mem_priors hs hd).1 hmem).1, hsource, hid.trans hkey.symm⟩
  · rintro ⟨path, blob, hremoved, hlive, hid⟩
    have hmem : PriorFile.mk path entry.1 blob ∈ priors := (mem_priors hs hd).2 ⟨hremoved, entry.2, hlive, hid⟩
    obtain ⟨entry', hentry', hsource, -, hkey⟩ := forall₂_left hall _ hmem
    have hsame : entry = entry' := Prod.ext hkey.symm (Option.some.inj (hlive.symm.trans hsource))
    exact hsame ▸ hentry'

/-- **One commit.**  The lineages after it are those of a step. -/
theorem apply_ok [LinearOrder I]
    (hrepo : repositoryIdText state.repositoryId = .ok state.repositoryId) (hcommit : isOid commit)
    (hfresh : ∀ {path blob old item}, (path, blob) ∈ addedFiles records → state.live.lookup old = some item →
      item.logicalId ≠ fileId uuid5 root state.repositoryId path commit) :
    ∃ state', state.apply uuid5 root commit records = .ok state' ∧ Step uuid5 root commit records state state' := by
  obtain ⟨resolution, hresolution, hids⟩ := @resolveRename_ok I _ uuid5 root _ _ _ _ _ (resolvable hs hd hrepo hcommit)
  obtain ⟨carried, hcarried, hcarriedIds, hcarriedMem⟩ := carried_ok hs hd
  set logicalIds := resolution.logicalIds with hlogicalIds
  -- the entries of the added files
  have hfile : ∀ file ∈ addedInputs state records, ∃ entry, placeFile commit logicalIds (insertAll carried ∅) file = .ok entry ∧
      (entry.1 = file.path ∧ entry.2.blobOid = file.blobOid ∧
        Assigned uuid5 root state commit records file.path file.blobOid entry.2) := by
    intro file hmem
    have hadded := (mem_addedInputs hd).1 hmem
    have hlookup := hids file hmem
    unfold placeFile getItem
    rw [hlookup]
    refine ⟨_, rfl, rfl, rfl, ?_⟩
    rcases assigned_inputs hs hd commit hadded with
      ⟨old, source, hexact, hsource, hid⟩ | ⟨hnone, hid⟩
    · refine .inl ⟨old, source, hexact, hsource, hid, ?_⟩
      have hentry : (source.logicalId, source) ∈ carried := (hcarriedMem _).2 ⟨old, _, hexact.removed, hsource, rfl⟩
      dsimp only
      rw [hid, lookup_insertAll_of_mem hcarriedIds hentry]
    · refine .inr ⟨hnone, hid, ?_⟩
      have hnew : fileId uuid5 root state.repositoryId file.path commit ∉ carried.map Prod.fst := by
        intro h
        obtain ⟨entry, hentry, hkey⟩ := List.mem_map.1 h
        obtain ⟨old, _, -, hlive, hentryId⟩ := (hcarriedMem entry).1 hentry
        exact hfresh hadded hlive (hentryId.trans hkey)
      dsimp only
      rw [hid, lookup_insertAll_of_notMem hnew, Finmap.lookup_empty]
  obtain ⟨placed, hplaced, hall⟩ := mapM_forall₂ hfile
  have hplacedPaths : placed.map Prod.fst = (addedInputs state records).map (·.path) := forall₂_map hall fun _ _ h => h.1
  have hplacedNodup : (placed.map Prod.fst).Nodup := by
    rw [hplacedPaths]
    exact (resolvable hs hd hrepo hcommit).addedPaths
  have happly : state.apply uuid5 root commit records = .ok
      { state with
        live := insertAll placed (keep (· ∉ (priorInputs state records).map (·.path)) (scanRecords state.live records).live)
        dead := insertAll ((((priorInputs state records).filter (·.logicalId ∉ placed.map (·.2.logicalId)))).map
            fun item => (item.path, item.logicalId)) (keep (· ∉ (scanRecords state.live records).added) state.dead)
        supersessions := state.supersessions ++ resolution.supersessions } := by
    unfold State.apply
    dsimp only
    show Except.bind (resolveRename uuid5 root state.repositoryId commit (removedInputs state records)
      (addedInputs state records) _) _ = _
    rw [hresolution]
    show Except.bind (List.mapM _ _) _ = _
    rw [hcarried]
    show Except.bind (List.mapM _ (addedInputs state records)) _ = _
    rw [hplaced]
    rfl
  have hadd : ∀ {path blob}, (path, blob) ∈ addedFiles records → ∃ item, (path, item) ∈ placed ∧ item.blobOid = blob ∧
      Assigned uuid5 root state commit records path blob item := by
    intro path blob hadded
    obtain ⟨entry, hentry, hpath, hblob, hassigned⟩ := forall₂_left hall ⟨path, blob⟩ ((mem_addedInputs hd).2 hadded)
    exact ⟨entry.2, by rw [← show entry.1 = path from hpath]; exact hentry, hblob, hassigned⟩
  have hnot : ∀ {path}, (∀ new, (path, new) ∉ addedFiles records) → path ∉ placed.map Prod.fst := by
    intro path hnone h
    rw [hplacedPaths] at h
    obtain ⟨file, hmem, hpath⟩ := List.mem_map.1 h
    exact hnone file.blobOid (hpath ▸ (mem_addedInputs hd).1 hmem)
  refine ⟨_, happly, ?_⟩
  constructor
  case repository => rfl
  case added =>
    intro path blob hadded
    obtain ⟨item, hitem, hblob, hassigned⟩ := hadd hadded
    exact ⟨item, lookup_insertAll_of_mem hplacedNodup hitem, hblob, hassigned⟩
  case removed =>
    intro path blob hremoved hnone
    obtain ⟨item, hitem, -⟩ := live_of_file hs (hd.removedWas hremoved)
    have hprior := removed_prior hs hd hremoved hitem
    rw [lookup_insertAll_of_notMem (hnot hnone), lookup_keep, if_neg (not_not.2 (List.mem_map.2 ⟨_, hprior, rfl⟩))]
  case kept =>
    intro path hremoved hnone
    have hprior : path ∉ (priorInputs state records).map (·.path) := by
      intro h
      obtain ⟨prior, hmem, hpath⟩ := List.mem_map.1 h
      exact hremoved prior.blobOid (hpath ▸ ((mem_priors hs hd).1 hmem).1)
    rw [lookup_insertAll_of_notMem (hnot hnone), lookup_keep, if_pos hprior, scanRecords_eq]
    exact lookup_edited hd.editedPaths
  case dead =>
    intro path logicalId hdead
    set lost := (priorInputs state records).filter (·.logicalId ∉ placed.map (·.2.logicalId)) with hlost
    by_cases hpath : path ∈ (lost.map fun item => (item.path, item.logicalId)).map Prod.fst
    · obtain ⟨entry, hentry, hfst⟩ := List.mem_map.1 hpath
      obtain ⟨prior, hprior, rfl⟩ := List.mem_map.1 hentry
      obtain ⟨hmem, hmoved⟩ := List.mem_filter.1 hprior
      obtain ⟨hremoved, item, hitem, hid⟩ := (mem_priors hs hd).1 hmem
      have hnodup : ((lost.map fun item => (item.path, item.logicalId)).map Prod.fst).Nodup := by
        rw [List.map_map]
        exact ((List.filter_sublist).map _).nodup priors_paths_nodup
      rw [lookup_insertAll_of_mem hnodup (show (path, prior.logicalId) ∈ _ from hfst ▸ hentry)] at hdead
      have hsame : prior.logicalId = logicalId := Option.some.inj hdead
      have hprior : prior.path = path := hfst
      rw [hprior] at hremoved hitem
      refine .inr ⟨prior.blobOid, item, hremoved, hitem, hid.trans hsame, ?_⟩
      intro new newBlob item' hadded hlookup heq
      obtain ⟨placedItem, hplacedMem, -, -⟩ := hadd hadded
      rw [lookup_insertAll_of_mem hplacedNodup hplacedMem] at hlookup
      have hsame' : placedItem = item' := Option.some.inj hlookup
      refine of_decide_eq_true hmoved (List.mem_map.2 ⟨_, hplacedMem, ?_⟩)
      show placedItem.logicalId = prior.logicalId
      rw [hsame', heq, hsame]
    · rw [lookup_insertAll_of_notMem hpath, lookup_keep] at hdead
      split at hdead
      · exact .inl hdead
      · cases hdead

end Inputs

/-! ## The invariant over a step -/

section Keep

variable {uuid5 root} {names : List (String × String)} {before after : String → Option String} {state state' : State I}
  {records : List Record} {commit path : String} {item : Live I}

def newNames (commit : String) (records : List Record) : List (String × String) :=
  (addedFiles records).map fun file => (file.1, commit)

theorem mem_newNames {blob : String} (h : (path, blob) ∈ addedFiles records) : (path, commit) ∈ newNames commit records :=
  List.mem_map.2 ⟨(path, blob), h, rfl⟩

/-- A lineage after a commit is where it was, is that of an exact rename, or is new. -/
inductive Origin (uuid5 : I → String → I) (root : I) (state : State I) (commit : String) (records : List Record)
    (path : String) (item : Live I) : Prop where
  | kept (item₀ : Live I) : (∀ old, (path, old) ∉ removedFiles records) → (∀ new, (path, new) ∉ addedFiles records) →
      state.live.lookup path = some item₀ → item.logicalId = item₀.logicalId → item.origin = item₀.origin →
      Origin uuid5 root state commit records path item
  | renamed (old blob : String) (source : Live I) : ExactRename records old path blob →
      state.live.lookup old = some source → item.logicalId = source.logicalId → item.origin = source.origin →
      Origin uuid5 root state commit records path item
  | fresh (blob : String) : (path, blob) ∈ addedFiles records → (∀ old, ¬ExactRename records old path blob) →
      item.logicalId = fileId uuid5 root state.repositoryId path commit → item.origin = ⟨path, commit, blob⟩ →
      Origin uuid5 root state commit records path item

theorem Step.origin (hstep : Step uuid5 root commit records state state') (h : state'.live.lookup path = some item) :
    Origin uuid5 root state commit records path item := by
  by_cases hadded : ∃ blob, (path, blob) ∈ addedFiles records
  · obtain ⟨blob, hadded⟩ := hadded
    obtain ⟨item', hitem', -, hassigned⟩ := hstep.added hadded
    have hsame : item' = item := Option.some.inj (hitem'.symm.trans h)
    subst hsame
    rcases hassigned with ⟨old, source, hexact, hsource, hid, horigin⟩ | ⟨hnone, hid, horigin⟩
    · exact .renamed old blob source hexact hsource hid horigin
    · exact .fresh blob hadded hnone hid horigin
  · have hnone : ∀ new, (path, new) ∉ addedFiles records := fun new hnew => hadded ⟨new, hnew⟩
    by_cases hremoved : ∃ blob, (path, blob) ∈ removedFiles records
    · obtain ⟨blob, hremoved⟩ := hremoved
      exact absurd ((hstep.removed hremoved hnone).symm.trans h) nofun
    · have hstays : ∀ old, (path, old) ∉ removedFiles records := fun old hold => hremoved ⟨old, hold⟩
      have hkept := (hstep.kept hstays hnone).symm.trans h
      split at hkept
      · obtain ⟨item₀, hitem₀, rfl⟩ := Option.map_eq_some_iff.1 hkept
        exact .kept item₀ hstays hnone hitem₀ rfl rfl
      · exact .kept item hstays hnone hkept rfl rfl

theorem fileId_fresh {repositoryId : String} (hfree : CollisionFree uuid5 root repositoryId (names ++ newNames commit records))
    (hnew : ∀ name ∈ names, name.2 ≠ commit) {blob : String} (hadded : (path, blob) ∈ addedFiles records)
    {name : String × String} (hname : name ∈ names) :
    fileId uuid5 root repositoryId name.1 name.2 ≠ fileId uuid5 root repositoryId path commit := fun heq => by
  have hsame := hfree name (List.mem_append_left _ hname) (path, commit) (List.mem_append_right _ (mem_newNames hadded)) heq
  exact hnew name hname (congrArg Prod.snd hsame)

section

variable (hs : Sound uuid5 root names before state)
include hs

theorem Sound.fresh
    (hfree : CollisionFree uuid5 root state.repositoryId (names ++ newNames commit records))
    (hnew : ∀ name ∈ names, name.2 ≠ commit) {old blob : String} (hadded : (path, blob) ∈ addedFiles records)
    (h : state.live.lookup old = some item) : item.logicalId ≠ fileId uuid5 root state.repositoryId path commit := by
  obtain ⟨hid, hname⟩ := hs.liveNamed h
  have hne := fileId_fresh hfree hnew hadded hname
  rw [hid]
  exact hne

/-- The files of the new tree are those of the new state. -/
theorem Step.keyed (hd : FileDiff before after records)
    (hstep : Step uuid5 root commit records state state') (path : String) :
    (state'.live.lookup path).map (·.blobOid) = after path := by
  by_cases hadded : ∃ blob, (path, blob) ∈ addedFiles records
  · obtain ⟨blob, hadded⟩ := hadded
    obtain ⟨item, hitem, hblob, -⟩ := hstep.added hadded
    rw [hitem, hd.afterAdded hadded, Option.map_some, hblob]
  · have hnone : ∀ new, (path, new) ∉ addedFiles records := fun new hnew => hadded ⟨new, hnew⟩
    by_cases hremoved : ∃ blob, (path, blob) ∈ removedFiles records
    · obtain ⟨blob, hremoved⟩ := hremoved
      rw [hstep.removed hremoved hnone, hd.afterRemoved hremoved hnone, Option.map_none]
    · have hstays : ∀ old, (path, old) ∉ removedFiles records := fun old hold => hremoved ⟨old, hold⟩
      rw [hstep.kept hstays hnone]
      cases hedited : (editedFiles records).lookup path with
      | none =>
        have hsame : ∀ new, (path, new) ∉ editedFiles records := fun new hmem => by
          have := List.lookup_eq_none_iff.1 hedited (path, new) hmem
          simp at this
        exact (hs.keyed path).trans (hd.afterKept hstays hnone hsame).symm
      | some blob =>
        have hmem : (path, blob) ∈ editedFiles records := by
          obtain ⟨pre, post, heq, -⟩ := List.lookup_eq_some_iff.1 hedited
          rw [heq]
          exact List.mem_append_right pre List.mem_cons_self
        obtain ⟨old, hold⟩ := Option.ne_none_iff_exists'.1 (hd.editedWas hmem).1
        obtain ⟨item, hitem, -⟩ := live_of_file hs hold
        rw [hd.afterEdited hmem, hitem]
        rfl

/-- **The invariant over a step.** -/
theorem Step.sound (hd : FileDiff before after records)
    (hstep : Step uuid5 root commit records state state')
    (hfree : CollisionFree uuid5 root state.repositoryId (names ++ newNames commit records))
    (hnew : ∀ name ∈ names, name.2 ≠ commit) : Sound uuid5 root (names ++ newNames commit records) after state' where
  keyed := hstep.keyed hs hd
  valid := by
    intro path blob hafter
    by_cases hadded : ∃ new, (path, new) ∈ addedFiles records
    · obtain ⟨new, hadded⟩ := hadded
      rw [hd.afterAdded hadded] at hafter
      exact Option.some.inj hafter ▸ hd.addedValid hadded
    · have hnone : ∀ new, (path, new) ∉ addedFiles records := fun new hnew => hadded ⟨new, hnew⟩
      by_cases hremoved : ∃ old, (path, old) ∈ removedFiles records
      · obtain ⟨old, hremoved⟩ := hremoved
        rw [hd.afterRemoved hremoved hnone] at hafter
        cases hafter
      · by_cases hedited : ∃ new, (path, new) ∈ editedFiles records
        · obtain ⟨new, hedited⟩ := hedited
          rw [hd.afterEdited hedited] at hafter
          exact Option.some.inj hafter ▸ hd.editedValid hedited
        · rw [hd.afterKept (fun old h => hremoved ⟨old, h⟩) hnone (fun new h => hedited ⟨new, h⟩)] at hafter
          exact hs.valid hafter
  liveNamed := by
    intro path item h
    rw [hstep.repository]
    cases hstep.origin h with
    | kept _ _ _ hitem hid horigin | renamed _ _ _ _ hitem hid horigin =>
      obtain ⟨hnamed, hmem⟩ := hs.liveNamed hitem
      rw [hid, horigin]
      exact ⟨hnamed, List.mem_append_left _ hmem⟩
    | fresh blob hadded _ hid horigin =>
      rw [hid, horigin]
      exact ⟨rfl, List.mem_append_right _ (mem_newNames hadded)⟩
  deadNamed := by
    intro path logicalId h
    rw [hstep.repository]
    rcases hstep.dead h with hdead | ⟨blob, item, -, hitem, rfl, -⟩
    · obtain ⟨name, hmem, hid⟩ := hs.deadNamed hdead
      exact ⟨name, List.mem_append_left _ hmem, hid⟩
    · obtain ⟨hid, hmem⟩ := hs.liveNamed hitem
      exact ⟨_, List.mem_append_left _ hmem, hid⟩
  liveDistinct := by
    intro path path' item item' h h' hid
    cases hstep.origin h with
    | kept item₀ hstays _ hitem heq _ =>
      cases hstep.origin h' with
      | kept item₀' _ _ hitem' heq' _ => exact hs.liveDistinct hitem hitem' (by rw [← heq, ← heq', hid])
      | renamed old blob source hexact hsource heq' _ =>
        have hpath := hs.liveDistinct hitem hsource (by rw [← heq, ← heq', hid])
        exact absurd (hpath ▸ hexact.removed) (hstays blob)
      | fresh blob hadded _ heq' _ => exact absurd (by rw [← heq, hid, heq']) (hs.fresh hfree hnew hadded hitem)
    | renamed old blob source hexact hsource heq _ =>
      cases hstep.origin h' with
      | kept item₀' hstays' _ hitem' heq' _ =>
        have hpath := hs.liveDistinct hsource hitem' (by rw [← heq, ← heq', hid])
        exact absurd (hpath ▸ hexact.removed) (hstays' blob)
      | renamed old' blob' source' hexact' hsource' heq' _ =>
        have hpath := hs.liveDistinct hsource hsource' (by rw [← heq, ← heq', hid])
        subst hpath
        have hblob : blob = blob' :=
          Option.some.inj ((hd.removedWas hexact.removed).symm.trans (hd.removedWas hexact'.removed))
        subst hblob
        exact hexact'.onlyAdded path hexact.added
      | fresh blob' hadded _ heq' _ => exact absurd (by rw [← heq, hid, heq']) (hs.fresh hfree hnew hadded hsource)
    | fresh blob hadded _ heq _ =>
      cases hstep.origin h' with
      | kept item₀' _ _ hitem' heq' _ => exact absurd (by rw [← heq', ← hid, heq]) (hs.fresh hfree hnew hadded hitem')
      | renamed old' blob' source' _ hsource' heq' _ =>
        exact absurd (by rw [← heq', ← hid, heq]) (hs.fresh hfree hnew hadded hsource')
      | fresh blob' hadded' _ heq' _ =>
        have hsame := hfree (path, commit) (List.mem_append_right _ (mem_newNames hadded)) (path', commit)
          (List.mem_append_right _ (mem_newNames hadded')) (by rw [← heq, ← heq', hid])
        exact congrArg Prod.fst hsame
  deadDistinct := by
    intro path path' logicalId h h'
    rcases hstep.dead h with hdead | ⟨blob, item, -, hitem, hid, -⟩ <;>
      rcases hstep.dead h' with hdead' | ⟨blob', item', -, hitem', hid', -⟩
    · exact hs.deadDistinct hdead hdead'
    · exact absurd (hid' ▸ hdead) (hs.apart hitem')
    · exact absurd (hid ▸ hdead') (hs.apart hitem)
    · exact hs.liveDistinct hitem hitem' (hid.trans hid'.symm)
  apart := by
    intro path path' item h hdead
    rcases hstep.dead hdead with hold | ⟨blob', item', hremoved, hitem', hid', hmoved⟩
    · cases hstep.origin h with
      | kept _ _ _ hitem heq | renamed _ _ _ _ hitem heq => exact hs.apart hitem (heq ▸ hold)
      | fresh blob hadded _ heq _ =>
        obtain ⟨name, hname, hid⟩ := hs.deadNamed hold
        have hne := fileId_fresh hfree hnew hadded hname
        exact hne (hid.symm.trans heq)
    · cases hstep.origin h with
      | kept item₀ hstays _ hitem heq _ =>
        have hpath := hs.liveDistinct hitem hitem' (heq.symm.trans hid'.symm)
        exact hstays blob' (hpath ▸ hremoved)
      | renamed old blob source hexact _ _ _ => exact hmoved hexact.added h rfl
      | fresh blob hadded _ _ _ => exact hmoved hadded h rfl

end

end Keep

end Indexing
