import AgentContext.Indexing.Lineage

/-!
# Trees and their diffs

What Git promises of a chain of commits: each diff has, for every path it changes, one entry on the old side that is the
entry of the tree before, and one on the new side, for a path that is free or made free by the same diff.  So a diff may
swap two names, or put a file where another is removed.

    files       the regular files and symbolic links of a tree, by the paths the scanner takes
    FileDiff    the removed, the added and the edited files of a diff, as the files before and after see them
-/

namespace Indexing

/-- An entry of a tree. -/
structure Entry where
  mode : String
  oid : String
deriving DecidableEq, Repr

/-- The blobs and gitlinks of a commit, by the bytes of their path. -/
abbrev GitTree : Type := ByteArray → Option Entry

/-- The entry a record takes away or changes. -/
def RawRecord.oldSide (raw : RawRecord) : Option (ByteArray × Entry) :=
  match raw.status with
  | .added | .copied => none
  | _ => some (raw.path, ⟨raw.oldMode, raw.oldOid⟩)

/-- The entry a record brings or leaves. -/
def RawRecord.newSide (raw : RawRecord) : Option (ByteArray × Entry) :=
  match raw.status with
  | .deleted => none
  | .renamed | .copied => raw.newPath.map fun path => (path, ⟨raw.newMode, raw.newOid⟩)
  | _ => some (raw.path, ⟨raw.newMode, raw.newOid⟩)

def oldSides (raws : List RawRecord) : List (ByteArray × Entry) := raws.filterMap RawRecord.oldSide

def newSides (raws : List RawRecord) : List (ByteArray × Entry) := raws.filterMap RawRecord.newSide

def applyDiff (tree : GitTree) (raws : List RawRecord) : GitTree := fun path =>
  match (newSides raws).find? (·.1 = path) with
  | some side => some side.2
  | none => if ∃ side ∈ oldSides raws, side.1 = path then none else tree path

/-- The diff is one of this tree. -/
structure Fits (tree : GitTree) (raws : List RawRecord) : Prop where
  oldPaths : ((oldSides raws).map Prod.fst).Nodup
  oldEntries : ∀ side ∈ oldSides raws, tree side.1 = some side.2
  newPaths : ((newSides raws).map Prod.fst).Nodup
  newFree : ∀ side ∈ newSides raws, tree side.1 = none ∨ ∃ old ∈ oldSides raws, old.1 = side.1
  newOids : ∀ side ∈ newSides raws, isOid side.2.oid ∧ side.2.oid ≠ noBlob

instance (tree : GitTree) (raws : List RawRecord) : Decidable (Fits tree raws) :=
  decidable_of_iff
    (((oldSides raws).map Prod.fst).Nodup ∧ (∀ side ∈ oldSides raws, tree side.1 = some side.2) ∧
      ((newSides raws).map Prod.fst).Nodup ∧
      (∀ side ∈ newSides raws, tree side.1 = none ∨ ∃ old ∈ oldSides raws, old.1 = side.1) ∧
      ∀ side ∈ newSides raws, isOid side.2.oid ∧ side.2.oid ≠ noBlob)
    ⟨fun ⟨h₁, h₂, h₃, h₄, h₅⟩ => ⟨h₁, h₂, h₃, h₄, h₅⟩, fun h => ⟨h.1, h.2, h.3, h.4, h.5⟩⟩

/-- The commits follow one another from a tree on. -/
def Consistent : GitTree → List Commit → Prop
  | _, [] => True
  | tree, commit :: history => isOid commit.oid ∧ Fits tree commit.records ∧
      Consistent (applyDiff tree commit.records) history

instance decidableConsistent : (tree : GitTree) → (history : List Commit) → Decidable (Consistent tree history)
  | _, [] => isTrue trivial
  | tree, commit :: history =>
    have : Decidable (Consistent (applyDiff tree commit.records) history) := decidableConsistent _ history
    inferInstanceAs (Decidable (_ ∧ _ ∧ _))

def emptyTree : GitTree := fun _ => none

def treeAfter (history : List Commit) : GitTree := history.foldl (fun tree commit => applyDiff tree commit.records) emptyTree

/-- The mode of a file or a symbolic link, as opposed to a submodule. -/
def IsFile (mode : String) : Prop := mode ≠ gitlinkMode

instance (mode : String) : Decidable (IsFile mode) := inferInstanceAs (Decidable (mode ≠ gitlinkMode))

/-- The blob of a file of the tree, by its path. -/
def files (tree : GitTree) (path : String) : Option String :=
  if isSafeRepoPath path then ((tree path.toByteArray).filter fun entry => IsFile entry.mode).map (·.oid) else none

/-! ## The files of a diff -/

def Record.oldFile (record : Record) : Option (String × String) :=
  match record.status with
  | .added | .copied => none
  | _ => if IsFile record.oldMode then record.path.map (·, record.oldOid) else none

def Record.newFile (record : Record) : Option (String × String) :=
  match record.status with
  | .deleted => none
  | .renamed | .copied => if IsFile record.newMode then record.newPath.map (·, record.newOid) else none
  | _ => if IsFile record.newMode then record.path.map (·, record.newOid) else none

/-- The record leaves a file in its place, with other contents or another type. -/
def Record.InPlace (record : Record) : Prop :=
  (record.status = .modified ∨ record.status = .typeChanged ∨ record.status = .unmerged) ∧
    IsFile record.oldMode ∧ IsFile record.newMode

instance (record : Record) : Decidable record.InPlace := inferInstanceAs (Decidable (_ ∧ _))

def Record.removedFile (record : Record) : Option (String × String) := if record.InPlace then none else record.oldFile

def Record.addedFile (record : Record) : Option (String × String) := if record.InPlace then none else record.newFile

def Record.editedFile (record : Record) : Option (String × String) := if record.InPlace then record.newFile else none

def removedFiles (records : List Record) : List (String × String) := records.filterMap Record.removedFile

def addedFiles (records : List Record) : List (String × String) := records.filterMap Record.addedFile

def editedFiles (records : List Record) : List (String × String) := records.filterMap Record.editedFile

/-- What the records of a commit say about the files before it and after it. -/
structure FileDiff (before after : String → Option String) (records : List Record) : Prop where
  removedWas : ∀ {path blob}, (path, blob) ∈ removedFiles records → before path = some blob
  renamedWas : ∀ {record path}, record ∈ records → record.status = .renamed → record.path = some path →
    ¬IsFile record.oldMode → before path = none
  addedPaths : ((addedFiles records).map Prod.fst).Nodup
  addedFree : ∀ {path blob}, (path, blob) ∈ addedFiles records →
    before path = none ∨ ∃ old, (path, old) ∈ removedFiles records
  addedValid : ∀ {path blob}, (path, blob) ∈ addedFiles records → isSafeRepoPath path ∧ isOid blob ∧ blob ≠ noBlob
  editedPaths : ((editedFiles records).map Prod.fst).Nodup
  editedWas : ∀ {path blob}, (path, blob) ∈ editedFiles records → before path ≠ none ∧
    (∀ old, (path, old) ∉ removedFiles records) ∧ ∀ new, (path, new) ∉ addedFiles records
  editedValid : ∀ {path blob}, (path, blob) ∈ editedFiles records → isSafeRepoPath path ∧ isOid blob ∧ blob ≠ noBlob
  afterAdded : ∀ {path blob}, (path, blob) ∈ addedFiles records → after path = some blob
  afterEdited : ∀ {path blob}, (path, blob) ∈ editedFiles records → after path = some blob
  afterRemoved : ∀ {path blob}, (path, blob) ∈ removedFiles records → (∀ new, (path, new) ∉ addedFiles records) →
    after path = none
  afterKept : ∀ {path}, (∀ old, (path, old) ∉ removedFiles records) → (∀ new, (path, new) ∉ addedFiles records) →
    (∀ new, (path, new) ∉ editedFiles records) → after path = before path

/-! ## From the raw records -/

variable {raw raw' : RawRecord} {raws : List RawRecord} {tree : GitTree} {path blob : String}
variable {bytes : ByteArray} {file : String × String} {record : Record}
variable {g : Record → Option (String × String)}

theorem safePath_eq_some : safePath bytes = some path ↔ bytes = path.toByteArray ∧ isSafeRepoPath path := by
  unfold safePath String.fromUTF8?
  rw [Option.filter_eq_some_iff]
  constructor
  · rintro ⟨h, hsafe⟩
    split at h
    · cases h
      exact ⟨rfl, hsafe⟩
    · cases h
  · rintro ⟨rfl, hsafe⟩
    rw [dif_pos path.isValidUTF8]
    exact ⟨rfl, hsafe⟩

theorem files_eq_some : files tree path = some blob ↔
    isSafeRepoPath path ∧ ∃ entry, tree path.toByteArray = some entry ∧ IsFile entry.mode ∧ entry.oid = blob := by
  unfold files
  by_cases hsafe : isSafeRepoPath path
  · rw [if_pos hsafe]
    simp only [Option.map_eq_some_iff, Option.filter_eq_some_iff, decide_eq_true_eq, hsafe, true_and, and_assoc]
  · rw [if_neg hsafe]
    simp [hsafe]

theorem file_of_side {bytes : Option ByteArray} {mode oid : String} :
    (if IsFile mode then (bytes.bind safePath).map (·, oid) else none) = some (path, blob) ↔
      isSafeRepoPath path ∧ ∃ mode', bytes.map (·, (⟨mode, oid⟩ : Entry)) = some (path.toByteArray, ⟨mode', blob⟩) ∧
        IsFile mode' := by
  by_cases hfile : IsFile mode
  · rw [if_pos hfile, Option.map_eq_some_iff]
    constructor
    · rintro ⟨p, hp, heq⟩
      cases heq
      obtain ⟨raw, rfl, hraw⟩ := Option.bind_eq_some_iff.1 hp
      obtain ⟨rfl, hsafe⟩ := safePath_eq_some.1 hraw
      exact ⟨hsafe, mode, rfl, hfile⟩
    · rintro ⟨hsafe, mode', heq, -⟩
      obtain ⟨raw, rfl, hside⟩ := Option.map_eq_some_iff.1 heq
      obtain ⟨hraw, hentry⟩ := Prod.mk.inj hside
      exact ⟨path, Option.bind_eq_some_iff.2 ⟨raw, rfl, safePath_eq_some.2 ⟨hraw, hsafe⟩⟩, by rw [(Entry.mk.inj hentry).2]⟩
  · rw [if_neg hfile]
    constructor
    · exact nofun
    · rintro ⟨-, mode', heq, hmode⟩
      obtain ⟨raw, -, hside⟩ := Option.map_eq_some_iff.1 heq
      exact absurd ((Entry.mk.inj (Prod.mk.inj hside).2).1 ▸ hmode) hfile

theorem oldFile_decode : raw.decode.oldFile = some (path, blob) ↔
    isSafeRepoPath path ∧ ∃ mode, raw.oldSide = some (path.toByteArray, ⟨mode, blob⟩) ∧ IsFile mode := by
  have hplain := @file_of_side path blob (some raw.path) raw.oldMode raw.oldOid
  unfold Record.oldFile RawRecord.oldSide RawRecord.decode
  cases raw.status with
  | added | copied => simp
  | _ => exact hplain

theorem newFile_decode : raw.decode.newFile = some (path, blob) ↔
    isSafeRepoPath path ∧ ∃ mode, raw.newSide = some (path.toByteArray, ⟨mode, blob⟩) ∧ IsFile mode := by
  have hplain := @file_of_side path blob (some raw.path) raw.newMode raw.newOid
  have hpair := @file_of_side path blob raw.newPath raw.newMode raw.newOid
  unfold Record.newFile RawRecord.newSide RawRecord.decode
  cases raw.status with
  | deleted => simp
  | renamed | copied => exact hpair
  | _ => exact hplain

theorem inPlace_sides (h : raw.decode.InPlace) :
    raw.oldSide = some (raw.path, ⟨raw.oldMode, raw.oldOid⟩) ∧ raw.newSide = some (raw.path, ⟨raw.newMode, raw.newOid⟩) ∧
      IsFile raw.oldMode ∧ IsFile raw.newMode := by
  obtain ⟨hstatus, hold, hnew⟩ := h
  have hstatus' : raw.status = .modified ∨ raw.status = .typeChanged ∨ raw.status = .unmerged := hstatus
  unfold RawRecord.oldSide RawRecord.newSide
  rcases hstatus' with h | h | h <;> rw [h] <;> exact ⟨rfl, rfl, hold, hnew⟩

/-! ### Which record a side is of -/

theorem eq_of_side {f : RawRecord → Option (ByteArray × Entry)} (nodup : ((raws.filterMap f).map Prod.fst).Nodup)
    (hmem : raw ∈ raws) (hmem' : raw' ∈ raws) {side side' : ByteArray × Entry} (hside : f raw = some side)
    (hside' : f raw' = some side') (hpath : side.1 = side'.1) : raw = raw' := by
  have hpairs : raws.Pairwise fun a b => ∀ x ∈ f a, ∀ y ∈ f b, x.1 ≠ y.1 :=
    List.pairwise_filterMap.1 (List.pairwise_map.1 nodup)
  have : Std.Symm fun a b : RawRecord => ∀ x ∈ f a, ∀ y ∈ f b, x.1 ≠ y.1 :=
    ⟨fun a b h x hx y hy heq => h y hy x hx heq.symm⟩
  by_contra hne
  exact hpairs.forall hmem hmem' hne side hside side' hside' hpath

theorem applyDiff_new {entry : Entry} (h : Fits tree raws) (hmem : raw ∈ raws)
    (hside : raw.newSide = some (bytes, entry)) : applyDiff tree raws bytes = some entry := by
  unfold applyDiff
  cases hfind : (newSides raws).find? (·.1 = bytes) with
  | none =>
    have := List.find?_eq_none.1 hfind (bytes, entry) (List.mem_filterMap.2 ⟨raw, hmem, hside⟩)
    exact absurd (decide_eq_true rfl) this
  | some side =>
    obtain ⟨raw', hmem', hside'⟩ := List.mem_filterMap.1 (List.mem_of_find?_eq_some hfind)
    have hpath : side.1 = bytes := by simpa using List.find?_some hfind
    have hsame : raw' = raw := eq_of_side h.newPaths hmem' hmem hside' hside hpath
    rw [hsame, hside, Option.some.injEq] at hside'
    rw [← hside']

theorem applyDiff_of_no_new (h : ∀ raw ∈ raws, ∀ entry, raw.newSide ≠ some (bytes, entry)) :
    applyDiff tree raws bytes = if ∃ side ∈ oldSides raws, side.1 = bytes then none else tree bytes := by
  unfold applyDiff
  have hfind : (newSides raws).find? (·.1 = bytes) = none := by
    refine List.find?_eq_none.2 fun side hside hpath => ?_
    obtain ⟨raw, hmem, hraw⟩ := List.mem_filterMap.1 hside
    refine h raw hmem side.2 ?_
    rw [hraw, ← of_decide_eq_true hpath]
  rw [hfind]

/-! ### The diff of the files -/

theorem mem_decoded : file ∈ (raws.map RawRecord.decode).filterMap g ↔ ∃ raw ∈ raws, g raw.decode = some file := by
  simp only [List.mem_filterMap, List.mem_map, exists_exists_and_eq_and]

theorem removedFile_eq_some : record.removedFile = some file ↔ ¬record.InPlace ∧ record.oldFile = some file := by
  unfold Record.removedFile
  by_cases h : record.InPlace <;> simp [h]

theorem addedFile_eq_some : record.addedFile = some file ↔ ¬record.InPlace ∧ record.newFile = some file := by
  unfold Record.addedFile
  by_cases h : record.InPlace <;> simp [h]

theorem editedFile_eq_some : record.editedFile = some file ↔ record.InPlace ∧ record.newFile = some file := by
  unfold Record.editedFile
  by_cases h : record.InPlace <;> simp [h]

theorem new_paths_nodup (h : Fits tree raws)
    (hg : ∀ {raw : RawRecord} {file}, g raw.decode = some file → raw.decode.newFile = some file) :
    (((raws.map RawRecord.decode).filterMap g).map Prod.fst).Nodup := by
  have hpairs : raws.Pairwise fun a b => ∀ x ∈ a.newSide, ∀ y ∈ b.newSide, x.1 ≠ y.1 :=
    List.pairwise_filterMap.1 (List.pairwise_map.1 h.newPaths)
  refine List.pairwise_map.2 (List.pairwise_filterMap.2 (List.pairwise_map.2 (hpairs.imp ?_)))
  intro a b hab x hx y hy heq
  obtain ⟨-, mode, hside, -⟩ := newFile_decode.1 (hg hx)
  obtain ⟨-, mode', hside', -⟩ := newFile_decode.1 (hg hy)
  exact hab _ hside _ hside' (by rw [heq])

/-- **The diff of two trees is one of their files.** -/
theorem fileDiff (h : Fits tree raws) : FileDiff (files tree) (files (applyDiff tree raws)) (raws.map RawRecord.decode) := by
  -- what is at the path of a new side afterwards
  have hafter : ∀ {raw : RawRecord} {path blob}, raw ∈ raws → raw.decode.newFile = some (path, blob) →
      files (applyDiff tree raws) path = some blob ∧ isSafeRepoPath path ∧ isOid blob ∧ blob ≠ noBlob := by
    intro raw path blob hmem hnew
    obtain ⟨hsafe, mode, hside, hfile⟩ := newFile_decode.1 hnew
    exact ⟨files_eq_some.2 ⟨hsafe, _, applyDiff_new h hmem hside, hfile, rfl⟩, hsafe,
      h.newOids _ (List.mem_filterMap.2 ⟨raw, hmem, hside⟩)⟩
  have hbefore : ∀ {raw : RawRecord} {path blob}, raw ∈ raws → raw.decode.oldFile = some (path, blob) →
      files tree path = some blob := by
    intro raw path blob hmem hold
    obtain ⟨hsafe, mode, hside, hfile⟩ := oldFile_decode.1 hold
    exact files_eq_some.2 ⟨hsafe, _, h.oldEntries _ (List.mem_filterMap.2 ⟨raw, hmem, hside⟩), hfile, rfl⟩
  -- a record in place shares its new path with no other record, and its old path with none
  have hplace : ∀ {raw raw' : RawRecord} {path blob}, raw ∈ raws → raw' ∈ raws → raw.decode.InPlace →
      raw.decode.newFile = some (path, blob) →
      (∀ file, raw'.decode.newFile = some (path, file) → raw' = raw) ∧
        ∀ file, raw'.decode.oldFile = some (path, file) → raw' = raw := by
    intro raw raw' path blob hmem hmem' hin hnew
    obtain ⟨hold, hnew', -, -⟩ := inPlace_sides hin
    obtain ⟨-, mode, hside, -⟩ := newFile_decode.1 hnew
    have hpath : raw.path = path.toByteArray := (Prod.mk.inj (Option.some.inj (hnew'.symm.trans hside))).1
    refine ⟨fun file hfile => ?_, fun file hfile => ?_⟩
    · obtain ⟨-, mode', hside', -⟩ := newFile_decode.1 hfile
      exact eq_of_side h.newPaths hmem' hmem hside' hside rfl
    · obtain ⟨-, mode', hside', -⟩ := oldFile_decode.1 hfile
      exact eq_of_side h.oldPaths hmem' hmem hside' hold hpath.symm
  -- a file whose path has an old side is edited in place or removed
  have hfate : ∀ {path blob}, files tree path = some blob → (∃ side ∈ oldSides raws, side.1 = path.toByteArray) →
      (∃ raw ∈ raws, raw.decode.InPlace ∧ ∃ new, raw.decode.newFile = some (path, new)) ∨
        (path, blob) ∈ removedFiles (raws.map RawRecord.decode) := by
    intro path blob hfile hold
    obtain ⟨hsafe, entry, htree, hmode, rfl⟩ := files_eq_some.1 hfile
    obtain ⟨side, hside, hpath⟩ := hold
    obtain ⟨raw, hmem, hraw⟩ := List.mem_filterMap.1 hside
    have hentry : side.2 = entry := Option.some.inj ((h.oldEntries side hside).symm.trans (hpath ▸ htree))
    have hraw' : raw.oldSide = some (path.toByteArray, ⟨entry.mode, entry.oid⟩) := by rw [hraw, ← hpath, ← hentry]
    by_cases hin : raw.decode.InPlace
    · obtain ⟨hold, hnew, -, hfile'⟩ := inPlace_sides hin
      have hbytes : raw.path = path.toByteArray := (Prod.mk.inj (Option.some.inj (hold.symm.trans hraw'))).1
      exact .inl ⟨raw, hmem, hin, raw.newOid, newFile_decode.2 ⟨hsafe, raw.newMode, by rw [hnew, hbytes], hfile'⟩⟩
    · exact .inr (mem_decoded.2 ⟨raw, hmem, removedFile_eq_some.2 ⟨hin, oldFile_decode.2 ⟨hsafe, _, hraw', hmode⟩⟩⟩)
  -- a new side that is a file is added or edited in place
  have hnews : ∀ {raw : RawRecord} {path blob}, raw ∈ raws → raw.decode.newFile = some (path, blob) →
      (path, blob) ∈ addedFiles (raws.map RawRecord.decode) ∨
        raw.decode.InPlace ∧ (path, blob) ∈ editedFiles (raws.map RawRecord.decode) := by
    intro raw path blob hmem hnew
    by_cases hin : raw.decode.InPlace
    · exact .inr ⟨hin, mem_decoded.2 ⟨raw, hmem, editedFile_eq_some.2 ⟨hin, hnew⟩⟩⟩
    · exact .inl (mem_decoded.2 ⟨raw, hmem, addedFile_eq_some.2 ⟨hin, hnew⟩⟩)
  -- a file afterwards at the path of a new side is that side's
  have hnewFile : ∀ {raw : RawRecord} {path blob entry}, raw ∈ raws → raw.newSide = some (path.toByteArray, entry) →
      files (applyDiff tree raws) path = some blob → raw.decode.newFile = some (path, blob) := by
    intro raw path blob entry hmem hside hfile
    obtain ⟨hsafe, entry', htree, hmode, rfl⟩ := files_eq_some.1 hfile
    have hentry : entry = entry' := Option.some.inj ((applyDiff_new h hmem hside).symm.trans htree)
    exact newFile_decode.2 ⟨hsafe, entry'.mode, by rw [hside, hentry], hmode⟩
  constructor
  case removedWas =>
    intro path blob hr
    obtain ⟨raw, hmem, hraw⟩ := mem_decoded.1 hr
    exact hbefore hmem (removedFile_eq_some.1 hraw).2
  case renamedWas =>
    intro record path hmem hstatus hpath hmode
    obtain ⟨raw, hraw, rfl⟩ := List.mem_map.1 hmem
    obtain ⟨hbytes, -⟩ := safePath_eq_some.1 hpath
    have hside : raw.oldSide = some (path.toByteArray, ⟨raw.oldMode, raw.oldOid⟩) := by
      have hrenamed : raw.status = .renamed := hstatus
      unfold RawRecord.oldSide
      rw [hrenamed, ← hbytes]
    by_contra hne
    obtain ⟨blob, hfile⟩ := Option.ne_none_iff_exists'.1 hne
    obtain ⟨-, entry, htree, hfile', -⟩ := files_eq_some.1 hfile
    have hentry := Option.some.inj ((h.oldEntries _ (List.mem_filterMap.2 ⟨raw, hraw, hside⟩)).symm.trans htree)
    have hmodes : raw.oldMode = entry.mode := congrArg Entry.mode hentry
    refine hmode ?_
    show IsFile raw.oldMode
    rw [hmodes]
    exact hfile'
  case addedPaths => exact new_paths_nodup h fun hg => (addedFile_eq_some.1 hg).2
  case addedFree =>
    intro path blob ha
    obtain ⟨raw, hmem, hraw⟩ := mem_decoded.1 ha
    obtain ⟨hin, hnew⟩ := addedFile_eq_some.1 hraw
    obtain ⟨hsafe, mode, hside, -⟩ := newFile_decode.1 hnew
    cases hfile : files tree path with
    | none => exact .inl rfl
    | some old =>
      obtain ⟨-, entry, htree, -, -⟩ := files_eq_some.1 hfile
      rcases h.newFree _ (List.mem_filterMap.2 ⟨raw, hmem, hside⟩) with hnone | hold
      · exact absurd (hnone.symm.trans htree) nofun
      · rcases hfate hfile hold with ⟨raw', hmem', hin', new, hnew'⟩ | hremoved
        · have hsame := (hplace hmem' hmem hin' hnew').1 blob hnew
          exact absurd (hsame ▸ hin') hin
        · exact .inr ⟨old, hremoved⟩
  case addedValid =>
    intro path blob ha
    obtain ⟨raw, hmem, hraw⟩ := mem_decoded.1 ha
    exact (hafter hmem (addedFile_eq_some.1 hraw).2).2
  case editedPaths => exact new_paths_nodup h fun hg => (editedFile_eq_some.1 hg).2
  case editedWas =>
    intro path blob he
    obtain ⟨raw, hmem, hraw⟩ := mem_decoded.1 he
    obtain ⟨hin, hnew⟩ := editedFile_eq_some.1 hraw
    refine ⟨?_, fun old hold => ?_, fun new hadd => ?_⟩
    · obtain ⟨hold, hnew', hfile, -⟩ := inPlace_sides hin
      obtain ⟨hsafe, mode, hside, -⟩ := newFile_decode.1 hnew
      have hbytes : raw.path = path.toByteArray := (Prod.mk.inj (Option.some.inj (hnew'.symm.trans hside))).1
      have holdFile : raw.decode.oldFile = some (path, raw.oldOid) :=
        oldFile_decode.2 ⟨hsafe, raw.oldMode, by rw [hold, hbytes], hfile⟩
      rw [hbefore hmem holdFile]
      exact Option.some_ne_none _
    · obtain ⟨raw', hmem', hraw'⟩ := mem_decoded.1 hold
      obtain ⟨hin', hold'⟩ := removedFile_eq_some.1 hraw'
      exact hin' ((hplace hmem hmem' hin hnew).2 old hold' ▸ hin)
    · obtain ⟨raw', hmem', hraw'⟩ := mem_decoded.1 hadd
      obtain ⟨hin', hnew'⟩ := addedFile_eq_some.1 hraw'
      exact hin' ((hplace hmem hmem' hin hnew).1 new hnew' ▸ hin)
  case editedValid =>
    intro path blob he
    obtain ⟨raw, hmem, hraw⟩ := mem_decoded.1 he
    exact (hafter hmem (editedFile_eq_some.1 hraw).2).2
  case afterAdded =>
    intro path blob ha
    obtain ⟨raw, hmem, hraw⟩ := mem_decoded.1 ha
    exact (hafter hmem (addedFile_eq_some.1 hraw).2).1
  case afterEdited =>
    intro path blob he
    obtain ⟨raw, hmem, hraw⟩ := mem_decoded.1 he
    exact (hafter hmem (editedFile_eq_some.1 hraw).2).1
  case afterRemoved =>
    intro path blob hr hadd
    obtain ⟨raw, hmem, hraw⟩ := mem_decoded.1 hr
    obtain ⟨hin, hold⟩ := removedFile_eq_some.1 hraw
    obtain ⟨hsafe, mode, hside, -⟩ := oldFile_decode.1 hold
    by_contra hne
    obtain ⟨blob', hfile⟩ := Option.ne_none_iff_exists'.1 hne
    by_cases hnew : ∃ raw' ∈ raws, ∃ entry, raw'.newSide = some (path.toByteArray, entry)
    · obtain ⟨raw', hmem', entry, hside'⟩ := hnew
      have hnewFile' := hnewFile hmem' hside' hfile
      rcases hnews hmem' hnewFile' with hadded | ⟨hin', -⟩
      · exact hadd blob' hadded
      · exact hin ((hplace hmem' hmem hin' hnewFile').2 blob hold ▸ hin')
    · obtain ⟨-, entry, htree, -, -⟩ := files_eq_some.1 hfile
      rw [applyDiff_of_no_new fun raw' hmem' entry hside' => hnew ⟨raw', hmem', entry, hside'⟩,
        if_pos ⟨_, List.mem_filterMap.2 ⟨raw, hmem, hside⟩, rfl⟩] at htree
      cases htree
  case afterKept =>
    intro path hremoved hadded hedited
    have hgone : ∀ blob, files tree path = some blob → ¬∃ side ∈ oldSides raws, side.1 = path.toByteArray := by
      intro blob hfile hold
      rcases hfate hfile hold with ⟨raw, hmem, hin, new, hnew⟩ | hr
      · exact hedited new (mem_decoded.2 ⟨raw, hmem, editedFile_eq_some.2 ⟨hin, hnew⟩⟩)
      · exact hremoved blob hr
    by_cases hnew : ∃ raw ∈ raws, ∃ entry, raw.newSide = some (path.toByteArray, entry)
    · -- the new side is no file, so there was none
      obtain ⟨raw, hmem, entry, hside⟩ := hnew
      have hnone : files (applyDiff tree raws) path = none := by
        by_contra hne
        obtain ⟨blob, hfile⟩ := Option.ne_none_iff_exists'.1 hne
        rcases hnews hmem (hnewFile hmem hside hfile) with ha | ⟨-, he⟩
        · exact hadded blob ha
        · exact hedited blob he
      rw [hnone]
      by_contra hne
      obtain ⟨blob, hfile⟩ := Option.ne_none_iff_exists'.1 (Ne.symm hne)
      obtain ⟨-, entry', htree, -, -⟩ := files_eq_some.1 hfile
      rcases h.newFree _ (List.mem_filterMap.2 ⟨raw, hmem, hside⟩) with hfree | hold
      · exact absurd (hfree.symm.trans htree) nofun
      · exact hgone blob hfile hold
    · have hsame : ¬(∃ side ∈ oldSides raws, side.1 = path.toByteArray) →
          applyDiff tree raws path.toByteArray = tree path.toByteArray := fun hold => by
        rw [applyDiff_of_no_new fun raw hmem entry hside => hnew ⟨raw, hmem, entry, hside⟩, if_neg hold]
      by_cases hold : ∃ side ∈ oldSides raws, side.1 = path.toByteArray
      · have hnone : files tree path = none := by
          by_contra hne
          obtain ⟨blob, hfile⟩ := Option.ne_none_iff_exists'.1 hne
          exact hgone blob hfile hold
        rw [hnone]
        by_contra hne
        obtain ⟨blob, hfile⟩ := Option.ne_none_iff_exists'.1 hne
        obtain ⟨-, entry, htree, -, -⟩ := files_eq_some.1 hfile
        rw [applyDiff_of_no_new fun raw hmem entry hside => hnew ⟨raw, hmem, entry, hside⟩, if_pos hold] at htree
        cases htree
      · unfold files
        rw [hsame hold]

end Indexing
