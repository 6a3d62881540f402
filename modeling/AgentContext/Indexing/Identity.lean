import AgentContext.Lib.Fallible
import AgentContext.Lib.Table
import AgentContext.Lib.Text
import Mathlib.Algebra.Order.Ring.Rat
import Mathlib.Data.Prod.Lex

/-!
# Logical identities of files

`indexing/identity.py`: an id is a UUID of a length-prefixed tuple of components, so equal ids of one repository have
equal components, unless two names have one UUID.

    file_logical_id    (repository, origin path, introducing commit)
    resolve_rename     the id of every path that appeared: that of the one file that disappeared with the same blob, or a
                       new one
    resolve_committed  the ids of files that were committed, and the provisional files that they were
-/

namespace Indexing

open Fallible Table Text

/-! ## Names -/

/-- `encode_components`. -/
def encodeComponents (components : List String) : String := String.join (components.map frame)

theorem encodeComponents_inj {cs ds : List String} (h : encodeComponents cs = encodeComponents ds) : cs = ds := frames_inj h

def isControl (c : Char) : Bool := c.toNat < 32 || c.toNat = 127

/-- `is_safe_repo_path`. -/
def isSafeRepoPath (path : String) : Bool :=
  let text := path.toList
  !text.isEmpty && text.head? ≠ some '/' && !text.contains '\\' && !text.any isControl &&
    (text.splitOn '/').all fun part =>
      part ≠ [] && part ≠ ['.'] && part ≠ ['.', '.'] && part.map Char.toLower ≠ ['.', 'g', 'i', 't']

def isHex (c : Char) : Bool := c.isDigit || ('a' ≤ c && c ≤ 'f')

/-- `_OID`. -/
def isOid (value : String) : Bool := (value.length = 40 || value.length = 64) && value.toList.all isHex

/-- `canonical_path`. -/
def canonicalPath (path : String) : Except String String :=
  if isSafeRepoPath path then .ok path else .error "unsafe path: must be a relative POSIX path without '..' or '.git'"

/-- `_oid`. -/
def oid (value : String) : Except String String :=
  if isOid value then .ok value else .error "oid must be a lowercase 40 or 64 character hex object id"

/-- `_repository_id`. -/
def repositoryIdText (value : String) : Except String String :=
  if value.toList.isEmpty || value.toList.any isControl then
    .error "repository_id must be non-empty without control characters"
  else .ok value

section Ids

variable {I : Type} (uuid5 : I → String → I) (root : I)

/-- `repository_namespace`, below the root namespace. -/
def repositoryNamespace (repositoryId : String) : Except String I := do
  let repositoryId ← repositoryIdText repositoryId
  return uuid5 root (encodeComponents ["repository", repositoryId])

/-- `_derive`. -/
def derive (repositoryId : String) (components : List String) : Except String I := do
  let namespaceId ← repositoryNamespace uuid5 root repositoryId
  return uuid5 namespaceId (encodeComponents components)

/-- `file_logical_id`. -/
def fileLogicalId (repositoryId originPath introducingCommitOid : String) : Except String I := do
  let originPath ← canonicalPath originPath
  let introducingCommitOid ← oid introducingCommitOid
  derive uuid5 root repositoryId ["file", originPath, introducingCommitOid]

/-- The id of a lineage, where its names are valid. -/
def fileId (repositoryId originPath introducingCommitOid : String) : I :=
  uuid5 (uuid5 root (encodeComponents ["repository", repositoryId]))
    (encodeComponents ["file", originPath, introducingCommitOid])

theorem canonicalPath_ok {path : String} (h : isSafeRepoPath path) : canonicalPath path = .ok path := if_pos h

theorem oid_ok {value : String} (h : isOid value) : oid value = .ok value := if_pos h

theorem fileLogicalId_ok {repositoryId path commit : String} (hrepo : repositoryIdText repositoryId = .ok repositoryId)
    (hpath : isSafeRepoPath path) (hcommit : isOid commit) :
    fileLogicalId uuid5 root repositoryId path commit = .ok (fileId uuid5 root repositoryId path commit) := by
  unfold fileLogicalId derive repositoryNamespace
  rw [canonicalPath_ok hpath, oid_ok hcommit, hrepo]
  rfl

end Ids

/-! ## Renames -/

structure PriorFile (I : Type) where
  path : String
  logicalId : I
  blobOid : String
deriving DecidableEq, Repr

structure NewFile where
  path : String
  blobOid : String
deriving DecidableEq, Repr

structure SimilarRename where
  oldPath : String
  newPath : String
  score : ℚ
deriving DecidableEq

inductive Basis where
  | ambiguousBlobMatch
  | pathReuse
  | similarity
  | provisionalCommitted
  | provisionalPathMatch
deriving DecidableEq, Repr

structure Supersession (I : Type) where
  oldLogicalId : I
  newLogicalId : I
  confidence : ℚ
  basis : Basis
deriving DecidableEq

structure RenameResolution (I : Type) where
  logicalIds : Dict String I
  supersessions : List (Supersession I)

section Resolve

variable {I : Type} [LinearOrder I] (uuid5 : I → String → I) (root : I)

def similarityMaxConfidence : ℚ := 9 / 10

/-- Refuse unless a check holds. -/
def require (check : Bool) (error : String) : Except String Unit := if check then .ok () else .error error

/-- The entry of one guess: duplicate pairs keep the maximum. -/
def addGuess (guesses : Dict I ℚ) (oldId : I) (score : ℚ) : Dict I ℚ :=
  guesses.insert oldId (max ((guesses.lookup oldId).getD 0) (min score similarityMaxConfidence))

/-- `guesses[path]`. -/
def guessesFor (priorIds : Dict String I) (similar : List SimilarRename) (path : String) : Dict I ℚ :=
  similar.foldl
    (fun guesses guess =>
      if guess.newPath = path then
        match priorIds.lookup guess.oldPath with
        | some oldId => addGuess guesses oldId guess.score
        | none => guesses
      else guesses)
    ∅

/-- The one file that disappeared, where its blob is that of the one path that appeared with it. -/
def exactSource (prior : List (PriorFile I)) (appeared : List NewFile) (file : NewFile) : Option (PriorFile I) :=
  match prior.filter (·.blobOid = file.blobOid) with
  | [source] =>
    if (appeared.filter (·.blobOid = file.blobOid)).length = 1 ∧ source.path ≠ file.path then some source else none
  | _ => none

/-- What a path that is not an exact rename supersedes; a later basis replaces an earlier one. -/
def linked (prior : List (PriorFile I)) (similar : List SimilarRename) (file : NewFile) : Dict I (Basis × ℚ) :=
  let priorIds := insertAll (prior.map fun item => (item.path, item.logicalId)) ∅
  let sources := prior.filter (·.blobOid = file.blobOid)
  let byBlob := insertAll (sources.map fun source => (source.logicalId, Basis.ambiguousBlobMatch, 1 / 2)) ∅
  let bySimilarity :=
    insertAll ((items (guessesFor priorIds similar file.path)).map fun guess => (guess.1, Basis.similarity, guess.2)) byBlob
  match priorIds.lookup file.path with
  | some oldId => bySimilarity.insert oldId (.pathReuse, 1 / 4)
  | none => bySimilarity

/-- The id of a path that appeared, and what it supersedes. -/
def resolveOne (repositoryId commit : String) (prior : List (PriorFile I)) (appeared : List NewFile)
    (similar : List SimilarRename) (file : NewFile) : Except String ((String × I) × List (Supersession I)) :=
  match exactSource prior appeared file with
  | some source => .ok ((file.path, source.logicalId), [])
  | none => do
    let newId ← fileLogicalId uuid5 root repositoryId file.path commit
    return ((file.path, newId), (items (linked prior similar file)).map fun entry => ⟨entry.1, newId, entry.2.2, entry.2.1⟩)

/-- `resolve_rename`. -/
def resolveRename (repositoryId commit : String) (removed : List (PriorFile I)) (added : List NewFile)
    (similar : List SimilarRename) : Except String (RenameResolution I) := do
  removed.forM fun item => discard (canonicalPath item.path)
  let prior := removed.insertionSort fun a b => toLex (a.path, a.logicalId) ≤ toLex (b.path, b.logicalId)
  added.forM fun item => discard (canonicalPath item.path)
  let appeared := added.insertionSort fun a b => a.path ≤ b.path
  require (appeared.map (·.path)).Nodup "duplicate added path"
  discard (oid commit)
  prior.forM fun item => discard (oid item.blobOid)
  appeared.forM fun item => discard (oid item.blobOid)
  require (prior.map (·.path)).Nodup "duplicate removed path"
  require (prior.map (·.logicalId)).Nodup "duplicate removed logical id"
  similar.forM fun guess => do
    require (0 < guess.score ∧ guess.score ≤ 1) "similarity score must be in (0, 1]"
    let oldPath ← canonicalPath guess.oldPath
    let newPath ← canonicalPath guess.newPath
    require (oldPath ∈ prior.map (·.path) ∧ newPath ∈ appeared.map (·.path))
      "similar rename must link a removed path to an added path"
  let resolved ← appeared.mapM fun file => resolveOne uuid5 root repositoryId commit prior appeared similar file
  return ⟨insertAll (resolved.map (·.1)) ∅, resolved.flatMap (·.2)⟩

/-- An uncommitted file. -/
structure ProvisionalFile (I : Type) where
  path : String
  logicalId : I
  blobOid : String
deriving DecidableEq, Repr

/-- `by_path`. -/
def provisionalByPath (byPath : Dict String (ProvisionalFile I)) (candidate : ProvisionalFile I) :
    Except String (Dict String (ProvisionalFile I)) := do
  let path ← canonicalPath candidate.path
  require (path ∉ byPath) "duplicate provisional path"
  return byPath.insert path candidate

/-- What a committed file supersedes: the provisional file at its path, surely where the blob is the same. -/
def supersededBy (source : ProvisionalFile I) (newId : I) (item : NewFile) : Except String (Supersession I) := do
  let old ← oid source.blobOid
  let new ← oid item.blobOid
  return if old = new then ⟨source.logicalId, newId, 1, .provisionalCommitted⟩
    else ⟨source.logicalId, newId, 1 / 2, .provisionalPathMatch⟩

def commitOne (repositoryId commit : String) (byPath : Dict String (ProvisionalFile I)) (resolution : RenameResolution I)
    (item : NewFile) : Except String (RenameResolution I) := do
  let path ← canonicalPath item.path
  require (path ∉ resolution.logicalIds) "duplicate committed path"
  let newId ← fileLogicalId uuid5 root repositoryId path commit
  let logicalIds := resolution.logicalIds.insert path newId
  match byPath.lookup path with
  | none => return ⟨logicalIds, resolution.supersessions⟩
  | some source => return ⟨logicalIds, resolution.supersessions ++ [← supersededBy source newId item]⟩

/-- `resolve_committed`. -/
def resolveCommitted (repositoryId commit : String) (provisional : List (ProvisionalFile I)) (committed : List NewFile) :
    Except String (RenameResolution I) := do
  let byPath ← provisional.foldlM provisionalByPath ∅
  committed.forM fun item => discard (canonicalPath item.path)
  let sorted := committed.insertionSort fun a b => a.path ≤ b.path
  sorted.foldlM (commitOne uuid5 root repositoryId commit byPath) ⟨∅, []⟩

variable {uuid5 root} {prior prior' removed : List (PriorFile I)} {appeared appeared' added : List NewFile}
  {similar : List SimilarRename} {file : NewFile} {source : PriorFile I} {repositoryId commit : String}

omit [LinearOrder I] in
theorem require_ok {check : Bool} {error : String} (h : check = true) : require check error = .ok () := if_pos h

omit [LinearOrder I] in
theorem exactSource_eq_some (hprior : prior.Nodup) (happeared : appeared.Nodup) (hfile : file ∈ appeared) :
    exactSource prior appeared file = some source ↔
      source ∈ prior ∧ source.blobOid = file.blobOid ∧ source.path ≠ file.path ∧
        (∀ item ∈ prior, item.blobOid = file.blobOid → item = source) ∧
        ∀ new ∈ appeared, new.blobOid = file.blobOid → new = file := by
  have honly : (appeared.filter (·.blobOid = file.blobOid)).length = 1 ↔
      ∀ new ∈ appeared, new.blobOid = file.blobOid → new = file := by
    constructor
    · intro hlength new hnew hblob
      obtain ⟨only, honly⟩ := List.length_eq_one_iff.1 hlength
      have hmem : ∀ n, n ∈ appeared → n.blobOid = file.blobOid → n = only := fun n hn hb => by
        have : n ∈ appeared.filter (·.blobOid = file.blobOid) := List.mem_filter.2 ⟨hn, decide_eq_true hb⟩
        rw [honly] at this
        exact List.mem_singleton.1 this
      rw [hmem new hnew hblob, hmem file hfile rfl]
    · intro h
      have hall : ∀ new ∈ appeared.filter (·.blobOid = file.blobOid), new = file := fun new hnew =>
        h new (List.mem_filter.1 hnew).1 (of_decide_eq_true (List.mem_filter.1 hnew).2)
      have hself : file ∈ appeared.filter (·.blobOid = file.blobOid) := List.mem_filter.2 ⟨hfile, decide_eq_true rfl⟩
      have hperm : (appeared.filter (·.blobOid = file.blobOid)).Perm [file] :=
        (List.perm_ext_iff_of_nodup (happeared.filter _) (List.nodup_singleton file)).2 fun new =>
          ⟨fun hn => List.mem_singleton.2 (hall new hn), fun hn => List.mem_singleton.1 hn ▸ hself⟩
      exact hperm.length_eq
  have hsource : prior.filter (·.blobOid = file.blobOid) = [source] ↔
      source ∈ prior ∧ source.blobOid = file.blobOid ∧ ∀ item ∈ prior, item.blobOid = file.blobOid → item = source := by
    constructor
    · intro h
      have hmem : ∀ item, item ∈ prior ∧ item.blobOid = file.blobOid ↔ item = source := fun item => by
        rw [← List.mem_singleton (a := item), ← h, List.mem_filter, decide_eq_true_eq]
      exact ⟨((hmem source).2 rfl).1, ((hmem source).2 rfl).2, fun item hi hb => (hmem item).1 ⟨hi, hb⟩⟩
    · rintro ⟨hmem, hblob, hall⟩
      refine List.perm_singleton.1 ((List.perm_ext_iff_of_nodup (hprior.filter _) (List.nodup_singleton source)).2 fun item => ?_)
      rw [List.mem_filter, List.mem_singleton, decide_eq_true_eq]
      exact ⟨fun h => hall item h.1 h.2, fun h => h ▸ ⟨hmem, hblob⟩⟩
  constructor
  · intro h
    unfold exactSource at h
    split at h
    · next only hfilter =>
      split at h
      · next hcond =>
        cases h
        obtain ⟨hmem, hblob, hall⟩ := hsource.1 hfilter
        exact ⟨hmem, hblob, hcond.2, hall, honly.1 hcond.1⟩
      · cases h
    · cases h
  · rintro ⟨hmem, hblob, hpath, hall, hnew⟩
    unfold exactSource
    rw [hsource.2 ⟨hmem, hblob, hall⟩]
    exact if_pos ⟨honly.2 hnew, hpath⟩

variable (uuid5 root) in
/-- The id that a path that appeared gets. -/
def assignedId (repositoryId commit : String) (prior : List (PriorFile I)) (appeared : List NewFile) (file : NewFile) : I :=
  match exactSource prior appeared file with
  | some source => source.logicalId
  | none => fileId uuid5 root repositoryId file.path commit

theorem resolveOne_ok (hrepo : repositoryIdText repositoryId = .ok repositoryId) (hpath : isSafeRepoPath file.path)
    (hcommit : isOid commit) :
    ∃ supersessions, resolveOne uuid5 root repositoryId commit prior appeared similar file =
      .ok ((file.path, assignedId uuid5 root repositoryId commit prior appeared file), supersessions) := by
  unfold resolveOne assignedId
  cases exactSource prior appeared file with
  | some source => exact ⟨_, rfl⟩
  | none =>
    rw [fileLogicalId_ok uuid5 root hrepo hpath hcommit]
    exact ⟨_, rfl⟩

omit [LinearOrder I] in
theorem assignedId_congr (hperm : prior.Perm prior') (hperm' : appeared.Perm appeared') (hprior : prior.Nodup)
    (happeared : appeared.Nodup) (hfile : file ∈ appeared) :
    assignedId uuid5 root repositoryId commit prior appeared file =
      assignedId uuid5 root repositoryId commit prior' appeared' file := by
  have hsame : exactSource prior appeared file = exactSource prior' appeared' file := Option.ext fun source => by
    rw [exactSource_eq_some hprior happeared hfile,
      exactSource_eq_some (hperm.nodup_iff.1 hprior) (hperm'.nodup_iff.1 happeared) (hperm'.mem_iff.1 hfile)]
    simp only [hperm.mem_iff, hperm'.mem_iff]
  unfold assignedId
  rw [hsame]

/-- What `resolve_rename` is promised. -/
structure Resolvable (repositoryId commit : String) (removed : List (PriorFile I)) (added : List NewFile)
    (similar : List SimilarRename) : Prop where
  repositoryValid : repositoryIdText repositoryId = .ok repositoryId
  commitValid : isOid commit
  removedValid : ∀ item ∈ removed, isSafeRepoPath item.path ∧ isOid item.blobOid
  removedPaths : (removed.map (·.path)).Nodup
  removedIds : (removed.map (·.logicalId)).Nodup
  addedValid : ∀ file ∈ added, isSafeRepoPath file.path ∧ isOid file.blobOid
  addedPaths : (added.map (·.path)).Nodup
  similarValid : ∀ guess ∈ similar, (0 < guess.score ∧ guess.score ≤ 1) ∧
    guess.oldPath ∈ removed.map (·.path) ∧ guess.newPath ∈ added.map (·.path)

/-- `resolve_rename` does not raise, and gives every path that appeared its id. -/
theorem resolveRename_ok (h : Resolvable repositoryId commit removed added similar) :
    ∃ resolution, resolveRename uuid5 root repositoryId commit removed added similar = .ok resolution ∧
      ∀ file ∈ added, resolution.logicalIds.lookup file.path =
        some (assignedId uuid5 root repositoryId commit removed added file) := by
  unfold resolveRename
  dsimp only
  set prior := removed.insertionSort fun a b => toLex (a.path, a.logicalId) ≤ toLex (b.path, b.logicalId)
  set appeared := added.insertionSort fun a b => a.path ≤ b.path
  have hperm : removed.Perm prior := (List.perm_insertionSort _ _).symm
  have hperm' : added.Perm appeared := (List.perm_insertionSort _ _).symm
  have hpaths : ∀ guess ∈ similar, guess.oldPath ∈ prior.map (·.path) ∧ guess.newPath ∈ appeared.map (·.path) :=
    fun guess hg => ⟨(hperm.map _).mem_iff.1 (h.similarValid guess hg).2.1, (hperm'.map _).mem_iff.1 (h.similarValid guess hg).2.2⟩
  have hsafe : ∀ guess ∈ similar, isSafeRepoPath guess.oldPath ∧ isSafeRepoPath guess.newPath := by
    intro guess hg
    obtain ⟨old, hold, heq⟩ := List.mem_map.1 (h.similarValid guess hg).2.1
    obtain ⟨new, hnew, heq'⟩ := List.mem_map.1 (h.similarValid guess hg).2.2
    exact ⟨heq ▸ (h.removedValid old hold).1, heq' ▸ (h.addedValid new hnew).1⟩
  have hresolves : ∀ file ∈ appeared, ∃ supersessions,
      resolveOne uuid5 root repositoryId commit prior appeared similar file =
        .ok ((file.path, assignedId uuid5 root repositoryId commit prior appeared file), supersessions) := fun file hfile =>
    resolveOne_ok h.repositoryValid (h.addedValid file (hperm'.mem_iff.2 hfile)).1 h.commitValid
  choose! supersessions hone using hresolves
  have hnames : (prior.map (·.path)).Nodup := (hperm.map _).nodup_iff.1 h.removedPaths
  have hnames' : (appeared.map (·.path)).Nodup := (hperm'.map _).nodup_iff.1 h.addedPaths
  have hresolved : appeared.mapM (fun file => resolveOne uuid5 root repositoryId commit prior appeared similar file) =
      .ok (appeared.map fun file =>
        ((file.path, assignedId uuid5 root repositoryId commit prior appeared file), supersessions file)) := mapM_ok hone
  rw [forM_ok fun item hi => by rw [canonicalPath_ok (h.removedValid item hi).1]; rfl,
    forM_ok fun file hf => by rw [canonicalPath_ok (h.addedValid file hf).1]; rfl,
    require_ok (decide_eq_true hnames'), oid_ok h.commitValid,
    forM_ok fun item hi => by rw [oid_ok (h.removedValid item (hperm.mem_iff.2 hi)).2]; rfl,
    forM_ok fun file hf => by rw [oid_ok (h.addedValid file (hperm'.mem_iff.2 hf)).2]; rfl,
    require_ok (decide_eq_true hnames), require_ok (decide_eq_true ((hperm.map _).nodup_iff.1 h.removedIds)),
    forM_ok fun guess hg => by
      rw [require_ok (decide_eq_true (h.similarValid guess hg).1), canonicalPath_ok (hsafe guess hg).1,
        canonicalPath_ok (hsafe guess hg).2]
      exact require_ok (decide_eq_true (hpaths guess hg)),
    hresolved]
  refine ⟨_, rfl, fun file hfile => ?_⟩
  rw [assignedId_congr hperm hperm' (List.Nodup.of_map _ h.removedPaths) (List.Nodup.of_map _ h.addedPaths) hfile]
  refine lookup_insertAll_of_mem ?_ ?_
  · rw [List.map_map, List.map_map]
    exact hnames'
  · rw [List.map_map]
    exact List.mem_map.2 ⟨file, hperm'.mem_iff.1 hfile, rfl⟩

end Resolve

end Indexing
