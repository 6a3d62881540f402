import AgentContext.Indexing.Identity
import AgentContext.Lib.Keyset
import Mathlib

/-!
# File lineage of a first-parent history

`indexing/lineage.py`: one pass of `git diff-tree` records per commit.

    _parse_raw       the records of one commit, a path as `None` where the scanner would skip it
    _State.apply     one commit: what it removes and adds is resolved together, then the live and the dead lineages change
    _State.result    the ids of the live paths
    _walk            the commits of the chain in order
    link_provisional the uncommitted files that the history now contains
-/

namespace Indexing

open Keyset Table

/-- `ADMTRCU`. -/
inductive Status where
  | added
  | deleted
  | modified
  | typeChanged
  | renamed
  | copied
  | unmerged
deriving DecidableEq, Repr

/-- `_Record`. -/
structure Record where
  status : Status
  score : Nat
  oldMode : String
  newMode : String
  oldOid : String
  newOid : String
  path : Option String
  newPath : Option String
deriving DecidableEq, Repr

structure FileOrigin where
  originPath : String
  introducingCommit : String
  originBlobOid : String
deriving DecidableEq, Repr

structure Live (I : Type) where
  logicalId : I
  origin : FileOrigin
  blobOid : String
deriving DecidableEq, Repr

def gitlinkMode : String := "160000"

def noBlob : String := "0000000000000000000000000000000000000000"

/-- `_safe_path`. -/
def safePath (raw : ByteArray) : Option String := (String.fromUTF8? raw).filter isSafeRepoPath

/-- A record as Git writes it, the fields already apart. -/
structure RawRecord where
  status : Status
  score : Nat
  oldMode : String
  newMode : String
  oldOid : String
  newOid : String
  path : ByteArray
  newPath : Option ByteArray
deriving DecidableEq

/-- A record of `_parse_raw`. -/
def RawRecord.decode (raw : RawRecord) : Record where
  status := raw.status
  score := raw.score
  oldMode := raw.oldMode
  newMode := raw.newMode
  oldOid := raw.oldOid
  newOid := raw.newOid
  path := safePath raw.path
  newPath := raw.newPath.bind safePath

/-! ## One commit -/

section Apply

variable {I : Type}

/-- What the loop over the records of a commit gathers. -/
structure Scan (I : Type) where
  removedPaths : List String
  added : Dict String String
  similar : List (String × String × Nat)
  live : Dict String (Live I)

/-- A rename or a copy. -/
def Scan.pairRecord (scan : Scan I) (record : Record) : Scan I :=
  let removed :=
    match record.status, record.path with
    | .renamed, some old => { scan with removedPaths := scan.removedPaths ++ [old] }
    | _, _ => scan
  match record.newPath with
  | none => removed
  | some new =>
    if record.newMode ≠ gitlinkMode then
      let added := { removed with added := removed.added.insert new record.newOid }
      match record.status, record.path with
      | .renamed, some old =>
        if record.score < 100 then { added with similar := added.similar ++ [(old, new, record.score)] } else added
      | _, _ => added
    else removed

def Scan.plainRecord (scan : Scan I) (record : Record) (path : String) : Scan I :=
  let oldExists := record.oldMode ≠ gitlinkMode ∧ record.status ≠ .added
  let newExists := record.newMode ≠ gitlinkMode ∧ record.status ≠ .deleted
  if oldExists ∧ ¬newExists then { scan with removedPaths := scan.removedPaths ++ [path] }
  else if newExists ∧ ¬oldExists then { scan with added := scan.added.insert path record.newOid }
  else if oldExists ∧ newExists then
    { scan with live := modify path (fun item => { item with blobOid := record.newOid }) scan.live }
  else scan

def Scan.record (scan : Scan I) (record : Record) : Scan I :=
  match record.status, record.path with
  | .renamed, _ | .copied, _ => scan.pairRecord record
  | _, none => scan
  | _, some path => scan.plainRecord record path

def scanRecords (live : Dict String (Live I)) (records : List Record) : Scan I := records.foldl Scan.record ⟨[], ∅, [], live⟩

def priorsOf (removedPaths : List String) (live : Dict String (Live I)) : List (PriorFile I) :=
  (sortedSet removedPaths).filterMap fun path =>
    (live.lookup path).map fun item => ⟨path, item.logicalId, item.blobOid⟩

/-- The deleted lineages whose path is added again. -/
def reusedOf (added : Dict String String) (dead : Dict String I) (priors : List (PriorFile I)) : List (PriorFile I) :=
  (items added).filterMap fun entry =>
    if entry.1 ∈ priors.map (·.path) then none
    else (dead.lookup entry.1).map fun logicalId => ⟨entry.1, logicalId, noBlob⟩

def guessesOf (similar : List (String × String × Nat)) (priors : List (PriorFile I)) : List SimilarRename :=
  similar.filterMap fun guess =>
    if guess.1 ∈ priors.map (·.path) ∧ 0 < guess.2.2 then some ⟨guess.1, guess.2.1, guess.2.2 / 100⟩ else none

/-- `d[key]`. -/
def getItem {κ α : Type} [DecidableEq κ] (d : Dict κ α) (key : κ) : Except String α :=
  match d.lookup key with
  | some value => .ok value
  | none => .error "KeyError"

/-- The lineage of a removed file, by its id. -/
def carryItem (live : Dict String (Live I)) (item : PriorFile I) : Except String (I × Live I) := do
  return (item.logicalId, ← getItem live item.path)

/-- The entry of a path that was added: it goes on with the lineage its id comes from, or starts one. -/
def placeFile [DecidableEq I] (commit : String) (logicalIds : Dict String I) (carried : Dict I (Live I)) (file : NewFile) :
    Except String (String × Live I) := do
  let logicalId ← getItem logicalIds file.path
  let origin :=
    match carried.lookup logicalId with
    | some source => source.origin
    | none => ⟨file.path, commit, file.blobOid⟩
  return (file.path, ⟨logicalId, origin, file.blobOid⟩)

/-- `_State`. -/
structure State (I : Type) where
  repositoryId : String
  live : Dict String (Live I)
  dead : Dict String I
  supersessions : List (Supersession I)

def State.initial (repositoryId : String) : State I := ⟨repositoryId, ∅, ∅, []⟩

variable [LinearOrder I] (uuid5 : I → String → I) (root : I)

/-- `_State.apply`. -/
def State.apply (state : State I) (commit : String) (records : List Record) : Except String (State I) := do
  let scan := scanRecords state.live records
  let priors := priorsOf scan.removedPaths scan.live
  let reused := reusedOf scan.added state.dead priors
  let guesses := guessesOf scan.similar priors
  let files := (items scan.added).map fun entry => NewFile.mk entry.1 entry.2
  let resolution ← resolveRename uuid5 root state.repositoryId commit (priors ++ reused) files guesses
  let carried ← priors.mapM (carryItem scan.live)
  let kept := keep (· ∉ priors.map (·.path)) scan.live
  let placed ← files.mapM fun file => placeFile commit resolution.logicalIds (insertAll carried ∅) file
  let moved := placed.map (·.2.logicalId)
  let lost := priors.filter (·.logicalId ∉ moved)
  return { state with
    live := insertAll placed kept
    dead := insertAll (lost.map fun item => (item.path, item.logicalId)) (keep (· ∉ scan.added) state.dead)
    supersessions := state.supersessions ++ resolution.supersessions }

end Apply

/-! ## A history -/

structure Lineage (I : Type) where
  repositoryId : String
  targetCommit : Option String
  fileLogicalIds : Dict String I
  origins : Dict String FileOrigin
  supersessions : List (Supersession I)
  commitsWalked : Nat

def Basis.text : Basis → String
  | .ambiguousBlobMatch => "ambiguous_blob_match"
  | .pathReuse => "path_reuse"
  | .similarity => "similarity"
  | .provisionalCommitted => "provisional_committed"
  | .provisionalPathMatch => "provisional_path_match"

structure Commit where
  oid : String
  records : List RawRecord
deriving DecidableEq

section Walk

variable {I : Type} [LinearOrder I] (uuid5 : I → String → I) (root : I)

/-- `_State.result`. -/
def State.result (state : State I) (target : Option String) (walked : Nat) : Lineage I :=
  let liveIds := (values state.live).map (·.logicalId)
  let kept := state.supersessions.filter (·.newLogicalId ∈ liveIds)
  let unique : Dict (I ×ₗ I ×ₗ String) (Supersession I) :=
    insertAll (kept.map fun s => (toLex (s.newLogicalId, toLex (s.oldLogicalId, s.basis.text)), s)) ∅
  { repositoryId := state.repositoryId
    targetCommit := target
    fileLogicalIds := mapValues (fun _ item => item.logicalId) state.live
    origins := mapValues (fun _ item => item.origin) state.live
    supersessions := values unique
    commitsWalked := walked }

def replay (repositoryId : String) (history : List Commit) : Except String (State I) :=
  history.foldlM (fun state commit => state.apply uuid5 root commit.oid (commit.records.map RawRecord.decode))
    (State.initial repositoryId)

/-- The live lineages by the path they began at, as `link_provisional` looks them up. -/
def Lineage.byOrigin (lineage : Lineage I) : Dict String (String × FileOrigin) :=
  insertAll ((items lineage.origins).map fun entry => (entry.2.originPath, entry)) ∅

def Lineage.linkOne (lineage : Lineage I) (item : ProvisionalFile I) : Except String (List (Supersession I)) :=
  match lineage.byOrigin.lookup item.path with
  | none => .ok []
  | some (path, origin) => do
    let resolved ← resolveCommitted uuid5 root lineage.repositoryId origin.introducingCommit [item]
      [⟨origin.originPath, origin.originBlobOid⟩]
    let resolvedId ← getItem resolved.logicalIds origin.originPath
    let liveId ← getItem lineage.fileLogicalIds path
    require (resolvedId = liveId) "lineage_inconsistent"
    return resolved.supersessions

/-- `link_provisional`. -/
def Lineage.linkProvisional (lineage : Lineage I) (provisional : List (ProvisionalFile I)) :
    Except String (List (Supersession I)) := do
  let links ← provisional.mapM (lineage.linkOne uuid5 root)
  return links.flatten

/-- `_walk`: the lineage of the last commit of a chain. -/
def walk (repositoryId : String) (maxCommits : Nat) (history : List Commit) : Except String (Lineage I) := do
  require (history ≠ []) "malformed_output"
  require (history.length ≤ maxCommits) "history_too_large"
  let state ← replay uuid5 root repositoryId history
  return state.result (history.getLast?.map (·.oid)) history.length

end Walk

end Indexing
