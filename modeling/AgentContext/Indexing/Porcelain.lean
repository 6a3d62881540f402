import AgentContext.Indexing.Commits
import AgentContext.Lib.Table
import AgentContext.Lib.WorkingTree
import Mathlib.Data.List.TakeWhile

/-!
# What the scanner reads of Git

`_parse_status`, `_parse_index`, `_parse_head_gitlinks` and `_parse_flagged` of `scanner.py`, over the tokens that `_split_z`
cuts out of a NUL-separated output, and the tokens Git writes for a checkout.

    parseStatus_render   the tracked changes and the untracked paths are those of the lines, unsafe paths are rejected
    parseIndex_render    an entry for each safe path of the index
-/

namespace Scanner

open List

open Table (Dict)
open WorkingTree (Letter)

variable {path : String}

abbrev Bytes : Type := List UInt8

def ascii (text : String) : Bytes := text.toList.map fun c => c.toNat.toUInt8

def space : UInt8 := 32

def slash : UInt8 := 47

def tab : UInt8 := 9

/-- `text.split(" ", n)`. -/
def splitSpaces : Nat → Bytes → List Bytes
  | 0, text => [text]
  | n + 1, text =>
    match text.dropWhile (· ≠ space) with
    | [] => [text]
    | _ :: rest => text.takeWhile (· ≠ space) :: splitSpaces n rest

/-- `token.partition(b"\t")`: what comes before the first tab and, when there is one, what comes after. -/
def partitionTab (token : Bytes) : Bytes × Option Bytes :=
  match token.dropWhile (· ≠ tab) with
  | [] => (token, none)
  | _ :: rest => (token.takeWhile (· ≠ tab), some rest)

/-- `_safe_path`. -/
def safePath (raw : Bytes) : Option String := Indexing.safePath ⟨raw.toArray⟩

/-- `_is_oid`. -/
def isOid (value : Bytes) : Bool := (value.length = 40 || value.length = 64) && value.all (ascii "0123456789abcdef").contains

/-- `_clean_oid`. -/
def cleanOid (value : Bytes) : Option Bytes := if !isOid value || value.all (· = 48) then none else some value

/-- The failures of a scan that are of its reading. -/
inductive ScanError | malformedOutput | rootMismatch
deriving DecidableEq, Repr

/-- `_IndexEntry`. -/
structure IndexEntry where
  mode : Bytes
  oid : Option Bytes
  conflicted : Bool
deriving DecidableEq, Repr

/-- `_Change`. -/
structure Change where
  xy : Bytes
  modes : List Bytes
  baseOid : Option Bytes
  indexOid : Option Bytes
  origPath : Option String
deriving DecidableEq, Repr

def gitlinkMode : Bytes := ascii "160000"

/-! ## The parsers -/

/-- The entries read so far and the paths rejected. -/
abbrev IndexAcc : Type := Dict String IndexEntry × List Bytes

/-- What a line of the index adds. -/
def indexEntry (mode oid stage raw : Bytes) (acc : IndexAcc) : IndexAcc :=
  match safePath raw with
  | none => (acc.1, acc.2 ++ [raw])
  | some path =>
    if stage ≠ ascii "0" ∨ ((acc.1.lookup path).any (·.conflicted)) then (acc.1.insert path ⟨mode, none, true⟩, acc.2)
    else (acc.1.insert path ⟨mode, some oid, false⟩, acc.2)

/-- One token of `_parse_index`. -/
def indexToken (acc : IndexAcc) (token : Bytes) : Except ScanError IndexAcc :=
  match partitionTab token with
  | (meta_, some raw) =>
    match splitSpaces meta_.length meta_ with
    | [mode, oid, stage] => if isOid oid then .ok (indexEntry mode oid stage raw acc) else .error .malformedOutput
    | _ => .error .malformedOutput
  | (_, none) => .error .malformedOutput

/-- `_parse_index`. -/
def parseIndex (tokens : List Bytes) : Except ScanError IndexAcc := tokens.foldlM indexToken (∅, [])

/-- One token of `_parse_flagged`. -/
def flaggedToken (flagged : List String) (token : Bytes) : Except ScanError (List String) :=
  match token with
  | tag :: sep :: raw =>
    if raw = [] ∨ sep ≠ space then .error .malformedOutput
    else if tag ≠ 72 then .ok (flagged ++ (safePath raw).toList)
    else .ok flagged
  | _ => .error .malformedOutput

/-- `_parse_flagged`. -/
def parseFlagged (tokens : List Bytes) : Except ScanError (List String) := tokens.foldlM flaggedToken []

/-- One token of `_parse_head_gitlinks`. -/
def headToken (links : Dict String Bytes) (token : Bytes) : Except ScanError (Dict String Bytes) :=
  match partitionTab token with
  | (meta_, some raw) =>
    match splitSpaces meta_.length meta_ with
    | [mode, _, oid] =>
      if mode = gitlinkMode then
        match safePath raw with
        | some path => .ok (links.insert path oid)
        | none => .ok links
      else .ok links
    | _ => .error .malformedOutput
  | (_, none) => .error .malformedOutput

/-- `_parse_head_gitlinks`. -/
def parseHeadGitlinks (tokens : List Bytes) : Except ScanError (Dict String Bytes) := tokens.foldlM headToken ∅

/-- What `_parse_status` has gathered. -/
structure StatusAcc where
  rejections : List Bytes
  rejectedChanges : List Bytes
  changes : Dict String Change
  untracked : List (String × Bool)

/-- `path_raw.rstrip(b"/")`. -/
def stripSlashes (raw : Bytes) : Bytes := (raw.reverse.dropWhile (· = slash)).reverse

/-- A `?` token. -/
def untrackedToken (token : Bytes) (acc : StatusAcc) : StatusAcc :=
  let raw := token.drop 2
  let isDirectory := decide (raw.getLast? = some slash)
  match safePath (if isDirectory then stripSlashes raw else raw) with
  | none => { acc with rejections := acc.rejections ++ [raw], rejectedChanges := acc.rejectedChanges ++ [ascii "?"] }
  | some path => { acc with untracked := acc.untracked ++ [(path, isDirectory)] }

/-- A `1`, `2` or `u` token: how many fields stand before the path, which of them are modes, and, unless it is unmerged, the
first of the two object ids. -/
def trackedToken (marker : UInt8) (token : Bytes) (count : Nat) (modeFields : List Nat) (base : Option Nat)
    (orig : Option String) (acc : StatusAcc) : Except ScanError StatusAcc :=
  let fields := splitSpaces count token
  if fields.length ≠ count + 1 then .error .malformedOutput
  else
    let raw := fields.getD count []
    let xy := fields.getD 1 []
    match safePath raw with
    | none => .ok { acc with rejections := acc.rejections ++ [raw], rejectedChanges := acc.rejectedChanges ++ [marker :: xy] }
    | some path =>
      .ok { acc with changes := acc.changes.insert path {
        xy := xy
        modes := modeFields.map fun i => fields.getD i []
        baseOid := base.bind fun i => cleanOid (fields.getD i [])
        indexOid := base.bind fun i => cleanOid (fields.getD (i + 1) [])
        origPath := orig } }

/-- `_parse_status`. -/
def parseStatus : List Bytes → StatusAcc → Except ScanError StatusAcc
  | [], acc => .ok acc
  | token :: rest, acc =>
    match token with
    | 63 :: _ => parseStatus rest (untrackedToken token acc)
    | 33 :: _ => parseStatus rest acc
    | 49 :: _ => do parseStatus rest (← trackedToken 49 token 8 [3, 4, 5] (some 6) none acc)
    | 50 :: _ =>
      -- The original path follows as its own token.
      match rest with
      | [] => trackedToken 50 token 9 [3, 4, 5] (some 6) (safePath []) acc
      | orig :: rest => do parseStatus rest (← trackedToken 50 token 9 [3, 4, 5] (some 6) (safePath orig) acc)
    | 117 :: _ => do parseStatus rest (← trackedToken 117 token 10 [3, 4, 5, 6] none none acc)
    | 35 :: _ => parseStatus rest acc
    | _ => .error .malformedOutput

/-! ## What Git writes -/

/-- Fields with a space after each, then the path as it is. -/
def spaced : List Bytes → Bytes → Bytes
  | [], raw => raw
  | field :: fields, raw => field ++ space :: spaced fields raw

variable {field rest : Bytes}

theorem dropWhile_field {sep : UInt8} (h : sep ∉ field) :
    (field ++ sep :: rest).dropWhile (· ≠ sep) = sep :: rest := by
  induction field with
  | nil => rw [nil_append, dropWhile_cons_of_neg (by simp)]
  | cons b field ih =>
    have hb : b ≠ sep := fun hb => h (hb ▸ mem_cons_self ..)
    rw [cons_append, dropWhile_cons_of_pos (by simpa using hb)]
    exact ih fun hmem => h (mem_cons_of_mem _ hmem)

theorem takeWhile_field {sep : UInt8} (h : sep ∉ field) : (field ++ sep :: rest).takeWhile (· ≠ sep) = field := by
  induction field with
  | nil => rw [nil_append, takeWhile_cons_of_neg (by simp)]
  | cons b field ih =>
    have hb : b ≠ sep := fun hb => h (hb ▸ mem_cons_self ..)
    rw [cons_append, takeWhile_cons_of_pos (by simpa using hb), ih fun hmem => h (mem_cons_of_mem _ hmem)]

theorem partitionTab_field (h : tab ∉ field) : partitionTab (field ++ tab :: rest) = (field, some rest) := by
  unfold partitionTab
  rw [dropWhile_field h, takeWhile_field h]

theorem splitSpaces_last {n : Nat} {text : Bytes} (h : space ∉ text) : splitSpaces n text = [text] := by
  cases n with
  | zero => rfl
  | succ n =>
    have hdrop : text.dropWhile (· ≠ space) = [] :=
      dropWhile_eq_nil_iff.2 fun b hb => by simpa using fun hs : b = space => h (hs ▸ hb)
    show (match text.dropWhile (· ≠ space) with
      | [] => [text]
      | _ :: rest => text.takeWhile (· ≠ space) :: splitSpaces n rest) = _
    rw [hdrop]

variable {fields : List Bytes} {raw : Bytes}

/-- Fields come apart where they were joined, when there are splits for all of them or the last has no space. -/
theorem splitSpaces_spaced {n : Nat} (h : ∀ field ∈ fields, space ∉ field)
    (hn : n = fields.length ∨ fields.length ≤ n ∧ space ∉ raw) :
    splitSpaces n (spaced fields raw) = fields ++ [raw] := by
  induction fields generalizing n with
  | nil =>
    rcases hn with rfl | ⟨-, hraw⟩
    · rfl
    · exact splitSpaces_last hraw
  | cons field fields ih =>
    have hfield : space ∉ field := h field (mem_cons_self ..)
    cases n with
    | zero => rcases hn with hn | ⟨hn, -⟩ <;> simp at hn
    | succ n =>
      show (match (field ++ space :: spaced fields raw).dropWhile (· ≠ space) with
        | [] => [field ++ space :: spaced fields raw]
        | _ :: rest => (field ++ space :: spaced fields raw).takeWhile (· ≠ space) :: splitSpaces n rest) = _
      rw [dropWhile_field hfield, takeWhile_field hfield]
      refine congrArg (field :: ·) (ih (fun f hf => h f (mem_cons_of_mem _ hf)) ?_)
      rcases hn with hn | ⟨hn, hraw⟩
      · exact .inl (Nat.succ.inj hn)
      · exact .inr ⟨Nat.le_of_succ_le_succ hn, hraw⟩

def letterByte : Letter → UInt8
  | .unchanged => 46
  | .modified => 77
  | .typeChanged => 84
  | .added => 65
  | .deleted => 68
  | .unmerged => 85

/-- A line of `git status --porcelain=v2 -z`: the letters, the fields up to the path, and the path. -/
inductive Porcelain
  | ordinary (raw : Bytes) (x y : Letter) (fields : List Bytes)
  | unmerged (raw : Bytes) (x y : Letter) (fields : List Bytes)
  | untracked (raw : Bytes) (repository : Bool)

namespace Porcelain

def token : Porcelain → Bytes
  | .ordinary raw x y fields => spaced ([49] :: [letterByte x, letterByte y] :: fields) raw
  | .unmerged raw x y fields => spaced ([117] :: [letterByte x, letterByte y] :: fields) raw
  | .untracked raw repository => 63 :: space :: (raw ++ if repository then [slash] else [])

def line : Porcelain → WorkingTree.Line Bytes
  | .ordinary raw x y _ | .unmerged raw x y _ => .tracked raw x y
  | .untracked raw _ => .untracked raw

/-- The number of fields, none of which has a space, and a path that does not end in a slash. -/
def WellFormed : Porcelain → Prop
  | .ordinary _ _ _ fields => fields.length = 6 ∧ ∀ field ∈ fields, space ∉ field
  | .unmerged _ _ _ fields => fields.length = 8 ∧ ∀ field ∈ fields, space ∉ field
  | .untracked raw _ => raw ≠ [] ∧ raw.getLast? ≠ some slash

end Porcelain

def ordinaryChange (x y : Letter) (fields : List Bytes) : Change where
  xy := [letterByte x, letterByte y]
  modes := [fields.getD 1 [], fields.getD 2 [], fields.getD 3 []]
  baseOid := cleanOid (fields.getD 4 [])
  indexOid := cleanOid (fields.getD 5 [])
  origPath := none

def unmergedChange (x y : Letter) (fields : List Bytes) : Change where
  xy := [letterByte x, letterByte y]
  modes := [fields.getD 1 [], fields.getD 2 [], fields.getD 3 [], fields.getD 4 []]
  baseOid := none
  indexOid := none
  origPath := none

/-- What the line of a tracked path adds. -/
def absorbTracked (acc : StatusAcc) (marker : UInt8) (raw : Bytes) (change : Change) : StatusAcc :=
  match safePath raw with
  | none =>
    { acc with rejections := acc.rejections ++ [raw], rejectedChanges := acc.rejectedChanges ++ [marker :: change.xy] }
  | some path => { acc with changes := acc.changes.insert path change }

/-- What a line adds to what `_parse_status` has gathered. -/
def absorb (acc : StatusAcc) : Porcelain → StatusAcc
  | .ordinary raw x y fields => absorbTracked acc 49 raw (ordinaryChange x y fields)
  | .unmerged raw x y fields => absorbTracked acc 117 raw (unmergedChange x y fields)
  | .untracked raw repository =>
    match safePath raw with
    | none =>
      { acc with
        rejections := acc.rejections ++ [raw ++ if repository then [slash] else []]
        rejectedChanges := acc.rejectedChanges ++ [ascii "?"] }
    | some path => { acc with untracked := acc.untracked ++ [(path, repository)] }

theorem space_notMem_letters (x y : Letter) : space ∉ [letterByte x, letterByte y] := by
  cases x <;> cases y <;> decide

theorem safePath_eq_some :
    safePath raw = some path ↔ raw = path.toByteArray.data.toList ∧ Indexing.isSafeRepoPath path := by
  unfold safePath
  rw [Indexing.safePath_eq_some]
  refine and_congr_left' ⟨fun h => ?_, fun h => ?_⟩
  · rw [← h]
  · rw [h]

/-- The fields of a tracked line come apart where they were joined. -/
theorem split_tracked {marker : UInt8} (x y : Letter) (raw : Bytes) (hmarker : marker ≠ space)
    (h : ∀ field ∈ fields, space ∉ field) :
    splitSpaces (fields.length + 2) (spaced ([marker] :: [letterByte x, letterByte y] :: fields) raw) =
      [marker] :: [letterByte x, letterByte y] :: (fields ++ [raw]) := by
  refine splitSpaces_spaced (fun field hfield => ?_) (.inl rfl)
  rcases mem_cons.1 hfield with rfl | hfield
  · exact fun hmem => hmarker (mem_singleton.1 hmem).symm
  rcases mem_cons.1 hfield with rfl | hfield
  · exact space_notMem_letters x y
  · exact h field hfield

variable {acc : StatusAcc}

theorem trackedToken_ordinary {x y : Letter} (h : (Porcelain.ordinary raw x y fields).WellFormed) :
    trackedToken 49 (Porcelain.ordinary raw x y fields).token 8 [3, 4, 5] (some 6) none acc =
      .ok (absorb acc (.ordinary raw x y fields)) := by
  obtain ⟨hlen, hspace⟩ := h
  have hsplit := split_tracked x y raw (show (49 : UInt8) ≠ space by decide) hspace
  rw [hlen] at hsplit
  have hcases : ∃ a b c d e f, fields = [a, b, c, d, e, f] := by
    match fields, hlen with
    | [a, b, c, d, e, f], _ => exact ⟨a, b, c, d, e, f, rfl⟩
  obtain ⟨a, b, c, d, e, f, rfl⟩ := hcases
  simp only [trackedToken, Porcelain.token, hsplit, absorb, absorbTracked, cons_append, nil_append,
    getD_cons_succ, getD_cons_zero]
  cases safePath raw <;> rfl

theorem trackedToken_unmerged {x y : Letter} (h : (Porcelain.unmerged raw x y fields).WellFormed) :
    trackedToken 117 (Porcelain.unmerged raw x y fields).token 10 [3, 4, 5, 6] none none acc =
      .ok (absorb acc (.unmerged raw x y fields)) := by
  obtain ⟨hlen, hspace⟩ := h
  have hsplit := split_tracked x y raw (show (117 : UInt8) ≠ space by decide) hspace
  rw [hlen] at hsplit
  have hcases : ∃ a b c d e f g i, fields = [a, b, c, d, e, f, g, i] := by
    match fields, hlen with
    | [a, b, c, d, e, f, g, i], _ => exact ⟨a, b, c, d, e, f, g, i, rfl⟩
  obtain ⟨a, b, c, d, e, f, g, i, rfl⟩ := hcases
  simp only [trackedToken, Porcelain.token, hsplit, absorb, absorbTracked, cons_append, nil_append,
    getD_cons_succ, getD_cons_zero]
  cases safePath raw <;> rfl

theorem stripSlashes_slash (h : raw.getLast? ≠ some slash) : stripSlashes (raw ++ [slash]) = raw := by
  unfold stripSlashes
  rw [reverse_append, reverse_singleton, singleton_append, dropWhile_cons_of_pos (by decide)]
  cases hr : raw.reverse with
  | nil => rw [reverse_eq_nil_iff.1 hr]; rfl
  | cons b rest =>
    have hraw : raw = rest.reverse ++ [b] := by rw [← reverse_reverse raw, hr, reverse_cons]
    have hb : b ≠ slash := fun hb => h (by rw [hraw, hb, List.getLast?_concat])
    rw [dropWhile_cons_of_neg (by simpa using hb), ← hr, reverse_reverse]

theorem untrackedToken_untracked {repository : Bool} (h : raw.getLast? ≠ some slash) :
    untrackedToken (Porcelain.untracked raw repository).token acc = absorb acc (.untracked raw repository) := by
  unfold untrackedToken absorb Porcelain.token
  cases repository with
  | true =>
    have hlast : (raw ++ [slash]).getLast? = some slash := List.getLast?_concat
    simp only [drop_succ_cons, drop_zero, if_true, hlast, decide_true, stripSlashes_slash h]
  | false =>
    simp only [drop_succ_cons, drop_zero, Bool.false_eq_true, if_false, append_nil, h, decide_false]

/-- A token is read as its line, whatever stands after it. -/
theorem parseStatus_token {l : Porcelain} (h : l.WellFormed) (rest : List Bytes) (acc : StatusAcc) :
    parseStatus (l.token :: rest) acc = parseStatus rest (absorb acc l) := by
  cases l with
  | ordinary raw x y fields =>
    show (do parseStatus _ (← trackedToken 49 (Porcelain.ordinary raw x y fields).token 8 [3, 4, 5] (some 6) none acc)) = _
    rw [trackedToken_ordinary h]
    rfl
  | unmerged raw x y fields =>
    show (do parseStatus _ (← trackedToken 117 (Porcelain.unmerged raw x y fields).token 10 [3, 4, 5, 6] none none acc)) = _
    rw [trackedToken_unmerged h]
    rfl
  | untracked raw repository =>
    show parseStatus _ (untrackedToken (Porcelain.untracked raw repository).token acc) = _
    rw [untrackedToken_untracked h.2]

variable {lines : List Porcelain}

/-- The parser reads back the lines that Git wrote. -/
theorem parseStatus_render (acc : StatusAcc) (h : ∀ l ∈ lines, l.WellFormed) :
    parseStatus (lines.map Porcelain.token) acc = .ok (lines.foldl absorb acc) := by
  induction lines generalizing acc with
  | nil => rfl
  | cons l lines ih =>
    rw [map_cons, foldl_cons, parseStatus_token (h l (mem_cons_self ..)),
      ih _ fun l' hl' => h l' (mem_cons_of_mem _ hl')]

/-- The lines that are of a tracked path with a safe name. -/
def changeOf : Porcelain → Option (String × Change)
  | .ordinary raw x y fields => (safePath raw).map (·, ordinaryChange x y fields)
  | .unmerged raw x y fields => (safePath raw).map (·, unmergedChange x y fields)
  | .untracked .. => none

def untrackedOf : Porcelain → Option (String × Bool)
  | .ordinary .. | .unmerged .. => none
  | .untracked raw repository => (safePath raw).map (·, repository)

def rejectedOf : Porcelain → Option Bytes
  | .ordinary raw .. | .unmerged raw .. => if safePath raw = none then some raw else none
  | .untracked raw repository => if safePath raw = none then some (raw ++ if repository then [slash] else []) else none

theorem absorb_line (acc : StatusAcc) (l : Porcelain) :
    (absorb acc l).changes = Table.insertAll (changeOf l).toList acc.changes ∧
      (absorb acc l).untracked = acc.untracked ++ (untrackedOf l).toList ∧
      (absorb acc l).rejections = acc.rejections ++ (rejectedOf l).toList ∧
      (absorb acc l).rejectedChanges.length = acc.rejectedChanges.length + (rejectedOf l).toList.length := by
  cases l with
  | ordinary raw x y fields | unmerged raw x y fields =>
    cases hp : safePath raw <;> simp [absorb, absorbTracked, changeOf, untrackedOf, rejectedOf, hp, Table.insertAll]
  | untracked raw repository =>
    cases hp : safePath raw <;> simp [absorb, changeOf, untrackedOf, rejectedOf, hp, Table.insertAll]

theorem absorb_changes :
    (lines.foldl absorb acc).changes = Table.insertAll (lines.filterMap changeOf) acc.changes := by
  induction lines generalizing acc with
  | nil => rfl
  | cons l lines ih =>
    rw [foldl_cons, ih, (absorb_line acc l).1, filterMap_cons]
    cases changeOf l <;> rfl

theorem absorb_appends {β : Type} {field : StatusAcc → List β} {add : Porcelain → Option β}
    (h : ∀ acc l, field (absorb acc l) = field acc ++ (add l).toList) (lines : List Porcelain) (acc : StatusAcc) :
    field (lines.foldl absorb acc) = field acc ++ lines.filterMap add := by
  induction lines generalizing acc with
  | nil => exact (append_nil _).symm
  | cons l lines ih =>
    rw [foldl_cons, ih, h, append_assoc, filterMap_cons]
    cases add l <;> rfl

theorem absorb_untracked : (lines.foldl absorb acc).untracked = acc.untracked ++ lines.filterMap untrackedOf :=
  absorb_appends (fun acc l => (absorb_line acc l).2.1) lines acc

theorem absorb_rejections : (lines.foldl absorb acc).rejections = acc.rejections ++ lines.filterMap rejectedOf :=
  absorb_appends (fun acc l => (absorb_line acc l).2.2.1) lines acc

theorem absorb_rejectedChanges :
    (lines.foldl absorb acc).rejectedChanges.length = acc.rejectedChanges.length + (lines.filterMap rejectedOf).length := by
  induction lines generalizing acc with
  | nil => rfl
  | cons l lines ih =>
    rw [foldl_cons, ih, (absorb_line acc l).2.2.2, filterMap_cons]
    cases rejectedOf l with
    | none => rfl
    | some raw => exact Nat.add_right_comm _ _ _

/-! ## The index, HEAD and the flags -/

/-- An object id, as Git writes it. -/
abbrev Oid : Type := {value : Bytes // isOid value}

open WorkingTree (Recorded FileMode Staged Conflict)

def fileMode : FileMode → Bytes
  | .regular => ascii "100644"
  | .executable => ascii "100755"
  | .symlink => ascii "120000"

def recordMode : Recorded Oid → Bytes
  | .blob mode _ => fileMode mode
  | .link _ => gitlinkMode

def recordOid : Recorded Oid → Oid
  | .blob _ oid | .link oid => oid

/-- A line of `git ls-files --stage -z`. -/
structure IndexLine where
  mode : Bytes
  oid : Oid
  stage : Nat
  raw : Bytes

def stageText (n : Nat) : Bytes := [48 + n.toUInt8]

def IndexLine.token (l : IndexLine) : Bytes := spaced [l.mode, l.oid.1] (stageText l.stage) ++ tab :: l.raw

/-- The lines of one path; one that the index only intends to add has the empty content. -/
def indexLines (empty : Oid) (raw : Bytes) : Staged Oid → List IndexLine
  | .plain record _ => [⟨recordMode record, recordOid record, 0, raw⟩]
  | .intent mode => [⟨fileMode mode, empty, 0, raw⟩]
  | .unmerged conflict version =>
    conflict.stages.map fun n => ⟨recordMode (version n), recordOid (version n), n, raw⟩

/-- The last version of an unmerged path. -/
def lastStage : Conflict → Nat
  | .bothDeleted => 1
  | .addedByUs | .deletedByThem => 2
  | .addedByThem | .deletedByUs | .bothAdded | .bothModified => 3

/-- The entry of a path. -/
def entryOf (empty : Oid) : Staged Oid → IndexEntry
  | .plain record _ => ⟨recordMode record, some (recordOid record).1, false⟩
  | .intent mode => ⟨fileMode mode, some empty.1, false⟩
  | .unmerged conflict version => ⟨recordMode (version (lastStage conflict)), none, true⟩

theorem space_tab_notMem_oid (oid : Oid) : space ∉ oid.1 ∧ tab ∉ oid.1 := by
  have h := oid.2
  unfold isOid at h
  rw [Bool.and_eq_true, all_eq_true] at h
  exact ⟨fun hmem => absurd (h.2 _ hmem) (by decide), fun hmem => absurd (h.2 _ hmem) (by decide)⟩

theorem space_tab_notMem_mode (record : Recorded Oid) : space ∉ recordMode record ∧ tab ∉ recordMode record := by
  have hmode : ∀ mode, space ∉ fileMode mode ∧ tab ∉ fileMode mode := by
    intro mode
    cases mode <;> exact ⟨by decide, by decide⟩
  have hlink : space ∉ gitlinkMode ∧ tab ∉ gitlinkMode := ⟨by decide, by decide⟩
  cases record with
  | blob mode oid => exact hmode mode
  | link oid => exact hlink

variable {l : IndexLine}
variable {staged : Staged Oid} {index : Bytes → Option (Staged Oid)} {record : Recorded Oid}

theorem mode_indexLines {empty : Oid} (h : l ∈ indexLines empty raw staged) :
    (space ∉ l.mode ∧ tab ∉ l.mode) ∧ l.stage ≤ 3 ∧ l.raw = raw := by
  cases staged with
  | plain record flagged =>
    obtain rfl := mem_singleton.1 h
    exact ⟨space_tab_notMem_mode record, Nat.zero_le _, rfl⟩
  | intent mode =>
    obtain rfl := mem_singleton.1 h
    exact ⟨space_tab_notMem_mode (.blob mode empty), Nat.zero_le _, rfl⟩
  | unmerged conflict version =>
    obtain ⟨n, hn, rfl⟩ := mem_map.1 h
    refine ⟨space_tab_notMem_mode _, ?_, rfl⟩
    have hall : ∀ m ∈ conflict.stages, m ≤ 3 := by cases conflict <;> decide
    exact hall n hn

theorem indexToken_token {acc : IndexAcc} (hmode : space ∉ l.mode ∧ tab ∉ l.mode) (hstage : l.stage ≤ 3) :
    indexToken acc l.token = .ok (indexEntry l.mode l.oid.1 (stageText l.stage) l.raw acc) := by
  obtain ⟨hspace, htab⟩ := space_tab_notMem_oid l.oid
  have hdigit : ∀ n ≤ 3, space ∉ stageText n ∧ tab ∉ stageText n := by decide
  obtain ⟨hstageSpace, hstageTab⟩ := hdigit l.stage hstage
  have hmeta : tab ∉ spaced [l.mode, l.oid.1] (stageText l.stage) := by
    simp only [spaced, mem_append, mem_cons, not_or]
    exact ⟨hmode.2, by decide, htab, by decide, hstageTab⟩
  have hlen : [l.mode, l.oid.1].length ≤ (spaced [l.mode, l.oid.1] (stageText l.stage)).length := by
    simp only [spaced, length_append, length_cons, length_nil]
    omega
  have hfields : ∀ field ∈ [l.mode, l.oid.1], space ∉ field := by
    intro field hfield
    rcases mem_cons.1 hfield with rfl | hfield
    · exact hmode.1
    · rw [mem_singleton.1 hfield]
      exact hspace
  have hsplit := splitSpaces_spaced hfields (.inr ⟨hlen, hstageSpace⟩)
  unfold indexToken IndexLine.token
  rw [partitionTab_field hmeta]
  simp only [hsplit, cons_append, nil_append]
  rw [if_pos l.oid.2]

theorem parseIndex_lines {lines : List IndexLine} (h : ∀ l ∈ lines, (space ∉ l.mode ∧ tab ∉ l.mode) ∧ l.stage ≤ 3) :
    parseIndex (lines.map IndexLine.token) =
      .ok (lines.foldl (fun acc l => indexEntry l.mode l.oid.1 (stageText l.stage) l.raw acc) (∅, [])) := by
  unfold parseIndex
  generalize ((∅, []) : IndexAcc) = acc
  induction lines generalizing acc with
  | nil => rfl
  | cons l lines ih =>
    obtain ⟨hmode, hstage⟩ := h l (mem_cons_self ..)
    rw [map_cons, foldlM_cons, indexToken_token hmode hstage]
    exact ih (fun l' hl' => h l' (mem_cons_of_mem _ hl')) _

/-- What is at the path of a name the scanner takes. -/
def named {α : Type} (f : Bytes → Option α) (path : String) : Option α :=
  if Indexing.isSafeRepoPath path then f path.toByteArray.data.toList else none

theorem named_of_safe {α : Type} {f : Bytes → Option α} (h : safePath raw = some path) : named f path = f raw := by
  obtain ⟨rfl, hsafe⟩ := safePath_eq_some.1 h
  exact if_pos hsafe

theorem named_eq_some {α : Type} {f : Bytes → Option α} {a : α} :
    named f path = some a ↔ ∃ raw, safePath raw = some path ∧ f raw = some a := by
  constructor
  · intro h
    unfold named at h
    split at h
    · next hsafe => exact ⟨_, safePath_eq_some.2 ⟨rfl, hsafe⟩, h⟩
    · exact absurd h (Option.some_ne_none a).symm
  · rintro ⟨raw, hraw, h⟩
    rw [named_of_safe hraw, h]

theorem safePath_inj {raw raw' : Bytes} (h : safePath raw = some path) (h' : safePath raw' = some path) :
    raw = raw' := (safePath_eq_some.1 h).1.trans (safePath_eq_some.1 h').1.symm

/-- What a line of the index adds to a table that does not have its path. -/
def indexStep (acc : IndexAcc) (l : IndexLine) : IndexAcc := indexEntry l.mode l.oid.1 (stageText l.stage) l.raw acc

theorem indexStep_refused {acc : IndexAcc} {lines : List IndexLine} (hraw : ∀ l ∈ lines, l.raw = raw)
    (h : safePath raw = none) : lines.foldl indexStep acc = (acc.1, acc.2 ++ List.replicate lines.length raw) := by
  induction lines generalizing acc with
  | nil => simp
  | cons l lines ih =>
    have hl : indexStep acc l = (acc.1, acc.2 ++ [raw]) := by
      unfold indexStep indexEntry
      rw [hraw l (mem_cons_self ..), h]
    rw [foldl_cons, hl, ih fun l' hl' => hraw l' (mem_cons_of_mem _ hl'), length_cons, replicate_succ,
      append_assoc, singleton_append]

/-- A conflicted entry, or a line of a later stage, leaves a conflicted entry. -/
theorem indexStep_conflict {acc : IndexAcc} (h : safePath l.raw = some path)
    (hstage : stageText l.stage ≠ ascii "0") : indexStep acc l = (acc.1.insert path ⟨l.mode, none, true⟩, acc.2) := by
  unfold indexStep indexEntry
  rw [h]
  exact if_pos (.inl hstage)

theorem indexStep_plain {acc : IndexAcc} {mode raw : Bytes} {oid : Oid} (h : safePath raw = some path)
    (hfree : acc.1.lookup path = none) :
    indexStep acc ⟨mode, oid, 0, raw⟩ = (acc.1.insert path ⟨mode, some oid.1, false⟩, acc.2) := by
  unfold indexStep indexEntry
  have hstage : ¬ (stageText 0 ≠ ascii "0") := not_not.2 (by decide)
  simp only [h, hfree, Option.any_none, Bool.false_eq_true, or_false]
  rw [if_neg hstage]

theorem indexStep_path {acc : IndexAcc} {empty : Oid} (h : safePath raw = some path)
    (hfree : acc.1.lookup path = none) :
    (indexLines empty raw staged).foldl indexStep acc = (acc.1.insert path (entryOf empty staged), acc.2) := by
  cases staged with
  | plain | intent => exact indexStep_plain h hfree
  | unmerged conflict version =>
    have hstages : ∀ n ∈ [1, 2, 3], stageText n ≠ ascii "0" := by decide
    have hstep : ∀ {acc : IndexAcc} {n : Nat}, n ∈ [1, 2, 3] →
        indexStep acc ⟨recordMode (version n), recordOid (version n), n, raw⟩ =
          (acc.1.insert path ⟨recordMode (version n), none, true⟩, acc.2) := fun hn =>
      indexStep_conflict h (hstages _ hn)
    cases conflict <;>
      simp [indexLines, Conflict.stages, entryOf, lastStage, hstep, Finmap.insert_insert]

variable {paths : List Bytes}

theorem indexStep_paths (empty : Oid) (acc : IndexAcc) (nodup : paths.Nodup)
    (hpaths : ∀ raw ∈ paths, (index raw).isSome)
    (hfree : ∀ raw ∈ paths, ∀ path, safePath raw = some path → acc.1.lookup path = none) :
    ∃ after : IndexAcc,
      (paths.flatMap fun raw => (index raw).elim [] (indexLines empty raw)).foldl indexStep acc = after ∧
      (∀ path, after.1.lookup path =
        if ∃ raw ∈ paths, safePath raw = some path then (named index path).map (entryOf empty) else acc.1.lookup path) ∧
      ∀ raw, raw ∈ after.2 ↔ raw ∈ acc.2 ∨ raw ∈ paths ∧ safePath raw = none := by
  induction paths generalizing acc with
  | nil => exact ⟨acc, rfl, fun path => by simp, fun raw => by simp⟩
  | cons raw paths ih =>
    obtain ⟨hnot, hnodup⟩ := nodup_cons.1 nodup
    obtain ⟨staged, hstaged⟩ := Option.isSome_iff_exists.1 (hpaths raw (mem_cons_self ..))
    have hrest : ∀ raw' ∈ paths, (index raw').isSome := fun raw' h' => hpaths raw' (mem_cons_of_mem _ h')
    rw [flatMap_cons, foldl_append, hstaged, Option.elim_some]
    cases hraw : safePath raw with
    | none =>
      have hlines : ∀ l ∈ indexLines empty raw staged, l.raw = raw := fun l hl => (mode_indexLines hl).2.2
      have hpos : (indexLines empty raw staged).length ≠ 0 := by
        cases staged with
        | plain | intent => simp [indexLines]
        | unmerged conflict version => cases conflict <;> simp [indexLines, Conflict.stages]
      rw [indexStep_refused hlines hraw]
      obtain ⟨after, heq, hlook, hrej⟩ := ih (acc.1, acc.2 ++ List.replicate _ raw) hnodup hrest
        fun raw' h' => hfree raw' (mem_cons_of_mem _ h')
      refine ⟨after, heq, fun path => ?_, fun raw' => ?_⟩
      · rw [hlook path]
        simp [hraw]
      · rw [hrej raw', mem_append, mem_replicate, mem_cons]
        constructor
        · rintro ((h | ⟨-, rfl⟩) | ⟨h, hrefused⟩)
          · exact .inl h
          · exact .inr ⟨.inl rfl, hraw⟩
          · exact .inr ⟨.inr h, hrefused⟩
        · rintro (h | ⟨rfl | h, hrefused⟩)
          · exact .inl (.inl h)
          · exact .inl (.inr ⟨hpos, rfl⟩)
          · exact .inr ⟨h, hrefused⟩
    | some path =>
      rw [indexStep_path hraw (hfree raw (mem_cons_self ..) path hraw)]
      have hfree' : ∀ raw' ∈ paths, ∀ path', safePath raw' = some path' →
          (acc.1.insert path (entryOf empty staged)).lookup path' = none := by
        intro raw' h' path' hraw'
        have hne : path' ≠ path := by
          rintro rfl
          exact hnot (safePath_inj hraw' hraw ▸ h')
        rw [Table.lookup_insert_eq, if_neg hne]
        exact hfree raw' (mem_cons_of_mem _ h') path' hraw'
      obtain ⟨after, heq, hlook, hrej⟩ := ih (acc.1.insert path (entryOf empty staged), acc.2) hnodup hrest hfree'
      refine ⟨after, heq, fun path' => ?_, fun raw' => ?_⟩
      · rw [hlook path']
        by_cases hpath : path' = path
        · subst hpath
          have hnone : ¬ ∃ raw' ∈ paths, safePath raw' = some path' := by
            rintro ⟨raw', h', hraw'⟩
            exact hnot (safePath_inj hraw' hraw ▸ h')
          rw [if_neg hnone, if_pos ⟨raw, mem_cons_self .., hraw⟩, Finmap.lookup_insert, named_of_safe hraw, hstaged]
          rfl
        · rw [Table.lookup_insert_eq, if_neg hpath]
          refine if_congr ?_ rfl rfl
          constructor
          · rintro ⟨raw', h', hraw'⟩
            exact ⟨raw', mem_cons_of_mem _ h', hraw'⟩
          · rintro ⟨raw', h', hraw'⟩
            rcases mem_cons.1 h' with rfl | h'
            · exact absurd (Option.some.inj (hraw'.symm.trans hraw)) hpath
            · exact ⟨raw', h', hraw'⟩
      · rw [hrej raw', mem_cons]
        constructor
        · rintro (h | ⟨h, hrefused⟩)
          · exact .inl h
          · exact .inr ⟨.inr h, hrefused⟩
        · rintro (h | ⟨rfl | h, hrefused⟩)
          · exact .inl h
          · exact absurd (hrefused.symm.trans hraw) (Option.some_ne_none path).symm
          · exact .inr ⟨h, hrefused⟩

theorem parseIndex_render (empty : Oid) (nodup : paths.Nodup) (hpaths : ∀ raw, raw ∈ paths ↔ (index raw).isSome) :
    ∃ entries rejections,
      parseIndex ((paths.flatMap fun raw => (index raw).elim [] (indexLines empty raw)).map IndexLine.token) =
        .ok (entries, rejections) ∧
      (∀ path, entries.lookup path = (named index path).map (entryOf empty)) ∧
      ∀ raw, raw ∈ rejections ↔ (index raw).isSome ∧ safePath raw = none := by
  have hlines : ∀ l ∈ paths.flatMap fun raw => (index raw).elim [] (indexLines empty raw),
      (space ∉ l.mode ∧ tab ∉ l.mode) ∧ l.stage ≤ 3 := by
    intro l hl
    obtain ⟨raw, -, hl⟩ := mem_flatMap.1 hl
    cases hstaged : index raw with
    | none => rw [hstaged] at hl; exact absurd hl not_mem_nil
    | some staged =>
      rw [hstaged] at hl
      exact ⟨(mode_indexLines hl).1, (mode_indexLines hl).2.1⟩
  obtain ⟨after, heq, hlook, hrej⟩ := indexStep_paths empty (∅, []) nodup
    (fun raw h => (hpaths raw).1 h) fun raw _ path _ => Finmap.lookup_empty path
  refine ⟨after.1, after.2, ?_, fun path => ?_, fun raw => ?_⟩
  · rw [parseIndex_lines hlines]
    exact congrArg Except.ok heq
  · rw [hlook path]
    split
    · rfl
    · next hnot =>
      rw [Finmap.lookup_empty]
      cases hnamed : named index path with
      | none => rfl
      | some staged =>
        obtain ⟨raw, hraw, hstaged⟩ := named_eq_some.1 hnamed
        exact absurd ⟨raw, (hpaths raw).2 (hstaged ▸ rfl), hraw⟩ hnot
  · rw [hrej raw, hpaths raw]
    simp

def recordKind : Recorded Oid → Bytes
  | .blob .. => ascii "blob"
  | .link _ => ascii "commit"

/-- A line of `git ls-tree -r -z`. -/
def headLine (raw : Bytes) (record : Recorded Oid) : Bytes :=
  spaced [recordMode record, recordKind record] (recordOid record).1 ++ tab :: raw

theorem recordMode_eq_gitlink : recordMode record = gitlinkMode ↔ ∃ oid, record = .link oid := by
  have hmode : ∀ mode, fileMode mode ≠ gitlinkMode := by
    intro mode
    cases mode <;> decide
  cases record with
  | blob mode oid => exact ⟨fun h => absurd h (hmode mode), fun ⟨_, h⟩ => nomatch h⟩
  | link oid => exact ⟨fun _ => ⟨oid, rfl⟩, fun _ => rfl⟩

theorem headToken_line {links : Dict String Bytes} : headToken links (headLine raw record) =
      .ok (match safePath raw, record.pointer with
        | some path, some oid => links.insert path oid.1
        | _, _ => links) := by
  obtain ⟨hspace, htab⟩ := space_tab_notMem_oid (recordOid record)
  obtain ⟨hmodeSpace, hmodeTab⟩ := space_tab_notMem_mode record
  have hkind : space ∉ recordKind record ∧ tab ∉ recordKind record := by
    have hblob : space ∉ ascii "blob" ∧ tab ∉ ascii "blob" := ⟨by decide, by decide⟩
    have hcommit : space ∉ ascii "commit" ∧ tab ∉ ascii "commit" := ⟨by decide, by decide⟩
    cases record with
    | blob mode oid => exact hblob
    | link oid => exact hcommit
  have hmeta : tab ∉ spaced [recordMode record, recordKind record] (recordOid record).1 := by
    simp only [spaced, mem_append, mem_cons, not_or]
    exact ⟨hmodeTab, by decide, hkind.2, by decide, htab⟩
  have hlen : [recordMode record, recordKind record].length ≤
      (spaced [recordMode record, recordKind record] (recordOid record).1).length := by
    simp only [spaced, length_append, length_cons, length_nil]
    omega
  have hfields : ∀ field ∈ [recordMode record, recordKind record], space ∉ field := by
    intro field hfield
    rcases mem_cons.1 hfield with rfl | hfield
    · exact hmodeSpace
    · rw [mem_singleton.1 hfield]
      exact hkind.1
  have hsplit := splitSpaces_spaced hfields (.inr ⟨hlen, hspace⟩)
  unfold headToken headLine
  rw [partitionTab_field hmeta]
  simp only [hsplit, cons_append, nil_append]
  cases record with
  | blob mode oid =>
    rw [if_neg fun h => by obtain ⟨_, h⟩ := recordMode_eq_gitlink.1 h; cases h]
    cases safePath raw <;> rfl
  | link oid =>
    rw [if_pos (show recordMode (.link oid) = gitlinkMode from rfl)]
    cases safePath raw <;> rfl

theorem parseHeadGitlinks_render {head : Bytes → Option (Recorded Oid)} (nodup : paths.Nodup)
    (hpaths : ∀ raw, raw ∈ paths ↔ (head raw).isSome) :
    ∃ links, parseHeadGitlinks (paths.filterMap fun raw => (head raw).map (headLine raw)) = .ok links ∧
      ∀ path, links.lookup path = ((named head path).bind Recorded.pointer).map (·.1) := by
  have hfold : ∀ (paths : List Bytes) (links : Dict String Bytes), paths.Nodup → (∀ raw ∈ paths, (head raw).isSome) →
      ∃ after, (paths.filterMap fun raw => (head raw).map (headLine raw)).foldlM headToken links = .ok after ∧
        ∀ path, after.lookup path =
          if ∃ raw ∈ paths, safePath raw = some path ∧ (head raw).bind Recorded.pointer ≠ none then
            ((named head path).bind Recorded.pointer).map (·.1)
          else links.lookup path := by
    intro paths
    induction paths with
    | nil => exact fun links _ _ => ⟨links, rfl, fun path => by simp⟩
    | cons raw paths ih =>
      intro links hnodup hsome
      obtain ⟨hnot, hnodup⟩ := nodup_cons.1 hnodup
      obtain ⟨record, hrecord⟩ := Option.isSome_iff_exists.1 (hsome raw (mem_cons_self ..))
      have hcons : ((raw :: paths).filterMap fun raw => (head raw).map (headLine raw)) =
          headLine raw record :: paths.filterMap fun raw => (head raw).map (headLine raw) := by
        rw [filterMap_cons, hrecord, Option.map_some]
      obtain ⟨after, heq, hlook⟩ := ih (match safePath raw, record.pointer with
        | some path, some oid => links.insert path oid.1
        | _, _ => links) hnodup fun raw' h' => hsome raw' (mem_cons_of_mem _ h')
      refine ⟨after, ?_, fun path => ?_⟩
      · rw [hcons, foldlM_cons, headToken_line]
        exact heq
      · rw [hlook path]
        by_cases hself : safePath raw = some path ∧ record.pointer ≠ none
        · obtain ⟨hraw, hpointer⟩ := hself
          obtain ⟨oid, hoid⟩ := Option.ne_none_iff_exists'.1 hpointer
          have hnone : ¬ ∃ raw' ∈ paths, safePath raw' = some path ∧ (head raw').bind Recorded.pointer ≠ none := by
            rintro ⟨raw', h', hraw', -⟩
            exact hnot (safePath_inj hraw' hraw ▸ h')
          rw [if_neg hnone, if_pos ⟨raw, mem_cons_self .., hraw, by rw [hrecord]; exact hpointer⟩,
            named_of_safe hraw, hrecord]
          simp only [hraw, hoid, Option.bind_some, Option.map_some]
          exact Finmap.lookup_insert links
        · have hstep : (match safePath raw, record.pointer with
              | some path, some oid => links.insert path oid.1
              | _, _ => links).lookup path = links.lookup path := by
            cases hraw : safePath raw with
            | none => rfl
            | some path' =>
              cases hoid : record.pointer with
              | none => rfl
              | some oid =>
                have hne : path ≠ path' := by
                  rintro rfl
                  exact hself ⟨hraw, hoid ▸ Option.some_ne_none oid⟩
                exact Finmap.lookup_insert_of_ne links hne
          rw [hstep]
          refine if_congr ?_ rfl rfl
          constructor
          · rintro ⟨raw', h', hraw', hp⟩
            exact ⟨raw', mem_cons_of_mem _ h', hraw', hp⟩
          · rintro ⟨raw', h', hraw', hp⟩
            rcases mem_cons.1 h' with rfl | h'
            · rw [hrecord] at hp
              exact absurd ⟨hraw', hp⟩ hself
            · exact ⟨raw', h', hraw', hp⟩
  obtain ⟨links, heq, hlook⟩ := hfold paths ∅ nodup fun raw h => (hpaths raw).1 h
  refine ⟨links, heq, fun path => ?_⟩
  rw [hlook path]
  split
  · rfl
  · next hnot =>
    rw [Finmap.lookup_empty]
    cases hnamed : (named head path).bind Recorded.pointer with
    | none => rfl
    | some oid =>
      obtain ⟨record, hrecord, hoid⟩ := Option.bind_eq_some_iff.1 hnamed
      obtain ⟨raw, hraw, hhead⟩ := named_eq_some.1 hrecord
      refine absurd ⟨raw, (hpaths raw).2 (hhead ▸ rfl), hraw, ?_⟩ hnot
      rw [hhead, Option.bind_some, hoid]
      exact Option.some_ne_none oid

/-- A line of `git ls-files -v -z`. -/
def flagLine (line : UInt8 × Bytes) : Bytes := line.1 :: space :: line.2

theorem parseFlagged_render {lines : List (UInt8 × Bytes)} (h : ∀ line ∈ lines, line.2 ≠ []) :
    ∃ flagged, parseFlagged (lines.map flagLine) = .ok flagged ∧
      ∀ path, path ∈ flagged ↔ ∃ line ∈ lines, line.1 ≠ 72 ∧ safePath line.2 = some path := by
  have hfold : ∀ (lines : List (UInt8 × Bytes)) (flagged : List String), (∀ line ∈ lines, line.2 ≠ []) →
      ∃ after, (lines.map flagLine).foldlM flaggedToken flagged = .ok after ∧
        ∀ path, path ∈ after ↔ path ∈ flagged ∨ ∃ line ∈ lines, line.1 ≠ 72 ∧ safePath line.2 = some path := by
    intro lines
    induction lines with
    | nil => exact fun flagged _ => ⟨flagged, rfl, fun path => by simp⟩
    | cons line lines ih =>
      intro flagged hne
      have hstep : flaggedToken flagged (flagLine line) =
          .ok (if line.1 ≠ 72 then flagged ++ (safePath line.2).toList else flagged) := by
        unfold flaggedToken flagLine
        simp only [hne line (mem_cons_self ..), ne_eq, not_true_eq_false, or_self, if_false]
        split <;> rfl
      obtain ⟨after, heq, hmem⟩ := ih (if line.1 ≠ 72 then flagged ++ (safePath line.2).toList else flagged)
        fun line' h' => hne line' (mem_cons_of_mem _ h')
      refine ⟨after, ?_, fun path => ?_⟩
      · rw [map_cons, foldlM_cons, hstep]
        exact heq
      · rw [hmem path]
        by_cases htag : line.1 = 72
        · simp [htag]
        · simp [htag, or_assoc]
  obtain ⟨flagged, heq, hmem⟩ := hfold lines [] h
  exact ⟨flagged, heq, fun path => by rw [hmem path]; simp⟩

end Scanner
