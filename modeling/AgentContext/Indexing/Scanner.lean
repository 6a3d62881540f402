import AgentContext.Indexing.Porcelain
import Mathlib.Algebra.GroupWithZero.Nat

/-!
# The repository scan

`_scan` of `scanner.py` over a checkout that stands still: the files of the index read under the limits, the tracked paths
whose bytes are not those of their blob although the status calls them clean (`raced`), the submodule changes and the paths
that are modified.
-/

namespace Scanner

open List

open Table (Dict ordered)
open WorkingTree (Node)

inductive SkipReason | missing | tooLarge | budgetExhausted | unreadable | escapesRepository
deriving DecidableEq, Repr

/-- The digests of a content: its SHA-256, and its blob id in the repository's object format. -/
structure Hashes where
  sha256 : Bytes → String
  blob : Bytes → Bytes

structure ScanLimits where
  maxFiles : Nat
  maxFileBytes : Nat
  maxTotalBytes : Nat
  positive : 0 < maxFiles ∧ 0 < maxFileBytes ∧ 0 < maxTotalBytes

/-- `_Observed`. -/
structure Observed where
  size : Option Nat
  sha256 : Option String
  skipped : Option SkipReason
  consumed : Nat
  blobOid : Option Bytes
deriving DecidableEq, Repr

/-- `_skipped`. -/
def skipped (reason : SkipReason) (size : Option Nat) : Observed := ⟨size, none, some reason, 0, none⟩

/-- `_over_cap`. -/
def overCap (size fileCap budget : Nat) : Option Observed :=
  if size ≤ min fileCap budget then none
  else some (skipped (if fileCap < size then .tooLarge else .budgetExhausted) (some size))

def wholly (hashes : Hashes) (content : Bytes) : Observed where
  size := some content.length
  sha256 := some (hashes.sha256 content)
  skipped := none
  consumed := content.length
  blobOid := some (hashes.blob content)

/-- `_observe`, and `_observe_leaf` where the path leads to a leaf. -/
def observe (hashes : Hashes) (node : Node) (fileCap budget : Nat) : Observed :=
  match node with
  | .missing => skipped .missing none
  | .beyondLink => skipped .escapesRepository none
  | .directory | .special | .repository => skipped .unreadable none
  | .link target =>
    if budget = 0 then skipped .budgetExhausted none
    else
      match overCap target.length fileCap budget with
      | some capped => { capped with consumed := min target.length budget }
      | none => wholly hashes target
  | .file content readable =>
    if budget = 0 then skipped .budgetExhausted (some content.length)
    else
      match overCap content.length fileCap budget with
      | some capped => capped
      | none => if readable then wholly hashes content else skipped .unreadable none

/-- What `observe` charges: the bytes read, even when their digest is discarded. -/
def Observed.charge (seen : Observed) : Nat := if seen.skipped = none then seen.size.getD 0 else seen.consumed

structure TrackedFile where
  path : String
  mode : Bytes
  oid : Option Bytes
  size : Option Nat
  contentSha256 : Option String
  change : Option Bytes
  skipped : Option SkipReason
deriving DecidableEq, Repr

structure UntrackedFile where
  path : String
  size : Option Nat
  contentSha256 : Option String
  skipped : Option SkipReason
deriving DecidableEq, Repr

structure StatusChange where
  path : String
  xy : Bytes
  origPath : Option String
deriving DecidableEq, Repr

structure GitlinkChange where
  path : String
  headOid : Option Bytes
  indexOid : Option Bytes
deriving DecidableEq, Repr

structure RepositoryScan where
  isDirty : Bool
  modifiedPaths : List String
  untrackedPaths : List String
  changes : List StatusChange
  gitlinks : List GitlinkChange
  files : List TrackedFile
  untracked : List UntrackedFile
  rejections : List Bytes
deriving DecidableEq

/-- What the loops of `_scan` read. -/
structure Reading where
  index : Dict String IndexEntry
  changes : Dict String Change
  flagged : List String
  work : String → Node
  hashes : Hashes
  limits : ScanLimits

/-- What they have gathered. -/
structure Walk where
  processed : Nat
  bytesRead : Nat
  files : List TrackedFile
  raced : Dict String (Option String)
  untracked : List UntrackedFile
  omittedUntracked : List String

/-- `_RACE_SKIPS`. -/
def raceSkips : List SkipReason := [.missing, .unreadable, .escapesRepository]

namespace Reading

variable (r : Reading)

def observed (walk : Walk) (path : String) : Observed :=
  observe r.hashes (r.work path) r.limits.maxFileBytes (r.limits.maxTotalBytes - walk.bytesRead)

def trackedFile (path : String) (entry : IndexEntry) (seen : Observed) : TrackedFile :=
  ⟨path, entry.mode, entry.oid, seen.size, seen.sha256, (r.changes.lookup path).map (·.xy), seen.skipped⟩

/-- Whether the bytes read are not those the index says, or could not be read, and the digest to record. -/
def race (path : String) (entry : IndexEntry) (seen : Observed) : Option (Option String) :=
  if r.changes.lookup path = none ∧ path ∉ r.flagged ∧ entry.conflicted = false then
    match seen.skipped with
    | none => if seen.blobOid ≠ entry.oid then some seen.sha256 else none
    | some reason => if reason ∈ raceSkips then some none else none
  else none

def trackedStep (walk : Walk) (path : String) : Walk :=
  match r.index.lookup path with
  | none => walk
  | some entry =>
    if r.limits.maxFiles ≤ walk.processed then walk
    else if entry.mode = gitlinkMode then
      { walk with
        processed := walk.processed + 1
        files := walk.files ++ [r.trackedFile path entry ⟨none, none, none, 0, none⟩] }
    else
      let seen := r.observed walk path
      { walk with
        processed := walk.processed + 1
        bytesRead := walk.bytesRead + seen.charge
        files := walk.files ++ [r.trackedFile path entry seen]
        raced :=
          match r.race path entry seen with
          | some sha256 => walk.raced.insert path sha256
          | none => walk.raced }

/-- One untracked path; a nested repository is not read. -/
def untrackedStep (walk : Walk) (item : String × Bool) : Walk :=
  if r.limits.maxFiles ≤ walk.processed then { walk with omittedUntracked := walk.omittedUntracked ++ [item.1] }
  else if item.2 then
    { walk with processed := walk.processed + 1, untracked := walk.untracked ++ [⟨item.1, none, none, none⟩] }
  else
    let seen := r.observed walk item.1
    { walk with
      processed := walk.processed + 1
      bytesRead := walk.bytesRead + seen.charge
      untracked := walk.untracked ++ [⟨item.1, seen.size, seen.sha256, seen.skipped⟩] }

def tracked : Walk := (ordered r.index.keys).foldl r.trackedStep ⟨0, 0, [], ∅, [], []⟩

end Reading

/-- The commit the index has for a submodule. -/
def indexLink (index : Dict String IndexEntry) (path : String) : Option Bytes :=
  match index.lookup path with
  | some entry => if entry.mode = gitlinkMode then entry.oid else none
  | none => none

/-- `gitlink_changes`, without the flag of a conflict. -/
def gitlinkChanges (headLinks : Dict String Bytes) (index : Dict String IndexEntry) : List GitlinkChange :=
  ((ordered (headLinks.keys ∪ index.keys.filter fun path => (index.lookup path).any (·.mode = gitlinkMode))).filter
    fun path => headLinks.lookup path ≠ indexLink index path).map
    fun path => ⟨path, headLinks.lookup path, indexLink index path⟩

/-- The outputs of Git, as `_split_z` cuts them. -/
structure GitOutput where
  index : List Bytes
  flags : List Bytes
  headTree : List Bytes
  status : List Bytes

/-- `sorted(set(untracked_raw), key=...)`. -/
def sortedUntracked (items : List (String × Bool)) : List (String × Bool) := items.dedup.insertionSort (·.1 ≤ ·.1)

/-- The second half of `_scan`: the loops, and what is made of them. -/
def Reading.assemble (r : Reading) (headLinks : Dict String Bytes) (status : StatusAcc) : RepositoryScan :=
  let walk := (sortedUntracked status.untracked).foldl r.untrackedStep r.tracked
  let gitlinks := gitlinkChanges headLinks r.index
  { isDirty := status.changes.keys ≠ ∅ ∨ walk.raced.keys ≠ ∅ ∨ gitlinks ≠ [] ∨ walk.untracked ≠ [] ∨
      walk.omittedUntracked ≠ [] ∨ status.rejectedChanges ≠ []
    modifiedPaths := ordered (status.changes.keys ∪ walk.raced.keys ∪ (gitlinks.map (·.path)).toFinset)
    untrackedPaths := walk.untracked.map (·.path) ++ walk.omittedUntracked
    changes := (Table.items status.changes).map fun entry => ⟨entry.1, entry.2.xy, entry.2.origPath⟩
    gitlinks := gitlinks
    files := walk.files
    untracked := walk.untracked
    rejections := status.rejections }

/-- `_scan`, from the outputs of Git. -/
def scan (hashes : Hashes) (work : String → Node) (limits : ScanLimits) (output : GitOutput) :
    Except ScanError RepositoryScan := do
  let (index, rejections) ← parseIndex output.index
  let headLinks ← parseHeadGitlinks output.headTree
  let status ← parseStatus output.status ⟨rejections, [], ∅, []⟩
  let flagged ← parseFlagged output.flags
  .ok (Reading.assemble ⟨index, status.changes, flagged, work, hashes, limits⟩ headLinks status)

/-! ## One path -/

/-- The bytes that stand at a path. -/
def content : Node → Option Bytes
  | .file bytes _ => some bytes
  | .link target => some target
  | .missing | .beyondLink | .directory | .special | .repository => none

def nodeSize (node : Node) : Nat := ((content node).map List.length).getD 0

/-- The bytes at a path can be read and are those of a blob. -/
def Unmoved (hashes : Hashes) (node : Node) (oid : Bytes) : Prop :=
  match node with
  | .file bytes true => hashes.blob bytes = oid
  | .link target => hashes.blob target = oid
  | .missing | .beyondLink | .directory | .file _ false | .special | .repository => False

section Observe

variable {hashes : Hashes} {node : Node} {fileCap budget : Nat}

theorem overCap_eq_some {size : Nat} {capped : Observed} (h : overCap size fileCap budget = some capped) :
    ∃ reason, reason ∈ [SkipReason.tooLarge, .budgetExhausted] ∧ capped = skipped reason (some size) := by
  unfold overCap at h
  split at h
  · exact absurd h (Option.some_ne_none capped).symm
  · refine ⟨_, ?_, (Option.some.inj h).symm⟩
    split <;> simp

theorem overCap_eq_none {size : Nat} (h : size ≤ fileCap) (h' : size ≤ budget) : overCap size fileCap budget = none :=
  if_pos (le_min h h')

/-- How a path can come out of a look at it. -/
inductive Sight (hashes : Hashes) (node : Node) (fileCap budget : Nat) : Observed → Prop
  | whole {bytes : Bytes} (h : content node = some bytes) (hread : node ≠ .file bytes false) :
      Sight hashes node fileCap budget (wholly hashes bytes)
  | missing (h : node = .missing) : Sight hashes node fileCap budget (skipped .missing none)
  | beyond (h : node = .beyondLink) : Sight hashes node fileCap budget (skipped .escapesRepository none)
  | unreadable (h : ∀ bytes, content node = some bytes → node = .file bytes false) (hm : node ≠ .missing) :
      Sight hashes node fileCap budget (skipped .unreadable none)
  | capped {reason : SkipReason} {seen : Observed} (h : reason ∈ [SkipReason.tooLarge, .budgetExhausted])
      (hskip : seen.skipped = some reason) (hsha : seen.sha256 = none) (hcharge : seen.consumed ≤ nodeSize node)
      (hm : node ≠ .missing) (hover : fileCap < nodeSize node ∨ budget < nodeSize node ∨ budget = 0) :
      Sight hashes node fileCap budget seen

theorem observe_sight : Sight hashes node fileCap budget (observe hashes node fileCap budget) := by
  have hover : ∀ {size : Nat} {seen : Observed}, overCap size fileCap budget = some seen → fileCap < size ∨ budget < size := by
    intro size seen h
    by_contra hnot
    rw [not_or, Nat.not_lt, Nat.not_lt] at hnot
    rw [overCap_eq_none hnot.1 hnot.2] at h
    cases h
  cases node with
  | missing => exact .missing rfl
  | beyondLink => exact .beyond rfl
  | directory | special | repository => exact .unreadable (fun _ h => nomatch h) Node.noConfusion
  | link target =>
    unfold observe
    by_cases hbudget : budget = 0
    · simp only [hbudget, if_true]
      exact .capped (by simp) rfl rfl (Nat.zero_le _) Node.noConfusion (.inr (.inr rfl))
    · simp only [hbudget, if_false]
      cases h : overCap target.length fileCap budget with
      | none => exact .whole rfl Node.noConfusion
      | some seen =>
        obtain ⟨reason, hreason, rfl⟩ := overCap_eq_some h
        exact .capped hreason rfl rfl (Nat.min_le_left ..) Node.noConfusion ((hover h).elim .inl fun h => .inr (.inl h))
  | file bytes readable =>
    unfold observe
    by_cases hbudget : budget = 0
    · simp only [hbudget, if_true]
      exact .capped (by simp) rfl rfl (Nat.zero_le _) Node.noConfusion (.inr (.inr rfl))
    · simp only [hbudget, if_false]
      cases h : overCap bytes.length fileCap budget with
      | none =>
        cases readable with
        | true => exact .whole rfl fun h => by cases h
        | false => exact .unreadable (fun b hb => by cases hb; rfl) Node.noConfusion
      | some seen =>
        obtain ⟨reason, hreason, rfl⟩ := overCap_eq_some h
        exact .capped hreason rfl rfl (Nat.zero_le _) Node.noConfusion ((hover h).elim .inl fun h => .inr (.inl h))

variable {seen : Observed}

section

variable (h : Sight hashes node fileCap budget seen)
include h

theorem Sight.skipped_missing : seen.skipped = some .missing ↔ node = .missing := by
  cases h with
  | whole hc hread => exact ⟨(fun h => nomatch h), fun h => by rw [h] at hc; cases hc⟩
  | missing h => exact ⟨fun _ => h, fun _ => rfl⟩
  | beyond h => exact ⟨(fun h => nomatch h), fun h' => by rw [h'] at h; cases h⟩
  | unreadable h hm => exact ⟨(fun h => nomatch h), fun h => absurd h hm⟩
  | capped h hskip hsha hcharge hm hover =>
    refine ⟨fun h' => ?_, fun h => absurd h hm⟩
    rw [hskip] at h'
    cases Option.some.inj h'
    simp at h

theorem Sight.sha256 {sha : String} (hsha : seen.sha256 = some sha) :
    ∃ bytes, content node = some bytes ∧ sha = hashes.sha256 bytes := by
  cases h with
  | whole hc hread => exact ⟨_, hc, (Option.some.inj hsha).symm⟩
  | missing | beyond | unreadable => cases hsha
  | capped h hskip hnone hcharge hm hover => rw [hnone] at hsha; cases hsha

theorem Sight.charge_le : seen.charge ≤ nodeSize node := by
  cases h with
  | whole hc hread =>
    unfold nodeSize
    rw [hc]
    exact Nat.le_refl _
  | missing | beyond | unreadable => exact Nat.zero_le _
  | capped h hskip hsha hcharge hm hover =>
    unfold Observed.charge
    rw [if_neg (hskip ▸ Option.some_ne_none _)]
    exact hcharge

end

end Observe

namespace Reading

variable {r : Reading} {path : String} {entry : IndexEntry} {seen : Observed} {fileCap budget : Nat} {oid : Bytes}

/-- A clean path whose bytes are those of its blob is never raced. -/
theorem race_of_unmoved (hoid : entry.oid = some oid) (hnode : Unmoved r.hashes (r.work path) oid)
    (h : Sight r.hashes (r.work path) fileCap budget seen) : r.race path entry seen = none := by
  unfold race
  split
  · cases h with
    | whole hc hread =>
      have hblob : ∀ bytes, content (r.work path) = some bytes → r.hashes.blob bytes = oid := by
        intro bytes hb
        cases hw : r.work path with
        | file b readable =>
          rw [hw] at hb hnode
          cases readable with
          | true => cases hb; exact hnode
          | false => exact hnode.elim
        | link target => rw [hw] at hb hnode; cases hb; exact hnode
        | missing | beyondLink | directory | special | repository => rw [hw] at hb; cases hb
      simp [wholly, hoid, hblob _ hc]
    | missing h | beyond h => rw [h] at hnode; exact hnode.elim
    | unreadable h hm =>
      cases hw : r.work path with
      | file b readable =>
        rw [hw] at hnode h
        have hfile := h b rfl
        cases hfile
        exact hnode.elim
      | link target => rw [hw] at h; cases h target rfl
      | missing => exact absurd hw hm
      | beyondLink | directory | special | repository => rw [hw] at hnode; exact hnode.elim
    | capped h hskip hsha hcharge hm hover =>
      rw [hskip]
      simp only [mem_cons, not_mem_nil, or_false] at h
      rcases h with rfl | rfl <;> rfl
  · rfl

/-- A clean path whose bytes are not those of its blob is raced when the limits let it be read. -/
theorem race_of_moved (hclean : r.changes.lookup path = none ∧ path ∉ r.flagged ∧ entry.conflicted = false)
    (hoid : entry.oid = some oid) (hnode : ¬ Unmoved r.hashes (r.work path) oid) (hcap : nodeSize (r.work path) ≤ fileCap)
    (hbudget : nodeSize (r.work path) ≤ budget ∧ budget ≠ 0) (h : Sight r.hashes (r.work path) fileCap budget seen) :
    (r.race path entry seen).isSome := by
  unfold race
  rw [if_pos hclean]
  cases h with
  | @whole bytes hc hread =>
    have hne : some (r.hashes.blob bytes) ≠ entry.oid := by
      intro heq
      refine hnode ?_
      rw [hoid] at heq
      cases hw : r.work path with
      | file b readable =>
        rw [hw] at hc hread
        cases hc
        cases readable with
        | true => exact Option.some.inj heq
        | false => exact absurd rfl hread
      | link target => rw [hw] at hc; cases hc; exact Option.some.inj heq
      | missing | beyondLink | directory | special | repository => rw [hw] at hc; cases hc
    show (if some (r.hashes.blob bytes) ≠ entry.oid then some (some (r.hashes.sha256 bytes)) else none).isSome
    rw [if_pos hne]
    rfl
  | missing | beyond | unreadable => rfl
  | capped h hskip hsha hcharge hm hover =>
    rcases hover with hover | hover | hover
    · exact absurd hcap (Nat.not_le.2 hover)
    · exact absurd hbudget.1 (Nat.not_le.2 hover)
    · exact absurd hover hbudget.2

/-! ## The loops -/

variable {paths : List String} {items : List (String × Bool)}

/-- What a file of the scan says of the path it is of. -/
structure FileFact (r : Reading) (file : TrackedFile) : Prop where
  missing : ∃ entry, r.index.lookup file.path = some entry ∧
    (file.skipped = some .missing ↔ entry.mode ≠ gitlinkMode ∧ r.work file.path = .missing)
  sha256 : ∀ {sha}, file.contentSha256 = some sha → ∃ bytes, content (r.work file.path) = some bytes ∧ sha = r.hashes.sha256 bytes

theorem fileFact_gitlink (hentry : r.index.lookup path = some entry) (hmode : entry.mode = gitlinkMode) :
    r.FileFact (r.trackedFile path entry ⟨none, none, none, 0, none⟩) where
  missing := ⟨entry, hentry, (fun h => nomatch h), fun h => absurd hmode h.1⟩
  sha256 h := nomatch h

theorem fileFact_seen (hentry : r.index.lookup path = some entry) (hmode : entry.mode ≠ gitlinkMode)
    (h : Sight r.hashes (r.work path) fileCap budget seen) : r.FileFact (r.trackedFile path entry seen) where
  missing := ⟨entry, hentry, h.skipped_missing.trans ⟨fun hw => ⟨hmode, hw⟩, And.right⟩⟩
  sha256 hsha := h.sha256 hsha

structure TrackedSpec (r : Reading) (paths : List String) (walk : Walk) : Prop where
  processed : walk.processed = (paths.take r.limits.maxFiles).length
  filePaths : walk.files.map (·.path) = paths.take r.limits.maxFiles
  fileFacts : ∀ file ∈ walk.files, r.FileFact file
  raced : ∀ {p}, walk.raced.lookup p ≠ none → ∃ entry fileCap budget seen, p ∈ paths ∧ r.index.lookup p = some entry ∧
    entry.mode ≠ gitlinkMode ∧ Sight r.hashes (r.work p) fileCap budget seen ∧ (r.race p entry seen).isSome
  bytesRead : walk.bytesRead ≤ (paths.map fun p => nodeSize (r.work p)).sum
  untracked : walk.untracked = [] ∧ walk.omittedUntracked = []

theorem TrackedSpec.step {walk : Walk} (h : r.TrackedSpec paths walk) (hentry : r.index.lookup path = some entry) :
    r.TrackedSpec (paths ++ [path]) (r.trackedStep walk path) := by
  have hraced : ∀ {p}, walk.raced.lookup p ≠ none → ∃ entry fileCap budget seen, p ∈ paths ++ [path] ∧
      r.index.lookup p = some entry ∧ entry.mode ≠ gitlinkMode ∧ Sight r.hashes (r.work p) fileCap budget seen ∧
      (r.race p entry seen).isSome := fun hp => by
    obtain ⟨e, cap, b, seen, hmem, rest⟩ := h.raced hp
    exact ⟨e, cap, b, seen, mem_append_left _ hmem, rest⟩
  have hbytes : (paths.map fun p => nodeSize (r.work p)).sum + nodeSize (r.work path) =
      ((paths ++ [path]).map fun p => nodeSize (r.work p)).sum := by simp
  unfold trackedStep
  rw [hentry]
  by_cases hfull : r.limits.maxFiles ≤ walk.processed
  · have hlen : r.limits.maxFiles ≤ paths.length := by
      rw [h.processed, length_take] at hfull
      omega
    have htake : (paths ++ [path]).take r.limits.maxFiles = paths.take r.limits.maxFiles := take_append_of_le_length hlen
    simp only [hfull, if_true]
    refine ⟨by rw [htake]; exact h.processed, by rw [htake]; exact h.filePaths, h.fileFacts, hraced, ?_, h.untracked⟩
    exact h.bytesRead.trans (hbytes ▸ Nat.le_add_right ..)
  · have hlen : paths.length < r.limits.maxFiles := by
      rw [h.processed, length_take] at hfull
      omega
    have htake : (paths ++ [path]).take r.limits.maxFiles = paths.take r.limits.maxFiles ++ [path] := by
      rw [take_of_length_le (by simp; omega), take_of_length_le (by omega)]
    have hprocessed : walk.processed + 1 = ((paths ++ [path]).take r.limits.maxFiles).length := by
      rw [htake, length_append, length_singleton, h.processed]
    have hfiles : ∀ file : TrackedFile, file.path = path →
        (walk.files ++ [file]).map (·.path) = (paths ++ [path]).take r.limits.maxFiles := by
      intro file hfile
      rw [htake, map_append, h.filePaths, map_singleton, hfile]
    have hfacts : ∀ file : TrackedFile, r.FileFact file → ∀ f ∈ walk.files ++ [file], r.FileFact f := by
      intro file hfile f hf
      rcases mem_append.1 hf with hf | hf
      · exact h.fileFacts f hf
      · rw [mem_singleton.1 hf]
        exact hfile
    simp only [hfull, if_false]
    by_cases hmode : entry.mode = gitlinkMode
    · simp only [hmode, if_true]
      refine ⟨hprocessed, hfiles _ rfl, hfacts _ (fileFact_gitlink hentry hmode), hraced, ?_, h.untracked⟩
      exact h.bytesRead.trans (hbytes ▸ Nat.le_add_right ..)
    · simp only [hmode, if_false]
      have hsight : Sight r.hashes (r.work path) _ _ (r.observed walk path) := observe_sight
      refine ⟨hprocessed, hfiles _ rfl, hfacts _ (fileFact_seen hentry hmode hsight), ?_, ?_, h.untracked⟩
      · intro p hp
        cases hrace : r.race path entry (r.observed walk path) with
        | none => exact hraced (by simpa only [hrace] using hp)
        | some sha =>
          by_cases hpath : p = path
          · subst hpath
            exact ⟨entry, _, _, _, mem_append_right _ (mem_singleton_self p), hentry, hmode, hsight, hrace ▸ rfl⟩
          · simp only [hrace] at hp
            rw [Finmap.lookup_insert_of_ne _ hpath] at hp
            exact hraced hp
      · exact (Nat.add_le_add h.bytesRead hsight.charge_le).trans (Nat.le_of_eq hbytes)

theorem tracked_spec (h : ∀ p ∈ paths, r.index.lookup p ≠ none) :
    r.TrackedSpec paths (paths.foldl r.trackedStep ⟨0, 0, [], ∅, [], []⟩) := by
  induction paths using List.reverseRecOn with
  | nil =>
    refine ⟨by simp, by simp, fun _ hf => absurd hf not_mem_nil, fun hp => absurd (Finmap.lookup_empty _) hp, ?_, rfl, rfl⟩
    exact Nat.le_refl _
  | append_singleton paths path ih =>
    obtain ⟨entry, hentry⟩ := Option.ne_none_iff_exists'.1 (h path (by simp))
    rw [foldl_concat]
    exact (ih fun p hp => h p (mem_append_left _ hp)).step hentry

theorem trackedStep_raced {walk : Walk} {p : String} (h : walk.raced.lookup p ≠ none) :
    (r.trackedStep walk path).raced.lookup p ≠ none := by
  unfold trackedStep
  cases hentry : r.index.lookup path with
  | none => exact h
  | some entry =>
    by_cases hfull : r.limits.maxFiles ≤ walk.processed
    · simpa only [hfull, if_true] using h
    · by_cases hmode : entry.mode = gitlinkMode
      · simpa only [hfull, if_false, hmode, if_true] using h
      · simp only [hfull, if_false, hmode]
        cases hrace : r.race path entry (r.observed walk path) with
        | none => exact h
        | some sha =>
          rw [Table.lookup_insert_eq]
          split
          · exact Option.some_ne_none sha
          · exact h

/-- Limits that let everything be read find every clean path that does not have the bytes of its blob. -/
theorem tracked_raced (h : ∀ p ∈ paths, r.index.lookup p ≠ none) (hfiles : paths.length ≤ r.limits.maxFiles)
    (hpath : path ∈ paths) (hentry : r.index.lookup path = some entry) (hmode : entry.mode ≠ gitlinkMode)
    (hclean : r.changes.lookup path = none ∧ path ∉ r.flagged ∧ entry.conflicted = false) (hoid : entry.oid = some oid)
    (hnode : ¬ Unmoved r.hashes (r.work path) oid) (hcap : nodeSize (r.work path) ≤ r.limits.maxFileBytes)
    (htotal : (paths.map fun p => nodeSize (r.work p)).sum < r.limits.maxTotalBytes) :
    (paths.foldl r.trackedStep ⟨0, 0, [], ∅, [], []⟩).raced.lookup path ≠ none := by
  induction paths using List.reverseRecOn with
  | nil => exact absurd hpath not_mem_nil
  | append_singleton paths last ih =>
    have hspec := tracked_spec (r := r) fun p hp => h p (mem_append_left _ hp)
    rw [map_append, sum_append, map_singleton, sum_singleton] at htotal
    rw [length_append, length_singleton] at hfiles
    rw [foldl_concat]
    by_cases hbefore : path ∈ paths
    · exact trackedStep_raced (ih (fun p hp => h p (mem_append_left _ hp)) (by omega) hbefore (by omega))
    · have hlast : path = last := (mem_append.1 hpath).elim (fun h => absurd h hbefore) mem_singleton.1
      subst hlast
      have hprocessed := hspec.processed
      rw [length_take] at hprocessed
      have hroom : ¬ r.limits.maxFiles ≤ (paths.foldl r.trackedStep ⟨0, 0, [], ∅, [], []⟩).processed := by omega
      have hbytes := hspec.bytesRead
      have hsight : Sight r.hashes (r.work path) _ _
          (r.observed (paths.foldl r.trackedStep ⟨0, 0, [], ∅, [], []⟩) path) := observe_sight
      have hrace := race_of_moved hclean hoid hnode hcap ⟨by omega, by omega⟩ hsight
      obtain ⟨sha, hsha⟩ := Option.isSome_iff_exists.1 hrace
      generalize paths.foldl r.trackedStep ⟨0, 0, [], ∅, [], []⟩ = walk at hroom hsha ⊢
      unfold trackedStep
      rw [hentry]
      simp only [hroom, if_false, hmode, hsha]
      rw [Finmap.lookup_insert]
      exact Option.some_ne_none sha

/-- After the untracked paths. -/
structure UntrackedSpec (r : Reading) (start : Walk) (items : List (String × Bool)) (walk : Walk) : Prop where
  processed : walk.processed = start.processed + (items.take (r.limits.maxFiles - start.processed)).length
  paths : walk.untracked.map (·.path) = (items.map Prod.fst).take (r.limits.maxFiles - start.processed)
  omitted : walk.omittedUntracked = (items.map Prod.fst).drop (r.limits.maxFiles - start.processed)
  sha256 : ∀ file ∈ walk.untracked, ∀ {sha}, file.contentSha256 = some sha →
    ∃ bytes, content (r.work file.path) = some bytes ∧ sha = r.hashes.sha256 bytes
  files : walk.files = start.files
  raced : walk.raced = start.raced

theorem UntrackedSpec.step {start walk : Walk} {item : String × Bool} (h : r.UntrackedSpec start items walk) :
    r.UntrackedSpec start (items ++ [item]) (r.untrackedStep walk item) := by
  unfold untrackedStep
  by_cases hfull : r.limits.maxFiles ≤ walk.processed
  · have hlen : r.limits.maxFiles - start.processed ≤ items.length := by
      have hp := h.processed
      rw [length_take] at hp
      omega
    simp only [hfull, if_true]
    refine ⟨?_, ?_, ?_, h.sha256, h.files, h.raced⟩
    · rw [take_append_of_le_length hlen]
      exact h.processed
    · rw [map_append, take_append_of_le_length (by simpa using hlen)]
      exact h.paths
    · rw [map_append, drop_append_of_le_length (by simpa using hlen)]
      exact congrArg (· ++ [item.1]) h.omitted
  · have hlen : items.length < r.limits.maxFiles - start.processed := by
      have hp := h.processed
      rw [length_take] at hp
      omega
    have htake : (items ++ [item]).take (r.limits.maxFiles - start.processed) = items ++ [item] :=
      take_of_length_le (by simp; omega)
    have htake' : ((items ++ [item]).map Prod.fst).take (r.limits.maxFiles - start.processed) = (items ++ [item]).map Prod.fst :=
      take_of_length_le (by simp; omega)
    have hdrop' : ((items ++ [item]).map Prod.fst).drop (r.limits.maxFiles - start.processed) = [] :=
      drop_eq_nil_of_le (by simp; omega)
    have hprocessed : walk.processed + 1 = start.processed + (items ++ [item]).length := by
      rw [h.processed, take_of_length_le (by omega), length_append, length_singleton, Nat.add_assoc]
    have hpaths : walk.untracked.map (·.path) = items.map Prod.fst := by
      rw [h.paths, take_of_length_le (by simp; omega)]
    have homitted : walk.omittedUntracked = [] := by rw [h.omitted, drop_eq_nil_of_le (by simp; omega)]
    simp only [hfull, if_false]
    split
    · refine ⟨by rw [htake]; exact hprocessed, ?_, by rw [hdrop']; exact homitted, ?_, h.files, h.raced⟩
      · rw [htake', map_append, hpaths, map_append]
        rfl
      · intro file hfile sha hsha
        rcases mem_append.1 hfile with hfile | hfile
        · exact h.sha256 file hfile hsha
        · rw [mem_singleton.1 hfile] at hsha
          cases hsha
    · have hsight : Sight r.hashes (r.work item.1) _ _ (r.observed walk item.1) := observe_sight
      refine ⟨by rw [htake]; exact hprocessed, ?_, by rw [hdrop']; exact homitted, ?_, h.files, h.raced⟩
      · rw [htake', map_append, hpaths, map_append]
        rfl
      · intro file hfile sha hsha
        rcases mem_append.1 hfile with hfile | hfile
        · exact h.sha256 file hfile hsha
        · rw [mem_singleton.1 hfile] at hsha ⊢
          exact hsight.sha256 hsha

theorem untracked_spec {start : Walk} (hstart : start.untracked = [] ∧ start.omittedUntracked = []) :
    r.UntrackedSpec start items (items.foldl r.untrackedStep start) := by
  induction items using List.reverseRecOn with
  | nil =>
    refine ⟨by simp, by simp [hstart.1], by simp [hstart.2], ?_, rfl, rfl⟩
    intro file hfile
    rw [foldl_nil, hstart.1] at hfile
    exact absurd hfile not_mem_nil
  | append_singleton items item ih =>
    rw [foldl_concat]
    exact ih.step

end Reading

end Scanner
