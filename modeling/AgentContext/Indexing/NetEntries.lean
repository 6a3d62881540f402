import AgentContext.Indexing.NetState

/-!
# The dirty entries and the net state

    Astray           the kinds of path that a scan lists otherwise than its net state says
    lists_net        a path that is of none of these kinds is listed as it should be, whatever the limits
    Astray.misled    a path that is of one of them is not, under some limits
-/

namespace Snapshots

open Scanner hiding Change
open Table (Dict ordered)
open WorkingTree (Node Checkout StatusOf Line Recorded Staged Change Letter StagedLetter Conflict)

/-! ## The kinds of path that go wrong -/

/-- The letters of a conflict that agree with a path that stands in the working tree. -/
def Agrees (c : Checkout Bytes Oid) (raw : Bytes) (k : Conflict) : Prop :=
  match k with
  | .addedByUs | .bothAdded => c.head raw = none
  | .addedByThem | .bothModified => ∃ record, c.head raw = some record ∧ c.same raw record = false
  | .bothDeleted | .deletedByThem | .deletedByUs => False

/-- Nothing stands at the path, and it is the first of the index, so that every scan finds it missing. -/
def FoundMissing (c : Checkout Bytes Oid) (raw : Bytes) (path : String) : Prop := c.work raw = .missing ∧ First c path

inductive Astray (c : Checkout Bytes Oid) (hashes : Hashes) (raw : Bytes) (path : String) : Prop
  /-- Added and deleted again: the index has it, HEAD and the working tree do not. -/
  | vanished (ho : c.Open raw) (hi : (c.index raw).isSome) (hh : c.head raw = none) (hp : c.present raw = false)
  /-- Intended to be added. -/
  | intended (ho : c.Open raw) {mode : WorkingTree.FileMode} (hi : c.index raw = some (.intent mode)) (hp : c.present raw = true)
  /-- Changed in the index and changed back in the working tree. -/
  | reverted (ho : c.Open raw) {r r' : Recorded Oid} {flagged : Bool} (hi : c.index raw = some (.plain r flagged))
      (hh : c.head raw = some r') (hne : r' ≠ r) (hp : c.present raw = true) (hsame : c.same raw r' = true)
  /-- Deleted in the index and present again, but ignored. -/
  | ignored (ho : c.Open raw) (hi : c.index raw = none) {r : Recorded Oid} (hh : c.head raw = some r)
      (hp : c.present raw = true) (hg : c.ignored raw = true)
  /-- The index is told to take it as unchanged, and it is not. -/
  | overlooked (ho : c.Open raw) {r : Recorded Oid} (hi : c.index raw = some (.plain r true)) (hh : c.head raw = some r)
      (hp : c.present raw = false ∨ c.same raw r = false)
  /-- Changed in an index that is told to take it as unchanged, and not found missing though it is. -/
  | unfound (ho : c.Open raw) {r r' : Recorded Oid} (hi : c.index raw = some (.plain r true)) (hh : c.head raw = some r')
      (hne : r' ≠ r) (hp : c.present raw = false) (hf : ¬ FoundMissing c raw path)
  /-- The index keeps it as it is and it counts as the same, but its bytes are not those of the blob. -/
  | converted (ho : c.Open raw) {mode : WorkingTree.FileMode} {oid : Oid}
      (hi : c.index raw = some (.plain (.blob mode oid) false)) (hh : c.head raw = some (.blob mode oid))
      (hp : c.present raw = true) (hsame : c.same raw (.blob mode oid) = true) (hm : ¬ Unmoved hashes (c.work raw) oid.1)
  /-- Unmerged, and the letters of the conflict do not say what stands there. -/
  | conflict (ho : c.Open raw) {k : Conflict} {version : Nat → Recorded Oid} (hi : c.index raw = some (.unmerged k version))
      (hp : c.present raw = true) (hk : ¬ Agrees c raw k)
  /-- Unmerged, gone from the working tree, and neither the letters nor the scan says so. -/
  | conflictUnfound (ho : c.Open raw) {k : Conflict} {version : Nat → Recorded Oid} {r : Recorded Oid}
      (hi : c.index raw = some (.unmerged k version)) (hh : c.head raw = some r) (hp : c.present raw = false)
      (hk : k.code.1 ≠ .deleted ∧ k.code.2 ≠ .deleted)
      (hf : ¬ (FoundMissing c raw path ∧ recordMode (version (lastStage k)) ≠ gitlinkMode))
  /-- A submodule of HEAD that the index drops, with something untracked in its place. -/
  | replaced (hne : c.headPointer raw ≠ c.indexPointer raw) (hu : c.Untracked raw)

/-- A submodule of HEAD at a path that is not taken, dropped by the index: neither listed nor rejected. -/
def Lost (c : Checkout Bytes Oid) (raw : Bytes) : Prop :=
  (c.headPointer raw).isSome ∧ c.index raw = none ∧ ¬ c.Untracked raw

section Lists

variable {c : Checkout Bytes Oid} {l : Listing} {o : ParsedOutput c l} {sdk : Sdk} {hashes : Hashes} {limits : ScanLimits}
  {raw : Bytes} {path : String}
variable {x y : Letter} {r : Recorded Oid} {flagged : Bool}
variable {version : Nat → Recorded Oid} {mode : WorkingTree.FileMode}

def lists (sdk : Sdk) (hashes : Hashes) (c : Checkout Bytes Oid) (scan : RepositoryScan) (path : String) : Option Change :=
  (verdict sdk hashes (workOf c) scan path).map Prod.fst

/-! ## The listing of one path -/

theorem changedVerdict_gitlink (hraw : safePath raw = some path) (hne : c.headPointer raw ≠ c.indexPointer raw) :
    changedVerdict sdk hashes (workOf c) (tablesOf (o.scan hashes limits)) path =
      some (.gitlink, some (sdk.gitlinkDigest ((c.headPointer raw).map (·.1)) ((c.indexPointer raw).map (·.1)))) := by
  unfold changedVerdict
  rw [lookup_gitlinks hraw, if_pos hne]

theorem changedVerdict_plain (hraw : safePath raw = some path) (heq : c.headPointer raw = c.indexPointer raw) :
    changedVerdict sdk hashes (workOf c) (tablesOf (o.scan hashes limits)) path =
      if (tablesOf (o.scan hashes limits)).Deleted path then none
      else some ((tablesOf (o.scan hashes limits)).stateOf path,
        digestOf sdk hashes (workOf c) path (((tablesOf (o.scan hashes limits)).tracked.lookup path).bind (·.contentSha256))) := by
  unfold changedVerdict
  rw [lookup_gitlinks hraw, if_neg (not_not.2 heq)]

theorem deleted_byte (x y : Letter) : 68 ∈ [letterByte x, letterByte y] ↔ x = .deleted ∨ y = .deleted := by
  cases x <;> cases y <;> decide

theorem added_byte (x y : Letter) : [letterByte x, letterByte y].head? ∈ [some 65, some 82, some 67] ↔ x = .added := by
  rw [List.head?_cons]
  cases x <;> decide

theorem not_found_of_present (o : ParsedOutput c l) (hashes : Hashes) (limits : ScanLimits) (hraw : safePath raw = some path) (hp : c.present raw = true) :
    ¬ ((tablesOf (o.scan hashes limits)).tracked.lookup path).any (·.skipped = some .missing) := fun hfound => by
  obtain ⟨hwork, -⟩ := missing_of_found hraw hfound
  have habsent : c.present raw = false := congrArg Node.present hwork
  rw [hp] at habsent
  cases habsent

theorem code_unmerged {k : Conflict} (hi : c.index raw = some (.unmerged k version)) :
    c.Code raw x y ↔ (x, y) = k.code := by
  unfold Checkout.Code
  rw [hi]

theorem code_plain (hi : c.index raw = some (.plain r flagged)) :
    c.Code raw x y ↔ StagedLetter (c.head raw) (some r) x ∧ if flagged then y = .unchanged else c.WorkLetter raw r y := by
  unfold Checkout.Code
  rw [hi]
  cases flagged <;> simp

theorem code_intent (hi : c.index raw = some (.intent mode)) :
    c.Code raw x y ↔ StagedLetter (c.head raw) none x ∧ y = if c.present raw then .added else .deleted := by
  unfold Checkout.Code
  rw [hi]

theorem code_none (hi : c.index raw = none) : c.Code raw x y ↔ StagedLetter (c.head raw) none x ∧ y = .unchanged := by
  unfold Checkout.Code
  rw [hi]

theorem not_untracked_of_index {s : Staged Oid} (hi : c.index raw = some s) : ¬ c.Untracked raw := fun hu => by
  have hnone := hu.1
  rw [hi] at hnone
  cases hnone

theorem not_untracked_of_absent (hp : c.present raw = false) : ¬ c.Untracked raw := fun hu => by
  have hpresent := hu.2.1
  rw [hp] at hpresent
  cases hpresent

theorem exists_code {x : Letter} (hi : c.index raw = some (.plain r flagged)) (hx : StagedLetter (c.head raw) (some r) x) :
    ∃ y, c.Code raw x y := by
  cases flagged with
  | true => exact ⟨.unchanged, (code_plain hi).2 ⟨hx, rfl⟩⟩
  | false =>
    cases hp : c.present raw with
    | false => exact ⟨.deleted, (code_plain hi).2 ⟨hx, .deleted hp⟩⟩
    | true =>
      cases hs : c.same raw r with
      | true => exact ⟨.unchanged, (code_plain hi).2 ⟨hx, .kept hp hs⟩⟩
      | false => exact ⟨.modified, (code_plain hi).2 ⟨hx, .changed hp hs (.inl rfl)⟩⟩

theorem unchanged_of_kept {x : Letter} (hx : StagedLetter (c.head raw) (some r) x) (hh : c.head raw = some r) :
    x = .unchanged := by
  rw [hh] at hx
  cases hx with
  | kept => rfl
  | changed hdiff _ => exact absurd rfl hdiff

/-- A path with nothing of a submodule is shown with the letters it has, or has none. -/
theorem shown_or_quiet (h : Lists c l) (ho : c.Open raw) :
    (∃ x y, c.Code raw x y ∧ (x, y) ≠ (.unchanged, .unchanged) ∧ l.Shows raw [letterByte x, letterByte y]) ∨
      (∀ xy, ¬ l.Shows raw xy) ∧ ∀ x y, c.Code raw x y → (x, y) = (.unchanged, .unchanged) := by
  by_cases hshown : ∃ xy, l.Shows raw xy
  · obtain ⟨-, x, y, hline, rfl⟩ := hshown
    obtain ⟨hcode, hne⟩ := h.status.code hline ho
    exact .inl ⟨x, y, hcode, hne, x, y, hline, rfl⟩
  · refine .inr ⟨fun xy hxy => hshown ⟨xy, hxy⟩, fun x y hcode => ?_⟩
    by_contra hne
    obtain ⟨x', y', hline⟩ := h.status.listed ho hcode hne
    exact hshown ⟨_, x', y', hline, rfl⟩

theorem quiet_of_kept (h : Lists c l) (ho : c.Open raw) (hi : c.index raw = some (.plain r false)) (hh : c.head raw = some r)
    (hp : c.present raw = true) (hs : c.same raw r = true) : ∀ xy, ¬ l.Shows raw xy := by
  rintro xy ⟨x, y, hline, -⟩
  obtain ⟨hcode, hnot⟩ := h.status.code hline ho
  obtain ⟨hx, hy⟩ := (code_plain hi).1 hcode
  rw [if_neg Bool.noConfusion] at hy
  rw [unchanged_of_kept hx hh] at hnot
  rcases hy with hp' | - | ⟨-, hs', -⟩
  · rw [hp] at hp'; cases hp'
  · exact hnot rfl
  · rw [hs] at hs'; cases hs'

def oneFile : ScanLimits := ⟨1, 1, 1, by decide⟩

theorem foundMissing_of_found (hraw : safePath raw = some path)
    (hfound : ((tablesOf (o.scan hashes oneFile)).tracked.lookup path).any (·.skipped = some .missing)) :
    FoundMissing c raw path := by
  refine ⟨(missing_of_found hraw hfound).1, ?_⟩
  by_contra hfirst
  rw [unfound_of_not_first hfirst rfl] at hfound
  cases hfound

section

variable (h : Lists c l) (hraw : safePath raw = some path)
include h hraw

theorem gone_iff : Gone sdk hashes (workOf c) (o.scan hashes limits) path ↔
      path ∈ changedPaths (o.scan hashes limits) ∧ c.headPointer raw = c.indexPointer raw ∧
        (tablesOf (o.scan hashes limits)).Deleted path := by
  unfold Gone
  rw [renamedFrom_eq h]
  by_cases heq : c.headPointer raw = c.indexPointer raw
  · rw [changedVerdict_plain hraw heq]
    by_cases hd : (tablesOf (o.scan hashes limits)).Deleted path <;> simp [heq, hd]
  · rw [changedVerdict_gitlink hraw heq]
    simp [heq]

theorem lists_untracked (hu : c.Untracked raw) : lists sdk hashes c (o.scan hashes limits) path =
      some (if Gone sdk hashes (workOf c) (o.scan hashes limits) path then .modified else .untracked) := by
  unfold lists verdict
  rw [if_pos ((mem_untrackedPaths h).2 ⟨raw, hraw, hu⟩)]
  rfl

section

variable (hu : ¬ c.Untracked raw)
include hu

theorem not_mem_untrackedPaths :
    path ∉ (o.scan hashes limits).untrackedPaths := fun hmem => by
  obtain ⟨raw', hraw', hu'⟩ := (mem_untrackedPaths h).1 hmem
  exact hu (safePath_inj hraw' hraw ▸ hu')

theorem lists_gitlink
    (hne : c.headPointer raw ≠ c.indexPointer raw) : lists sdk hashes c (o.scan hashes limits) path = some .gitlink := by
  unfold lists verdict
  rw [if_neg (not_mem_untrackedPaths h hraw hu), if_pos (changed_of_pointers hraw hne), changedVerdict_gitlink hraw hne]
  rfl

theorem lists_changed
    (heq : c.headPointer raw = c.indexPointer raw) (hc : path ∈ changedPaths (o.scan hashes limits)) :
    lists sdk hashes c (o.scan hashes limits) path =
      some (if (tablesOf (o.scan hashes limits)).Deleted path then .deleted else (tablesOf (o.scan hashes limits)).stateOf path) := by
  unfold lists verdict
  rw [if_neg (not_mem_untrackedPaths h hraw hu), if_pos hc, changedVerdict_plain hraw heq]
  by_cases hd : (tablesOf (o.scan hashes limits)).Deleted path <;> simp [hd]

theorem lists_unchanged
    (hc : path ∉ changedPaths (o.scan hashes limits)) : lists sdk hashes c (o.scan hashes limits) path = none := by
  unfold lists verdict
  rw [if_neg (not_mem_untrackedPaths h hraw hu), if_neg hc, renamedFrom_eq h, if_neg (Finset.notMem_empty path)]
  rfl

theorem lists_shown (ho : c.Open raw) (hshows : l.Shows raw [letterByte x, letterByte y]) :
    lists sdk hashes c (o.scan hashes limits) path =
      some (if (x = .deleted ∨ y = .deleted) ∨
          ((tablesOf (o.scan hashes limits)).tracked.lookup path).any (·.skipped = some .missing) then .deleted
        else if x = .added then .added else .modified) := by
  have hxy : (tablesOf (o.scan hashes limits)).xy path = [letterByte x, letterByte y] := xy_of_shows h hraw hshows
  have hdeleted : (tablesOf (o.scan hashes limits)).Deleted path ↔ (x = .deleted ∨ y = .deleted) ∨
      ((tablesOf (o.scan hashes limits)).tracked.lookup path).any (·.skipped = some .missing) := by
    unfold Tables.Deleted
    rw [hxy, deleted_byte]
  have hstate : (tablesOf (o.scan hashes limits)).stateOf path = if x = .added then .added else .modified := by
    unfold Tables.stateOf
    rw [hxy]
    exact if_congr (added_byte x y) rfl rfl
  rw [lists_changed h hraw hu (ho.1.trans ho.2.symm) (changed_of_shows h hraw hshows), hstate]
  exact congrArg some (if_congr hdeleted rfl rfl)

end

section

variable (ho : c.Open raw)
include ho

/-- A path that the status leaves out and that is no suspect is not looked into. -/
theorem not_changed (hquiet : ∀ xy, ¬ l.Shows raw xy)
    (hs : ¬ Suspect c l hashes raw) : path ∉ changedPaths (o.scan hashes limits) := fun hc => by
  rcases changed_cases h hraw hc with ⟨xy, hxy⟩ | hne | hsuspect
  · exact hquiet xy hxy
  · exact hne (ho.1.trans ho.2.symm)
  · exact hs hsuspect

/-! ## What is listed, case by case -/

theorem lists_unstaged (hi : c.index raw = none) : lists sdk hashes c (o.scan hashes limits) path =
      if c.Untracked raw then some (if (c.head raw).isSome then .modified else .untracked)
      else if (c.head raw).isSome then some .deleted else none := by
  have hpointers : c.headPointer raw = c.indexPointer raw := ho.1.trans ho.2.symm
  have hnosuspect : ¬ Suspect c l hashes raw := fun hs => by
    rcases hs.staged with ⟨mode, oid, hstaged, -⟩ | ⟨mode, hstaged⟩ <;> rw [hi] at hstaged <;> cases hstaged
  rcases shown_or_quiet h ho with ⟨x, y, hcode, hne, hshows⟩ | ⟨hquiet, hcode⟩
  · obtain ⟨hx, rfl⟩ := (code_none hi).1 hcode
    cases hh : c.head raw with
    | none =>
      rw [hh] at hx
      cases hx
      exact absurd rfl hne
    | some r =>
      rw [hh] at hx
      cases hx
      have hdeleted : (tablesOf (o.scan hashes limits)).Deleted path := by
        left
        rw [xy_of_shows h hraw hshows]
        exact (deleted_byte _ _).2 (.inl rfl)
      by_cases hu : c.Untracked raw
      · rw [lists_untracked h hraw hu, if_pos ((gone_iff h hraw).2 ⟨changed_of_shows h hraw hshows, hpointers, hdeleted⟩), if_pos hu]
        rfl
      · rw [lists_shown h hraw hu ho hshows, if_neg hu]
        simp
  · have hnone : c.head raw = none := by
      cases hh : c.head raw with
      | none => rfl
      | some r =>
        have hx : c.Code raw .deleted .unchanged := (code_none hi).2 ⟨hh ▸ .deleted, rfl⟩
        exact absurd (hcode _ _ hx) (by simp)
    have hnot : path ∉ changedPaths (o.scan hashes limits) := not_changed h hraw ho hquiet hnosuspect
    rw [hnone]
    by_cases hu : c.Untracked raw
    · rw [lists_untracked h hraw hu, if_neg fun hg => hnot ((gone_iff h hraw).1 hg).1, if_pos hu]
      rfl
    · rw [lists_unchanged h hraw hu hnot, if_neg hu]
      rfl

theorem lists_intent (hi : c.index raw = some (.intent mode)) :
    lists sdk hashes c (o.scan hashes limits) path =
      some (if (c.head raw).isSome ∨ c.present raw = false then .deleted else .modified) := by
  have hu : ¬ c.Untracked raw := not_untracked_of_index hi
  have hx : ∃ x, StagedLetter (c.head raw) none x ∧ ((c.head raw).isSome ↔ x = .deleted) ∧ x ≠ .added := by
    cases hh : c.head raw with
    | none => exact ⟨.unchanged, .none, by simp, Letter.noConfusion⟩
    | some r => exact ⟨.deleted, .deleted, by simp, Letter.noConfusion⟩
  obtain ⟨x, hx, hiff, hadded⟩ := hx
  rcases shown_or_quiet h ho with ⟨x', y, hcode, -, hshows⟩ | ⟨-, hcode⟩
  · obtain ⟨hx', rfl⟩ := (code_intent hi).1 hcode
    have hsame : x' = x := by
      cases hh : c.head raw with
      | none | some => rw [hh] at hx hx'; cases hx; cases hx'; rfl
    subst hsame
    rw [lists_shown h hraw hu ho hshows, if_neg hadded]
    cases hp : c.present raw with
    | true => simp [hiff, not_found_of_present o hashes limits hraw hp]
    | false => simp
  · have hy : c.Code raw x (if c.present raw then .added else .deleted) := (code_intent hi).2 ⟨hx, rfl⟩
    have heq := (Prod.mk.inj (hcode _ _ hy)).2
    cases hp : c.present raw <;> rw [hp] at heq <;> cases heq

theorem lists_unmerged {k : Conflict} (hi : c.index raw = some (.unmerged k version)) :
    lists sdk hashes c (o.scan hashes limits) path =
      some (if (k.code.1 = .deleted ∨ k.code.2 = .deleted) ∨
          ((tablesOf (o.scan hashes limits)).tracked.lookup path).any (·.skipped = some .missing) then .deleted
        else if k.code.1 = .added then .added else .modified) := by
  rcases shown_or_quiet h ho with ⟨x, y, hcode, -, hshows⟩ | ⟨-, hcode⟩
  · have hk := (code_unmerged hi).1 hcode
    rw [lists_shown h hraw (not_untracked_of_index hi) ho hshows, ← hk]
  · have hk : c.Code raw k.code.1 k.code.2 := (code_unmerged hi).2 rfl
    have hnot : (k.code.1, k.code.2) ≠ (.unchanged, .unchanged) := by cases k <;> simp [Conflict.code]
    exact absurd (hcode _ _ hk) hnot

theorem lists_added (hi : c.index raw = some (.plain r flagged)) (hh : c.head raw = none) :
    ∃ state, lists sdk hashes c (o.scan hashes limits) path = some state ∧ (c.present raw = true → state = .added) := by
  rcases shown_or_quiet h ho with ⟨x, y, hcode, -, hshows⟩ | ⟨-, hcode⟩
  · obtain ⟨hx, hy⟩ := (code_plain hi).1 hcode
    rw [hh] at hx
    cases hx
    refine ⟨_, lists_shown h hraw (not_untracked_of_index hi) ho hshows, fun hp => ?_⟩
    have hy' : y ≠ .deleted := by
      cases flagged with
      | true => rw [hy]; exact Letter.noConfusion
      | false =>
        rcases hy with hp' | - | ⟨-, -, hd⟩
        · rw [hp] at hp'; cases hp'
        · exact Letter.noConfusion
        · rcases hd with rfl | rfl <;> exact Letter.noConfusion
    rw [if_neg, if_pos rfl]
    rintro ((hd | hd) | hfound)
    · cases hd
    · exact hy' hd
    · exact not_found_of_present o hashes limits hraw hp hfound
  · obtain ⟨y, hy⟩ := exists_code hi (hh ▸ StagedLetter.added : StagedLetter (c.head raw) (some r) .added)
    exact absurd (hcode _ _ hy) (by simp)

theorem lists_staged {r r' : Recorded Oid}
    (hi : c.index raw = some (.plain r flagged)) (hh : c.head raw = some r') (hne : r' ≠ r) :
    lists sdk hashes c (o.scan hashes limits) path =
      some (if (c.present raw = false ∧ flagged = false) ∨
        ((tablesOf (o.scan hashes limits)).tracked.lookup path).any (·.skipped = some .missing) then .deleted else .modified) := by
  have hstaged : StagedLetter (c.head raw) (some r) .modified := hh ▸ .changed hne (.inl rfl)
  rcases shown_or_quiet h ho with ⟨x, y, hcode, -, hshows⟩ | ⟨-, hcode⟩
  · obtain ⟨hx, hy⟩ := (code_plain hi).1 hcode
    have hx' : x ≠ .deleted ∧ x ≠ .added := by
      rw [hh] at hx
      cases hx with
      | kept => exact absurd rfl hne
      | changed _ hd => rcases hd with rfl | rfl <;> exact ⟨Letter.noConfusion, Letter.noConfusion⟩
    have hy' : y = .deleted ↔ c.present raw = false ∧ flagged = false := by
      cases flagged with
      | true => rw [if_pos rfl] at hy; simp [hy]
      | false =>
        rw [if_neg Bool.noConfusion] at hy
        rcases hy with hp | ⟨hp, -⟩ | ⟨hp, -, hd⟩
        · simp [hp]
        · simp [hp]
        · rcases hd with rfl | rfl <;> simp [hp]
    rw [lists_shown h hraw (not_untracked_of_index hi) ho hshows, if_neg hx'.2]
    simp only [hx'.1, false_or, hy']
  · obtain ⟨y, hy⟩ := exists_code hi hstaged
    exact absurd (hcode _ _ hy) (by simp)

/-- A path that the index keeps as HEAD has it, and is told to take as unchanged. -/
theorem lists_flagged (hi : c.index raw = some (.plain r true)) (hh : c.head raw = some r) :
    lists sdk hashes c (o.scan hashes limits) path = none := by
  have hnosuspect : ¬ Suspect c l hashes raw := fun hs => by
    rcases hs.staged with ⟨mode, oid, hstaged, -⟩ | ⟨mode, hstaged⟩ <;> rw [hi] at hstaged <;> cases hstaged
  rcases shown_or_quiet h ho with ⟨x, y, hcode, hne, -⟩ | ⟨hquiet, -⟩
  · obtain ⟨hx, hy⟩ := (code_plain hi).1 hcode
    rw [if_pos rfl] at hy
    exact absurd (by rw [hy, unchanged_of_kept hx hh]) hne
  · exact lists_unchanged h hraw (not_untracked_of_index hi) (not_changed h hraw ho hquiet hnosuspect)

theorem lists_kept (hi : c.index raw = some (.plain r false)) (hh : c.head raw = some r) :
    lists sdk hashes c (o.scan hashes limits) path =
      if c.present raw = false then some .deleted
      else if c.same raw r = false then some .modified
      else if path ∈ changedPaths (o.scan hashes limits) then some .modified else none := by
  have hu : ¬ c.Untracked raw := not_untracked_of_index hi
  have hkept : StagedLetter (c.head raw) (some r) .unchanged := hh ▸ .kept
  rcases shown_or_quiet h ho with ⟨x, y, hcode, hne, hshows⟩ | ⟨hquiet, hcode⟩
  · obtain ⟨hx, hy⟩ := (code_plain hi).1 hcode
    rw [if_neg Bool.noConfusion] at hy
    obtain rfl := unchanged_of_kept hx hh
    rw [lists_shown h hraw hu ho hshows]
    rcases hy with hp | - | ⟨hp, hs, hd⟩
    · simp [hp]
    · exact absurd rfl hne
    · have hnotfound := not_found_of_present o hashes limits hraw hp
      rcases hd with rfl | rfl <;> simp [hp, hs, hnotfound]
  · have hpresent : c.present raw = true := by
      cases hp : c.present raw with
      | true => rfl
      | false => exact absurd (hcode _ _ ((code_plain hi).2 ⟨hkept, .deleted hp⟩)) (by simp)
    have hsame : c.same raw r = true := by
      cases hs : c.same raw r with
      | true => rfl
      | false => exact absurd (hcode _ _ ((code_plain hi).2 ⟨hkept, .changed hpresent hs (.inl rfl)⟩)) (by simp)
    have hxy : (tablesOf (o.scan hashes limits)).xy path = [] := xy_of_not_shows h hraw hquiet
    have hnotdeleted : ¬ (tablesOf (o.scan hashes limits)).Deleted path := by
      unfold Tables.Deleted
      rw [hxy]
      exact fun hd => hd.elim (fun hd => absurd hd List.not_mem_nil) (not_found_of_present o hashes limits hraw hpresent)
    have hstate : (tablesOf (o.scan hashes limits)).stateOf path = .modified := by
      unfold Tables.stateOf
      rw [hxy]
      rfl
    rw [hpresent, hsame]
    by_cases hc : path ∈ changedPaths (o.scan hashes limits)
    · rw [lists_changed h hraw hu (ho.1.trans ho.2.symm) hc, if_neg hnotdeleted, hstate]
      simp [hc]
    · rw [lists_unchanged h hraw hu hc]
      simp [hc]

end

theorem lists_submodule (heq : c.headPointer raw = c.indexPointer raw)
    (hlink : (c.headPointer raw).isSome) : lists sdk hashes c (o.scan hashes limits) path = none := by
  obtain ⟨oid, hoid⟩ := Option.isSome_iff_exists.1 hlink
  have hindex : ∃ s, c.index raw = some s ∧ s.pointer = some oid := by
    have hp : (c.index raw).bind Staged.pointer = some oid := heq.symm.trans hoid
    exact Option.bind_eq_some_iff.1 hp
  obtain ⟨s, hs, hpointer⟩ := hindex
  refine lists_unchanged h hraw (not_untracked_of_index hs) fun hc => ?_
  rcases changed_cases h hraw hc with ⟨xy, x, y, hline, -⟩ | hne | hsuspect
  · exact h.status.shown hline ⟨hlink, .inl heq.symm⟩
  · exact hne heq
  · rcases hsuspect.staged with ⟨mode, oid', hstaged, -⟩ | ⟨mode, hstaged⟩ <;> rw [hs] at hstaged <;> cases hstaged <;> cases hpointer

/-! ## The listing is the net state -/

/-- A path that is of no awkward kind is listed as its net state says. -/
theorem lists_net (hstray : ¬ Astray c hashes raw path) :
    lists sdk hashes c (o.scan hashes limits) path = c.net raw := by
  by_cases hne : c.headPointer raw ≠ c.indexPointer raw
  · rw [lists_gitlink h hraw (fun hu => hstray (.replaced hne hu)) hne, WorkingTree.net_of_pointers hne]
  rw [not_not] at hne
  by_cases hlink : (c.headPointer raw).isSome
  · rw [lists_submodule h hraw hne hlink, WorkingTree.net_of_kept hne hlink]
  have hhead : c.headPointer raw = none := by simpa using hlink
  have ho : c.Open raw := ⟨hhead, hne ▸ hhead⟩
  cases hi : c.index raw with
  | none =>
    rw [lists_unstaged h hraw ho hi]
    cases hh : c.head raw with
    | none =>
      cases hp : c.present raw with
      | false => rw [WorkingTree.net_vanished ho hh hp, if_neg (not_untracked_of_absent hp)]; rfl
      | true =>
        rw [WorkingTree.net_new ho hh hp]
        cases hg : c.ignored raw <;> simp [Checkout.Untracked, hi, hp, hg]
    | some r =>
      cases hp : c.present raw with
      | false => rw [WorkingTree.net_deleted ho hh hp, if_neg (not_untracked_of_absent hp)]; rfl
      | true =>
        have hu : c.Untracked raw := by
          refine ⟨hi, hp, ?_⟩
          cases hg : c.ignored raw with
          | false => rfl
          | true => exact absurd (.ignored ho hi hh hp hg) hstray
        rw [WorkingTree.net_present ho hh hp, if_pos hu]
        simp [Checkout.dropped, hi]
  | some s =>
    have hsome : (c.index raw).isSome := hi ▸ rfl
    cases s with
    | intent mode =>
      cases hp : c.present raw with
      | true => exact absurd (.intended ho hi hp) hstray
      | false =>
        rw [lists_intent h hraw ho hi]
        cases hh : c.head raw with
        | none => exact absurd (.vanished ho hsome hh hp) hstray
        | some r => rw [WorkingTree.net_deleted ho hh hp]; simp [hp]
    | plain r flagged =>
      cases hh : c.head raw with
      | none =>
        cases hp : c.present raw with
        | false => exact absurd (.vanished ho hsome hh hp) hstray
        | true =>
          obtain ⟨state, hstate, hadded⟩ : ∃ state, lists sdk hashes c (o.scan hashes limits) path = some state ∧
              (c.present raw = true → state = .added) := lists_added h hraw ho hi hh
          rw [hstate, hadded hp, WorkingTree.net_new ho hh hp, if_pos hsome]
      | some r' =>
        by_cases hrr : r' = r
        · subst hrr
          cases flagged with
          | true =>
            have hgood : c.present raw = true ∧ c.same raw r' = true := by
              by_contra hnot
              rw [not_and_or, Bool.not_eq_true, Bool.not_eq_true] at hnot
              exact hstray (.overlooked ho hi hh hnot)
            rw [lists_flagged h hraw ho hi hh, WorkingTree.net_present ho hh hgood.1]
            simp [Checkout.dropped, hi, hgood.2]
          | false =>
            rw [lists_kept h hraw ho hi hh]
            cases hp : c.present raw with
            | false => rw [WorkingTree.net_deleted ho hh hp]; rfl
            | true =>
              rw [WorkingTree.net_present ho hh hp]
              cases hs : c.same raw r' with
              | false => simp
              | true =>
                have hc : path ∉ changedPaths (o.scan hashes limits) := by
                  intro hc
                  obtain ⟨mode, oid, rfl⟩ := ho.head hh
                  rcases changed_cases h hraw hc with ⟨xy, hxy⟩ | hne' | hsuspect
                  · exact quiet_of_kept h ho hi hh hp hs xy hxy
                  · exact hne' hne
                  · rcases hsuspect.staged with ⟨mode', oid', hstaged, hmoved⟩ | ⟨mode', hstaged⟩
                    · rw [hi] at hstaged
                      cases hstaged
                      exact hstray (.converted ho hi hh hp hs hmoved)
                    · rw [hi] at hstaged
                      cases hstaged
                simp [Checkout.dropped, hi, hc]
        · rw [lists_staged h hraw ho hi hh hrr]
          cases hp : c.present raw with
          | true =>
            have hsame : c.same raw r' = false := by
              cases hs : c.same raw r' with
              | false => rfl
              | true => exact absurd (.reverted ho hi hh hrr hp hs) hstray
            rw [WorkingTree.net_present ho hh hp]
            simp [hsame, not_found_of_present o hashes limits hraw hp]
          | false =>
            rw [WorkingTree.net_deleted ho hh hp]
            cases flagged with
            | false => simp
            | true =>
              have hfound : FoundMissing c raw path := by
                by_contra hf
                exact hstray (.unfound ho hi hh hrr hp hf)
              obtain ⟨mode, oid, rfl⟩ : ∃ mode oid, r = .blob mode oid := by
                cases r with
                | blob mode oid => exact ⟨mode, oid, rfl⟩
                | link oid =>
                  have hpointer := ho.2
                  unfold Checkout.indexPointer at hpointer
                  rw [hi] at hpointer
                  cases hpointer
              have hmode : fileMode mode ≠ gitlinkMode := by cases mode <;> decide
              simp [found_of_first (o := o) (l := l) hraw hi hmode hfound.1 hfound.2]
    | unmerged k version =>
      rw [lists_unmerged h hraw ho hi]
      cases hp : c.present raw with
      | true =>
        have hagree : Agrees c raw k := by
          by_contra hk
          exact hstray (.conflict ho hi hp hk)
        have hnot := not_found_of_present o hashes limits hraw hp
        cases k with
        | bothDeleted | deletedByThem | deletedByUs => exact hagree.elim
        | addedByUs | bothAdded => rw [WorkingTree.net_new ho hagree hp]; simp [Conflict.code, hnot, hi]
        | addedByThem | bothModified =>
          obtain ⟨r, hh, hs⟩ := hagree
          rw [WorkingTree.net_present ho hh hp]
          simp [Conflict.code, hnot, hs]
      | false =>
        cases hh : c.head raw with
        | none => exact absurd (.vanished ho hsome hh hp) hstray
        | some r =>
          rw [WorkingTree.net_deleted ho hh hp]
          by_cases hk : k.code.1 = .deleted ∨ k.code.2 = .deleted
          · simp [hk]
          · have hfound : FoundMissing c raw path ∧ recordMode (version (lastStage k)) ≠ gitlinkMode := by
              by_contra hf
              exact hstray (.conflictUnfound ho hi hh hp (not_or.1 hk) hf)
            simp [found_of_first (o := o) (l := l) hraw hi hfound.2 hfound.1.1 hfound.1.2]

/-- Some limits list a path of an awkward kind otherwise than its net state says. -/
theorem Astray.misled (hstray : Astray c hashes raw path) :
    ∃ limits, lists sdk hashes c (o.scan hashes limits) path ≠ c.net raw := by
  cases hstray with
  | vanished ho hi hh hp =>
    refine ⟨oneFile, ?_⟩
    obtain ⟨s, hi⟩ := Option.isSome_iff_exists.1 hi
    rw [WorkingTree.net_vanished ho hh hp]
    cases s with
    | intent mode => rw [lists_intent h hraw ho hi]; exact Option.some_ne_none _
    | unmerged k version => rw [lists_unmerged h hraw ho hi]; exact Option.some_ne_none _
    | plain r flagged =>
      obtain ⟨state, hstate, -⟩ : ∃ state, lists sdk hashes c (o.scan hashes oneFile) path = some state ∧
          (c.present raw = true → state = .added) := lists_added h hraw ho hi hh
      rw [hstate]
      exact Option.some_ne_none state
  | intended ho hi hp =>
    refine ⟨oneFile, ?_⟩
    rw [lists_intent h hraw ho hi]
    cases hh : c.head raw with
    | none => rw [WorkingTree.net_new ho hh hp]; simp [hp, hi]
    | some r => rw [WorkingTree.net_present ho hh hp]; simp [Checkout.dropped, hi]
  | reverted ho hi hh hne hp hsame =>
    refine ⟨oneFile, ?_⟩
    rw [lists_staged h hraw ho hi hh hne, WorkingTree.net_present ho hh hp]
    simp [Checkout.dropped, hi, hsame]
  | ignored ho hi hh hp hg =>
    refine ⟨oneFile, ?_⟩
    rw [lists_unstaged h hraw ho hi, WorkingTree.net_present ho hh hp]
    simp [Checkout.dropped, hi, hh, Checkout.Untracked, hg]
  | overlooked ho hi hh hp =>
    refine ⟨oneFile, ?_⟩
    rw [lists_flagged h hraw ho hi hh]
    cases hpresent : c.present raw with
    | false => rw [WorkingTree.net_deleted ho hh hpresent]; exact (Option.some_ne_none _).symm
    | true =>
      have hs := hp.resolve_left (by rw [hpresent]; exact Bool.noConfusion)
      rw [WorkingTree.net_present ho hh hpresent]
      simp [hs]
  | @unfound ho r r' hi hh hne hp hf =>
    refine ⟨oneFile, ?_⟩
    rw [lists_staged h hraw ho hi hh hne, WorkingTree.net_deleted ho hh hp]
    have hnot : ¬ ((tablesOf (o.scan hashes oneFile)).tracked.lookup path).any (·.skipped = some .missing) :=
      fun hfound => hf (foundMissing_of_found hraw hfound)
    simp [hnot]
  | converted ho hi hh hp hsame hm =>
    obtain ⟨limits, hraced⟩ := raced_of_moved (o := o) h hraw (quiet_of_kept h ho hi hh hp hsame) hi hm
    refine ⟨limits, ?_⟩
    have hc : path ∈ changedPaths (o.scan hashes limits) := mem_changedPaths.2 (.inr (.inl hraced))
    rw [lists_kept h hraw ho hi hh, WorkingTree.net_present ho hh hp]
    simp [Checkout.dropped, hi, hp, hsame, hc]
  | @conflict ho k version hi hp hk =>
    refine ⟨oneFile, ?_⟩
    have hnot := not_found_of_present o hashes oneFile hraw hp
    have hsome : (c.index raw).isSome := hi ▸ rfl
    rw [lists_unmerged h hraw ho hi]
    cases hh : c.head raw with
    | none =>
      rw [WorkingTree.net_new ho hh hp, if_pos hsome]
      cases k <;> simp [Conflict.code, hnot] <;> exact hk hh
    | some r =>
      rw [WorkingTree.net_present ho hh hp]
      cases hs : c.same raw r with
      | true => simp [Checkout.dropped, hi]
      | false => cases k <;> simp [Conflict.code, hnot] <;> exact hk ⟨r, hh, hs⟩
  | @conflictUnfound ho k version r hi hh hp hk hf =>
    refine ⟨oneFile, ?_⟩
    rw [lists_unmerged h hraw ho hi, WorkingTree.net_deleted ho hh hp]
    have hnot : ¬ ((tablesOf (o.scan hashes oneFile)).tracked.lookup path).any (·.skipped = some .missing) := by
      intro hfound
      obtain ⟨-, s, hs, hmode⟩ := missing_of_found hraw hfound
      rw [hi] at hs
      cases hs
      exact hf ⟨foundMissing_of_found hraw hfound, hmode⟩
    rw [if_neg (not_or.2 ⟨not_or.2 hk, hnot⟩)]
    split <;> simp
  | replaced hne hu =>
    refine ⟨oneFile, ?_⟩
    rw [lists_untracked h hraw hu, WorkingTree.net_of_pointers hne]
    split <;> simp

end

/-! ## Paths that are not taken -/

/-- A path that is not taken and has a net state is rejected, unless it is a submodule that the index drops. -/
theorem rejected_of_net (h : Lists c l) (hrefused : safePath raw = none) (hnet : c.net raw ≠ none) (hlost : ¬ Lost c raw) :
    Rejected (o.scan hashes limits) raw := by
  cases hi : c.index raw with
  | some s => exact rejected_of_index (hi ▸ rfl) hrefused
  | none =>
    by_cases hu : c.Untracked raw
    · exact rejected_of_line (h.status.untracked.2 hu) (.inr rfl) hrefused
    have hindex : c.indexPointer raw = none := by
      unfold Checkout.indexPointer
      rw [hi]
      rfl
    cases hp : c.headPointer raw with
    | some oid => exact absurd ⟨hp ▸ rfl, hi, hu⟩ hlost
    | none =>
      have ho : c.Open raw := ⟨hp, hindex⟩
      cases hh : c.head raw with
      | none =>
        cases hpresent : c.present raw with
        | false => exact absurd (WorkingTree.net_vanished ho hh hpresent) hnet
        | true =>
          rw [WorkingTree.net_new ho hh hpresent, hi] at hnet
          cases hg : c.ignored raw with
          | true => rw [hg] at hnet; exact absurd rfl hnet
          | false => exact absurd ⟨hi, hpresent, hg⟩ hu
      | some r =>
        have hcode : c.Code raw .deleted .unchanged := (code_none hi).2 ⟨hh ▸ .deleted, rfl⟩
        obtain ⟨x, y, hline⟩ := h.status.listed ho hcode (by simp)
        exact rejected_of_line hline (.inl rfl) hrefused

theorem tracked_of_line (h : Lists c l) (hline : Line.tracked raw x y ∈ l.lines) :
    (c.head raw).isSome ∨ (c.index raw).isSome := by
  by_contra hnot
  rw [not_or, Option.not_isSome_iff_eq_none, Option.not_isSome_iff_eq_none] at hnot
  obtain ⟨hh, hi⟩ := hnot
  have ho : c.Open raw := by
    unfold Checkout.Open Checkout.headPointer Checkout.indexPointer
    rw [hh, hi]
    exact ⟨rfl, rfl⟩
  obtain ⟨hcode, hne⟩ := h.status.code hline ho
  obtain ⟨hx, rfl⟩ := (code_none hi).1 hcode
  rw [hh] at hx
  cases hx
  exact hne rfl

/-- A submodule that the index drops at a path that is not taken is neither listed nor rejected. -/
theorem Lost.not_rejected (h : Lists c l) (hlost : Lost c raw) :
    ¬ Rejected (o.scan hashes limits) raw ∧ c.net raw = some .gitlink := by
  obtain ⟨hlink, hi, hu⟩ := hlost
  have hhead : (c.head raw).isSome := by
    unfold Checkout.headPointer at hlink
    cases hh : c.head raw with
    | none => rw [hh] at hlink; cases hlink
    | some r => rfl
  have hslash : raw.getLast? ≠ some slash := h.slashless (.inl hhead)
  have hlast : (raw ++ [slash]).getLast? = some slash := List.getLast?_concat
  have hindex : c.indexPointer raw = none := by
    unfold Checkout.indexPointer
    rw [hi]
    rfl
  have htracked : ∀ {raw' x y}, Line.tracked raw' x y ∈ l.lines → raw' ≠ raw ∧ raw' ≠ raw ++ [slash] := by
    intro raw' x y hline
    refine ⟨?_, ?_⟩
    · rintro rfl
      exact h.status.shown hline ⟨hlink, .inr hi⟩
    · rintro rfl
      exact h.slashless (tracked_of_line h hline) hlast
  have hline : ∀ line ∈ l.status, rejectedOf line ≠ some raw ∧ rejectedOf line ≠ some (raw ++ [slash]) := by
    intro line hline
    have hmapped : line.line ∈ l.lines := List.mem_map.2 ⟨line, hline, rfl⟩
    have hvalue : ∀ {raw' value : Bytes}, (if safePath raw' = none then some value else none) = some raw ∨
        (if safePath raw' = none then some value else none) = some (raw ++ [slash]) → value = raw ∨ value = raw ++ [slash] := by
      intro raw' value hv
      split at hv
      · exact hv.imp Option.some.inj Option.some.inj
      · rcases hv with hv | hv <;> cases hv
    rw [← not_or]
    intro hrejected
    cases line with
    | ordinary | unmerged => exact (hvalue hrejected).elim (htracked hmapped).1 (htracked hmapped).2
    | untracked raw' repository =>
      have huntracked : raw' ≠ raw := by
        rintro rfl
        exact hu (h.status.untracked.1 hmapped)
      cases repository with
      | true =>
        rcases hvalue hrejected with heq | heq
        · exact hslash (heq ▸ List.getLast?_concat)
        · exact huntracked (List.append_cancel_right heq)
      | false =>
        rcases hvalue hrejected with heq | heq
        · exact huntracked ((List.append_nil _).symm.trans heq)
        · exact (h.wellFormed _ hline).2 ((List.append_nil raw').symm.trans heq ▸ hlast)
  refine ⟨?_, WorkingTree.net_of_pointers fun heq => ?_⟩
  · unfold Rejected
    rw [rejections_eq, List.mem_append, List.mem_append, List.mem_filterMap, List.mem_filterMap]
    rintro ((hmem | ⟨line, hmem, heq⟩) | (hmem | ⟨line, hmem, heq⟩))
    · have hsome := ((o.mem_rejections raw).1 hmem).1
      rw [hi] at hsome
      cases hsome
    · exact (hline line hmem).1 heq
    · exact h.slashless (.inr ((o.mem_rejections _).1 hmem).1) hlast
    · exact (hline line hmem).2 heq
  · rw [heq, hindex] at hlink
    cases hlink

end Lists

end Snapshots
