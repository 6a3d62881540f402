import AgentContext.Indexing.Renames
import AgentContext.Indexing.Replay

/-!
# Links of provisional files

`link_provisional` looks a provisional file up by the path at which a lineage began.  The table has one lineage for each
such path, the one at the greatest current path; the others that began there are never found.

    linkOne_spec        the links of one file
    live_of_walk        what the lineages of a history are
    linkProvisional_iff when every file is linked to the lineages that began at its path with its blob
-/

namespace Indexing

open Fallible Table

section Links

variable {I : Type} [LinearOrder I] {uuid5 : I → String → I} {root : I} {repositoryId : String} {history : List Commit}
  {lineage : Lineage I} {item : ProvisionalFile I} {provisional : List (ProvisionalFile I)} {path : String}
  {origin : FileOrigin} {id : I}

/-! ## What a lineage is -/

structure LiveAt (lineage : Lineage I) (path : String) (origin : FileOrigin) (id : I) : Prop where
  origin : lineage.origins.lookup path = some origin
  id : lineage.fileLogicalIds.lookup path = some id

/-- The ids are those of the origins, and tell the paths apart. -/
structure Derived (uuid5 : I → String → I) (root : I) (lineage : Lineage I) : Prop where
  live : ∀ {path origin}, lineage.origins.lookup path = some origin → ∃ id, LiveAt lineage path origin id
  named : ∀ {path origin id}, LiveAt lineage path origin id →
    fileLogicalId uuid5 root lineage.repositoryId origin.originPath origin.introducingCommit = .ok id
  blobs : ∀ {path origin id}, LiveAt lineage path origin id → isOid origin.originBlobOid
  distinct : ∀ {path path' origin origin' id}, LiveAt lineage path origin id → LiveAt lineage path' origin' id → path = path'

theorem live_of_walk (h : Replayable uuid5 root repositoryId history) {maxCommits : Nat}
    (hwalk : walk uuid5 root repositoryId maxCommits history = .ok lineage) : Derived uuid5 root lineage := by
  obtain ⟨_, -, hrest⟩ := bind_eq_ok.1 hwalk
  obtain ⟨_, -, hrest⟩ := bind_eq_ok.1 hrest
  obtain ⟨state, hreplay, hresult⟩ := bind_eq_ok.1 hrest
  cases hresult
  obtain ⟨state', hreplay', hrepo, hs⟩ := replay_ok h
  obtain rfl : state = state' := Except.ok.inj (hreplay.symm.trans hreplay')
  have hitem : ∀ {path origin id}, LiveAt (state.result (history.getLast?.map (·.oid)) history.length) path origin id →
      ∃ item, state.live.lookup path = some item ∧ item.origin = origin ∧ item.logicalId = id := by
    intro path origin id hlive
    have horigin := hlive.origin
    have hid := hlive.id
    unfold State.result at horigin hid
    rw [lookup_mapValues, Option.map_eq_some_iff] at horigin hid
    obtain ⟨item, hitem, rfl⟩ := horigin
    obtain ⟨item', hitem', rfl⟩ := hid
    exact ⟨item, hitem, rfl, by rw [Option.some.inj (hitem.symm.trans hitem')]⟩
  constructor
  case live =>
    intro path origin horigin
    unfold State.result at horigin
    rw [lookup_mapValues, Option.map_eq_some_iff] at horigin
    obtain ⟨item, hitem, rfl⟩ := horigin
    refine ⟨item.logicalId, ?_, ?_⟩ <;> exact lookup_mapValues.trans (by rw [hitem]; rfl)
  case named =>
    intro path origin id hlive
    obtain ⟨item, hlookup, rfl, rfl⟩ := hitem hlive
    obtain ⟨earlier, commit, rest, hintro⟩ := introduced_ok h hreplay hlookup
    rw [hintro.commitOid]
    show fileLogicalId uuid5 root state.repositoryId _ _ = _
    rw [hrepo, hintro.named]
  case blobs =>
    intro path origin id hlive
    obtain ⟨item, hlookup, rfl, rfl⟩ := hitem hlive
    obtain ⟨earlier, commit, rest, hintro⟩ := introduced_ok h hreplay hlookup
    have hwalked := h
    rw [hintro.walk] at hwalked
    obtain ⟨_, _, -, -, -, -, hd, -⟩ := replay_step hwalked
    exact (hd.addedValid hintro.added).2.1
  case distinct =>
    intro path path' origin origin' id hlive hlive'
    obtain ⟨item, hlookup, -, rfl⟩ := hitem hlive
    obtain ⟨item', hlookup', -, hid⟩ := hitem hlive'
    exact hs.liveDistinct hlookup hlookup' hid.symm

/-! ## One file -/

omit [LinearOrder I] in
theorem lookup_byOrigin {entry : String × FileOrigin} : lineage.byOrigin.lookup path = some entry ↔
    lineage.origins.lookup entry.1 = some entry.2 ∧ entry.2.originPath = path ∧
      ∀ path' origin', lineage.origins.lookup path' = some origin' → origin'.originPath = path → path' ≤ entry.1 := by
  unfold Lineage.byOrigin
  rw [lookup_insertAll, Finmap.lookup_empty, Option.or_none, List.filter_map, List.getLast?_map, Option.map_map]
  have hsnd : (Prod.snd ∘ fun entry : String × FileOrigin => (entry.2.originPath, entry)) = id := rfl
  rw [hsnd, Option.map_id, id, getLast?_filter_items]
  simp only [mem_items, Function.comp, decide_eq_true_eq, Prod.forall]

theorem getItem_insert {κ α : Type} [DecidableEq κ] {d : Dict κ α} {key : κ} {value : α} :
    getItem (d.insert key value) key = .ok value := by
  unfold getItem
  rw [Finmap.lookup_insert]

/-- The link of a provisional file to a lineage that began at its path. -/
def linkTo (item : ProvisionalFile I) (origin : FileOrigin) (id : I) : Supersession I :=
  if item.blobOid = origin.originBlobOid then ⟨item.logicalId, id, 1, .provisionalCommitted⟩
  else ⟨item.logicalId, id, 1 / 2, .provisionalPathMatch⟩

omit [LinearOrder I] in
theorem resolveCommitted_one (hblob : isOid item.blobOid) (horigin : isOid origin.originBlobOid)
    (hpath : origin.originPath = item.path)
    (hnamed : fileLogicalId uuid5 root repositoryId origin.originPath origin.introducingCommit = .ok id) :
    resolveCommitted uuid5 root repositoryId origin.introducingCommit [item] [⟨origin.originPath, origin.originBlobOid⟩] =
      .ok ⟨(∅ : Dict String I).insert origin.originPath id, [linkTo item origin id]⟩ := by
  obtain ⟨value, hcanonical, -⟩ := bind_eq_ok.1 hnamed
  obtain ⟨hsafe, -⟩ := canonicalPath_eq_ok.1 hcanonical
  have hsafe' : isSafeRepoPath item.path := hpath ▸ hsafe
  have hsuperseded : supersededBy item id ⟨origin.originPath, origin.originBlobOid⟩ =
      .ok (linkTo item origin id) := by
    unfold supersededBy
    rw [oid_ok hblob, oid_ok horigin]
    rfl
  have hbyPath : [item].foldlM provisionalByPath ∅ = .ok ((∅ : Dict String (ProvisionalFile I)).insert item.path item) := by
    rw [List.foldlM_cons]
    unfold provisionalByPath
    rw [canonicalPath_ok hsafe', ok_bind, require_ok (decide_eq_true (Finmap.notMem_empty))]
    rfl
  unfold resolveCommitted
  rw [hbyPath, ok_bind, forM_ok (by simp [canonicalPath_ok hsafe]; rfl), ok_bind]
  dsimp only [List.insertionSort, List.foldr, List.orderedInsert]
  rw [List.foldlM_cons]
  unfold commitOne
  dsimp only
  rw [canonicalPath_ok hsafe, ok_bind, require_ok (decide_eq_true (Finmap.notMem_empty)), ok_bind, hnamed, ok_bind,
    hpath, Finmap.lookup_insert]
  dsimp only
  rw [← hpath, hsuperseded]
  rfl

theorem linkOne_spec (h : Derived uuid5 root lineage) (hblob : isOid item.blobOid) :
    ∃ links, lineage.linkOne uuid5 root item = .ok links ∧ ∀ link, link ∈ links ↔
      ∃ path origin id, lineage.byOrigin.lookup item.path = some (path, origin) ∧ LiveAt lineage path origin id ∧
        link = linkTo item origin id := by
  unfold Lineage.linkOne
  cases hfound : lineage.byOrigin.lookup item.path with
  | none => exact ⟨[], rfl, fun link => ⟨nofun, fun ⟨_, _, _, h, _⟩ => nomatch h⟩⟩
  | some entry =>
    obtain ⟨path, origin⟩ := entry
    obtain ⟨horigin, hpath, -⟩ := lookup_byOrigin.1 hfound
    obtain ⟨id, hlive⟩ := h.live horigin
    refine ⟨[linkTo item origin id], ?_, fun link => ?_⟩
    · dsimp only
      rw [resolveCommitted_one hblob (h.blobs hlive) hpath (h.named hlive), ok_bind, getItem_insert, ok_bind]
      unfold getItem
      rw [hlive.id]
      dsimp only
      rw [ok_bind, require_ok (decide_eq_true rfl)]
      rfl
    · rw [List.mem_singleton]
      constructor
      · rintro rfl
        exact ⟨path, origin, id, rfl, hlive, rfl⟩
      · rintro ⟨path', origin', id', heq, hlive', rfl⟩
        cases heq
        rw [Option.some.inj (hlive.id.symm.trans hlive'.id)]

/-! ## All of them -/

/-- The links that a reader of the contract expects: a provisional file is surely linked to every lineage that began at
its path with its blob, and to no other. -/
structure LinkedByOrigin (lineage : Lineage I) (provisional : List (ProvisionalFile I)) (links : List (Supersession I)) :
    Prop where
  matching : ∀ item ∈ provisional, ∀ path origin id, LiveAt lineage path origin id → origin.originPath = item.path →
    origin.originBlobOid = item.blobOid → ⟨item.logicalId, id, 1, .provisionalCommitted⟩ ∈ links
  sure : ∀ link ∈ links, link.confidence = 1 → ∃ item ∈ provisional, link.oldLogicalId = item.logicalId ∧
    ∃ path origin, LiveAt lineage path origin link.newLogicalId ∧ origin.originPath = item.path ∧
      origin.originBlobOid = item.blobOid

/-- The files that match a lineage find it: no lineage that began at the same path is at a later path. -/
def Found (lineage : Lineage I) (provisional : List (ProvisionalFile I)) : Prop :=
  ∀ item ∈ provisional, ∀ path origin, lineage.origins.lookup path = some origin → origin.originPath = item.path →
    origin.originBlobOid = item.blobOid →
    ∀ path' origin', lineage.origins.lookup path' = some origin' → origin'.originPath = item.path → path' ≤ path

/-- **Links of provisional files.**  A sure link is to a lineage of the file's path and blob; every lineage that a file
matches is linked to it exactly where no other one that began at that path is at a later path. -/
theorem linkProvisional_iff (h : Replayable uuid5 root repositoryId history) {maxCommits : Nat}
    (hwalk : walk uuid5 root repositoryId maxCommits history = .ok lineage) (hblobs : ∀ item ∈ provisional, isOid item.blobOid) :
    ∃ links, lineage.linkProvisional uuid5 root provisional = .ok links ∧
      (LinkedByOrigin lineage provisional links ↔ Found lineage provisional) := by
  have hderived := live_of_walk h hwalk
  have hone : ∀ item ∈ provisional, ∃ links, lineage.linkOne uuid5 root item = .ok links ∧ ∀ link, link ∈ links ↔
      ∃ path origin id, lineage.byOrigin.lookup item.path = some (path, origin) ∧ LiveAt lineage path origin id ∧
        link = linkTo item origin id := fun item hitem => linkOne_spec hderived (hblobs item hitem)
  obtain ⟨linkss, hlinkss, hall⟩ := mapM_forall₂ hone
  -- a link is that of a file to the lineage which the table has
  have hlink : ∀ link, link ∈ linkss.flatten ↔ ∃ item ∈ provisional, ∃ path origin id,
      lineage.byOrigin.lookup item.path = some (path, origin) ∧ LiveAt lineage path origin id ∧ link = linkTo item origin id := by
    intro link
    rw [List.mem_flatten]
    constructor
    · rintro ⟨links, hlinks, hmem⟩
      obtain ⟨item, hitem, hspec⟩ := forall₂_right hall links hlinks
      exact ⟨item, hitem, (hspec link).1 hmem⟩
    · rintro ⟨item, hitem, hex⟩
      obtain ⟨links, hlinks, hspec⟩ := forall₂_left hall item hitem
      exact ⟨links, hlinks, (hspec link).2 hex⟩
  refine ⟨linkss.flatten, ?_, ?_, ?_⟩
  · unfold Lineage.linkProvisional
    rw [hlinkss]
    rfl
  · intro hlinked item hitem path origin horigin hpath hblob path' origin' horigin' hpath'
    obtain ⟨id, hlive⟩ := hderived.live horigin
    obtain ⟨item', -, found, originFound, idFound, hfound, hlive', heq⟩ :=
      (hlink _).1 (hlinked.matching item hitem path origin id hlive hpath hblob)
    have hid : id = idFound := by
      unfold linkTo at heq
      split at heq <;> exact congrArg Supersession.newLogicalId heq
    obtain ⟨horiginFound, hpathFound, hgreatest⟩ := lookup_byOrigin.1 hfound
    have hsame : path = found := hderived.distinct hlive (hid ▸ hlive')
    subst hsame
    have hitem' : item'.path = item.path := by
      rw [← hpathFound, ← hpath]
      exact congrArg FileOrigin.originPath (Option.some.inj (horiginFound.symm.trans horigin))
    exact hgreatest path' origin' horigin' (hpath'.trans hitem'.symm)
  · intro hfound
    constructor
    case matching =>
      intro item hitem path origin id hlive hpath hblob
      refine (hlink _).2 ⟨item, hitem, path, origin, id, ?_, hlive, (if_pos hblob.symm).symm⟩
      exact lookup_byOrigin.2 ⟨hlive.origin, hpath, hfound item hitem path origin hlive.origin hpath hblob⟩
    case sure =>
      intro link hmem hsure
      obtain ⟨item, hitem, path, origin, id, hlookup, hlive, rfl⟩ := (hlink link).1 hmem
      obtain ⟨-, hpath, -⟩ := lookup_byOrigin.1 hlookup
      unfold linkTo at hsure ⊢
      split
      · next hblob => exact ⟨item, hitem, rfl, path, origin, hlive, hpath, hblob.symm⟩
      · next hblob =>
        rw [if_neg hblob] at hsure
        norm_num at hsure

end Links

/-! ## A file that was moved away -/

/-- The UUIDs of the names of the history below. -/
def movedUuid5 (namespaceId : Nat) (name : String) : Nat :=
  if namespaceId = sampleRoot then 0xf74c2913577d5649b7c7324574aeb7e5
  else if name = encodeComponents ["file", "a", "1111111111111111111111111111111111111111"] then
    0xf4aed91f3a7358b5a9bf107db75c2235
  else if name = encodeComponents ["file", "b", "2222222222222222222222222222222222222222"] then
    0x54d1fc354df6535bb8d071b7ef260394
  else 0x68cd0d11559754d5b4f020522d045078

/-- A file is added and renamed, and then another one is added at its first path. -/
def movedHistory : List Commit :=
  [⟨"1111111111111111111111111111111111111111", [⟨.added, 0, "000000", "100644", noBlob, blobA, "a".toUTF8, none⟩]⟩,
    ⟨"2222222222222222222222222222222222222222",
      [⟨.renamed, 100, "100644", "100644", blobA, blobA, "a".toUTF8, some "b".toUTF8⟩]⟩,
    ⟨"3333333333333333333333333333333333333333", [⟨.added, 0, "000000", "100644", noBlob, blobB, "a".toUTF8, none⟩]⟩]

/-- The second file before it was committed. -/
def movedProvisional : ProvisionalFile Nat := ⟨"a", 0x857109dcb2745f1aaa329f08d86f27b2, blobB⟩

theorem moved_replayable : Replayable movedUuid5 sampleRoot "repo" movedHistory where
  repositoryValid := by rfl
  consistent := by decide +kernel
  oidsNodup := by decide +kernel
  noCollision := by unfold NoCollision; decide +kernel

theorem linkProvisional_iff_moved : ∃ lineage links,
    walk movedUuid5 sampleRoot "repo" 100000 movedHistory = .ok lineage ∧
    lineage.linkProvisional movedUuid5 sampleRoot [movedProvisional] = .ok links ∧
    (LinkedByOrigin lineage [movedProvisional] links ↔ Found lineage [movedProvisional]) := by
  obtain ⟨lineage, -, hwalk, -⟩ := walk_ok moved_replayable (by decide) (show movedHistory.length ≤ 100000 by decide)
  obtain ⟨links, hlinks, hiff⟩ := linkProvisional_iff moved_replayable hwalk
    (fun item hitem => by rw [List.mem_singleton.1 hitem]; decide +kernel : ∀ item ∈ [movedProvisional], isOid item.blobOid)
  exact ⟨lineage, links, hwalk, hlinks, hiff⟩

/-- The file is where its lineage began, with its blob, and is linked to the file that was moved away. -/
theorem linkProvisional_moved : ∃ lineage links,
    Replayable movedUuid5 sampleRoot "repo" movedHistory ∧
    walk movedUuid5 sampleRoot "repo" 100000 movedHistory = .ok lineage ∧
    lineage.linkProvisional movedUuid5 sampleRoot [movedProvisional] = .ok links ∧
    LiveAt lineage "a" ⟨"a", "3333333333333333333333333333333333333333", blobB⟩ 0x68cd0d11559754d5b4f020522d045078 ∧
    links = [⟨0x857109dcb2745f1aaa329f08d86f27b2, 0xf4aed91f3a7358b5a9bf107db75c2235, 1 / 2, .provisionalPathMatch⟩] ∧
    ¬LinkedByOrigin lineage [movedProvisional] links := by
  have hlinks : ((walk movedUuid5 sampleRoot "repo" 100000 movedHistory).toOption.bind fun lineage =>
      (lineage.linkProvisional movedUuid5 sampleRoot [movedProvisional]).toOption) =
        some [⟨0x857109dcb2745f1aaa329f08d86f27b2, 0xf4aed91f3a7358b5a9bf107db75c2235, 1 / 2, .provisionalPathMatch⟩] := rfl
  have horigin : ((walk movedUuid5 sampleRoot "repo" 100000 movedHistory).toOption.bind fun lineage =>
      lineage.origins.lookup "a") = some ⟨"a", "3333333333333333333333333333333333333333", blobB⟩ := rfl
  have hid : ((walk movedUuid5 sampleRoot "repo" 100000 movedHistory).toOption.bind fun lineage =>
      lineage.fileLogicalIds.lookup "a") = some 0x68cd0d11559754d5b4f020522d045078 := rfl
  cases hwalk : walk movedUuid5 sampleRoot "repo" 100000 movedHistory with
  | error e =>
    rw [hwalk] at hid
    cases hid
  | ok lineage =>
    rw [hwalk] at hlinks horigin hid
    cases hprovisional : lineage.linkProvisional movedUuid5 sampleRoot [movedProvisional] with
    | error e =>
      rw [Except.toOption, Option.bind_some, hprovisional] at hlinks
      cases hlinks
    | ok links =>
      rw [Except.toOption, Option.bind_some, hprovisional] at hlinks
      obtain rfl := Option.some.inj hlinks
      refine ⟨lineage, _, moved_replayable, rfl, hprovisional, ⟨horigin, hid⟩, rfl, fun h => ?_⟩
      have hmem := h.matching movedProvisional (List.mem_singleton_self _) "a" _ _ ⟨horigin, hid⟩ rfl rfl
      revert hmem
      decide +kernel

end Indexing
