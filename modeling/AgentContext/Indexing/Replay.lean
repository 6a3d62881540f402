import AgentContext.Indexing.Apply

/-!
# The lineages of a history

A history is replayed from the empty tree.  After every commit the state is sound, so `apply` never raises; an id goes on
from one commit to the next only where its file stays or is the exact rename of one, and an id that is gone is made of a
commit of the past, so no later file gets it.

    replay_ok            no replay raises
    introduced_ok        where a lineage began
    exactRename_keeps    an exact rename keeps the id
    removed_gone         the id of any other removed file is gone
-/

namespace Indexing

open Table List

variable {I : Type} (uuid5 : I → String → I) (root : I)

def Commit.decoded (commit : Commit) : List Record := commit.records.map RawRecord.decode

/-- The paths and commits at which files were added. -/
def introduced (history : List Commit) : List (String × String) :=
  history.flatMap fun commit => newNames commit.oid commit.decoded

/-- No two of the names that a history introduces have one UUID. -/
def NoCollision (repositoryId : String) (history : List Commit) : Prop :=
  let names := (introduced history).map fun name => encodeComponents ["file", name.1, name.2]
  let namespaceId := uuid5 root (encodeComponents ["repository", repositoryId])
  ∀ a ∈ names, ∀ b ∈ names, uuid5 namespaceId a = uuid5 namespaceId b → a = b

def idAfter [LinearOrder I] (repositoryId : String) (history : List Commit) (path : String) : Option I :=
  match replay uuid5 root repositoryId history with
  | .ok state => (state.live.lookup path).map (·.logicalId)
  | .error _ => none

/-- A history that Git can report, of a valid repository id. -/
structure Replayable (repositoryId : String) (history : List Commit) : Prop where
  repositoryValid : repositoryIdText repositoryId = .ok repositoryId
  consistent : Consistent emptyTree history
  oidsNodup : (history.map (·.oid)).Nodup
  noCollision : NoCollision uuid5 root repositoryId history

section Prefixes

variable {uuid5 root} {repositoryId : String} {history walked earlier rest : List Commit} {commit : Commit} {tree : GitTree}

theorem consistent_append : Consistent tree (walked ++ rest) ↔
    Consistent tree walked ∧ Consistent (walked.foldl (fun tree commit => applyDiff tree commit.records) tree) rest := by
  induction walked generalizing tree with
  | nil => simp [Consistent]
  | cons commit walked ih =>
    rw [cons_append, foldl_cons, Consistent, Consistent, ih]
    tauto

theorem introduced_append : introduced (walked ++ rest) = introduced walked ++ introduced rest := flatMap_append

theorem Replayable.of_append (h : Replayable uuid5 root repositoryId (walked ++ rest)) :
    Replayable uuid5 root repositoryId walked where
  repositoryValid := h.repositoryValid
  consistent := (consistent_append.1 h.consistent).1
  oidsNodup := by
    have hnodup := h.oidsNodup
    rw [map_append] at hnodup
    exact (nodup_append.1 hnodup).1
  noCollision a ha b hb hab := by
    have hsub : ∀ text, text ∈ (introduced walked).map (fun name => encodeComponents ["file", name.1, name.2]) →
        text ∈ (introduced (walked ++ rest)).map fun name => encodeComponents ["file", name.1, name.2] := by
      intro text htext
      rw [introduced_append, map_append]
      exact mem_append_left _ htext
    exact h.noCollision a (hsub a ha) b (hsub b hb) hab

theorem Replayable.collisionFree (h : Replayable uuid5 root repositoryId history) :
    CollisionFree uuid5 root repositoryId (introduced history) := by
  intro a ha b hb heq
  have hnames := encodeComponents_inj (h.noCollision _ (mem_map.2 ⟨a, ha, rfl⟩) _ (mem_map.2 ⟨b, hb, rfl⟩) heq)
  simp only [List.cons.injEq, and_true, true_and] at hnames
  exact Prod.ext hnames.1 hnames.2

theorem commit_of_introduced {name : String × String} (h : name ∈ introduced history) : name.2 ∈ history.map (·.oid) := by
  obtain ⟨commit, hmem, hname⟩ := mem_flatMap.1 h
  obtain ⟨file, -, rfl⟩ := mem_map.1 hname
  exact mem_map.2 ⟨commit, hmem, rfl⟩

theorem Replayable.commit_new (h : Replayable uuid5 root repositoryId (walked ++ commit :: rest)) :
    ∀ name ∈ introduced walked, name.2 ≠ commit.oid := by
  intro name hname heq
  have hnodup := h.oidsNodup
  rw [map_append, map_cons, nodup_append] at hnodup
  exact hnodup.2.2 _ (commit_of_introduced hname) _ mem_cons_self heq

theorem replay_concat [LinearOrder I] : replay uuid5 root repositoryId (walked ++ [commit]) =
    (replay uuid5 root repositoryId walked).bind fun state => state.apply uuid5 root commit.oid commit.decoded := by
  unfold replay
  rw [foldlM_append]
  show Except.bind _ _ = _
  congr 1
  funext state
  show Except.bind _ _ = _
  cases h : state.apply uuid5 root commit.oid (commit.records.map RawRecord.decode) <;>
    simp [Commit.decoded, h, Except.bind, pure, Except.pure]

end Prefixes

/-! ## Runs -/

section Runs

variable {uuid5 root} [LinearOrder I] {repositoryId path : String} {history walked earlier rest : List Commit}
  {commit : Commit} {state state' : State I} {id : I}
variable {name : String × String}

theorem treeAfter_concat : treeAfter (walked ++ [commit]) = applyDiff (treeAfter walked) commit.records := by
  unfold treeAfter
  rw [foldl_append, foldl_cons, foldl_nil]

omit [LinearOrder I] in
theorem sound_initial : Sound uuid5 root [] (files emptyTree) (State.initial repositoryId) where
  keyed path := by
    have hnone : files emptyTree path = none := by
      unfold files emptyTree
      split <;> rfl
    rw [hnone]
    exact congrArg _ (Finmap.lookup_empty path)
  valid {path blob} h := by
    obtain ⟨-, entry, htree, -⟩ := files_eq_some.1 h
    cases htree
  liveNamed h := absurd ((Finmap.lookup_empty _).symm.trans h) nofun
  deadNamed h := absurd ((Finmap.lookup_empty _).symm.trans h) nofun
  liveDistinct h := absurd ((Finmap.lookup_empty _).symm.trans h) nofun
  deadDistinct h := absurd ((Finmap.lookup_empty _).symm.trans h) nofun
  apart h := absurd ((Finmap.lookup_empty _).symm.trans h) nofun

theorem step_ok (h : Replayable uuid5 root repositoryId (walked ++ commit :: rest))
    (hs : Sound uuid5 root (introduced walked) (files (treeAfter walked)) state) (hrepo : state.repositoryId = repositoryId) :
    FileDiff (files (treeAfter walked)) (files (treeAfter (walked ++ [commit]))) commit.decoded ∧
      ∃ state', state.apply uuid5 root commit.oid commit.decoded = .ok state' ∧
        Step uuid5 root commit.oid commit.decoded state state' ∧
        Sound uuid5 root (introduced (walked ++ [commit])) (files (treeAfter (walked ++ [commit]))) state' := by
  have hprefix : Replayable uuid5 root repositoryId (walked ++ [commit]) := by
    rw [append_cons] at h
    exact h.of_append
  obtain ⟨hcommit, hfits, -⟩ := (consistent_append.1 h.consistent).2
  have hd : FileDiff (files (treeAfter walked)) (files (treeAfter (walked ++ [commit]))) commit.decoded := by
    rw [treeAfter_concat]
    exact fileDiff hfits
  have hnames : introduced (walked ++ [commit]) = introduced walked ++ newNames commit.oid commit.decoded := by
    rw [introduced_append]
    exact congrArg _ (append_nil _)
  have hfree := hprefix.collisionFree
  rw [hnames, ← hrepo] at hfree
  have hvalid : repositoryIdText state.repositoryId = .ok state.repositoryId := by
    rw [hrepo]
    exact h.repositoryValid
  obtain ⟨state', happly, hstep⟩ := apply_ok hs hd hvalid hcommit fun hadded hlive =>
    hs.fresh hfree h.commit_new hadded hlive
  refine ⟨hd, state', happly, hstep, ?_⟩
  rw [hnames]
  exact hstep.sound hs hd hfree h.commit_new

/-- **No replay raises**, and every state is sound. -/
theorem replay_ok (h : Replayable uuid5 root repositoryId history) :
    ∃ state, replay uuid5 root repositoryId history = .ok state ∧ state.repositoryId = repositoryId ∧
      Sound uuid5 root (introduced history) (files (treeAfter history)) state := by
  induction history using List.reverseRecOn with
  | nil => exact ⟨_, rfl, rfl, sound_initial⟩
  | append_singleton walked commit ih =>
    obtain ⟨state, hreplay, hrepo, hs⟩ := ih h.of_append
    obtain ⟨-, state', happly, hstep, hs'⟩ := step_ok h hs hrepo
    refine ⟨state', ?_, hstep.repository.trans hrepo, hs'⟩
    rw [replay_concat, hreplay]
    exact happly

theorem idAfter_eq (h : replay uuid5 root repositoryId history = .ok state) :
    idAfter uuid5 root repositoryId history path = (state.live.lookup path).map (·.logicalId) := by
  unfold idAfter
  rw [h]

theorem idAfter_eq_some (h : replay uuid5 root repositoryId history = .ok state) :
    idAfter uuid5 root repositoryId history path = some id ↔
      ∃ item, state.live.lookup path = some item ∧ item.logicalId = id := by
  rw [idAfter_eq h, Option.map_eq_some_iff]

theorem walk_ok (h : Replayable uuid5 root repositoryId history) (hne : history ≠ []) {maxCommits : Nat}
    (hlength : history.length ≤ maxCommits) :
    ∃ lineage state, walk uuid5 root repositoryId maxCommits history = .ok lineage ∧
      replay uuid5 root repositoryId history = .ok state ∧ ∀ path,
        lineage.fileLogicalIds.lookup path = idAfter uuid5 root repositoryId history path ∧
          lineage.origins.lookup path = (state.live.lookup path).map (·.origin) := by
  obtain ⟨state, hreplay, -, -⟩ := replay_ok h
  refine ⟨state.result (history.getLast?.map (·.oid)) history.length, state, ?_, hreplay, fun path => ⟨?_, lookup_mapValues⟩⟩
  · unfold walk
    rw [require_ok (decide_eq_true hne), require_ok (decide_eq_true hlength), hreplay]
    rfl
  · rw [idAfter_eq hreplay]
    exact lookup_mapValues

theorem replay_step (h : Replayable uuid5 root repositoryId (walked ++ commit :: rest)) :
    ∃ state state', replay uuid5 root repositoryId walked = .ok state ∧
      replay uuid5 root repositoryId (walked ++ [commit]) = .ok state' ∧ state.repositoryId = repositoryId ∧
      Sound uuid5 root (introduced walked) (files (treeAfter walked)) state ∧
      FileDiff (files (treeAfter walked)) (files (treeAfter (walked ++ [commit]))) commit.decoded ∧
      Step uuid5 root commit.oid commit.decoded state state' := by
  obtain ⟨state, hreplay, hrepo, hs⟩ := replay_ok h.of_append
  obtain ⟨hd, state', happly, hstep, -⟩ := step_ok h hs hrepo
  refine ⟨state, state', hreplay, ?_, hrepo, hs, hd, hstep⟩
  rw [replay_concat, hreplay]
  exact happly

/-- An id in use is made of a commit that was walked. -/
theorem named_of_idAfter (h : Replayable uuid5 root repositoryId history)
    (hid : idAfter uuid5 root repositoryId history path = some id) :
    ∃ name ∈ introduced history, id = fileId uuid5 root repositoryId name.1 name.2 := by
  obtain ⟨state, hreplay, hrepo, hs⟩ := replay_ok h
  obtain ⟨item, hitem, rfl⟩ := (idAfter_eq_some hreplay).1 hid
  obtain ⟨hnamed, hmem⟩ := hs.liveNamed hitem
  rw [hrepo] at hnamed
  exact ⟨_, hmem, hnamed⟩

/-- An id in use after a commit was so before it, or is made of it. -/
theorem idAfter_concat (h : Replayable uuid5 root repositoryId (walked ++ [commit]))
    (hid : idAfter uuid5 root repositoryId (walked ++ [commit]) path = some id) :
    (∃ old, idAfter uuid5 root repositoryId walked old = some id) ∨
      ∃ blob, (path, blob) ∈ addedFiles commit.decoded ∧ id = fileId uuid5 root repositoryId path commit.oid := by
  obtain ⟨state, state', hreplay, hreplay', hrepo, -, -, hstep⟩ := replay_step h
  obtain ⟨item, hitem, rfl⟩ := (idAfter_eq_some hreplay').1 hid
  cases hstep.origin hitem with
  | kept item₀ _ _ hitem₀ heq _ => exact .inl ⟨path, (idAfter_eq_some hreplay).2 ⟨item₀, hitem₀, heq.symm⟩⟩
  | renamed old blob source _ hsource heq _ => exact .inl ⟨old, (idAfter_eq_some hreplay).2 ⟨source, hsource, heq.symm⟩⟩
  | fresh blob hadded _ heq _ =>
    rw [hrepo] at heq
    exact .inr ⟨blob, hadded, heq⟩

omit [LinearOrder I] in
theorem introduced_ne {blob : String} (h : Replayable uuid5 root repositoryId (walked ++ commit :: rest))
    (hname : name ∈ introduced walked) (hadded : (path, blob) ∈ addedFiles commit.decoded) :
    fileId uuid5 root repositoryId name.1 name.2 ≠ fileId uuid5 root repositoryId path commit.oid := by
  intro heq
  have hfree := h.collisionFree
  rw [introduced_append] at hfree
  have hadded' : (path, commit.oid) ∈ introduced (commit :: rest) :=
    mem_flatMap.2 ⟨commit, mem_cons_self, mem_newNames hadded⟩
  have hsame := hfree name (mem_append_left _ hname) (path, commit.oid) (mem_append_right _ hadded') heq
  exact h.commit_new name hname (congrArg Prod.snd hsame)

/-- An id that was introduced and is gone never comes back. -/
theorem idAfter_gone (h : Replayable uuid5 root repositoryId (walked ++ rest)) (hname : name ∈ introduced walked)
    (hid : id = fileId uuid5 root repositoryId name.1 name.2)
    (hgone : ∀ path, idAfter uuid5 root repositoryId walked path ≠ some id) :
    ∀ path, idAfter uuid5 root repositoryId (walked ++ rest) path ≠ some id := by
  induction rest using List.reverseRecOn with
  | nil =>
    rw [append_nil]
    exact hgone
  | append_singleton rest commit ih =>
    rw [← append_assoc] at h ⊢
    intro path hback
    rcases idAfter_concat h hback with ⟨old, hold⟩ | ⟨blob, hadded, heq⟩
    · exact ih h.of_append old hold
    · have hmem : name ∈ introduced (walked ++ rest) := by
        rw [introduced_append]
        exact mem_append_left _ hname
      have hne := introduced_ne h hmem hadded
      exact hne (hid.symm.trans heq)

/-! ## What every lineage is -/

variable (uuid5 root) in
/-- The lineage began with the file that a commit added at its origin, and goes on since. -/
structure Introduced (repositoryId : String) (walked : List Commit) (item : Live I) (earlier : List Commit) (commit : Commit)
    (rest : List Commit) : Prop where
  walk : walked = earlier ++ commit :: rest
  commitOid : item.origin.introducingCommit = commit.oid
  added : (item.origin.originPath, item.origin.originBlobOid) ∈ addedFiles commit.decoded
  named : fileLogicalId uuid5 root repositoryId item.origin.originPath commit.oid = .ok item.logicalId
  before : ∀ before, before <+: earlier → ∀ path, idAfter uuid5 root repositoryId before path ≠ some item.logicalId
  atOrigin : idAfter uuid5 root repositoryId (earlier ++ [commit]) item.origin.originPath = some item.logicalId
  since : ∀ later, later <+: rest → ∃ path, idAfter uuid5 root repositoryId (earlier ++ commit :: later) path = some item.logicalId

/-- A lineage that goes on was introduced where it was. -/
theorem Introduced.concat {item₀ item : Live I} (h : Introduced uuid5 root repositoryId walked item₀ earlier commit rest)
    {last : Commit} (hid : item.logicalId = item₀.logicalId) (horigin : item.origin = item₀.origin)
    (hlive : idAfter uuid5 root repositoryId (walked ++ [last]) path = some item.logicalId) :
    Introduced uuid5 root repositoryId (walked ++ [last]) item earlier commit (rest ++ [last]) where
  walk := by rw [h.walk, append_assoc, cons_append]
  commitOid := horigin ▸ h.commitOid
  added := horigin ▸ h.added
  named := by rw [hid, horigin, h.named]
  before := by
    rw [hid]
    exact h.before
  atOrigin := by rw [hid, horigin, h.atOrigin]
  since later hlater := by
    rcases prefix_concat_iff.1 hlater with rfl | hlater
    · refine ⟨path, ?_⟩
      rw [← hlive, h.walk, append_assoc, cons_append]
    · rw [hid]
      exact h.since later hlater

/-- **Every lineage was introduced by one of the commits.** -/
theorem introduced_ok (h : Replayable uuid5 root repositoryId walked) (hreplay : replay uuid5 root repositoryId walked = .ok state)
    {item : Live I} (hitem : state.live.lookup path = some item) :
    ∃ earlier commit rest, Introduced uuid5 root repositoryId walked item earlier commit rest := by
  induction walked using List.reverseRecOn generalizing state path item with
  | nil =>
    cases hreplay
    exact absurd ((Finmap.lookup_empty _).symm.trans hitem) nofun
  | append_singleton walked last ih =>
    obtain ⟨state₀, state', hreplay₀, hreplay', hrepo, hs, hd, hstep⟩ := replay_step h
    have hsame : state' = state := Except.ok.inj (hreplay'.symm.trans hreplay)
    subst hsame
    have hlive : idAfter uuid5 root repositoryId (walked ++ [last]) path = some item.logicalId :=
      (idAfter_eq_some hreplay').2 ⟨item, hitem, rfl⟩
    cases hstep.origin hitem with
    | kept _ _ _ hitem₀ hid horigin | renamed _ _ _ _ hitem₀ hid horigin =>
      obtain ⟨earlier, commit, rest, hintro⟩ := ih h.of_append hreplay₀ hitem₀
      exact ⟨earlier, commit, rest ++ [last], hintro.concat hid horigin hlive⟩
    | fresh blob hadded _ hid horigin =>
      rw [hrepo] at hid
      obtain ⟨hsafe, -, -⟩ := hd.addedValid hadded
      have hcommit : isOid last.oid := (consistent_append.1 h.consistent).2.1
      refine ⟨walked, last, [], rfl, by rw [horigin], by rw [horigin]; exact hadded, ?_, ?_, by rw [horigin]; exact hlive, ?_⟩
      · rw [horigin, hid]
        exact fileLogicalId_ok uuid5 root h.repositoryValid hsafe hcommit
      · rintro before ⟨tail, rfl⟩ q hq
        obtain ⟨name, hname, heq⟩ := named_of_idAfter h.of_append.of_append hq
        have hmem : name ∈ introduced (before ++ tail) := by
          rw [introduced_append]
          exact mem_append_left _ hname
        have hne := introduced_ne h hmem hadded
        exact hne (heq.symm.trans hid)
      · intro later hlater
        rw [prefix_nil.1 hlater]
        exact ⟨path, hlive⟩

theorem exactRename_keeps (h : Replayable uuid5 root repositoryId (walked ++ commit :: rest)) {old new blob : String}
    (hexact : ExactRename commit.decoded old new blob) :
    ∃ id, idAfter uuid5 root repositoryId walked old = some id ∧
      idAfter uuid5 root repositoryId (walked ++ [commit]) new = some id := by
  obtain ⟨state, state', hreplay, hreplay', -, hs, hd, hstep⟩ := replay_step h
  obtain ⟨item, hitem, -⟩ := live_of_file hs (hd.removedWas hexact.removed)
  obtain ⟨item', hitem', -, hassigned⟩ := hstep.added hexact.added
  rcases hassigned with ⟨other, source, hexact', hsource, hid, -⟩ | ⟨hnone, -⟩
  · have hsame : old = other := hexact'.onlyRemoved old hexact.removed
    subst hsame
    have hitem₀ : source = item := Option.some.inj (hsource.symm.trans hitem)
    exact ⟨item.logicalId, (idAfter_eq_some hreplay).2 ⟨item, hitem, rfl⟩,
      (idAfter_eq_some hreplay').2 ⟨item', hitem', hid.trans (congrArg _ hitem₀)⟩⟩
  · exact absurd hexact (hnone old)

theorem removed_gone {later : List Commit} (h : Replayable uuid5 root repositoryId (walked ++ commit :: later)) {blob : String}
    (hremoved : (path, blob) ∈ removedFiles commit.decoded) (hrename : ∀ new, ¬ExactRename commit.decoded path new blob)
    (hid : idAfter uuid5 root repositoryId walked path = some id) (q : String) :
    idAfter uuid5 root repositoryId (walked ++ commit :: later) q ≠ some id := by
  obtain ⟨name, hname, heq⟩ := named_of_idAfter h.of_append hid
  obtain ⟨state, state', hreplay, hreplay', hrepo, hs, hd, hstep⟩ := replay_step h
  obtain ⟨item, hitem, rfl⟩ := (idAfter_eq_some hreplay).1 hid
  have hgone : ∀ q, idAfter uuid5 root repositoryId (walked ++ [commit]) q ≠ some item.logicalId := by
    intro q hq
    obtain ⟨item', hitem', hsame⟩ := (idAfter_eq_some hreplay').1 hq
    cases hstep.origin hitem' with
    | kept item₀ hstays _ hitem₀ hid₀ _ =>
      have hpath := hs.liveDistinct hitem₀ hitem (hid₀.symm.trans hsame)
      exact hstays blob (hpath ▸ hremoved)
    | renamed old blob' source hexact hsource hid₀ _ =>
      have hpath := hs.liveDistinct hsource hitem (hid₀.symm.trans hsame)
      subst hpath
      have hblob : blob' = blob := Option.some.inj ((hd.removedWas hexact.removed).symm.trans (hd.removedWas hremoved))
      exact hrename q (hblob ▸ hexact)
    | fresh blob' hadded _ hid₀ _ =>
      rw [hrepo] at hid₀
      have hne := introduced_ne h hname hadded
      exact hne (heq.symm.trans (hsame.symm.trans hid₀))
  rw [append_cons] at h ⊢
  refine idAfter_gone h ?_ heq hgone q
  rw [introduced_append]
  exact mem_append_left _ hname

end Runs

section Claim

variable {uuid5 root} [LinearOrder I] {repositoryId : String} {history walked : List Commit}

/-- **Lineages of a history.**  After every commit the live lineages are those of the files of its tree, with distinct ids,
each of the path and the commit it was introduced at; an unambiguous exact rename keeps the id, and the id of a file that
was removed otherwise is never used again. -/
theorem lineage_invariant (h : Replayable uuid5 root repositoryId history) (hwalked : walked <+: history) :
    ∃ state, replay uuid5 root repositoryId walked = .ok state ∧
      (∀ path, path ∈ state.live ↔ isSafeRepoPath path ∧
        ∃ entry, treeAfter walked path.toByteArray = some entry ∧ entry.mode ≠ gitlinkMode) ∧
      (∀ path path' item item', state.live.lookup path = some item → state.live.lookup path' = some item' →
        item.logicalId = item'.logicalId → path = path') ∧
      (∀ path item, state.live.lookup path = some item →
        ∃ earlier commit rest, Introduced uuid5 root repositoryId walked item earlier commit rest) ∧
      (∀ earlier commit rest old new blob, walked = earlier ++ commit :: rest → ExactRename commit.decoded old new blob →
        ∃ id, idAfter uuid5 root repositoryId earlier old = some id ∧
          idAfter uuid5 root repositoryId (earlier ++ [commit]) new = some id) ∧
      ∀ earlier commit rest path blob id, walked = earlier ++ commit :: rest →
        (path, blob) ∈ removedFiles commit.decoded → (∀ new, ¬ExactRename commit.decoded path new blob) →
        idAfter uuid5 root repositoryId earlier path = some id → ∀ q, idAfter uuid5 root repositoryId walked q ≠ some id := by
  obtain ⟨rest, rfl⟩ := hwalked
  have hw : Replayable uuid5 root repositoryId walked := h.of_append
  obtain ⟨state, hreplay, -, hs⟩ := replay_ok hw
  refine ⟨state, hreplay, fun path => ?_, fun path path' item item' hi hi' => hs.liveDistinct hi hi',
    fun path item hitem => introduced_ok hw hreplay hitem, ?_, ?_⟩
  · have hkeyed := hs.keyed path
    rw [mem_iff_lookup, ne_eq, ← Option.map_eq_none_iff (f := fun item : Live I => item.blobOid), hkeyed, ← ne_eq,
      Option.ne_none_iff_exists']
    simp only [files_eq_some]
    constructor
    · rintro ⟨blob, hsafe, entry, htree, hfile, -⟩
      exact ⟨hsafe, entry, htree, hfile⟩
    · rintro ⟨hsafe, entry, htree, hfile⟩
      exact ⟨entry.oid, hsafe, entry, htree, hfile, rfl⟩
  · rintro earlier commit tail old new blob rfl hexact
    exact exactRename_keeps hw hexact
  · rintro earlier commit tail path blob id rfl hremoved hrename hid q
    exact removed_gone hw hremoved hrename hid q

end Claim

/-! ## A sample -/

def sampleUuid5 (namespaceId : Nat) (name : String) : Nat :=
  if namespaceId = 0x6ff9b4920edb50babb246c063fa0a74f then 0xf74c2913577d5649b7c7324574aeb7e5
  else if name = encodeComponents ["file", "a", "1111111111111111111111111111111111111111"] then
    0xf4aed91f3a7358b5a9bf107db75c2235
  else if name = encodeComponents ["file", "b", "1111111111111111111111111111111111111111"] then
    0xc1ead59e8276599095c8854b9c89a66e
  else if name = encodeComponents ["file", "c", "2222222222222222222222222222222222222222"] then
    0xca2a2f49e2dc5103a42c4b25a0adad46
  else 0x5d8b0b1d7a8154438281b6ab926bfdab

def sampleRoot : Nat := 0x6ff9b4920edb50babb246c063fa0a74f

def blobA : String := "aaaaaaaaaaaaaaaaaaaaaaaaaaaaaaaaaaaaaaaa"

def blobB : String := "bbbbbbbbbbbbbbbbbbbbbbbbbbbbbbbbbbbbbbbb"

/-- Two files and a submodule; then one file is renamed and the other deleted; then that one is added again. -/
def sampleHistory : List Commit :=
  [⟨"1111111111111111111111111111111111111111",
    [⟨.added, 0, "000000", "100644", noBlob, blobA, "a".toUTF8, none⟩,
      ⟨.added, 0, "000000", "100644", noBlob, blobB, "b".toUTF8, none⟩,
      ⟨.added, 0, "000000", gitlinkMode, noBlob, blobB, "lib".toUTF8, none⟩]⟩,
    ⟨"2222222222222222222222222222222222222222",
      [⟨.renamed, 100, "100644", "100644", blobA, blobA, "a".toUTF8, some "c".toUTF8⟩,
        ⟨.deleted, 0, "100644", "000000", blobB, noBlob, "b".toUTF8, none⟩]⟩,
    ⟨"3333333333333333333333333333333333333333",
      [⟨.added, 0, "000000", "100644", noBlob, blobB, "b".toUTF8, none⟩]⟩]

theorem sample_replayable : Replayable sampleUuid5 sampleRoot "repo" sampleHistory where
  repositoryValid := by rfl
  consistent := by decide +kernel
  oidsNodup := by decide +kernel
  noCollision := by unfold NoCollision; decide +kernel

/-- A submodule is in the tree, and no lineage. -/
theorem submodule_not_live : Replayable sampleUuid5 sampleRoot "repo" sampleHistory ∧
    ∃ state, replay sampleUuid5 sampleRoot "repo" sampleHistory = .ok state ∧
      treeAfter sampleHistory "lib".toByteArray ≠ none ∧ "lib" ∉ state.live := by
  obtain ⟨state, hreplay, -, hs⟩ := replay_ok sample_replayable
  refine ⟨sample_replayable, state, hreplay, by decide +kernel, fun hlive => ?_⟩
  have hnone : files (treeAfter sampleHistory) "lib" = none := rfl
  have hkeyed := (hs.keyed "lib").trans hnone
  exact mem_iff_lookup.1 hlive (Option.map_eq_none_iff.1 hkeyed)

theorem lineage_invariant_sample : ∃ state, replay sampleUuid5 sampleRoot "repo" sampleHistory = .ok state ∧
    (∀ path, path ∈ state.live ↔ isSafeRepoPath path ∧
      ∃ entry, treeAfter sampleHistory path.toByteArray = some entry ∧ entry.mode ≠ gitlinkMode) ∧
    ∀ path path' item item', state.live.lookup path = some item → state.live.lookup path' = some item' →
      item.logicalId = item'.logicalId → path = path' := by
  obtain ⟨state, hreplay, hkeyed, hdistinct, -⟩ := lineage_invariant sample_replayable (List.prefix_refl sampleHistory)
  exact ⟨state, hreplay, hkeyed, hdistinct⟩

/-- The renamed file keeps its id; the file that is added again has a new one. -/
example : idAfter sampleUuid5 sampleRoot "repo" sampleHistory "c" =
      idAfter sampleUuid5 sampleRoot "repo" (sampleHistory.take 1) "a" ∧
    idAfter sampleUuid5 sampleRoot "repo" sampleHistory "b" ≠
      idAfter sampleUuid5 sampleRoot "repo" (sampleHistory.take 1) "b" := by
  decide +kernel

end Indexing
