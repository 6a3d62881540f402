import AgentContext.Indexing.NetEntries
import AgentContext.Lib.Text

/-!
# The snapshot id is the net state

    net_identity   a scan lists the net state, under every limits, exactly when no path is of an awkward kind; the order of
                   its records does not matter; and then two checkouts have one snapshot id when, and only when, they have
                   the same net state and publish the same digests
-/

namespace Snapshots

open Scanner hiding Change
open Table (Dict ordered)
open WorkingTree (Node Checkout StatusOf Line Recorded Staged Change Letter StagedLetter Conflict)

/-! ## The records in another order -/

/-- The same records, each list in an order of its own. -/
structure SameRecords (scan scan' : RepositoryScan) : Prop where
  isDirty : scan.isDirty = scan'.isDirty
  modifiedPaths : scan.modifiedPaths.Perm scan'.modifiedPaths
  untrackedPaths : scan.untrackedPaths.Perm scan'.untrackedPaths
  changes : scan.changes.Perm scan'.changes
  gitlinks : scan.gitlinks.Perm scan'.gitlinks
  files : scan.files.Perm scan'.files
  untracked : scan.untracked.Perm scan'.untracked
  rejections : scan.rejections.Perm scan'.rejections

/-- Each path has one record of a kind. -/
structure Distinct (scan : RepositoryScan) : Prop where
  changes : (scan.changes.map (·.path)).Nodup
  gitlinks : (scan.gitlinks.map (·.path)).Nodup
  files : (scan.files.map (·.path)).Nodup
  untracked : (scan.untracked.map (·.path)).Nodup

section Order

variable {sdk : Sdk} {hashes : Hashes} {work : String → Node} {scan scan' : RepositoryScan}

theorem named_perm {α : Type} {name : α → String} {values values' : List α} (nodup : (values.map name).Nodup)
    (h : values.Perm values') :
    (Table.insertAll (values.map fun v => (name v, v)) ∅ : Dict String α) = Table.insertAll (values'.map fun v => (name v, v)) ∅ := by
  have hkeys : (values.map fun v => (name v, v)).map Prod.fst = values.map name := by
    rw [List.map_map]
    rfl
  exact Table.insertAll_perm (hkeys ▸ nodup) (h.map _)

theorem tablesOf_perm (hd : Distinct scan) (h : SameRecords scan scan') : tablesOf scan = tablesOf scan' := by
  unfold tablesOf
  rw [named_perm hd.files h.files, named_perm hd.untracked h.untracked, named_perm hd.changes h.changes,
    named_perm hd.gitlinks h.gitlinks]

theorem dirtyEntries_perm (hd : Distinct scan) (h : SameRecords scan scan') :
    dirtyEntries sdk hashes work scan' = dirtyEntries sdk hashes work scan := by
  have hrenamed : renamedFrom scan'.changes = renamedFrom scan.changes := by
    unfold renamedFrom
    exact (List.toFinset_eq_of_perm _ _ (h.changes.filterMap _)).symm
  have hchanged : changedPaths scan' = changedPaths scan := by
    unfold changedPaths
    rw [List.toFinset_eq_of_perm _ _ h.modifiedPaths, List.toFinset_eq_of_perm _ _ (h.changes.map _)]
  have huntracked : scan'.untrackedPaths.toFinset = scan.untrackedPaths.toFinset :=
    (List.toFinset_eq_of_perm _ _ h.untrackedPaths).symm
  have hrejections : scan'.rejections = [] ↔ scan.rejections = [] :=
    ⟨fun hn => (hn ▸ h.rejections).eq_nil, fun hn => (hn ▸ h.rejections.symm).eq_nil⟩
  unfold dirtyEntries foundOf
  rw [← tablesOf_perm hd h, hchanged, hrenamed, huntracked]
  simp only [hrejections]

end Order

/-! ## Published digests -/

section Digests

variable {c : Checkout Bytes Oid} {l : Listing} {o : ParsedOutput c l} {sdk : Sdk} {hashes : Hashes} {limits : ScanLimits}
  {raw : Bytes} {path : String}
variable {scan : RepositoryScan} {v : Change × Option String} {work : String → Node}

/-- The digest that goes with a state. -/
def publishedDigest (sdk : Sdk) (hashes : Hashes) (c : Checkout Bytes Oid) (raw : Bytes) (path : String) :
    Change → Option String
  | .gitlink => some (sdk.gitlinkDigest ((c.headPointer raw).map (·.1)) ((c.indexPointer raw).map (·.1)))
  | .deleted => none
  | .added | .modified | .untracked => if sdk.usesContent path then (content (c.work raw)).map hashes.sha256 else none

/-- The net state of a path, with its digest. -/
def netEntry (sdk : Sdk) (hashes : Hashes) (c : Checkout Bytes Oid) (raw : Bytes) : Option (Change × Option String) :=
  (c.net raw).map fun state => (state, (safePath raw).bind fun path => publishedDigest sdk hashes c raw path state)

theorem hashWorktreeFile_ok {node : Node} {cap : Nat} {sha256 : String}
    (h : hashWorktreeFile hashes node path cap = .ok (some sha256)) :
    ∃ bytes, content node = some bytes ∧ sha256 = hashes.sha256 bytes := by
  unfold hashWorktreeFile at h
  split at h
  · cases h
  · cases node with
    | missing | beyondLink | directory | link | special | repository => cases h
    | file bytes readable =>
      refine ⟨bytes, rfl, ?_⟩
      dsimp only at h
      split at h
      · cases h
      · split at h
        · cases h
        · cases h
          rfl

theorem digestOf_eq {known : Option String}
    (hknown : ∀ {sha256}, known = some sha256 → ∃ bytes, content (workOf c path) = some bytes ∧ sha256 = hashes.sha256 bytes)
    (hraw : safePath raw = some path) (hcomplete : ¬ (digestOf sdk hashes (workOf c) path known = none ∧ sdk.usesContent path)) :
    digestOf sdk hashes (workOf c) path known =
      if sdk.usesContent path then (content (c.work raw)).map hashes.sha256 else none := by
  cases huses : sdk.usesContent path with
  | false =>
    unfold digestOf
    rw [huses]
    rfl
  | true =>
    have hsome : ∀ {sha256}, digestOf sdk hashes (workOf c) path known = some sha256 →
        ∃ bytes, content (workOf c path) = some bytes ∧ sha256 = hashes.sha256 bytes := by
      intro sha256 h
      unfold digestOf at h
      rw [huses, if_neg (by decide)] at h
      cases known with
      | some known =>
        obtain rfl := Option.some.inj h
        exact hknown rfl
      | none =>
        cases hfile : hashWorktreeFile hashes (workOf c path) path identityHashCap with
        | error e => rw [hfile] at h; cases h
        | ok found =>
          rw [hfile] at h
          subst h
          exact hashWorktreeFile_ok hfile
    cases hd : digestOf sdk hashes (workOf c) path known with
    | none => exact absurd ⟨hd, huses⟩ hcomplete
    | some sha256 =>
      obtain ⟨bytes, hbytes, rfl⟩ := hsome hd
      rw [← workOf_of_safe hraw, hbytes]
      rfl

theorem mem_live_of_entry (h : (path, v) ∈ (dirtyEntries sdk hashes work scan).1) (hne : v.1 ≠ .deleted) :
    (path, v) ∈ (foundOf sdk hashes work scan).live := by
  unfold dirtyEntries at h
  rcases List.mem_append.1 h with h | h
  · obtain ⟨p, -, heq⟩ := List.mem_map.1 h
    obtain ⟨-, rfl⟩ := Prod.mk.inj heq
    exact absurd rfl hne
  · exact h

theorem digest_of_complete (hcomplete : (dirtyEntries sdk hashes work scan).2 = true)
    (h : (path, v) ∈ (dirtyEntries sdk hashes work scan).1) (hne : v.1 ≠ .deleted) :
    ¬ (v.2 = none ∧ sdk.usesContent path) := fun hnone => by
  have hall := (of_decide_eq_true hcomplete).2 _ (mem_live_of_entry h hne)
  exact hall ⟨hnone.1, hne, hnone.2⟩

theorem digest_published (h : Lists c l) (hraw : safePath raw = some path)
    (hcomplete : (dirtyEntries sdk hashes (workOf c) (o.scan hashes limits)).2 = true) {state : Change} {digest : Option String}
    (hentry : (path, state, digest) ∈ (dirtyEntries sdk hashes (workOf c) (o.scan hashes limits)).1) :
    digest = publishedDigest sdk hashes c raw path state := by
  have hdigest := fun hne => digest_of_complete hcomplete hentry hne
  have hverdict := mem_dirtyEntries.1 hentry
  unfold verdict at hverdict
  split at hverdict
  · obtain ⟨hstate, rfl⟩ := Prod.mk.inj (Option.some.inj hverdict)
    have hcases : state = .modified ∨ state = .untracked := by
      rw [← hstate]
      split
      · exact .inl rfl
      · exact .inr rfl
    have hne : state ≠ .deleted := by rcases hcases with rfl | rfl <;> exact Change.noConfusion
    have heq := digestOf_eq (fun hk => by
      obtain ⟨file, hfile, hsha⟩ := Option.bind_eq_some_iff.1 hk
      exact lookup_untracked h hfile hsha) hraw (hdigest hne)
    refine heq.trans ?_
    rcases hcases with rfl | rfl <;> rfl
  · split at hverdict
    · by_cases hne : c.headPointer raw = c.indexPointer raw
      · rw [changedVerdict_plain hraw hne] at hverdict
        by_cases hdel : (tablesOf (o.scan hashes limits)).Deleted path
        · rw [if_pos hdel] at hverdict
          obtain ⟨rfl, rfl⟩ := Prod.mk.inj (Option.some.inj hverdict)
          rfl
        · rw [if_neg hdel] at hverdict
          obtain ⟨hstate, rfl⟩ := Prod.mk.inj (Option.some.inj hverdict)
          have hcases : state = .added ∨ state = .modified := by
            rw [← hstate]
            unfold Tables.stateOf
            split
            · exact .inl rfl
            · exact .inr rfl
          have hnedel : state ≠ .deleted := by rcases hcases with rfl | rfl <;> exact Change.noConfusion
          have heq := digestOf_eq (fun hk => by
            obtain ⟨file, hfile, hsha⟩ := Option.bind_eq_some_iff.1 hk
            obtain ⟨rfl, hfact⟩ := lookup_tracked hfile
            exact hfact.sha256 hsha) hraw (hdigest hnedel)
          refine heq.trans ?_
          rcases hcases with rfl | rfl <;> rfl
      · rw [changedVerdict_gitlink hraw hne] at hverdict
        obtain ⟨rfl, rfl⟩ := Prod.mk.inj (Option.some.inj hverdict)
        rfl
    · rw [renamedFrom_eq h, if_neg (Finset.notMem_empty path)] at hverdict
      cases hverdict

end Digests

/-! ## The property and its condition -/

/-- The scan lists the net state: a path once, with the state it has in the end, and a path that is not taken is rejected. -/
structure NetListing (sdk : Sdk) (hashes : Hashes) (c : Checkout Bytes Oid) (scan : RepositoryScan) : Prop where
  once : ((dirtyEntries sdk hashes (workOf c) scan).1.map Prod.fst).Nodup
  named : ∀ {path v}, (path, v) ∈ (dirtyEntries sdk hashes (workOf c) scan).1 → ∃ raw, safePath raw = some path
  listed : ∀ {raw path}, safePath raw = some path → ∀ state,
    (∃ digest, (path, state, digest) ∈ (dirtyEntries sdk hashes (workOf c) scan).1) ↔ c.net raw = some state
  rejected : ∀ {raw}, safePath raw = none → c.net raw ≠ none → Rejected scan raw

/-- No path is of a kind that a scan lists otherwise than its net state says. -/
structure Unstraying (c : Checkout Bytes Oid) (hashes : Hashes) : Prop where
  taken : ∀ {raw path}, safePath raw = some path → ¬ Astray c hashes raw path
  untaken : ∀ {raw}, safePath raw = none → ¬ Lost c raw

/-- The snapshot id is one of the repository, the commit and the set of entries. -/
def OnEntrySets (sdk : Sdk) : Prop :=
  ∀ repositoryId head entries repositoryId' head' entries',
    (entries.map Prod.fst).Nodup → (entries'.map Prod.fst).Nodup →
    (sdk.snapshotId repositoryId head entries = sdk.snapshotId repositoryId' head' entries' ↔
      repositoryId = repositoryId' ∧ head = head' ∧ ∀ entry, entry ∈ entries ↔ entry ∈ entries')

section Identity

variable {c c' : Checkout Bytes Oid} {l l' : Listing} {o : ParsedOutput c l} {o' : ParsedOutput c' l'} {sdk : Sdk}
  {hashes : Hashes} {limits limits' : ScanLimits} {raw : Bytes} {path : String}
variable {v : Change × Option String}

theorem distinct_scan (h : Lists c l) : Distinct (o.scan hashes limits) :=
  ⟨changes_nodup, gitlinks_nodup, files_nodup, untracked_nodup h⟩

theorem verdict_safe (h : Lists c l) (hv : verdict sdk hashes (workOf c) (o.scan hashes limits) path = some v) :
    ∃ raw, safePath raw = some path := by
  unfold verdict at hv
  split at hv
  · next hu =>
    obtain ⟨raw, hraw, -⟩ := (mem_untrackedPaths h).1 hu
    exact ⟨raw, hraw⟩
  · split at hv
    · next hc => exact changed_safe h hc
    · rw [renamedFrom_eq h, if_neg (Finset.notMem_empty path)] at hv
      cases hv

theorem listed_iff {state : Change} :
    (∃ digest, (path, state, digest) ∈ (dirtyEntries sdk hashes (workOf c) (o.scan hashes limits)).1) ↔
      lists sdk hashes c (o.scan hashes limits) path = some state := by
  unfold lists
  rw [Option.map_eq_some_iff]
  constructor
  · rintro ⟨digest, hmem⟩
    exact ⟨(state, digest), mem_dirtyEntries.1 hmem, rfl⟩
  · rintro ⟨⟨state, digest⟩, hv, rfl⟩
    exact ⟨digest, mem_dirtyEntries.2 hv⟩

/-- The net state is listed when no path is of an awkward kind. -/
theorem netListing_of_unstraying (sdk : Sdk) (o : ParsedOutput c l) (limits : ScanLimits) (h : Lists c l) (hu : Unstraying c hashes) :
    NetListing sdk hashes c (o.scan hashes limits) where
  once := dirtyEntries_nodup _
  named hmem := verdict_safe h (mem_dirtyEntries.1 hmem)
  listed hraw state := by rw [listed_iff, lists_net h hraw (hu.taken hraw)]
  rejected hrefused hnet := rejected_of_net h hrefused hnet (hu.untaken hrefused)

theorem unstraying_of_netListing (sdk : Sdk) (o : ParsedOutput c l) (h : Lists c l) (hall : ∀ limits, NetListing sdk hashes c (o.scan hashes limits)) :
    Unstraying c hashes where
  taken := by
    intro raw path hraw hstray
    obtain ⟨limits, hne⟩ := hstray.misled (o := o) h hraw
    refine hne (Option.ext fun state => ?_)
    rw [← (hall limits).listed hraw state, listed_iff]
  untaken := by
    intro raw hrefused hlost
    obtain ⟨hnot, hnet⟩ := hlost.not_rejected (o := o) h
    exact hnot ((hall oneFile).rejected hrefused (hnet ▸ Option.some_ne_none _))

theorem mem_entries_iff (h : Lists c l) (hu : Unstraying c hashes)
    (hcomplete : (dirtyEntries sdk hashes (workOf c) (o.scan hashes limits)).2 = true) :
    (path, v) ∈ (dirtyEntries sdk hashes (workOf c) (o.scan hashes limits)).1 ↔
      ∃ raw, safePath raw = some path ∧ netEntry sdk hashes c raw = some v := by
  obtain ⟨state, digest⟩ := v
  have hnet := netListing_of_unstraying sdk o limits h hu
  constructor
  · intro hmem
    obtain ⟨raw, hraw⟩ := hnet.named hmem
    refine ⟨raw, hraw, ?_⟩
    unfold netEntry
    rw [(hnet.listed hraw state).1 ⟨digest, hmem⟩, digest_published h hraw hcomplete hmem, hraw]
    rfl
  · rintro ⟨raw, hraw, hentry⟩
    obtain ⟨state', hstate, heq⟩ := Option.map_eq_some_iff.1 hentry
    obtain ⟨rfl, rfl⟩ := Prod.mk.inj heq
    obtain ⟨digest, hmem⟩ := (hnet.listed hraw state').2 hstate
    rw [digest_published h hraw hcomplete hmem] at hmem
    rw [hraw]
    exact hmem

theorem net_of_refused (h : Lists c l) (hu : Unstraying c hashes)
    (hcomplete : (dirtyEntries sdk hashes (workOf c) (o.scan hashes limits)).2 = true) (hrefused : safePath raw = none) :
    netEntry sdk hashes c raw = none := by
  have hnil : (o.scan hashes limits).rejections = [] := (of_decide_eq_true hcomplete).1
  cases hnet : c.net raw with
  | none =>
    unfold netEntry
    rw [hnet]
    rfl
  | some state =>
    have hrejected := (netListing_of_unstraying sdk o limits h hu).rejected hrefused
      (hnet ▸ Option.some_ne_none state)
    unfold Rejected at hrejected
    rw [hnil] at hrejected
    exact absurd hrejected (not_or.2 ⟨List.not_mem_nil, List.not_mem_nil⟩)

theorem isDirty_of_complete (h : Lists c l) (hcomplete : (dirtyEntries sdk hashes (workOf c) (o.scan hashes limits)).2 = true) :
    (o.scan hashes limits).isDirty = true ↔ ∃ entry, entry ∈ (dirtyEntries sdk hashes (workOf c) (o.scan hashes limits)).1 := by
  have hnil : l.status.filterMap rejectedOf = [] := by
    have hall : (o.scan hashes limits).rejections = [] := (of_decide_eq_true hcomplete).1
    rw [rejections_eq] at hall
    exact (List.append_eq_nil_iff.1 hall).2
  rw [isDirty_iff, hnil]
  constructor
  · rintro (⟨p, hp⟩ | ⟨p, hp⟩ | hne)
    · have hv : ∃ v, verdict sdk hashes (workOf c) (o.scan hashes limits) p = some v := by
        unfold verdict
        split
        · exact ⟨_, rfl⟩
        · exact ⟨_, rfl⟩
      obtain ⟨v, hv⟩ := hv
      exact ⟨(p, v), mem_dirtyEntries.2 hv⟩
    · have hv : verdict sdk hashes (workOf c) (o.scan hashes limits) p =
          some (untrackedVerdict sdk hashes (workOf c) (o.scan hashes limits) p) := by
        unfold verdict
        rw [if_pos hp]
      exact ⟨(p, _), mem_dirtyEntries.2 hv⟩
    · exact absurd rfl hne
  · rintro ⟨⟨p, v⟩, hmem⟩
    have hv := mem_dirtyEntries.1 hmem
    unfold verdict at hv
    split at hv
    · next hu => exact .inr (.inl ⟨p, hu⟩)
    · split at hv
      · next hc => exact .inl ⟨p, hc⟩
      · rw [renamedFrom_eq h, if_neg (Finset.notMem_empty p)] at hv
        cases hv

/-- Two complete scans of checkouts without awkward paths have one snapshot id when their net entries are the same. -/
theorem runSnapshot_eq_iff (hsdk : OnEntrySets sdk) (h : Lists c l) (h' : Lists c' l') (hu : Unstraying c hashes)
    (hu' : Unstraying c' hashes) (hcomplete : (dirtyEntries sdk hashes (workOf c) (o.scan hashes limits)).2 = true)
    (hcomplete' : (dirtyEntries sdk hashes (workOf c') (o'.scan hashes limits')).2 = true) (sha256 : String → String)
    (repositoryId head : String) :
    (runSnapshot sdk hashes (workOf c) sha256 repositoryId head (o.scan hashes limits)).1 =
        (runSnapshot sdk hashes (workOf c') sha256 repositoryId head (o'.scan hashes limits')).1 ↔
      ∀ raw, netEntry sdk hashes c raw = netEntry sdk hashes c' raw := by
  have hrun : ∀ {c : Checkout Bytes Oid} {scan : RepositoryScan}, (dirtyEntries sdk hashes (workOf c) scan).2 = true →
      (runSnapshot sdk hashes (workOf c) sha256 repositoryId head scan).1 =
        if scan.isDirty then some (sdk.snapshotId repositoryId head (dirtyEntries sdk hashes (workOf c) scan).1) else none := by
    intro c scan hc
    unfold runSnapshot
    split
    · simp only [hc, if_true]
    · rfl
  have hdirty := isDirty_of_complete h hcomplete
  have hdirty' := isDirty_of_complete h' hcomplete'
  have hmem : ∀ {p v}, (p, v) ∈ (dirtyEntries sdk hashes (workOf c) (o.scan hashes limits)).1 ↔ _ :=
    mem_entries_iff h hu hcomplete
  have hmem' : ∀ {p v}, (p, v) ∈ (dirtyEntries sdk hashes (workOf c') (o'.scan hashes limits')).1 ↔ _ :=
    mem_entries_iff h' hu' hcomplete'
  have hsets : (∀ entry, entry ∈ (dirtyEntries sdk hashes (workOf c) (o.scan hashes limits)).1 ↔
      entry ∈ (dirtyEntries sdk hashes (workOf c') (o'.scan hashes limits')).1) ↔
      ∀ raw, netEntry sdk hashes c raw = netEntry sdk hashes c' raw := by
    constructor
    · intro hall raw
      cases hraw : safePath raw with
      | none => rw [net_of_refused h hu hcomplete hraw, net_of_refused h' hu' hcomplete' hraw]
      | some path =>
        refine Option.ext fun v => ?_
        have hiff := hall (path, v)
        rw [hmem, hmem'] at hiff
        constructor
        · intro hv
          obtain ⟨raw', hraw', hv'⟩ := hiff.1 ⟨raw, hraw, hv⟩
          exact safePath_inj hraw' hraw ▸ hv'
        · intro hv
          obtain ⟨raw', hraw', hv'⟩ := hiff.2 ⟨raw, hraw, hv⟩
          exact safePath_inj hraw' hraw ▸ hv'
    · rintro hall ⟨p, v⟩
      rw [hmem, hmem']
      simp only [hall]
  rw [hrun hcomplete, hrun hcomplete', ← hsets]
  by_cases hd : (o.scan hashes limits).isDirty = true
  · by_cases hd' : (o'.scan hashes limits').isDirty = true
    · rw [if_pos hd, if_pos hd', Option.some.injEq, hsdk _ _ _ _ _ _ (dirtyEntries_nodup _) (dirtyEntries_nodup _)]
      exact ⟨fun hall => hall.2.2, fun hall => ⟨rfl, rfl, hall⟩⟩
    · rw [if_pos hd, if_neg hd']
      obtain ⟨entry, hentry⟩ := hdirty.1 hd
      exact ⟨fun hne => absurd hne (Option.some_ne_none _), fun hall => absurd (hdirty'.2 ⟨entry, (hall entry).1 hentry⟩) hd'⟩
  · by_cases hd' : (o'.scan hashes limits').isDirty = true
    · rw [if_neg hd, if_pos hd']
      obtain ⟨entry, hentry⟩ := hdirty'.1 hd'
      exact ⟨fun hne => absurd hne.symm (Option.some_ne_none _), fun hall => absurd (hdirty.2 ⟨entry, (hall entry).2 hentry⟩) hd⟩
    · rw [if_neg hd, if_neg hd']
      refine ⟨fun _ entry => ?_, fun _ => rfl⟩
      exact ⟨fun hm => absurd (hdirty.2 ⟨entry, hm⟩) hd, fun hm => absurd (hdirty'.2 ⟨entry, hm⟩) hd'⟩

end Identity

/-- A scan of a checkout lists its net state under every limits exactly when no path is of an awkward kind; the order of the
scan's records never matters; and two complete scans of checkouts with no such path, under limits of their own, have one
snapshot id exactly when the checkouts have the same net state and publish the same digests. -/
theorem net_identity {sdk : Sdk} (hsdk : OnEntrySets sdk) (hashes : Hashes) {c c' : Checkout Bytes Oid} {l l' : Listing}
    (h : Lists c l) (h' : Lists c' l') :
    ((∀ limits, ∃ scan, Scanner.scan hashes (workOf c) limits (l.output c) = .ok scan ∧ NetListing sdk hashes c scan) ↔
      Unstraying c hashes) ∧
    (∀ limits scan scan', Scanner.scan hashes (workOf c) limits (l.output c) = .ok scan → SameRecords scan scan' →
      dirtyEntries sdk hashes (workOf c) scan' = dirtyEntries sdk hashes (workOf c) scan) ∧
    (Unstraying c hashes → Unstraying c' hashes → ∀ limits limits' scan scan',
      Scanner.scan hashes (workOf c) limits (l.output c) = .ok scan →
      Scanner.scan hashes (workOf c') limits' (l'.output c') = .ok scan' →
      (dirtyEntries sdk hashes (workOf c) scan).2 = true → (dirtyEntries sdk hashes (workOf c') scan').2 = true →
      ∀ sha256 repositoryId head,
        (runSnapshot sdk hashes (workOf c) sha256 repositoryId head scan).1 =
            (runSnapshot sdk hashes (workOf c') sha256 repositoryId head scan').1 ↔
          ∀ raw, netEntry sdk hashes c raw = netEntry sdk hashes c' raw) := by
  obtain ⟨o, hscan⟩ := exists_parsed h
  obtain ⟨o', hscan'⟩ := exists_parsed h'
  refine ⟨⟨fun hall => unstraying_of_netListing sdk o h fun limits => ?_, fun hu limits => ?_⟩, ?_, ?_⟩
  · obtain ⟨scan, hok, hnet⟩ := hall limits
    rw [hscan hashes limits] at hok
    exact Except.ok.inj hok ▸ hnet
  · exact ⟨o.scan hashes limits, hscan hashes limits, netListing_of_unstraying sdk o limits h hu⟩
  · intro limits scan scan' hok hsame
    rw [hscan hashes limits] at hok
    obtain rfl := Except.ok.inj hok
    exact dirtyEntries_perm (distinct_scan h) hsame
  · intro hu hu' limits limits' scan scan' hok hok' hcomplete hcomplete' sha256 repositoryId head
    rw [hscan hashes limits] at hok
    rw [hscan' hashes limits'] at hok'
    obtain rfl := Except.ok.inj hok
    obtain rfl := Except.ok.inj hok'
    exact runSnapshot_eq_iff hsdk h h' hu hu' hcomplete hcomplete' sha256 repositoryId head

/-! ## A checkout of one file -/

def entryParts (entry : SnapshotEntry) : List String :=
  [entry.1, stateText entry.2.1, match entry.2.2 with | none => "-" | some digest => "+" ++ digest]

/-- An SDK that writes out what the real one digests. -/
def sampleSdk : Sdk where
  usesContent path := ".py".toList.isSuffixOf path.toList
  gitlinkDigest _ _ := ""
  snapshotId repositoryId head entries :=
    Indexing.encodeComponents (repositoryId :: head :: (entries.insertionSort (·.1 ≤ ·.1)).flatMap entryParts)

theorem entryParts_inj {entries entries' : List SnapshotEntry} (h : entries.flatMap entryParts = entries'.flatMap entryParts) :
    entries = entries' := by
  have hstate : ∀ s s' : Change, stateText s = stateText s' → s = s' := by
    intro s s'
    cases s <;> cases s' <;> decide
  have hdigest : ∀ d d' : Option String,
      (match d with | none => "-" | some digest => "+" ++ digest) = (match d' with | none => "-" | some digest => "+" ++ digest) →
        d = d' := by
    intro d d' hd
    have hlist := congrArg String.toList hd
    cases d with
    | none =>
      cases d' with
      | none => rfl
      | some digest => simp [String.toList_append] at hlist
    | some digest =>
      cases d' with
      | none => simp [String.toList_append] at hlist
      | some digest' =>
        simp only [String.toList_append] at hlist
        rw [String.toList_injective (List.append_cancel_left hlist)]
  induction entries generalizing entries' with
  | nil =>
    cases entries' with
    | nil => rfl
    | cons entry' entries' => cases h
  | cons entry entries ih =>
    cases entries' with
    | nil => cases h
    | cons entry' entries' =>
      rw [List.flatMap_cons, List.flatMap_cons] at h
      unfold entryParts at h
      simp only [List.cons_append, List.nil_append, List.cons.injEq] at h
      obtain ⟨hpath, hs, hd, hrest⟩ := h
      have hentry : entry = entry' := Prod.ext hpath (Prod.ext (hstate _ _ hs) (hdigest _ _ hd))
      rw [hentry, ih hrest]

theorem sampleSdk_onEntrySets : OnEntrySets sampleSdk := by
  intro repositoryId head entries repositoryId' head' entries' hnodup hnodup'
  have hperm := List.perm_insertionSort (·.1 ≤ ·.1) entries
  have hperm' := List.perm_insertionSort (·.1 ≤ ·.1) entries'
  constructor
  · intro h
    have hparts := Text.frames_inj h
    simp only [List.cons.injEq] at hparts
    obtain ⟨rfl, rfl, hparts⟩ := hparts
    have heq := entryParts_inj hparts
    exact ⟨rfl, rfl, fun entry => (hperm.mem_iff.symm.trans (heq ▸ Iff.rfl)).trans hperm'.mem_iff⟩
  · rintro ⟨rfl, rfl, hmem⟩
    have hsame : entries.Perm entries' := (List.perm_ext_iff_of_nodup hnodup.of_map hnodup'.of_map).2 hmem
    have hsorted : entries.insertionSort (·.1 ≤ ·.1) = entries'.insertionSort (·.1 ≤ ·.1) := by
      refine List.Perm.eq_of_pairwise ?_ (List.pairwise_insertionSort _ _) (List.pairwise_insertionSort _ _)
        ((hperm.trans hsame).trans hperm'.symm)
      intro a b ha hb hab hba
      exact List.inj_on_of_nodup_map hnodup (hperm.mem_iff.1 ha) (hsame.mem_iff.2 (hperm'.mem_iff.1 hb)) (le_antisymm hab hba)
    show Indexing.encodeComponents _ = Indexing.encodeComponents _
    rw [hsorted]

def sampleHashes : Hashes where
  sha256 bytes := String.ofList (bytes.map fun b => Char.ofNat b.toNat)
  blob _ := []

def samplePath : Bytes := "a.py".toByteArray.data.toList

def sampleOid : Oid := ⟨List.replicate 40 97, by decide⟩

theorem safePath_sample : safePath samplePath = some "a.py" := safePath_eq_some.2 ⟨rfl, rfl⟩

/-- A checkout of one path, at which the working copy is never what a record says. -/
def single (head : Option (Recorded Oid)) (index : Option (Staged Oid)) (work : Node) : Checkout Bytes Oid where
  head raw := if raw = samplePath then head else none
  index raw := if raw = samplePath then index else none
  work raw := if raw = samplePath then work else .missing
  ignored _ := false
  same _ _ := false

section Single

variable {head : Option (Recorded Oid)} {index : Option (Staged Oid)} {work : Node}

theorem single_head : (single head index work).head samplePath = head := by simp only [single, if_true]

theorem single_index : (single head index work).index samplePath = index := by simp only [single, if_true]

theorem single_present : (single head index work).present samplePath = work.present := by
  simp only [Checkout.present, single, if_true]

end Single

/-- What is listed of a path that the index has, with the letters of its line. -/
def singleListing (head : Option (Recorded Oid)) (x y : Letter) : Listing where
  empty := sampleOid
  indexPaths := [samplePath]
  flags := [(72, samplePath)]
  headPaths := if head.isSome then [samplePath] else []
  status := [.ordinary samplePath x y [[], [], [], [], [], []]]

theorem single_lists {head : Option (Recorded Oid)} {mode : WorkingTree.FileMode} {oid : Oid} {work : Node} {x y : Letter}
    (hopen : head.bind Recorded.pointer = none) (hne : (x, y) ≠ (.unchanged, .unchanged))
    (hcode : (single head (some (.plain (.blob mode oid) false)) work).Code samplePath x y) :
    Lists (single head (some (.plain (.blob mode oid) false)) work) (singleListing head x y) where
  slashless := by
    intro raw hsome
    have hraw : raw = samplePath := by
      by_contra hnot
      simp [single, hnot] at hsome
    rw [hraw]
    decide +kernel
  indexOnce := List.nodup_singleton _
  index raw := by by_cases h : raw = samplePath <;> simp [singleListing, single, h]
  headOnce := by
    unfold singleListing
    split
    · exact List.nodup_singleton _
    · exact List.nodup_nil
  head raw := by by_cases h : raw = samplePath <;> cases head <;> simp [singleListing, single, h]
  flagNames line hline := by
    obtain rfl := List.mem_singleton.1 hline
    decide +kernel
  flags := by
    intro raw record flagged hraw
    have hflagged : flagged = false := by
      by_cases h : raw = samplePath
      · simp only [single, h, if_true, Option.some.injEq, Staged.plain.injEq] at hraw
        exact hraw.2.symm
      · simp [single, h] at hraw
    simp [singleListing, hflagged]
  wellFormed line hline := by
    obtain rfl := List.mem_singleton.1 hline
    exact ⟨rfl, by decide⟩
  status := by
    have hline : ∀ {p a b}, Line.tracked p a b ∈ (singleListing head x y).lines ↔ p = samplePath ∧ a = x ∧ b = y := by
      intro p a b
      simp [singleListing, Listing.lines, Porcelain.line]
    have hpointer : (single head (some (.plain (.blob mode oid) false)) work).headPointer samplePath = none := by
      unfold Checkout.headPointer
      simpa [single] using hopen
    refine ⟨List.nodup_singleton _, List.nodup_nil, ?_, ?_, ?_, ?_⟩
    · intro p a b hmem hhidden
      obtain ⟨rfl, -, -⟩ := hline.1 hmem
      rw [Checkout.Hidden, hpointer] at hhidden
      cases hhidden.1
    · intro p a b hmem _
      obtain ⟨rfl, rfl, rfl⟩ := hline.1 hmem
      exact ⟨hcode, hne⟩
    · intro p a b _ hcode' hne'
      by_cases h : p = samplePath
      · exact ⟨x, y, hline.2 ⟨h, rfl, rfl⟩⟩
      · refine absurd ?_ hne'
        simp only [Checkout.Code, single, h, if_false] at hcode'
        obtain ⟨ha, rfl⟩ := hcode'
        cases ha
        rfl
    · intro p
      refine ⟨fun hmem => ?_, fun hu => ?_⟩
      · simp [singleListing, Listing.lines, Porcelain.line] at hmem
      · obtain ⟨hindex, hpresent, -⟩ := hu
        by_cases h : p = samplePath
        · simp [single, h] at hindex
        · simp [Checkout.present, single, h, Node.present] at hpresent
  repositories hmem := by simp [singleListing] at hmem

/-- A file of HEAD, changed in the working tree. -/
def edited : Checkout Bytes Oid :=
  single (some (.blob .regular sampleOid)) (some (.plain (.blob .regular sampleOid) false)) (.file [49] true)

def editedListing : Listing := singleListing (some (.blob .regular sampleOid)) .unchanged .modified

theorem edited_index : edited.index samplePath = some (.plain (.blob .regular sampleOid) false) := single_index

theorem edited_head : edited.head samplePath = some (.blob .regular sampleOid) := single_head

theorem edited_present : edited.present samplePath = true := single_present

theorem edited_lists : Lists edited editedListing := by
  refine single_lists rfl (by decide) ((code_plain single_index).2 ⟨?_, ?_⟩)
  · rw [single_head]
    exact .kept
  · exact .changed edited_present rfl (.inl rfl)

theorem edited_unstraying : Unstraying edited sampleHashes := by
  have helse : ∀ {raw}, raw ≠ samplePath → edited.head raw = none ∧ edited.index raw = none := fun h => ⟨if_neg h, if_neg h⟩
  constructor
  · intro raw path _ hstray
    by_cases h : raw = samplePath
    · subst h
      cases hstray with
      | vanished ho hi hh hp => rw [edited_head] at hh; cases hh
      | intended _ hi | overlooked _ hi | unfound _ hi | conflict _ hi | conflictUnfound _ hi =>
        rw [edited_index] at hi; cases hi
      | reverted _ _ _ _ _ hsame | ignored _ _ _ _ hsame | converted _ _ _ _ hsame => cases hsame
      | replaced hne hu => rw [Checkout.Untracked, edited_index] at hu; cases hu.1
    · obtain ⟨hhead, hindex⟩ := helse h
      cases hstray with
      | vanished _ hi | intended _ hi | overlooked _ hi | unfound _ hi | conflict _ hi | conflictUnfound _ hi =>
        rw [hindex] at hi; cases hi
      | reverted _ _ _ _ _ hsame | ignored _ _ _ _ hsame | converted _ _ _ _ hsame => cases hsame
      | replaced hne hu =>
        unfold Checkout.headPointer Checkout.indexPointer at hne
        rw [hhead, hindex] at hne
        exact hne rfl
  · intro raw hrefused hlost
    by_cases h : raw = samplePath
    · rw [h, safePath_sample] at hrefused
      cases hrefused
    · have hlink := hlost.1
      unfold Checkout.headPointer at hlink
      rw [(helse h).1] at hlink
      cases hlink

/-- The edited file is listed under every limits, and only its net state makes the snapshot id. -/
theorem net_identity_edited :
    (∀ limits, ∃ scan, Scanner.scan sampleHashes (workOf edited) limits (editedListing.output edited) = .ok scan ∧
      NetListing sampleSdk sampleHashes edited scan) ∧
    ∀ limits limits' scan scan',
      Scanner.scan sampleHashes (workOf edited) limits (editedListing.output edited) = .ok scan →
      Scanner.scan sampleHashes (workOf edited) limits' (editedListing.output edited) = .ok scan' →
      (dirtyEntries sampleSdk sampleHashes (workOf edited) scan).2 = true →
      (dirtyEntries sampleSdk sampleHashes (workOf edited) scan').2 = true →
        (runSnapshot sampleSdk sampleHashes (workOf edited) id "r" "h" scan).1 =
          (runSnapshot sampleSdk sampleHashes (workOf edited) id "r" "h" scan').1 := by
  obtain ⟨hlist, -, hid⟩ := net_identity sampleSdk_onEntrySets sampleHashes edited_lists edited_lists
  refine ⟨hlist.2 edited_unstraying, fun limits limits' scan scan' hok hok' hc hc' => ?_⟩
  exact (hid edited_unstraying edited_unstraying limits limits' scan scan' hok hok' hc hc' id "r" "h").2 fun _ => rfl

/-- A file added to the index and removed from the working tree before it was ever committed. -/
def addedThenDeleted : Checkout Bytes Oid := single none (some (.plain (.blob .regular sampleOid) false)) .missing

def addedThenDeletedListing : Listing := singleListing none .added .deleted

theorem addedThenDeleted_index : addedThenDeleted.index samplePath = some (.plain (.blob .regular sampleOid) false) :=
  single_index

theorem addedThenDeleted_head : addedThenDeleted.head samplePath = none := single_head

theorem addedThenDeleted_absent : addedThenDeleted.present samplePath = false := single_present

theorem addedThenDeleted_open : addedThenDeleted.Open samplePath := by
  unfold Checkout.Open Checkout.headPointer Checkout.indexPointer
  rw [addedThenDeleted_index, addedThenDeleted_head]
  exact ⟨rfl, rfl⟩

theorem addedThenDeleted_lists : Lists addedThenDeleted addedThenDeletedListing := by
  refine single_lists rfl (by decide) ((code_plain single_index).2 ⟨?_, .deleted addedThenDeleted_absent⟩)
  rw [single_head]
  exact .added

/-- HEAD and the working tree do not have the path, and the scan lists it as deleted. -/
theorem addedThenDeleted_listed :
    Lists addedThenDeleted addedThenDeletedListing ∧ addedThenDeleted.head samplePath = none ∧
      addedThenDeleted.present samplePath = false ∧ addedThenDeleted.net samplePath = none ∧
      ∃ scan, Scanner.scan sampleHashes (workOf addedThenDeleted) oneFile (addedThenDeletedListing.output addedThenDeleted) =
          .ok scan ∧
        (∃ digest, ("a.py", .deleted, digest) ∈ (dirtyEntries sampleSdk sampleHashes (workOf addedThenDeleted) scan).1) ∧
        ¬ NetListing sampleSdk sampleHashes addedThenDeleted scan := by
  obtain ⟨o, hscan⟩ := exists_parsed addedThenDeleted_lists
  have hnet : addedThenDeleted.net samplePath = none :=
    WorkingTree.net_vanished addedThenDeleted_open addedThenDeleted_head addedThenDeleted_absent
  have hshows : addedThenDeletedListing.Shows samplePath [letterByte .added, letterByte .deleted] :=
    ⟨.added, .deleted, List.mem_singleton_self _, rfl⟩
  have hlisted : lists sampleSdk sampleHashes addedThenDeleted (o.scan sampleHashes oneFile) "a.py" = some .deleted := by
    rw [lists_shown addedThenDeleted_lists safePath_sample (not_untracked_of_index addedThenDeleted_index)
      addedThenDeleted_open hshows]
    exact congrArg some (if_pos (.inl (.inr rfl)))
  have hentry := listed_iff.2 hlisted
  refine ⟨addedThenDeleted_lists, addedThenDeleted_head, addedThenDeleted_absent, hnet, o.scan sampleHashes oneFile,
    hscan sampleHashes oneFile, hentry, fun hall => ?_⟩
  have hstate := (hall.listed safePath_sample .deleted).1 hentry
  rw [hnet] at hstate
  cases hstate

end Snapshots
