import AgentContext.Indexing.Identity
import Mathlib.Data.List.Perm.Basic
import Mathlib.Tactic.NormNum

/-!
# Rename resolution, whatever the order

The files and the guesses of `resolve_rename` come from iterables.  Its checks raise in one order of them if they do in
every order; past the checks the names are distinct, so the sorted lists are the same, and a guess that is made twice
keeps the greatest score.

    guessesFor_perm          the guesses of a path, in any order
    resolveRename_perm       the removed and the added files in any order
    resolveRename_resolved   what a resolution consists of
    resolveRename_sound      any order of all three, and what is carried where
-/

namespace Indexing

open Fallible Table List

/-! ## Checks -/

theorem require_eq_ok {check : Bool} {error : String} {u : Unit} : require check error = .ok u ↔ check = true := by
  unfold require
  cases check <;> simp

theorem canonicalPath_eq_ok {path value : String} : canonicalPath path = .ok value ↔ isSafeRepoPath path ∧ value = path := by
  unfold canonicalPath
  split
  · next h => exact ⟨fun heq => ⟨h, (Except.ok.inj heq).symm⟩, fun ⟨_, heq⟩ => heq ▸ rfl⟩
  · next h => exact ⟨nofun, fun ⟨hsafe, _⟩ => absurd hsafe h⟩

theorem oid_eq_ok {text value : String} : oid text = .ok value ↔ isOid text ∧ value = text := by
  unfold oid
  split
  · next h => exact ⟨fun heq => ⟨h, (Except.ok.inj heq).symm⟩, fun ⟨_, heq⟩ => heq ▸ rfl⟩
  · next h => exact ⟨nofun, fun ⟨hoid, _⟩ => absurd hoid h⟩

/-- The sorted list of items whose order tells them apart. -/
theorem insertionSort_perm {α : Type} {r : α → α → Prop} [DecidableRel r] [Std.Total r] [IsTrans α r] {as bs : List α}
    (hanti : ∀ a ∈ as, ∀ b ∈ as, r a b → r b a → a = b) (h : as.Perm bs) : as.insertionSort r = bs.insertionSort r := by
  have hperm : (as.insertionSort r).Perm (bs.insertionSort r) :=
    ((perm_insertionSort r as).trans h).trans (perm_insertionSort r bs).symm
  refine hperm.eq_of_pairwise (fun a b ha hb => ?_) (pairwise_insertionSort r as) (pairwise_insertionSort r bs)
  exact hanti a ((perm_insertionSort r as).mem_iff.1 ha) b (h.mem_iff.2 ((perm_insertionSort r bs).mem_iff.1 hb))

/-! ## The guesses -/

section Resolve

variable {I : Type} [LinearOrder I] {uuid5 : I → String → I} {root : I} {repositoryId commit : String}
  {prior prior' removed removed' : List (PriorFile I)} {appeared appeared' added added' : List NewFile}
  {similar similar' : List SimilarRename}
variable {resolution : RenameResolution I}

theorem lookup_addGuess {guesses : Dict I ℚ} {oldId id : I} {score : ℚ} : (addGuess guesses oldId score).lookup id =
      if id = oldId then some (max ((guesses.lookup oldId).getD 0) (min score similarityMaxConfidence))
      else guesses.lookup id := lookup_insert_eq

/-- Two guesses count in any order. -/
theorem addGuess_comm (guesses : Dict I ℚ) (a b : I) (s t : ℚ) :
    addGuess (addGuess guesses a s) b t = addGuess (addGuess guesses b t) a s := by
  refine Finmap.ext_lookup fun id => ?_
  simp only [lookup_addGuess]
  by_cases hab : a = b
  · subst hab
    by_cases hid : id = a
    · simp only [hid, if_true, Option.getD_some, max_right_comm]
    · simp only [hid, if_false]
  · by_cases hid : id = a
    · subst hid
      simp only [hab, if_true, if_false]
    · by_cases hid' : id = b
      · subst hid'
        simp only [Ne.symm hab, if_true, if_false]
      · simp only [hid, hid', if_false]

theorem guessesFor_perm (h : similar.Perm similar') (priorIds : Dict String I) (path : String) :
    guessesFor priorIds similar path = guessesFor priorIds similar' path := by
  refine h.foldl_eq' (fun a _ b _ guesses => ?_) ∅
  by_cases ha : a.newPath = path <;> by_cases hb : b.newPath = path <;> simp only [ha, hb, if_true, if_false]
  cases priorIds.lookup a.oldPath <;> cases priorIds.lookup b.oldPath <;> dsimp only
  exact addGuess_comm guesses _ _ _ _

theorem resolveOne_perm (h : similar.Perm similar') (file : NewFile) :
    resolveOne uuid5 root repositoryId commit prior appeared similar file =
      resolveOne uuid5 root repositoryId commit prior appeared similar' file := by
  unfold resolveOne linked
  simp only [guessesFor_perm h]

/-- A guess is of a removed file, and never sure. -/
theorem guessesFor_sound {priorIds : Dict String I} {path : String} {id : I} {confidence : ℚ}
    (h : (guessesFor priorIds similar path).lookup id = some confidence) :
    confidence ≤ similarityMaxConfidence ∧ ∃ oldPath, priorIds.lookup oldPath = some id := by
  have hadd : ∀ (guesses : Dict I ℚ) (guess : SimilarRename) (oldId : I), priorIds.lookup guess.oldPath = some oldId →
      (∀ id c, guesses.lookup id = some c → c ≤ similarityMaxConfidence ∧ ∃ oldPath, priorIds.lookup oldPath = some id) →
      ∀ id c, (addGuess guesses oldId guess.score).lookup id = some c →
        c ≤ similarityMaxConfidence ∧ ∃ oldPath, priorIds.lookup oldPath = some id := by
    intro guesses guess oldId hold hguesses id c hc
    rw [lookup_addGuess] at hc
    split at hc
    · next hid =>
      cases hc
      refine ⟨max_le ?_ (min_le_right _ _), guess.oldPath, hid ▸ hold⟩
      cases hheld : guesses.lookup oldId with
      | none =>
        unfold similarityMaxConfidence
        norm_num
      | some held => exact (hguesses oldId held hheld).1
    · exact hguesses id c hc
  refine foldlRecOn (motive := fun guesses : Dict I ℚ => ∀ id c, guesses.lookup id = some c →
    c ≤ similarityMaxConfidence ∧ ∃ oldPath, priorIds.lookup oldPath = some id) similar _ (fun _ _ hempty => ?_) ?_ id confidence h
  · exact nomatch (Finmap.lookup_empty _).symm.trans hempty
  · intro guesses hguesses guess _
    split
    · split
      · next hold => exact hadd guesses guess _ hold hguesses
      · exact hguesses
    · exact hguesses

/-! ## The resolution -/

/-- What `resolve_rename` checks. -/
structure Checked (commit : String) (removed : List (PriorFile I)) (added : List NewFile) (similar : List SimilarRename) :
    Prop where
  commitValid : isOid commit
  removedValid : ∀ item ∈ removed, isSafeRepoPath item.path ∧ isOid item.blobOid
  removedPaths : (removed.map (·.path)).Nodup
  removedIds : (removed.map (·.logicalId)).Nodup
  addedValid : ∀ file ∈ added, isSafeRepoPath file.path ∧ isOid file.blobOid
  addedPaths : (added.map (·.path)).Nodup
  similarValid : ∀ guess ∈ similar, (0 < guess.score ∧ guess.score ≤ 1) ∧
    (isSafeRepoPath guess.oldPath ∧ isSafeRepoPath guess.newPath) ∧
    guess.oldPath ∈ removed.map (·.path) ∧ guess.newPath ∈ added.map (·.path)

omit [LinearOrder I] in
theorem Checked.perm (h : Checked commit removed added similar) (hremoved : removed.Perm removed')
    (hadded : added.Perm added') (hsimilar : similar.Perm similar') : Checked commit removed' added' similar' where
  commitValid := h.commitValid
  removedValid item hi := h.removedValid item (hremoved.mem_iff.2 hi)
  removedPaths := (hremoved.map _).nodup_iff.1 h.removedPaths
  removedIds := (hremoved.map _).nodup_iff.1 h.removedIds
  addedValid file hf := h.addedValid file (hadded.mem_iff.2 hf)
  addedPaths := (hadded.map _).nodup_iff.1 h.addedPaths
  similarValid guess hg := by
    obtain ⟨hscore, hsafe, hold, hnew⟩ := h.similarValid guess (hsimilar.mem_iff.2 hg)
    exact ⟨hscore, hsafe, (hremoved.map _).mem_iff.1 hold, (hadded.map _).mem_iff.1 hnew⟩

/-- `sorted(removed, …)`. -/
def sortedPrior (removed : List (PriorFile I)) : List (PriorFile I) :=
  removed.insertionSort fun a b => toLex (a.path, a.logicalId) ≤ toLex (b.path, b.logicalId)

/-- `sorted(added, …)`. -/
def sortedAdded (added : List NewFile) : List NewFile := added.insertionSort fun a b => a.path ≤ b.path

theorem resolveRename_eq_ok : resolveRename uuid5 root repositoryId commit removed added similar = .ok resolution ↔
      Checked commit removed added similar ∧ ∃ resolved,
        (sortedAdded added).mapM (resolveOne uuid5 root repositoryId commit (sortedPrior removed) (sortedAdded added) similar) =
          .ok resolved ∧
        resolution = ⟨insertAll (resolved.map (·.1)) ∅, resolved.flatMap (·.2)⟩ := by
  have hperm : (sortedPrior removed).Perm removed := perm_insertionSort _ _
  have hperm' : (sortedAdded added).Perm added := perm_insertionSort _ _
  unfold resolveRename
  simp only [bind_eq_ok, forM_eq_ok, require_eq_ok, discard_eq_ok, canonicalPath_eq_ok, oid_eq_ok, decide_eq_true_eq,
    exists_const, exists_eq_right, exists_and_left, and_assoc, exists_eq_left]
  change _ ∧ _ ∧ (map (fun x => x.path) (sortedAdded added)).Nodup ∧ _ ∧ (∀ a ∈ sortedPrior removed, _) ∧
    (∀ a ∈ sortedAdded added, _) ∧ (map (fun x => x.path) (sortedPrior removed)).Nodup ∧
    (map (fun x => x.logicalId) (sortedPrior removed)).Nodup ∧
    (∀ a ∈ similar, _ ∧ _ ∧ _ ∧ _ ∧ a.oldPath ∈ map (fun x => x.path) (sortedPrior removed) ∧
      a.newPath ∈ map (fun x => x.path) (sortedAdded added)) ∧ _ ↔ _
  simp only [hperm.mem_iff, hperm'.mem_iff, (hperm.map _).mem_iff, (hperm'.map _).mem_iff, (hperm.map _).nodup_iff,
    (hperm'.map _).nodup_iff]
  constructor
  · rintro ⟨hpath, hpath', hadded, hcommit, hoid, hoid', hpaths, hids, hsimilar, resolved, hresolved, heq⟩
    refine ⟨⟨hcommit, fun item hi => ⟨hpath item hi, hoid item hi⟩, hpaths, hids, fun file hf => ⟨hpath' file hf, hoid' file hf⟩,
      hadded, fun guess hg => ?_⟩, resolved, hresolved, (Except.ok.inj heq).symm⟩
    obtain ⟨hpos, hle, hold, hnew, hmem⟩ := hsimilar guess hg
    exact ⟨⟨hpos, hle⟩, ⟨hold, hnew⟩, hmem⟩
  · rintro ⟨h, resolved, hresolved, rfl⟩
    refine ⟨fun item hi => (h.removedValid item hi).1, fun file hf => (h.addedValid file hf).1, h.addedPaths, h.commitValid,
      fun item hi => (h.removedValid item hi).2, fun file hf => (h.addedValid file hf).2, h.removedPaths, h.removedIds,
      fun guess hg => ?_, resolved, hresolved, rfl⟩
    obtain ⟨⟨hpos, hle⟩, ⟨hold, hnew⟩, hmem⟩ := h.similarValid guess hg
    exact ⟨hpos, hle, hold, hnew, hmem⟩

/-- Past the checks, the sorted lists do not depend on the order. -/
theorem sortedPrior_perm (hids : (removed.map (·.logicalId)).Nodup) (h : removed.Perm removed') :
    sortedPrior removed = sortedPrior removed' := by
  refine insertionSort_perm (fun a ha b hb hab hba => ?_) h
  have hkey := Prod.mk.inj (toLex.injective (le_antisymm hab hba))
  exact inj_on_of_nodup_map hids ha hb hkey.2

theorem sortedAdded_perm (hpaths : (added.map (·.path)).Nodup) (h : added.Perm added') :
    sortedAdded added = sortedAdded added' :=
  insertionSort_perm (fun _ ha _ hb hab hba => inj_on_of_nodup_map hpaths ha hb (le_antisymm hab hba)) h

/-- A resolution in one order is one in every order. -/
theorem resolveRename_perm (hremoved : removed.Perm removed') (hadded : added.Perm added')
    (hsimilar : similar.Perm similar')
    (h : resolveRename uuid5 root repositoryId commit removed added similar = .ok resolution) :
    resolveRename uuid5 root repositoryId commit removed' added' similar' = .ok resolution := by
  obtain ⟨hchecked, resolved, hresolved, heq⟩ := resolveRename_eq_ok.1 h
  refine resolveRename_eq_ok.2 ⟨hchecked.perm hremoved hadded hsimilar, resolved, ?_, heq⟩
  rw [← sortedPrior_perm hchecked.removedIds hremoved, ← sortedAdded_perm hchecked.addedPaths hadded, ← hresolved]
  exact congrArg (fun f => mapM f (sortedAdded added)) (funext fun file => (resolveOne_perm hsimilar file).symm)

/-! ## What is carried -/

/-- The id of a file that disappeared is carried to a path that appeared: the two are the only ones with their blob. -/
structure Carried (removed : List (PriorFile I)) (added : List NewFile) (source : PriorFile I) (file : NewFile) : Prop where
  sourceRemoved : source ∈ removed
  fileAdded : file ∈ added
  sameBlob : source.blobOid = file.blobOid
  moved : source.path ≠ file.path
  onlySource : ∀ item ∈ removed, item.blobOid = file.blobOid → item = source
  onlyFile : ∀ new ∈ added, new.blobOid = file.blobOid → new = file

/-- What a supersession of a path says: a removed file, with a confidence that is no proof. -/
structure Candidate (removed : List (PriorFile I)) (newId : I) (supersession : Supersession I) : Prop where
  new : supersession.newLogicalId = newId
  old : ∃ source ∈ removed, source.logicalId = supersession.oldLogicalId
  unsure : supersession.confidence < 1

/-- A link is to a removed file, and below 1 whatever it is based on. -/
theorem mem_linked {file : NewFile} {entry : I × Basis × ℚ} (h : entry ∈ items (linked prior similar file)) :
    (∃ source ∈ prior, source.logicalId = entry.1) ∧ entry.2.2 < 1 := by
  obtain ⟨id, basis, confidence⟩ := entry
  set priorIds : Dict String I := insertAll (prior.map fun item => (item.path, item.logicalId)) ∅ with hpriorIds
  set byBlob : Dict I (Basis × ℚ) := insertAll ((prior.filter (·.blobOid = file.blobOid)).map fun source =>
    (source.logicalId, Basis.ambiguousBlobMatch, 1 / 2)) ∅ with hbyBlob
  have hprior : ∀ {path oldId}, priorIds.lookup path = some oldId → ∃ source ∈ prior, source.logicalId = oldId := by
    intro path oldId hlookup
    rcases mem_of_lookup_insertAll hlookup with hmem | hempty
    · obtain ⟨source, hsource, heq⟩ := mem_map.1 hmem
      exact ⟨source, hsource, (Prod.mk.inj heq).2⟩
    · exact nomatch (Finmap.lookup_empty _).symm.trans hempty
  have hblob : ∀ {id basis confidence}, byBlob.lookup id = some (basis, confidence) →
      (∃ source ∈ prior, source.logicalId = id) ∧ confidence < 1 := by
    intro id basis confidence hlookup
    rcases mem_of_lookup_insertAll hlookup with hmem | hempty
    · obtain ⟨source, hsource, heq⟩ := mem_map.1 hmem
      cases heq
      exact ⟨⟨source, mem_of_mem_filter hsource, rfl⟩, by norm_num⟩
    · exact nomatch (Finmap.lookup_empty _).symm.trans hempty
  have hsimilar : ∀ {id basis confidence},
      (insertAll ((items (guessesFor priorIds similar file.path)).map fun guess => (guess.1, Basis.similarity, guess.2))
        byBlob).lookup id = some (basis, confidence) → (∃ source ∈ prior, source.logicalId = id) ∧ confidence < 1 := by
    intro id basis confidence hlookup
    rcases mem_of_lookup_insertAll hlookup with hmem | hold
    · obtain ⟨guess, hguess, heq⟩ := mem_map.1 hmem
      cases heq
      obtain ⟨hle, path, hpath⟩ := guessesFor_sound (mem_items.1 hguess)
      refine ⟨hprior hpath, lt_of_le_of_lt hle ?_⟩
      unfold similarityMaxConfidence
      norm_num
    · exact hblob hold
  have hlookup : (linked prior similar file).lookup id = some (basis, confidence) := mem_items.1 h
  unfold linked at hlookup
  dsimp only at hlookup
  rw [← hpriorIds, ← hbyBlob] at hlookup
  split at hlookup
  · next oldId hold =>
    rw [lookup_insert_eq] at hlookup
    split at hlookup
    · next hid =>
      cases hlookup
      exact ⟨hid ▸ hprior hold, by norm_num⟩
    · exact hsimilar hlookup
  · exact hsimilar hlookup

theorem resolveOne_sound {file : NewFile} {entry : String × I} {supersessions : List (Supersession I)}
    (h : resolveOne uuid5 root repositoryId commit prior appeared similar file = .ok (entry, supersessions)) :
    entry.1 = file.path ∧
      ((∃ source, exactSource prior appeared file = some source ∧ entry.2 = source.logicalId ∧ supersessions = []) ∨
        exactSource prior appeared file = none ∧ fileLogicalId uuid5 root repositoryId file.path commit = .ok entry.2 ∧
          ∀ supersession ∈ supersessions, Candidate prior entry.2 supersession) := by
  unfold resolveOne at h
  cases hexact : exactSource prior appeared file with
  | some source =>
    rw [hexact] at h
    cases h
    exact ⟨rfl, .inl ⟨source, rfl, rfl, rfl⟩⟩
  | none =>
    rw [hexact] at h
    obtain ⟨newId, hid, heq⟩ := bind_eq_ok.1 h
    cases heq
    refine ⟨rfl, .inr ⟨rfl, hid, fun supersession hs => ?_⟩⟩
    obtain ⟨entry, hentry, rfl⟩ := mem_map.1 hs
    obtain ⟨hold, hlt⟩ := mem_linked hentry
    exact ⟨rfl, hold, hlt⟩

/-- What a resolution of these files is: which ids are carried where, and what the others supersede. -/
structure Resolved (uuid5 : I → String → I) (root : I) (repositoryId commit : String) (removed : List (PriorFile I))
    (added : List NewFile) (resolution : RenameResolution I) : Prop where
  paths : ∀ path, path ∈ resolution.logicalIds ↔ path ∈ added.map (·.path)
  carried : ∀ source file, Carried removed added source file →
    resolution.logicalIds.lookup file.path = some source.logicalId
  fresh : ∀ file ∈ added, (∀ source, ¬Carried removed added source file) →
    ∃ newId, fileLogicalId uuid5 root repositoryId file.path commit = .ok newId ∧
      resolution.logicalIds.lookup file.path = some newId
  carriedOnce : ∀ source file source' file', Carried removed added source file → Carried removed added source' file' →
    source.logicalId = source'.logicalId → file.path = file'.path
  receivedOnce : ∀ source file source' file', Carried removed added source file → Carried removed added source' file' →
    file.path = file'.path → source.logicalId = source'.logicalId
  candidates : ∀ supersession ∈ resolution.supersessions, ∃ file ∈ added, (∀ source, ¬Carried removed added source file) ∧
    resolution.logicalIds.lookup file.path = some supersession.newLogicalId ∧
    Candidate removed supersession.newLogicalId supersession

omit [LinearOrder I] in
theorem exactSource_carried {file : NewFile} {source : PriorFile I} (hchecked : Checked commit removed added similar)
    (hprior : prior.Perm removed) (happeared : appeared.Perm added) (hfile : file ∈ added) :
    exactSource prior appeared file = some source ↔ Carried removed added source file := by
  have hnodup : prior.Nodup := hprior.nodup_iff.2 (List.Nodup.of_map _ hchecked.removedPaths)
  have hnodup' : appeared.Nodup := happeared.nodup_iff.2 (List.Nodup.of_map _ hchecked.addedPaths)
  rw [exactSource_eq_some hnodup hnodup' (happeared.mem_iff.2 hfile)]
  simp only [hprior.mem_iff, happeared.mem_iff]
  exact ⟨fun ⟨hmem, hblob, hmoved, hsource, hnew⟩ => ⟨hmem, hfile, hblob, hmoved, hsource, hnew⟩,
    fun h => ⟨h.sourceRemoved, h.sameBlob, h.moved, h.onlySource, h.onlyFile⟩⟩

theorem resolveRename_resolved
    (h : resolveRename uuid5 root repositoryId commit removed added similar = .ok resolution) :
    Resolved uuid5 root repositoryId commit removed added resolution := by
  obtain ⟨hchecked, resolved, hresolved, rfl⟩ := resolveRename_eq_ok.1 h
  have hperm : (sortedPrior removed).Perm removed := perm_insertionSort _ _
  have hperm' : (sortedAdded added).Perm added := perm_insertionSort _ _
  have hall := mapM_eq_ok.1 hresolved
  have hexact : ∀ {file source}, file ∈ added →
      (exactSource (sortedPrior removed) (sortedAdded added) file = some source ↔ Carried removed added source file) :=
    fun hfile => exactSource_carried hchecked hperm hperm' hfile
  have hnone : ∀ {file}, file ∈ added → (exactSource (sortedPrior removed) (sortedAdded added) file = none ↔
      ∀ source, ¬Carried removed added source file) := by
    intro file hfile
    rw [Option.eq_none_iff_forall_ne_some]
    exact forall_congr' fun source => not_congr (hexact hfile)
  -- the entries are of the added paths, one each
  have hnames : (resolved.map (·.1)).map Prod.fst = (sortedAdded added).map (·.path) := by
    rw [map_map]
    exact forall₂_map hall fun file entry hone => (resolveOne_sound hone).1
  have hnodup : ((resolved.map (·.1)).map Prod.fst).Nodup := by
    rw [hnames]
    exact (hperm'.map _).nodup_iff.2 hchecked.addedPaths
  have hlookup : ∀ {file entry}, entry ∈ resolved →
      resolveOne uuid5 root repositoryId commit (sortedPrior removed) (sortedAdded added) similar file = .ok entry →
      (insertAll (resolved.map (·.1)) ∅).lookup file.path = some entry.1.2 := by
    intro file entry hentry hone
    rw [← (resolveOne_sound hone).1]
    exact lookup_insertAll_of_mem hnodup (mem_map_of_mem hentry)
  constructor
  case paths =>
    intro path
    rw [mem_iff_lookup, ← (hperm'.map _).mem_iff, ← hnames]
    constructor
    · intro hlookup
      by_contra hpath
      exact hlookup (by rw [lookup_insertAll_of_notMem hpath, Finmap.lookup_empty])
    · intro hpath
      obtain ⟨entry, hentry, rfl⟩ := mem_map.1 hpath
      rw [lookup_insertAll_of_mem hnodup hentry]
      exact Option.some_ne_none _
  case carried =>
    intro source file hcarried
    obtain ⟨entry, hentry, hone⟩ := forall₂_left hall file (hperm'.mem_iff.2 hcarried.fileAdded)
    have hsource := (hexact hcarried.fileAdded).2 hcarried
    rw [hlookup hentry hone]
    rcases (resolveOne_sound hone).2 with ⟨source', hsource', hid, -⟩ | ⟨hempty, -⟩
    · rw [hid, Option.some.inj (hsource'.symm.trans hsource)]
    · exact nomatch hempty.symm.trans hsource
  case fresh =>
    intro file hfile hcarried
    obtain ⟨entry, hentry, hone⟩ := forall₂_left hall file (hperm'.mem_iff.2 hfile)
    rcases (resolveOne_sound hone).2 with ⟨source, hsource, -, -⟩ | ⟨-, hid, -⟩
    · exact absurd ((hexact hfile).1 hsource) (hcarried source)
    · exact ⟨entry.1.2, hid, hlookup hentry hone⟩
  case carriedOnce =>
    intro source file source' file' hcarried hcarried' hid
    have hsame : source = source' :=
      inj_on_of_nodup_map hchecked.removedIds hcarried.sourceRemoved hcarried'.sourceRemoved hid
    subst hsame
    rw [hcarried.onlyFile file' hcarried'.fileAdded (hcarried'.sameBlob.symm.trans hcarried.sameBlob)]
  case receivedOnce =>
    intro source file source' file' hcarried hcarried' hpath
    have hsame : file = file' :=
      inj_on_of_nodup_map hchecked.addedPaths hcarried.fileAdded hcarried'.fileAdded hpath
    subst hsame
    rw [hcarried.onlySource source' hcarried'.sourceRemoved hcarried'.sameBlob]
  case candidates =>
    intro supersession hs
    obtain ⟨entry, hentry, hmem⟩ := mem_flatMap.1 hs
    obtain ⟨file, hfile, hone⟩ := forall₂_right hall entry hentry
    rcases (resolveOne_sound hone).2 with ⟨-, -, -, hempty⟩ | ⟨hempty, -, hcandidates⟩
    · rw [hempty] at hmem
      exact nomatch hmem
    · have hcandidate := hcandidates supersession hmem
      obtain ⟨source, hsource, hold⟩ := hcandidate.old
      refine ⟨file, hperm'.mem_iff.1 hfile, (hnone (hperm'.mem_iff.1 hfile)).1 hempty, ?_, rfl, ?_, hcandidate.unsure⟩
      · rw [hlookup hentry hone, hcandidate.new]
      · exact ⟨source, hperm.mem_iff.1 hsource, hold⟩

/-- **Rename resolution is order-free and injective.**  The removed files, the added files and the guesses give one result
in any order of each; an id is carried to one path at most, a path receives one carried id at most and has exactly one id
in all, and a candidate for another path is below 1. -/
theorem resolveRename_sound (hremoved : removed.Perm removed') (hadded : added.Perm added') (hsimilar : similar.Perm similar')
    (resolution : RenameResolution I) :
    (resolveRename uuid5 root repositoryId commit removed added similar = .ok resolution ↔
      resolveRename uuid5 root repositoryId commit removed' added' similar' = .ok resolution) ∧
    (resolveRename uuid5 root repositoryId commit removed added similar = .ok resolution →
      Resolved uuid5 root repositoryId commit removed added resolution) :=
  ⟨⟨resolveRename_perm hremoved hadded hsimilar, resolveRename_perm hremoved.symm hadded.symm hsimilar.symm⟩,
    resolveRename_resolved⟩

end Resolve

/-! ## A sample -/

/-- A file that was moved, and one that was rewritten elsewhere. -/
def movedFiles : List (PriorFile Nat) :=
  [⟨"a", 1, "aaaaaaaaaaaaaaaaaaaaaaaaaaaaaaaaaaaaaaaa"⟩, ⟨"b", 2, "bbbbbbbbbbbbbbbbbbbbbbbbbbbbbbbbbbbbbbbb"⟩]

def movedTo : List NewFile :=
  [⟨"c", "aaaaaaaaaaaaaaaaaaaaaaaaaaaaaaaaaaaaaaaa"⟩, ⟨"d", "dddddddddddddddddddddddddddddddddddddddd"⟩]

def lengthUuid5 (namespaceId : Nat) (name : String) : Nat := namespaceId + name.length

theorem moved_resolvable :
    Resolvable "repo" "1111111111111111111111111111111111111111" movedFiles movedTo [⟨"b", "d", 1 / 2⟩, ⟨"b", "d", 3 / 4⟩] where
  repositoryValid := by rfl
  commitValid := rfl
  removedValid := by decide +kernel
  removedPaths := by decide +kernel
  removedIds := by decide +kernel
  addedValid := by decide +kernel
  addedPaths := by decide +kernel
  similarValid := by decide +kernel

theorem resolveRename_sound_swapped : ∃ resolution,
    resolveRename lengthUuid5 0 "repo" "1111111111111111111111111111111111111111" movedFiles.reverse movedTo.reverse
      [⟨"b", "d", 3 / 4⟩, ⟨"b", "d", 1 / 2⟩] = .ok resolution ∧
    resolution.logicalIds.lookup "c" = some 1 ∧ ∀ supersession ∈ resolution.supersessions, supersession.confidence < 1 := by
  obtain ⟨resolution, hresolution, -⟩ := @resolveRename_ok Nat _ lengthUuid5 0 _ _ _ _ _ moved_resolvable
  have hsound := @resolveRename_sound Nat _ lengthUuid5 0 "repo" "1111111111111111111111111111111111111111" _ _ _ _ _ _
    (List.reverse_perm movedFiles).symm (List.reverse_perm movedTo).symm
    (List.Perm.swap ⟨"b", "d", 3 / 4⟩ ⟨"b", "d", 1 / 2⟩ []) resolution
  have hresolved := hsound.2 hresolution
  have hcarried : Carried movedFiles movedTo ⟨"a", 1, "aaaaaaaaaaaaaaaaaaaaaaaaaaaaaaaaaaaaaaaa"⟩
      ⟨"c", "aaaaaaaaaaaaaaaaaaaaaaaaaaaaaaaaaaaaaaaa"⟩ :=
    ⟨by decide, by decide, rfl, by decide, by decide, by decide⟩
  refine ⟨resolution, hsound.1.1 hresolution, hresolved.carried _ _ hcarried, fun supersession hs => ?_⟩
  obtain ⟨_, _, _, _, hcandidate⟩ := hresolved.candidates supersession hs
  exact hcandidate.unsure

end Indexing
