import AgentContext.Content.System

/-!
# Content never dangles

Whoever acts on a digest holds its lock: an attach from before it verifies the object until its rows are committed, a
sweep from before it looks for a row until the object is gone.

    Inv    committed rows name objects of the store; so do the rows an attach has inserted or is about to insert;
           a sweep about to delete an object has seen no row of its digest, and there is none
-/

namespace Content

open Locking Transition

/-- A row's object is there, under the key of its digest. -/
structure Stored (store : Store) (digest key : List Char) : Prop where
  parsed : parseCanonicalKey key = some digest
  there : (store key).isSome = true

/-- What an attach has verified so far is stored, and its digests are locked. -/
structure AttachInv (w : World) (id : Nat) (attach : Attach) : Prop where
  rows : ∀ row ∈ attach.rows,
    Stored w.store row.contentSha256 row.objectKey ∧ w.locks.Holds (.attach id) (lockKey row.contentSha256)
  locked : attach.stage ≠ .next → ∀ digest blob rest, attach.todo = (digest, blob) :: rest →
    w.locks.Holds (.attach id) (lockKey digest)
  headed : ∀ seen, attach.stage = .headed seen → ∀ digest blob rest, attach.todo = (digest, blob) :: rest →
    parseCanonicalKey blob.objectKey = some digest
  verified : attach.stage = .verified → ∀ digest blob rest, attach.todo = (digest, blob) :: rest →
    Stored w.store digest blob.objectKey

/-- A sweep holds the lock of the digest it is at; before it deletes there is no committed row. -/
def SweepInv (w : World) (id : Nat) : SweepStage → Prop
  | .idle => True
  | .locked key digest => parseCanonicalKey key = some digest ∧ w.locks.Holds (.sweep id) (lockKey digest)
  | .absent key digest => parseCanonicalKey key = some digest ∧ w.locks.Holds (.sweep id) (lockKey digest) ∧
      ∀ row ∈ w.rows, row.contentSha256 ≠ digest
  | .deleted key digest => parseCanonicalKey key = some digest ∧ w.locks.Holds (.sweep id) (lockKey digest)

structure Inv (w : World) : Prop where
  rows : ∀ row ∈ w.rows, Stored w.store row.contentSha256 row.objectKey
  attaches : ∀ id attach, w.attaches id = some attach → AttachInv w id attach
  sweeps : ∀ id sweep, w.sweeps id = some sweep → SweepInv w id sweep.stage

theorem Inv.start (store : Store) (now : Int) : Inv (World.start store now) where
  rows := fun _ h => (nomatch h)
  attaches := fun _ _ h => (nomatch h)
  sweeps := fun _ _ h => (nomatch h)

/-! ## Frames -/

section Frame

variable {w w' : World}
variable {id : Nat}
variable {sweep : Option Sweep}

theorem Stored.mono {store store' : Store} {digest key : List Char} (h : Stored store digest key)
    (hstore : ∀ key, (store key).isSome = true → (store' key).isSome = true) : Stored store' digest key :=
  ⟨h.parsed, hstore key h.there⟩

/-- More objects, the same catalog: nothing is lost. -/
theorem AttachInv.mono {attach : Attach} (h : AttachInv w id attach)
    (hstore : ∀ key, (w.store key).isSome = true → (w'.store key).isSome = true)
    (hlocks : ∀ k, w.locks.Holds (.attach id) k → w'.locks.Holds (.attach id) k) : AttachInv w' id attach where
  rows := fun row hrow => ⟨(h.rows row hrow).1.mono hstore, hlocks _ (h.rows row hrow).2⟩
  locked := fun hstage digest blob rest htodo => hlocks _ (h.locked hstage digest blob rest htodo)
  headed := h.headed
  verified := fun hstage digest blob rest htodo => (h.verified hstage digest blob rest htodo).mono hstore

theorem SweepInv.mono {stage : SweepStage} (h : SweepInv w id stage)
    (hlocks : ∀ k, w.locks.Holds (.sweep id) k → w'.locks.Holds (.sweep id) k)
    (hrows : ∀ digest, w.locks.Holds (.sweep id) (lockKey digest) → (∀ row ∈ w.rows, row.contentSha256 ≠ digest) →
      ∀ row ∈ w'.rows, row.contentSha256 ≠ digest) : SweepInv w' id stage := by
  cases stage with
  | idle => exact trivial
  | locked | deleted => exact ⟨h.1, hlocks _ h.2⟩
  | absent key digest => exact ⟨h.1, hlocks _ h.2.1, hrows digest h.2.1 h.2.2⟩

/-- One attach changes; the others and the sweeps keep what they hold. -/
theorem Inv.setAttach {attach : Option Attach} (h : Inv w)
    (hattach : ∀ attach', attach = some attach' → AttachInv w id attach') : Inv (w.setAttach id attach) where
  rows := h.rows
  attaches := fun id' attach' hget => by
    have hframe : ∀ {j a}, AttachInv w j a → AttachInv (w.setAttach id attach) j a := fun hinv =>
      hinv.mono (fun _ h => h) fun _ h => h
    unfold World.setAttach at hget
    dsimp only at hget
    by_cases hid : id' = id
    · subst hid
      rw [Function.update_self] at hget
      exact hframe (hattach attach' hget)
    · rw [Function.update_of_ne hid] at hget
      exact hframe (h.attaches id' attach' hget)
  sweeps := fun id' sweep hget => (h.sweeps id' sweep hget).mono (fun _ h => h) fun _ _ h => h

theorem Inv.setSweep (h : Inv w) (hsweep : ∀ sweep', sweep = some sweep' → SweepInv w id sweep'.stage) :
    Inv (w.setSweep id sweep) where
  rows := h.rows
  attaches := fun id' attach hget => (h.attaches id' attach hget).mono (fun _ h => h) fun _ h => h
  sweeps := fun id' sweep' hget => by
    have hframe : ∀ {j s}, SweepInv w j s → SweepInv (w.setSweep id sweep) j s := fun hinv =>
      hinv.mono (fun _ h => h) fun _ _ h => h
    unfold World.setSweep at hget
    dsimp only at hget
    by_cases hid : id' = id
    · subst hid
      rw [Function.update_self] at hget
      exact hframe (hsweep sweep' hget)
    · rw [Function.update_of_ne hid] at hget
      exact hframe (h.sweeps id' sweep' hget)

/-- Who has ended gives back its locks. -/
theorem Inv.release {owner : Owner} (h : Inv w) (hattach : ∀ id, owner = .attach id → w.attaches id = none)
    (hsweep : ∀ id, owner = .sweep id → ∀ sweep, w.sweeps id = some sweep → sweep.stage = .idle) : Inv (w.release owner) where
  rows := h.rows
  attaches := fun id attach hget => by
    refine (h.attaches id attach hget).mono (fun _ h => h) fun k hholds => hholds.releaseAll fun heq => ?_
    have hnone := hattach id heq.symm
    rw [show w.attaches id = some attach from hget] at hnone
    cases hnone
  sweeps := fun id sweep hget => by
    by_cases howner : owner = .sweep id
    · rw [hsweep id howner sweep hget]
      exact trivial
    · exact (h.sweeps id sweep hget).mono (fun k hholds => hholds.releaseAll fun heq => howner heq.symm) fun _ _ h => h

theorem Inv.endAttach (id : Nat) (h : Inv w) : Inv ((w.setAttach id none).release (.attach id)) := by
  have hset : Inv (w.setAttach id none) := h.setAttach fun _ hnone => by cases hnone
  refine hset.release (fun id' heq => ?_) fun _ heq => (nomatch heq)
  cases heq
  show Function.update w.attaches id none id = none
  rw [Function.update_self]

/-- A sweep is done with an object, or ends. -/
theorem Inv.idleSweep (id : Nat) (h : Inv w) (hidle : ∀ s, sweep = some s → s.stage = .idle) :
    Inv ((w.setSweep id sweep).release (.sweep id)) := by
  have hset : Inv (w.setSweep id sweep) := h.setSweep fun s hs => by
    rw [hidle s hs]
    exact trivial
  refine hset.release (fun _ heq => (nomatch heq)) fun id' heq s hget => hidle s ?_
  cases heq
  have hself : Function.update w.sweeps id sweep id = some s := hget
  rwa [Function.update_self] at hself

theorem Inv.acquire {k : Int} {owner : Owner} {locks : Locks Int Owner} (h : Inv w)
    (hlocks : w.locks.acquire k owner = some locks) : Inv { w with locks } where
  rows := h.rows
  attaches := fun id attach hget => (h.attaches id attach hget).mono (fun _ h => h) fun _ => Locks.Holds.acquire hlocks
  sweeps := fun id sweep hget => (h.sweeps id sweep hget).mono (fun _ => Locks.Holds.acquire hlocks) fun _ _ h => h

/-- A store that has at least the same objects. -/
theorem Inv.store {store : Store} (h : Inv w) (hstore : ∀ key, (w.store key).isSome = true → (store key).isSome = true) :
    Inv { w with store } where
  rows := fun row hrow => (h.rows row hrow).mono hstore
  attaches := fun id attach hget => (h.attaches id attach hget).mono hstore fun _ h => h
  sweeps := fun id sweep hget => (h.sweeps id sweep hget).mono (fun _ h => h) fun _ _ h => h

/-- What the catalog, the locks and the processes of the catalog do not see. -/
theorem Inv.congr (h : Inv w) (hstore : w'.store = w.store) (hrows : w'.rows = w.rows) (hlocks : w'.locks = w.locks)
    (hattaches : w'.attaches = w.attaches) (hsweeps : w'.sweeps = w.sweeps) : Inv w' where
  rows := fun row hrow => hstore ▸ h.rows row (hrows ▸ hrow)
  attaches := fun id attach hget => (h.attaches id attach (hattaches ▸ hget)).mono (fun _ h => hstore ▸ h) fun _ h => hlocks ▸ h
  sweeps := fun id sweep hget => (h.sweeps id sweep (hsweeps ▸ hget)).mono (fun _ h => hlocks ▸ h) fun _ _ h => hrows ▸ h

end Frame

/-! ## Steps -/

section Steps

variable {settings : Settings} {w w' : World}

theorem uploadStep_keeps (store : Store) (now : Int) (upload : Upload) (key : List Char) (h : (store key).isSome = true) :
    ((uploadStep settings store now upload).1 key).isSome = true := by
  have hput : ∀ (k : List Char) (object : Object), ((Function.update store k (some object)) key).isSome = true := by
    intro k object
    by_cases hkey : key = k
    · rw [hkey, Function.update_self]
      rfl
    · rw [Function.update_of_ne hkey]
      exact h
  unfold uploadStep
  dsimp only
  split
  case h_3 =>
    split
    · exact hput _ _
    · exact h
  all_goals
    split
    all_goals exact h

theorem attachStep_inv {id : Nat} {attach attach' : Attach} (h : AttachInv w id attach)
    (hstage : attach.stage ≠ .next) (hstep : attachStep settings w attach = some attach') : AttachInv w id attach' := by
  unfold attachStep at hstep
  split at hstep
  · cases hstep
  · rename_i digest blob rest htodo
    have hholds := h.locked hstage digest blob rest htodo
    cases hattach : attach.stage with
    | next => exact absurd hattach hstage
    | locked =>
      simp only [hattach] at hstep
      cases hhead : head settings.codec w.store blob.objectKey digest with
      | error e => simp [hhead] at hstep
      | ok seen =>
        simp only [hhead, Option.some.injEq] at hstep
        subst hstep
        refine ⟨h.rows, fun _ => h.locked hstage, fun _ _ digest' blob' rest' htodo' => ?_, fun hverified => (nomatch hverified)⟩
        cases htodo.symm.trans htodo'
        exact head_ok hhead
    | headed seen =>
      simp only [hattach] at hstep
      cases hget : get settings.codec w.store blob.objectKey digest seen with
      | error e => simp [hget] at hstep
      | ok content =>
        simp only [hget, Option.some.injEq] at hstep
        subst hstep
        refine ⟨h.rows, fun _ => h.locked hstage, fun _ hheaded => (nomatch hheaded), fun _ digest' blob' rest' htodo' => ?_⟩
        cases htodo.symm.trans htodo'
        exact ⟨h.headed seen hattach digest blob rest htodo, get_ok hget⟩
    | verified =>
      simp only [hattach, Option.some.injEq] at hstep
      subst hstep
      refine ⟨fun row hrow => ?_, fun hnext => absurd rfl hnext, fun _ hheaded => (nomatch hheaded),
        fun hverified => (nomatch hverified)⟩
      unfold World.insertRow at hrow
      split at hrow
      · exact h.rows row hrow
      · rcases List.mem_append.1 hrow with hrow | hrow
        · exact h.rows row hrow
        · rw [List.mem_singleton.1 hrow]
          exact ⟨h.verified hattach digest blob rest htodo, hholds⟩

/-- A commit adds what its attach has verified, under locks that no sweep holds. -/
theorem inv_commit {id : Nat} {attach : Attach} (h : Inv w) (hget : w.attaches id = some attach) :
    Inv { w with rows := w.rows ++ attach.rows } where
  rows := fun row hrow => by
    rcases List.mem_append.1 hrow with hrow | hrow
    · exact h.rows row hrow
    · exact ((h.attaches id attach hget).rows row hrow).1
  attaches := fun id' attach' hget' => (h.attaches id' attach' hget').mono (fun _ h => h) fun _ h => h
  sweeps := fun id' sweep hget' => by
    refine (h.sweeps id' sweep hget').mono (fun _ h => h) fun digest hholds hnone row hrow => ?_
    rcases List.mem_append.1 hrow with hrow | hrow
    · exact hnone row hrow
    · rintro rfl
      have howner := hholds.unique ((h.attaches id attach hget).rows row hrow).2
      cases howner

/-- A delete takes an object of which there is no row, and none to come from an attach that has verified it. -/
theorem inv_delete {id : Nat} {sweep : Sweep} {key digest : List Char} (h : Inv w) (hget : w.sweeps id = some sweep)
    (hstage : sweep.stage = .absent key digest) : Inv { w with store := Function.update w.store key none } := by
  have hsweep := h.sweeps id sweep hget
  rw [hstage] at hsweep
  obtain ⟨hparsed, hholds, hnone⟩ := hsweep
  have hother : ∀ {digest' key'}, Stored w.store digest' key' → digest' ≠ digest →
      Stored (Function.update w.store key none) digest' key' := by
    intro digest' key' hstored hne
    refine ⟨hstored.parsed, ?_⟩
    rw [Function.update_of_ne, hstored.there]
    rintro rfl
    exact hne (Option.some.inj (hstored.parsed.symm.trans hparsed))
  have hattached : ∀ {id' digest'}, w.locks.Holds (.attach id') (lockKey digest') → digest' ≠ digest := by
    rintro id' digest' hholds' rfl
    cases hholds.unique hholds'
  exact {
    rows := fun row hrow => hother (h.rows row hrow) (hnone row hrow)
    attaches := fun id' attach hget' => by
      have hinv := h.attaches id' attach hget'
      exact ⟨fun row hrow => ⟨hother (hinv.rows row hrow).1 (hattached (hinv.rows row hrow).2), (hinv.rows row hrow).2⟩,
        hinv.locked, hinv.headed, fun hverified digest' blob rest htodo =>
          hother (hinv.verified hverified digest' blob rest htodo)
            (hattached (hinv.locked (by rw [hverified]; exact nofun) digest' blob rest htodo))⟩
    sweeps := fun id' sweep' hget' => (h.sweeps id' sweep' hget').mono (fun _ h => h) fun _ _ h => h }

theorem sweepNext_some {sweep sweep' : Sweep} {digest : Option (List Char)}
    (h : sweepNext sweep = some (sweep', digest)) :
    (digest = none → sweep'.stage = .idle) ∧
      ∀ d, digest = some d → ∃ key, sweep'.stage = .locked key d ∧ parseCanonicalKey key = some d := by
  unfold sweepNext at h
  split at h
  · rename_i key lastModified queue hidle hqueue
    split at h
    · cases h
      exact ⟨fun _ => hidle, fun _ hd => (nomatch hd)⟩
    · rename_i d hparse
      split at h
      · cases h
        exact ⟨fun _ => hidle, fun _ hd => (nomatch hd)⟩
      · cases h
        refine ⟨fun hnone => (nomatch hnone), fun d' hd => ?_⟩
        cases hd
        exact ⟨key, rfl, hparse⟩
  · cases h

theorem inv_step {act : Act} (h : Inv w) (hstep : step settings w act = some w') : Inv w' := by
  cases act with
  | tick now =>
    obtain ⟨-, ⟨⟩⟩ := Option.ite_none_right_eq_some.1 hstep
    exact h.congr rfl rfl rfl rfl rfl
  | beginUpload id content =>
    simp only [step] at hstep
    split at hstep
    · cases hstep
    · obtain ⟨upload, -, rfl⟩ := Option.map_eq_some_iff.1 hstep
      exact h.congr rfl rfl rfl rfl rfl
  | upload id =>
    obtain ⟨upload, -, hstep⟩ := Option.map_eq_some_iff.1 hstep
    have hstore := @uploadStep_keeps settings w.store w.now upload
    split at hstep
    all_goals
      rename_i hnext
      rw [hnext] at hstore
      rw [← hstep]
      exact (h.store hstore).congr rfl rfl rfl rfl rfl
  | failUpload id =>
    obtain ⟨upload, -, rfl⟩ := Option.map_eq_some_iff.1 hstep
    exact h.congr rfl rfl rfl rfl rfl
  | beginAttach id items =>
    obtain ⟨-, ⟨⟩⟩ := Option.ite_none_right_eq_some.1 hstep
    refine h.setAttach fun attach' hattach => ?_
    cases hattach
    exact ⟨fun _ hrow => (nomatch hrow), fun hnext => absurd rfl hnext, fun _ hheaded => (nomatch hheaded),
      fun hverified => (nomatch hverified)⟩
  | lock id =>
    simp only [step] at hstep
    split at hstep
    · rename_i attach hget
      split at hstep
      · rename_i digest blob rest hstage htodo
        obtain ⟨locks, hlocks, rfl⟩ := Option.map_eq_some_iff.1 hstep
        refine (h.acquire hlocks).setAttach fun attach' hattach => ?_
        cases hattach
        refine ⟨((h.acquire hlocks).attaches id attach hget).rows, fun _ digest' blob' rest' htodo' => ?_,
          fun _ hheaded => (nomatch hheaded), fun hverified => (nomatch hverified)⟩
        cases htodo.symm.trans htodo'
        exact Locks.acquire_holds hlocks
      · cases hstep
    · cases hstep
  | attach id =>
    simp only [step] at hstep
    split at hstep
    · rename_i attach hget
      split at hstep
      · cases hstep
      · rename_i hstage
        split at hstep
        · rename_i attach' hattach
          cases hstep
          refine h.setAttach fun attach'' heq => ?_
          cases heq
          exact attachStep_inv (h.attaches id attach hget) hstage hattach
        · cases hstep
          exact h.endAttach id
    · cases hstep
  | commit id =>
    simp only [step] at hstep
    split at hstep
    · rename_i attach hget
      obtain ⟨-, ⟨⟩⟩ := Option.ite_none_right_eq_some.1 hstep
      exact (inv_commit h hget).endAttach id
    · cases hstep
  | rollback id =>
    obtain ⟨attach, -, rfl⟩ := Option.map_eq_some_iff.1 hstep
    exact h.endAttach id
  | beginSweep id cutoff dryRun =>
    simp only [step] at hstep
    split at hstep
    · cases hstep
    · cases hstep
      refine h.setSweep fun sweep hsweep => ?_
      cases hsweep
      exact trivial
  | list id keys =>
    simp only [step] at hstep
    split at hstep
    · rename_i sweep hget
      obtain ⟨-, ⟨⟩⟩ := Option.ite_none_right_eq_some.1 hstep
      refine h.setSweep fun sweep' hsweep => ?_
      cases hsweep
      exact h.sweeps id sweep hget
    · cases hstep
  | sweepNext id =>
    simp only [step] at hstep
    split at hstep
    · rename_i sweep hget
      cases hnext : sweepNext sweep with
      | none => simp [hnext] at hstep
      | some res =>
        obtain ⟨sweep', digest⟩ := res
        obtain ⟨hskip, hlocked⟩ := sweepNext_some hnext
        cases digest with
        | none =>
          simp only [hnext, Option.some.injEq] at hstep
          subst hstep
          refine h.setSweep fun s hs => ?_
          cases hs
          rw [hskip rfl]
          exact trivial
        | some digest =>
          simp only [hnext] at hstep
          obtain ⟨locks, hlocks, rfl⟩ := Option.map_eq_some_iff.1 hstep
          obtain ⟨key, hstage, hparse⟩ := hlocked digest rfl
          refine (h.acquire hlocks).setSweep fun s hs => ?_
          cases hs
          rw [hstage]
          exact ⟨hparse, Locks.acquire_holds hlocks⟩
    · cases hstep
  | check id =>
    simp only [step] at hstep
    split at hstep
    · rename_i sweep hget
      have hsweep := h.sweeps id sweep hget
      split at hstep
      · rename_i key digest hstage
        rw [hstage] at hsweep
        split at hstep
        · cases hstep
          exact h.idleSweep id fun s hs => by
            cases hs
            rfl
        · rename_i hnone
          cases hstep
          refine h.setSweep fun sweep' heq => ?_
          cases heq
          refine ⟨hsweep.1, hsweep.2, fun row hrow hsame => hnone ?_⟩
          rw [Bool.or_eq_true, List.any_eq_true]
          exact Or.inl ⟨row, hrow, by simpa using hsame⟩
      · cases hstep
    · cases hstep
  | delete id =>
    simp only [step] at hstep
    split at hstep
    · rename_i sweep hget
      split at hstep
      · rename_i key digest hstage
        cases hstep
        have hsweep := h.sweeps id sweep hget
        rw [hstage] at hsweep
        refine (inv_delete h hget hstage).setSweep fun sweep' heq => ?_
        cases heq
        exact ⟨hsweep.1, hsweep.2.1⟩
      · cases hstep
    · cases hstep
  | endSweepOne id =>
    simp only [step] at hstep
    split at hstep
    · split at hstep
      · cases hstep
        exact h.idleSweep id fun s hs => by
          cases hs
          rfl
      · cases hstep
    · cases hstep
  | endSweep id =>
    obtain ⟨sweep, -, rfl⟩ := Option.map_eq_some_iff.1 hstep
    exact h.idleSweep id fun _ hs => by cases hs

end Steps

/-! ## Runs -/

/-- **Content never dangles.**  Whatever uploads, attaches and sweeps do, a committed row names an object that the
store holds. -/
theorem content_never_dangles (settings : Settings) (store : Store) (now : Int) (acts : List Act) (w : World)
    (hrun : run (step settings) (World.start store now) acts = some w) :
    ∀ row ∈ w.rows, (w.store row.objectKey).isSome = true := fun row hrow =>
  ((run_invariant (fun _ _ _ h hstep => inv_step h hstep) (Inv.start store now) hrun).rows row hrow).there

def sampleDigest : List Char := "039058c6f2c0cb492c533b0a4d14ef77cc0f78abccced5287d84a1a2011cfb81".toList

def sampleSettings : Settings where
  codec :=
    { digest := fun content => if content = [1, 2, 3] then sampleDigest else List.replicate 64 '0'
      compress := fun content => content
      decompress := fun body => some body
      maxCompressedBytes := 1000
      maxUncompressedBytes := 1000 }
  contentAddressed := false
  minAge := 86400

/-- An upload, its attach, and a sweep that lists the object while the attach verifies it. -/
def sampleActs : List Act :=
  [.beginUpload 0 [1, 2, 3], .upload 0, .upload 0, .tick 90000,
    .beginAttach 1 [⟨sampleDigest, some (storedBlob (expectedMetadata sampleSettings [1, 2, 3]) true)⟩], .lock 1, .attach 1,
    .beginSweep 2 90000 false, .list 2 [objectKey sampleDigest], .attach 1, .attach 1, .commit 1, .sweepNext 2, .check 2,
    .endSweep 2]

theorem content_never_dangles_sample : ∃ w, run (step sampleSettings) (World.start (fun _ => none) 0) sampleActs = some w ∧
    w.rows.length = 1 ∧ ∀ row ∈ w.rows, (w.store row.objectKey).isSome = true := by
  have hrun : (run (step sampleSettings) (World.start (fun _ => none) 0) sampleActs).map (·.rows.length) = some 1 := by
    decide +kernel
  obtain ⟨w, hw, hrows⟩ := Option.map_eq_some_iff.1 hrun
  exact ⟨w, hw, hrows, content_never_dangles sampleSettings (fun _ => none) 0 sampleActs w hw⟩

end Content
