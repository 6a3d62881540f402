import AgentContext.Content.Dangling

/-!
# The grace floor of a sweep

A sweep judges an object's age by its listing and deletes it later.  Between the two the object can be deleted by
another sweep and uploaded again, or overwritten: the sweep then deletes a fresh upload.

    Candidate   a key whose listed object is old enough, and which the sweep has not dealt with yet
    Grace       what the store holds under a candidate is older than the sweep's cutoff

Only a PUT under a candidate breaks `Grace`, so every run without one keeps the floor (`grace_floor`).
-/

namespace Content

open Transition

/-- A stage at which the sweep may go on to delete the key. -/
def SweepStage.mayDelete (dryRun : Bool) (key : List Char) : SweepStage → Prop
  | .idle => False
  | .locked key' _ => dryRun = false ∧ key' = key
  | .absent key' _ => key' = key
  | .deleted _ _ => False

/-- A key that the sweep may still delete, going by what it has listed. -/
def Candidate (sweep : Sweep) (key : List Char) : Prop :=
  (sweep.dryRun = false ∧ ∃ lastModified, (key, lastModified) ∈ sweep.queue ∧ lastModified < sweep.effectiveCutoff) ∨
    sweep.stage.mayDelete sweep.dryRun key

/-- Some sweep under way has the key as a candidate. -/
def Pending (w : World) (key : List Char) : Prop :=
  ∃ id sweep, w.sweeps id = some sweep ∧ Candidate sweep key

/-- The step is a PUT that writes the key. -/
def Writes (settings : Settings) (w : World) (act : Act) (key : List Char) : Prop :=
  ∃ id upload again, act = .upload id ∧ w.uploads id = some upload ∧ upload.stage = .put again ∧
    key = objectKey (settings.codec.digest upload.content) ∧ (settings.contentAddressed || (w.store key).isNone) = true

/-- No PUT writes a key that a sweep under way has as a candidate. -/
def SafePut (settings : Settings) (w : World) (act : Act) : Prop :=
  ∀ key, Writes settings w act key → ¬ Pending w key

theorem SafePut.of_not_upload {settings : Settings} {w : World} {act : Act} (h : ∀ id, act ≠ .upload id) :
    SafePut settings w act := by
  rintro key ⟨id, upload, again, rfl, -⟩
  exact absurd rfl (h id)

/-- Cutoffs respect the minimum age, and what is stored under a candidate is older than the cutoff. -/
structure Grace (settings : Settings) (w : World) : Prop where
  cutoff : ∀ id sweep, w.sweeps id = some sweep → sweep.effectiveCutoff ≤ w.now - settings.minAge
  old : ∀ id sweep, w.sweeps id = some sweep → ∀ key, Candidate sweep key → ∀ object, w.store key = some object →
    object.lastModified < sweep.effectiveCutoff

theorem Grace.start (settings : Settings) (store : Store) (now : Int) : Grace settings (World.start store now) where
  cutoff := fun _ _ hget => nomatch hget
  old := fun _ _ hget => nomatch hget

/-! ## What a step does -/

section Step

variable {settings : Settings} {w w' : World}
variable {key : List Char} {act : Act}
variable {sweep sweep' : Sweep}

/-- What an upload's request leaves under a key was there, or it is its own PUT. -/
theorem uploadStep_store {store : Store} {now : Int} {upload : Upload} {object : Object}
    (h : (uploadStep settings store now upload).1 key = some object) :
    store key = some object ∨
      (∃ again, upload.stage = .put again) ∧ key = objectKey (settings.codec.digest upload.content) ∧
        (settings.contentAddressed || (store key).isNone) = true := by
  unfold uploadStep at h
  dsimp only at h
  split at h
  case h_3 again hstage =>
    split at h
    · rename_i hwrites
      by_cases hkey : key = objectKey (settings.codec.digest upload.content)
      · subst hkey
        exact Or.inr ⟨⟨again, hstage⟩, rfl, hwrites⟩
      · exact Or.inl ((Function.update_of_ne hkey _ _).symm.trans h)
    · exact Or.inl h
  all_goals
    split at h
    all_goals exact Or.inl h

/-- Where a sweep's record after its own step comes from: it begins, or it has dropped candidates, or listed some. -/
def SweepFrom (settings : Settings) (w : World) (id : Nat) (sweep' : Sweep) : Prop :=
  (sweep'.effectiveCutoff ≤ w.now - settings.minAge ∧ ∀ key, ¬ Candidate sweep' key) ∨
    ∃ sweep, w.sweeps id = some sweep ∧ sweep'.effectiveCutoff = sweep.effectiveCutoff ∧
      ∀ key, Candidate sweep' key → Candidate sweep key ∨
        ∃ object, w.store key = some object ∧ object.lastModified < sweep.effectiveCutoff

/-- A step that leaves the sweeps alone. -/
structure Outside (settings : Settings) (w : World) (act : Act) (w' : World) : Prop where
  sweeps : w'.sweeps = w.sweeps
  now : w.now ≤ w'.now
  store : ∀ key object, w'.store key = some object → w.store key = some object ∨ Writes settings w act key
  keeps : ∀ key, (w.store key).isSome = true → (w'.store key).isSome = true

/-- A step of one sweep. -/
structure Inside (settings : Settings) (w w' : World) (id : Nat) (sweep? : Option Sweep) : Prop where
  sweeps : w'.sweeps = Function.update w.sweeps id sweep?
  now : w'.now = w.now
  store : ∀ key object, w'.store key = some object → w.store key = some object
  takes : ∀ key, (w.store key).isSome = true → (w'.store key).isSome = true ∨
    ∃ sweep, w.sweeps id = some sweep ∧ Candidate sweep key
  sweep : ∀ sweep', sweep? = some sweep' → SweepFrom settings w id sweep'

theorem Outside.same (hsweeps : w'.sweeps = w.sweeps) (hnow : w'.now = w.now) (hstore : w'.store = w.store) :
    Outside settings w act w' where
  sweeps := hsweeps
  now := le_of_eq hnow.symm
  store := fun _ _ h => Or.inl (hstore ▸ h)
  keeps := fun _ h => hstore ▸ h

theorem SweepFrom.fewer {id : Nat} (hget : w.sweeps id = some sweep)
    (hcutoff : sweep'.effectiveCutoff = sweep.effectiveCutoff)
    (hsub : ∀ key, Candidate sweep' key → Candidate sweep key) : SweepFrom settings w id sweep' :=
  Or.inr ⟨sweep, hget, hcutoff, fun key hkey => Or.inl (hsub key hkey)⟩

/-- Done with an object: the candidates left are in the queue. -/
theorem Candidate.of_stage {sweep : Sweep} {stage : SweepStage} (hstage : ¬ stage.mayDelete sweep.dryRun key)
    (h : Candidate { sweep with stage } key) : Candidate sweep key := by
  rcases h with hqueue | hmay
  · exact Or.inl hqueue
  · exact absurd hmay hstage

/-- Taking the next object of the queue makes no key a candidate that was none. -/
theorem sweepNext_candidate {digest : Option (List Char)} (h : sweepNext sweep = some (sweep', digest)) :
    sweep'.effectiveCutoff = sweep.effectiveCutoff ∧ ∀ key, Candidate sweep' key → Candidate sweep key := by
  unfold sweepNext at h
  split at h
  · rename_i key lastModified queue hidle hqueue
    have hskip : ∀ key', Candidate { sweep with queue } key' → Candidate sweep key' := by
      rintro key' (⟨hdry, t, ht, hlt⟩ | hstage)
      · exact Or.inl ⟨hdry, t, hqueue ▸ List.mem_cons_of_mem _ ht, hlt⟩
      · exact Or.inr hstage
    split at h
    · cases h
      exact ⟨rfl, hskip⟩
    · rename_i d hparse
      split at h
      · cases h
        exact ⟨rfl, hskip⟩
      · rename_i hold
        cases h
        refine ⟨rfl, fun key' hkey' => ?_⟩
        rcases hkey' with ⟨hdry, t, ht, hlt⟩ | ⟨hdry, rfl⟩
        · exact Or.inl ⟨hdry, t, hqueue ▸ List.mem_cons_of_mem _ ht, hlt⟩
        · exact Or.inl ⟨hdry, lastModified, hqueue ▸ List.mem_cons_self, not_le.1 hold⟩
  · cases h

theorem step_effect (hstep : step settings w act = some w') :
    Outside settings w act w' ∨ ∃ id sweep?, Inside settings w w' id sweep? := by
  cases act with
  | tick now =>
    obtain ⟨hle, ⟨⟩⟩ := Option.ite_none_right_eq_some.1 hstep
    exact Or.inl ⟨rfl, hle, fun _ _ h => Or.inl h, fun _ h => h⟩
  | beginUpload id content =>
    simp only [step] at hstep
    split at hstep
    · cases hstep
    · obtain ⟨upload, -, rfl⟩ := Option.map_eq_some_iff.1 hstep
      exact Or.inl (Outside.same rfl rfl rfl)
  | upload id =>
    obtain ⟨upload, hget, hstep⟩ := Option.map_eq_some_iff.1 hstep
    have hstore := fun {key} => @uploadStep_store settings key w.store w.now upload
    have hkeeps := @uploadStep_keeps settings w.store w.now upload
    have hwrites : ∀ {key}, ((∃ again, upload.stage = .put again) ∧ key = objectKey (settings.codec.digest upload.content) ∧
        (settings.contentAddressed || (w.store key).isNone) = true) → Writes settings w (.upload id) key := by
      rintro key ⟨⟨again, hstage⟩, hkey, hput⟩
      exact ⟨id, upload, again, rfl, hget, hstage, hkey, hput⟩
    refine Or.inl ?_
    split at hstep
    all_goals
      rename_i hnext
      rw [hnext] at hstore hkeeps
      rw [← hstep]
      exact ⟨rfl, le_refl _, fun key object h => (hstore h).imp_right hwrites, hkeeps⟩
  | failUpload id =>
    obtain ⟨upload, -, rfl⟩ := Option.map_eq_some_iff.1 hstep
    exact Or.inl (Outside.same rfl rfl rfl)
  | beginAttach id items =>
    obtain ⟨-, ⟨⟩⟩ := Option.ite_none_right_eq_some.1 hstep
    exact Or.inl (Outside.same rfl rfl rfl)
  | lock id =>
    simp only [step] at hstep
    split at hstep
    · split at hstep
      · obtain ⟨locks, -, rfl⟩ := Option.map_eq_some_iff.1 hstep
        exact Or.inl (Outside.same rfl rfl rfl)
      · cases hstep
    · cases hstep
  | attach id =>
    simp only [step] at hstep
    split at hstep
    · split at hstep
      · cases hstep
      · split at hstep
        all_goals
          cases hstep
          exact Or.inl (Outside.same rfl rfl rfl)
    · cases hstep
  | commit id =>
    simp only [step] at hstep
    split at hstep
    · obtain ⟨-, ⟨⟩⟩ := Option.ite_none_right_eq_some.1 hstep
      exact Or.inl (Outside.same rfl rfl rfl)
    · cases hstep
  | rollback id =>
    obtain ⟨attach, -, rfl⟩ := Option.map_eq_some_iff.1 hstep
    exact Or.inl (Outside.same rfl rfl rfl)
  | beginSweep id cutoff dryRun =>
    simp only [step] at hstep
    split at hstep
    · cases hstep
    · cases hstep
      refine Or.inr ⟨id, _, rfl, rfl, fun _ _ h => h, fun _ h => Or.inl h, fun sweep' heq => ?_⟩
      cases heq
      refine Or.inl ⟨min_le_right _ _, fun key hkey => ?_⟩
      rcases hkey with ⟨-, _, hmem, -⟩ | hmay
      · cases hmem
      · exact hmay
  | list id keys =>
    simp only [step] at hstep
    split at hstep
    · rename_i sweep hget
      obtain ⟨⟨hidle, -⟩, ⟨⟩⟩ := Option.ite_none_right_eq_some.1 hstep
      refine Or.inr ⟨id, _, rfl, rfl, fun _ _ h => h, fun _ h => Or.inl h, fun sweep' heq => ?_⟩
      cases heq
      refine Or.inr ⟨sweep, hget, rfl, fun key hkey => ?_⟩
      rcases hkey with ⟨-, t, hmem, hlt⟩ | hmay
      · -- a queue entry is the key and the time of a stored object
        obtain ⟨k, -, hk⟩ := List.mem_filterMap.1 hmem
        obtain ⟨object, hobject, heq⟩ := Option.map_eq_some_iff.1 hk
        cases heq
        exact Or.inr ⟨object, hobject, hlt⟩
      · exact Or.inl (Or.inr hmay)
    · cases hstep
  | sweepNext id =>
    simp only [step] at hstep
    split at hstep
    · rename_i sweep hget
      cases hnext : sweepNext sweep with
      | none => simp [hnext] at hstep
      | some res =>
        obtain ⟨sweep', digest⟩ := res
        obtain ⟨hcutoff, hsub⟩ := sweepNext_candidate hnext
        cases digest with
        | none =>
          simp only [hnext, Option.some.injEq] at hstep
          subst hstep
          refine Or.inr ⟨id, _, rfl, rfl, fun _ _ h => h, fun _ h => Or.inl h, fun s heq => ?_⟩
          cases heq
          exact .fewer hget hcutoff hsub
        | some digest =>
          simp only [hnext] at hstep
          obtain ⟨locks, -, rfl⟩ := Option.map_eq_some_iff.1 hstep
          refine Or.inr ⟨id, _, rfl, rfl, fun _ _ h => h, fun _ h => Or.inl h, fun s heq => ?_⟩
          cases heq
          exact .fewer hget hcutoff hsub
    · cases hstep
  | check id =>
    simp only [step] at hstep
    split at hstep
    · rename_i sweep hget
      split at hstep
      · rename_i key digest hstage
        split at hstep
        · cases hstep
          refine Or.inr ⟨id, _, rfl, rfl, fun _ _ h => h, fun _ h => Or.inl h, fun s heq => ?_⟩
          cases heq
          exact .fewer hget rfl fun _ => Candidate.of_stage not_false
        · rename_i hreal
          cases hstep
          refine Or.inr ⟨id, _, rfl, rfl, fun _ _ h => h, fun _ h => Or.inl h, fun s heq => ?_⟩
          cases heq
          refine .fewer hget rfl fun key' hkey' => ?_
          rcases hkey' with hqueue | rfl
          · exact Or.inl hqueue
          · refine Or.inr ?_
            rw [hstage]
            exact ⟨by simp_all, rfl⟩
      · cases hstep
    · cases hstep
  | delete id =>
    simp only [step] at hstep
    split at hstep
    · rename_i sweep hget
      split at hstep
      · rename_i key digest hstage
        cases hstep
        refine Or.inr ⟨id, _, rfl, rfl, fun key' object h => ?_, fun key' h => ?_, fun s heq => ?_⟩
        · by_cases hkey : key' = key
          · subst hkey
            exact absurd h (by simp [World.setSweep])
          · exact (Function.update_of_ne hkey _ _).symm.trans h
        · by_cases hkey : key' = key
          · refine Or.inr ⟨sweep, hget, Or.inr ?_⟩
            rw [hstage]
            exact hkey.symm
          · refine Or.inl ?_
            show (Function.update w.store key none key').isSome = true
            rwa [Function.update_of_ne hkey]
        · cases heq
          exact .fewer hget rfl fun _ => Candidate.of_stage not_false
      · cases hstep
    · cases hstep
  | endSweepOne id =>
    simp only [step] at hstep
    split at hstep
    · rename_i sweep hget
      split at hstep
      · cases hstep
        refine Or.inr ⟨id, _, rfl, rfl, fun _ _ h => h, fun _ h => Or.inl h, fun s heq => ?_⟩
        cases heq
        exact .fewer hget rfl fun _ => Candidate.of_stage not_false
      · cases hstep
    · cases hstep
  | endSweep id =>
    obtain ⟨sweep, -, rfl⟩ := Option.map_eq_some_iff.1 hstep
    exact Or.inr ⟨id, none, rfl, rfl, fun _ _ h => h, fun _ h => Or.inl h, fun _ heq => by cases heq⟩

/-! ## The floor -/

theorem Grace.outside (h : Grace settings w) (hsafe : SafePut settings w act) (hout : Outside settings w act w') :
    Grace settings w' where
  cutoff := fun id sweep hget => by
    have hcutoff := h.cutoff id sweep (hout.sweeps ▸ hget)
    have hnow := hout.now
    omega
  old := fun id sweep hget key hkey object hobject => by
    rw [hout.sweeps] at hget
    rcases hout.store key object hobject with hsame | hwrites
    · exact h.old id sweep hget key hkey object hsame
    · exact absurd ⟨id, sweep, hget, hkey⟩ (hsafe key hwrites)

theorem Grace.inside {id : Nat} {sweep? : Option Sweep} (h : Grace settings w)
    (hin : Inside settings w w' id sweep?) : Grace settings w' := by
  have hget : ∀ {id' sweep'}, w'.sweeps id' = some sweep' → w.sweeps id' = some sweep' ∨ SweepFrom settings w id' sweep' := by
    intro id' sweep' hget'
    rw [hin.sweeps] at hget'
    by_cases hid : id' = id
    · subst hid
      rw [Function.update_self] at hget'
      exact Or.inr (hin.sweep sweep' hget')
    · rw [Function.update_of_ne hid] at hget'
      exact Or.inl hget'
  constructor
  · intro id' sweep' hget'
    rw [hin.now]
    rcases hget hget' with hsame | ⟨hcutoff, -⟩ | ⟨sweep, hsweep, hcutoff, -⟩
    · exact h.cutoff id' sweep' hsame
    · exact hcutoff
    · exact hcutoff ▸ h.cutoff id' sweep hsweep
  · intro id' sweep' hget' key hkey object hobject
    have hbefore := hin.store key object hobject
    rcases hget hget' with hsame | ⟨-, hnone⟩ | ⟨sweep, hsweep, hcutoff, hfrom⟩
    · exact h.old id' sweep' hsame key hkey object hbefore
    · exact absurd hkey (hnone key)
    · rw [hcutoff]
      rcases hfrom key hkey with hkey | ⟨listed, hlisted, hlt⟩
      · exact h.old id' sweep hsweep key hkey object hbefore
      · cases hlisted.symm.trans hbefore
        exact hlt

theorem grace_step (h : Grace settings w) (hsafe : SafePut settings w act) (hstep : step settings w act = some w') :
    Grace settings w' := by
  rcases step_effect hstep with hout | ⟨id, sweep?, hin⟩
  · exact h.outside hsafe hout
  · exact h.inside hin

/-- Only a sweep takes an object from the store, and only a candidate of its own. -/
theorem taken_pending (hstep : step settings w act = some w') (hthere : (w.store key).isSome = true)
    (hgone : (w'.store key).isNone = true) : Pending w key := by
  have hnot : ¬ (w'.store key).isSome = true := by
    rw [Option.isNone_iff_eq_none.1 hgone]
    exact nofun
  rcases step_effect hstep with hout | ⟨id, sweep?, hin⟩
  · exact absurd (hout.keeps key hthere) hnot
  · rcases hin.takes key hthere with hkept | ⟨sweep, hget, hkey⟩
    · exact absurd hkept hnot
    · exact ⟨id, sweep, hget, hkey⟩

end Step

/-- How long ago the object was last written that the step takes from under the key. -/
def takenAge (settings : Settings) (w : World) (act : Act) (key : List Char) : Option Int :=
  (step settings w act).bind fun w' => (w.store key).bind fun object =>
    if (w'.store key).isNone then some (w.now - object.lastModified) else none

/-- **The grace floor.**  In a run whose PUTs keep off the candidates of the sweeps under way, whatever a step takes
was last written more than the minimum age ago. -/
theorem grace_floor (settings : Settings) (store : Store) (now : Int) (acts : List Act) (w : World)
    (hsafe : Meets (step settings) (SafePut settings) (World.start store now) acts)
    (hrun : run (step settings) (World.start store now) acts = some w) :
    ∀ act key age, takenAge settings w act key = some age → settings.minAge < age := by
  intro act key age htaken
  have hgrace : Grace settings w :=
    run_invariant_where (fun _ _ _ h hsafe hstep => grace_step h hsafe hstep) (Grace.start settings store now) hsafe hrun
  obtain ⟨w', hstep, htaken⟩ := Option.bind_eq_some_iff.1 htaken
  obtain ⟨object, hthere, htaken⟩ := Option.bind_eq_some_iff.1 htaken
  rw [Option.ite_none_right_eq_some, Option.some.injEq] at htaken
  obtain ⟨hgone, rfl⟩ := htaken
  obtain ⟨id, sweep, hget, hkey⟩ := taken_pending hstep (by rw [hthere]; rfl) hgone
  have hcutoff := hgrace.cutoff id sweep hget
  have hold := hgrace.old id sweep hget key hkey object hthere
  omega

/-- One object, written at 0. -/
def sampleStore : Store := fun key =>
  if key = objectKey sampleDigest then some ⟨some (expectedMetadata sampleSettings [1, 2, 3]), [1, 2, 3], 0⟩ else none

def sampleSweep : List Act := [.beginSweep 1 90000 false, .list 1 [objectKey sampleDigest], .sweepNext 1, .check 1]

theorem grace_floor_sample : ∃ w, run (step sampleSettings) (World.start sampleStore 90000) sampleSweep = some w ∧
    takenAge sampleSettings w (.delete 1) (objectKey sampleDigest) = some 90000 ∧ sampleSettings.minAge < 90000 := by
  have hrun : (run (step sampleSettings) (World.start sampleStore 90000) sampleSweep).bind (fun w =>
      takenAge sampleSettings w (.delete 1) (objectKey sampleDigest)) = some 90000 := by
    decide +kernel
  obtain ⟨w, hw, htaken⟩ := Option.bind_eq_some_iff.1 hrun
  have hsafe : Meets (step sampleSettings) (SafePut sampleSettings) (World.start sampleStore 90000) sampleSweep :=
    Meets.of_labels (fun act hact _ => .of_not_upload fun id => by rintro rfl; simp [sampleSweep] at hact) _
  exact ⟨w, hw, htaken, grace_floor sampleSettings sampleStore 90000 sampleSweep w hsafe hw _ _ _ htaken⟩

/-- Two sweeps list an old object and one deletes it; it is uploaded again while the other is yet to come to it. -/
def uploadBetweenSweeps : List Act :=
  [.beginSweep 1 90000 false, .beginSweep 2 90000 false, .list 1 [objectKey sampleDigest], .list 2 [objectKey sampleDigest],
    .sweepNext 1, .check 1, .delete 1, .endSweepOne 1, .beginUpload 3 [1, 2, 3], .upload 3, .upload 3, .sweepNext 2, .check 2]

/-- The other sweep deletes what was written this very second, after `put_verified` has returned. -/
theorem deletes_fresh_upload : ∃ w, run (step sampleSettings) (World.start sampleStore 90000) uploadBetweenSweeps = some w ∧
    w.blobs.map (·.objectKey) = [objectKey sampleDigest] ∧ w.uploads 3 = none ∧
    takenAge sampleSettings w (.delete 2) (objectKey sampleDigest) = some 0 ∧ ¬ sampleSettings.minAge ≤ 0 := by
  have hrun : (run (step sampleSettings) (World.start sampleStore 90000) uploadBetweenSweeps).map (fun w =>
      (w.blobs.map (·.objectKey), w.uploads 3, takenAge sampleSettings w (.delete 2) (objectKey sampleDigest))) =
        some ([objectKey sampleDigest], none, some 0) := by
    decide +kernel
  obtain ⟨w, hw, hfacts⟩ := Option.map_eq_some_iff.1 hrun
  rw [Prod.mk.injEq, Prod.mk.injEq] at hfacts
  exact ⟨w, hw, hfacts.1, hfacts.2.1, hfacts.2.2, by decide⟩

end Content
