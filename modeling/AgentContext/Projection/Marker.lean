import AgentContext.Projection.History

/-!
# When the marker tells the truth

    Truthful    a version of a projector that the marker names has projected every delivered event it handles
    Agrees      a worker projects an event at the versions the marker names, and records the marker over projections
                at its own versions only

    every step agrees  →  every state is truthful      (marker_truthful)

A worker that started while a rebuild held the lock, or that waited for one, is not narrowed to again: its first batch
need not agree  (`stale_worker`).
-/

namespace Projection

open List

namespace History

open Transition

variable {U P V : Type} [DecidableEq P] [DecidableEq V] (handles : Key P V → U → Bool)

/-- A release runs this version of the projector. -/
def Runs (release : Release P V) (key : Key P V) : Prop := ∃ projector ∈ release, projector.key = key

def Truthful (w : World U P V) : Prop :=
  ∀ key, Names w.markers key → ∀ event ∈ w.delivered, handles key event = true →
    ∃ a ∈ w.applied, a.event = event ∧ Runs a.release key

/-- The condition on a worker's step. -/
def AgreesWith (w : World U P V) (release : Release P V) : Act U P V → Prop
  | .project _ event _ => ∀ key, Names w.markers key → handles key event = true → Runs release key
  | .record _ _ => ∀ key ∈ historyProjectors release, ∀ a ∈ w.applied, handles key a.event = true → Runs a.release key
  | _ => True

def Agrees (w : World U P V) (act : Act U P V) : Prop :=
  ∀ id worker, act.worker = some id → w.workers id = some worker → AgreesWith handles w worker.release act

instance (release : Release P V) (key : Key P V) : Decidable (Runs release key) := by
  unfold Runs
  infer_instance

instance (w : World U P V) (release : Release P V) : (act : Act U P V) → Decidable (AgreesWith handles w release act)
  | .project _ event _ =>
    decidable_of_iff (∀ key ∈ (readProjectionHistory w.markers).getD [], handles key event = true → Runs release key) <| by
      refine forall_congr' fun key => imp_congr_left ?_
      cases hread : readProjectionHistory w.markers <;> simp [Names, hread]
  | .record _ _ => by
    unfold AgreesWith
    infer_instance
  | .start .. | .tryLock _ | .narrow _ | .countNodes _ | .selectDelivered _ | .deliver .. | .endBatch _ | .stop _
  | .rebuild _ | .dropMarker | .wipeBatch _ | .wiped | .replay _ | .rebuildRecord | .rebuildEnd => isTrue trivial

instance (w : World U P V) (act : Act U P V) : Decidable (Agrees handles w act) :=
  decidable_of_iff (∀ worker ∈ act.worker.bind w.workers, AgreesWith handles w worker.release act) <| by
    simp only [Option.mem_def, Option.bind_eq_some_iff]
    exact ⟨fun h id worker hid hget => h worker ⟨id, hid, hget⟩, fun h worker ⟨id, hid, hget⟩ => h id worker hid hget⟩

variable {handles}
variable {key : Key P V} {markers : List (List (Key P V))}

/-! ## What the marker names -/

omit [DecidableEq P] [DecidableEq V] in
theorem runs_of_history {release : Release P V} {key : Key P V} (h : key ∈ historyProjectors release) : Runs release key := by
  obtain ⟨projector, hmem, rfl⟩ := mem_map.1 h
  exact ⟨projector, (mem_filter.1 hmem).1, rfl⟩

theorem mem_foldl_meet : ∀ (markers : List (List (Key P V))) (covered : List (Key P V)),
    ∃ result, markers.foldl (fun covered names => some (meet covered names)) (some covered) = some result ∧
      (key ∈ result ↔ key ∈ covered ∧ ∀ names ∈ markers, key ∈ names)
  | [], covered => ⟨covered, rfl, by simp⟩
  | names :: markers, covered => by
    obtain ⟨result, hresult, hmem⟩ := mem_foldl_meet markers (covered.filter (· ∈ names))
    refine ⟨result, hresult, hmem.trans ?_⟩
    simp only [mem_filter, decide_eq_true_eq, mem_cons, forall_eq_or_imp, and_assoc]

theorem names_iff :
    Names markers key ↔ markers ≠ [] ∧ markers.length ≤ maxMarkers ∧ ∀ names ∈ markers, key ∈ names := by
  unfold Names readProjectionHistory
  by_cases hmany : maxMarkers < markers.length
  · have hnot : ¬ markers.length ≤ maxMarkers := by omega
    simp [hmany, hnot]
  · rw [if_neg hmany]
    have hfew : markers.length ≤ maxMarkers := by omega
    cases markers with
    | nil => simp
    | cons names markers =>
      obtain ⟨result, hresult, hmem⟩ := @mem_foldl_meet _ _ _ _ key markers names
      show (∃ covered, markers.foldl (fun covered names => some (meet covered names)) (some names) = some covered ∧
        key ∈ covered) ↔ _
      rw [hresult]
      simp only [Option.some.injEq, exists_eq_left', hmem, ne_eq, reduceCtorEq, not_false_eq_true, hfew, true_and,
        mem_cons, forall_eq_or_imp]

theorem not_names_nil (key : Key P V) : ¬ Names [] key := fun h => (names_iff.1 h).1 rfl

theorem names_of_narrow {running : List (Key P V)} (h : Names (narrowProjectionHistory running markers) key) :
    Names markers key := by
  obtain ⟨hne, hlen, hall⟩ := names_iff.1 h
  unfold narrowProjectionHistory at hne hlen hall
  refine names_iff.2 ⟨fun hnil => hne (by rw [hnil]; rfl), by simpa using hlen, fun names hnames => ?_⟩
  exact (mem_filter.1 (hall _ (mem_map_of_mem hnames))).1

theorem names_of_record {recorded : List (Key P V)} {beside : Bool}
    (h : Names (recordProjectionHistory recorded beside markers) key) : key ∈ recorded := by
  obtain ⟨-, -, hall⟩ := names_iff.1 h
  refine hall recorded ?_
  unfold recordProjectionHistory
  split
  · exact mem_append_right _ (mem_singleton_self _)
  · rename_i hsome
    obtain ⟨names, hnames⟩ := exists_mem_of_ne_nil markers fun hnil => hsome (by rw [hnil]; rfl)
    exact mem_map.2 ⟨names, hnames, rfl⟩

/-! ## The invariant -/

/-- Some process took the event through its projectors. -/
def World.Has (w : World U P V) (event : U) : Prop := ∃ a ∈ w.applied, a.event = event

def WorkerInv (w : World U P V) : Stage U → Prop
  | .record => ∀ event ∈ w.delivered, w.Has event
  | .batch projected => ∀ event ∈ projected, w.Has event
  | _ => True

def RebuildInv (w : World U P V) (release : Release P V) : RebuildStage U → Prop
  | .wiping => w.markers = []
  | .replaying left => w.markers = [] ∧ (∀ a ∈ w.applied, a.release = release) ∧
      ∀ event ∈ w.delivered, event ∈ left ∨ w.Has event
  | _ => True

/-- What the marker names projected all that was applied, and all that is delivered was applied. -/
def Sound (handles : Key P V → U → Bool) (w : World U P V) : Prop :=
  ∀ key, Names w.markers key →
    (∀ a ∈ w.applied, handles key a.event = true → Runs a.release key) ∧ ∀ event ∈ w.delivered, w.Has event

structure Inv (handles : Key P V → U → Bool) (w : World U P V) : Prop where
  /-- The lock is held shared or exclusively. -/
  exclusive : w.rebuild.isSome = true → w.sharers = []
  shared : ∀ id worker, w.workers id = some worker → worker.stage.holds = true → id ∈ w.sharers
  sound : Sound handles w
  workers : ∀ id worker, w.workers id = some worker → WorkerInv w worker.stage
  rebuild : ∀ rebuild, w.rebuild = some rebuild → RebuildInv w rebuild.release rebuild.stage

theorem Sound.truthful {w : World U P V} (h : Sound handles w) : Truthful handles w := fun key hkey event hevent hhandles => by
  obtain ⟨hruns, hhas⟩ := h key hkey
  obtain ⟨a, ha, rfl⟩ := hhas event hevent
  exact ⟨a, ha, rfl, hruns a ha hhandles⟩

theorem Inv.empty : Inv handles (World.empty : World U P V) where
  exclusive := fun _ => rfl
  shared := fun _ _ h => nomatch h
  sound := fun key hkey => absurd hkey (not_names_nil key)
  workers := fun _ _ h => nomatch h
  rebuild := fun _ h => nomatch h

variable {w w' : World U P V} {id : Nat} {worker : Worker U P V} {act : Act U P V} {stage : Stage U}

/-! ## Workers -/

/-- What a worker's step does. -/
structure Advanced (handles : Key P V → U → Bool) (w w' : World U P V) (release : Release P V) (act : Act U P V)
    (stage stage' : Stage U) : Prop where
  processes : w'.workers = w.workers ∧ w'.sharers = w.sharers ∧ w'.rebuild = w.rebuild
  /-- Without the lock it writes nothing. -/
  free : stage.holds = false → w' = w
  locked : stage'.holds = true → stage.holds = true ∨ w.rebuild = none
  applied : ∀ a ∈ w.applied, a ∈ w'.applied
  delivered : WorkerInv w stage → ∀ event ∈ w'.delivered, event ∈ w.delivered ∨ w'.Has event
  sound : Sound handles w → WorkerInv w stage → AgreesWith handles w release act → Sound handles w'
  next : WorkerInv w stage → WorkerInv w' stage'

omit [DecidableEq P] [DecidableEq V] in
theorem World.Has.mono {event : U} (happlied : ∀ a ∈ w.applied, a ∈ w'.applied) (h : w.Has event) : w'.Has event := by
  obtain ⟨a, ha, rfl⟩ := h
  exact ⟨a, happlied a ha, rfl⟩

/-- A step that writes nothing. -/
theorem Advanced.read {release : Release P V} {stage' : Stage U}
    (hlocked : stage'.holds = true → stage.holds = true ∨ w.rebuild = none)
    (hnext : WorkerInv w stage → WorkerInv w stage') : Advanced handles w w release act stage stage' where
  processes := ⟨rfl, rfl, rfl⟩
  free := fun _ => rfl
  locked := hlocked
  applied := fun _ ha => ha
  delivered := fun _ _ hevent => Or.inl hevent
  sound := fun hsound _ _ => hsound
  next := hnext

theorem advanced_narrow (release : Release P V) : Advanced handles w
    { w with markers := narrowProjectionHistory (historyProjectors release) w.markers } release act .narrow (.count) where
  processes := ⟨rfl, rfl, rfl⟩
  free := fun h => by cases h
  locked := fun _ => Or.inl rfl
  applied := fun _ ha => ha
  delivered := fun _ _ hevent => Or.inl hevent
  sound := fun hsound _ _ key hkey => hsound key (names_of_narrow hkey)
  next := fun _ => trivial

theorem advanced_record (release : Release P V) (id : Nat) (beside : Bool) : Advanced handles w
    { w with markers := recordProjectionHistory (historyProjectors release) beside w.markers } release (.record id beside)
    .record .idle where
  processes := ⟨rfl, rfl, rfl⟩
  free := fun h => by cases h
  locked := fun _ => Or.inl rfl
  applied := fun _ ha => ha
  delivered := fun _ _ hevent => Or.inl hevent
  sound := fun _ hcovered hagrees key hkey => ⟨hagrees key (names_of_record hkey), hcovered⟩
  next := fun _ => trivial

theorem advanced_project (release : Release P V) (id nodes : Nat) (event : U) (projected : List U) : Advanced handles w
    { w with nodes, applied := w.applied ++ [⟨event, release⟩] } release (.project id event nodes) (.batch projected)
    (.batch (event :: projected)) where
  processes := ⟨rfl, rfl, rfl⟩
  free := fun h => by cases h
  locked := fun _ => Or.inl rfl
  applied := fun _ ha => mem_append_left _ ha
  delivered := fun _ _ hevent => Or.inl hevent
  sound := fun hsound _ hagrees key hkey => by
    obtain ⟨hruns, hhas⟩ := hsound key hkey
    refine ⟨fun a ha hhandles => ?_, fun e he => (hhas e he).mono fun _ ha => mem_append_left _ ha⟩
    rcases mem_append.1 ha with ha | ha
    · exact hruns a ha hhandles
    · cases mem_singleton.1 ha
      exact hagrees key hkey hhandles
  next := fun hprojected e he => by
    rcases mem_cons.1 he with rfl | he
    · exact ⟨⟨e, release⟩, mem_append_right _ (mem_singleton_self _), rfl⟩
    · exact World.Has.mono (fun _ ha => mem_append_left _ ha) (hprojected e he)

theorem advanced_deliver {event : U} {projected : List U} (hevent : event ∈ projected) (release : Release P V) :
    Advanced handles w { w with delivered := event :: w.delivered } release act (.batch projected) (.batch projected) where
  processes := ⟨rfl, rfl, rfl⟩
  free := fun h => by cases h
  locked := fun _ => Or.inl rfl
  applied := fun _ ha => ha
  delivered := fun hprojected e he => by
    rcases mem_cons.1 he with rfl | he
    · exact Or.inr (hprojected e hevent)
    · exact Or.inl he
  sound := fun hsound hprojected _ key hkey => by
    obtain ⟨hruns, hhas⟩ := hsound key hkey
    refine ⟨hruns, fun e he => ?_⟩
    rcases mem_cons.1 he with rfl | he
    · exact hprojected e hevent
    · exact hhas e he
  next := fun hprojected => hprojected

variable [DecidableEq U]
variable {rebuild : Rebuild U P V} {stage' : RebuildStage U}

theorem advance_advanced (h : advance w worker act = some (w', stage)) :
    Advanced handles w w' worker.release act worker.stage stage := by
  cases act with
  | tryLock id =>
    simp only [advance] at h
    split at h
    · rename_i hstage
      cases h
      rw [hstage]
      refine Advanced.read (fun hholds => Or.inr ?_) fun _ => ?_
      · by_cases hrebuild : w.rebuild.isSome
        · simp [hrebuild, Stage.holds] at hholds
        · simpa using hrebuild
      · split <;> trivial
    · rename_i hstage
      cases h
      rw [hstage]
      refine Advanced.read (fun hholds => Or.inr ?_) fun _ => ?_
      · by_cases hrebuild : w.rebuild.isSome
        · simp [hrebuild, Stage.holds] at hholds
        · simpa using hrebuild
      · split
        · trivial
        · exact fun _ hevent => nomatch hevent
    · cases h
  | narrow id =>
    obtain ⟨hstage, ⟨⟩⟩ := Option.ite_none_right_eq_some.1 h
    rw [hstage]
    exact advanced_narrow worker.release
  | countNodes id =>
    obtain ⟨hstage, ⟨⟩⟩ := Option.ite_none_right_eq_some.1 h
    rw [hstage]
    exact Advanced.read (fun _ => Or.inl rfl) fun _ => by split <;> trivial
  | selectDelivered id =>
    obtain ⟨hstage, ⟨⟩⟩ := Option.ite_none_right_eq_some.1 h
    rw [hstage]
    refine Advanced.read (fun _ => Or.inl rfl) fun _ => ?_
    split
    · rename_i hempty
      intro event hevent
      rw [List.isEmpty_iff.1 hempty] at hevent
      cases hevent
    · trivial
  | record id beside =>
    obtain ⟨hstage, ⟨⟩⟩ := Option.ite_none_right_eq_some.1 h
    rw [hstage]
    exact advanced_record worker.release id beside
  | project id event nodes =>
    simp only [advance] at h
    split at h
    · rename_i projected hstage
      cases h
      rw [hstage]
      exact advanced_project worker.release id nodes event projected
    · cases h
  | deliver id event =>
    simp only [advance] at h
    split at h
    · rename_i projected hstage
      simp only [Option.ite_none_right_eq_some] at h
      obtain ⟨hevent, h⟩ := h
      cases h
      rw [hstage]
      exact advanced_deliver hevent worker.release
    · cases h
  | endBatch id =>
    simp only [advance] at h
    split at h
    · rename_i projected hstage
      cases h
      rw [hstage]
      exact Advanced.read (fun _ => Or.inl rfl) fun _ => trivial
    · cases h
  | _ => cases h

/-! ## Steps -/

omit [DecidableEq P] [DecidableEq V] [DecidableEq U] in
theorem WorkerInv.mono (happlied : ∀ a ∈ w.applied, a ∈ w'.applied)
    (hdelivered : ∀ event ∈ w'.delivered, event ∈ w.delivered ∨ w'.Has event) :
    ∀ {stage : Stage U}, WorkerInv w stage → WorkerInv w' stage
  | .record, h => fun event hevent => (hdelivered event hevent).elim (fun he => (h event he).mono happlied) fun h => h
  | .batch _, h => fun event hevent => (h event hevent).mono happlied
  | .starting, _ | .narrow, _ | .count, _ | .select, _ | .idle, _ => trivial

omit [DecidableEq U] in
theorem Inv.setWorker {worker : Option (Worker U P V)} (h : Inv handles w) (id : Nat)
    (hworker : ∀ x, worker = some x → WorkerInv w x.stage ∧ (x.stage.holds = true → w.rebuild = none)) :
    Inv handles (w.setWorker id worker) where
  exclusive := fun hrebuild => by
    show (if _ then _ else _) = []
    rw [h.exclusive hrebuild, if_neg]
    · rfl
    · intro hholds
      obtain ⟨x, hx, hholds⟩ := (Option.any_eq_true _ _).1 hholds
      have hnone : w.rebuild = none := (hworker x hx).2 hholds
      have hsome : w.rebuild.isSome = true := hrebuild
      rw [hnone] at hsome
      cases hsome
  shared := fun id' x hget hholds => by
    show id' ∈ if _ then _ else _
    by_cases hid : id' = id
    · subst hid
      have hx : worker = some x := (Function.update_self (β := fun _ => Option (Worker U P V)) ..).symm.trans hget
      rw [hx, if_pos (by simpa using hholds)]
      exact mem_cons_self
    · have hmem : id' ∈ w.sharers.filter (· ≠ id) :=
        mem_filter.2 ⟨h.shared id' x ((Function.update_of_ne hid ..).symm.trans hget) hholds, by simpa using hid⟩
      split
      · exact mem_cons_of_mem _ hmem
      · exact hmem
  sound := h.sound
  workers := fun id' x hget => by
    by_cases hid : id' = id
    · subst hid
      exact (hworker x ((Function.update_self (β := fun _ => Option (Worker U P V)) ..).symm.trans hget)).1
    · exact h.workers id' x ((Function.update_of_ne hid ..).symm.trans hget)
  rebuild := h.rebuild

theorem Inv.advance {stage' : Stage U} (h : Inv handles w) (hget : w.workers id = some worker)
    (hadvance : advance w worker act = some (w', stage')) (hagrees : AgreesWith handles w worker.release act) :
    Inv handles (w'.setWorker id (some { worker with stage := stage' })) := by
  have hstep : Advanced handles w w' worker.release act worker.stage stage' := advance_advanced hadvance
  obtain ⟨hworkers, hsharers, hrebuild⟩ := hstep.processes
  have hmine := h.workers id worker hget
  have hw' : Inv handles w' :=
    { exclusive := fun hsome => hsharers ▸ h.exclusive (hrebuild ▸ hsome)
      shared := fun id' x hx hholds => hsharers ▸ h.shared id' x (hworkers ▸ hx) hholds
      sound := hstep.sound h.sound hmine hagrees
      workers := fun id' x hx => (h.workers id' x (hworkers ▸ hx)).mono hstep.applied (hstep.delivered hmine)
      rebuild := fun r hr => by
        rw [hrebuild] at hr
        have hfree : worker.stage.holds = false := by
          by_contra hholds
          have hshared := h.shared id worker hget (by simpa using hholds)
          rw [h.exclusive (by rw [hr]; rfl)] at hshared
          cases hshared
        rw [hstep.free hfree]
        exact h.rebuild r hr }
  refine hw'.setWorker id fun x hx => ?_
  cases hx
  refine ⟨hstep.next hmine, fun hholds => ?_⟩
  rw [hrebuild]
  rcases hstep.locked hholds with hheld | hnone
  · by_contra hsome
    have hshared := h.shared id worker hget hheld
    rw [h.exclusive (Option.isSome_iff_ne_none.2 hsome)] at hshared
    cases hshared
  · exact hnone

/-! ## Rebuilds -/

omit [DecidableEq U] in
/-- A step of a rebuild: no worker holds the lock meanwhile. -/
theorem Inv.rebuilds (h : Inv handles w) (hget : w.rebuild = some rebuild) (hworkers : w'.workers = w.workers)
    (hsharers : w'.sharers = w.sharers) (hsound : Sound handles w')
    (hrebuild : RebuildInv w' rebuild.release stage') :
    Inv handles { w' with rebuild := some { rebuild with stage := stage' } } where
  exclusive := fun _ => hsharers.trans (h.exclusive (by rw [hget]; rfl))
  shared := fun id x hx hholds => hsharers ▸ h.shared id x (hworkers ▸ hx) hholds
  sound := hsound
  workers := fun id x hx => by
    have hfree : x.stage.holds = false := by
      by_contra hholds
      have hshared := h.shared id x (hworkers ▸ hx) (by simpa using hholds)
      rw [h.exclusive (by rw [hget]; rfl)] at hshared
      cases hshared
    cases hstage : x.stage with
    | starting | idle => trivial
    | _ =>
      rw [hstage] at hfree
      cases hfree
  rebuild := fun r hr => by
    cases hr
    exact hrebuild

omit [DecidableEq U] in
theorem sound_of_no_marker (h : w.markers = []) : Sound handles w := fun key hkey => by
  rw [h] at hkey
  exact absurd hkey (not_names_nil key)

theorem Inv.advanceRebuild (h : Inv handles w) (hget : w.rebuild = some rebuild)
    (hadvance : advanceRebuild w rebuild act = some (w', stage')) :
    Inv handles { w' with rebuild := some { rebuild with stage := stage' } } := by
  have hstage := h.rebuild rebuild hget
  cases act with
  | dropMarker =>
    obtain ⟨-, ⟨⟩⟩ := Option.ite_none_right_eq_some.1 hadvance
    exact h.rebuilds hget rfl rfl (sound_of_no_marker rfl) rfl
  | wipeBatch nodes =>
    obtain ⟨⟨hwiping, -⟩, ⟨⟩⟩ := Option.ite_none_right_eq_some.1 hadvance
    rw [hwiping] at hstage
    exact h.rebuilds hget rfl rfl (sound_of_no_marker hstage) hstage
  | wiped =>
    obtain ⟨⟨hwiping, -⟩, ⟨⟩⟩ := Option.ite_none_right_eq_some.1 hadvance
    rw [hwiping] at hstage
    refine h.rebuilds hget rfl rfl (sound_of_no_marker hstage) ⟨hstage, fun _ ha => ?_, fun _ he => Or.inl he⟩
    cases ha
  | replay nodes =>
    simp only [advanceRebuild] at hadvance
    split at hadvance
    · rename_i event left hreplaying
      cases hadvance
      rw [hreplaying] at hstage
      obtain ⟨hmarkers, hreleases, hleft⟩ := hstage
      have happlied : ∀ a ∈ w.applied, a ∈ w.applied ++ [(⟨event, rebuild.release⟩ : Applied U P V)] :=
        fun _ ha => mem_append_left _ ha
      refine h.rebuilds hget rfl rfl (sound_of_no_marker hmarkers) ⟨hmarkers, fun a ha => ?_, fun e he => ?_⟩
      · rcases mem_append.1 ha with ha | ha
        · exact hreleases a ha
        · rw [mem_singleton.1 ha]
      · rcases hleft e he with hmem | hhas
        · rcases mem_cons.1 hmem with rfl | hmem
          · exact Or.inr ⟨_, mem_append_right _ (mem_singleton_self _), rfl⟩
          · exact Or.inl hmem
        · exact Or.inr (World.Has.mono happlied hhas)
    · cases hadvance
  | rebuildRecord =>
    obtain ⟨hreplaying, ⟨⟩⟩ := Option.ite_none_right_eq_some.1 hadvance
    rw [hreplaying] at hstage
    obtain ⟨-, hreleases, hleft⟩ := hstage
    refine h.rebuilds hget rfl rfl (fun key hkey => ⟨fun a ha _ => ?_, fun e he => ?_⟩) trivial
    · rw [hreleases a ha]
      exact runs_of_history (names_of_record hkey)
    · exact (hleft e he).resolve_left not_mem_nil
  | _ => cases hadvance

/-! ## Runs -/

theorem inv_worker {id : Nat} (h : Inv handles w) (hagrees : Agrees handles w act) (hid : act.worker = some id)
    (hstep : (w.workers id).bind (fun worker =>
      (advance w worker act).map fun (w', stage) => w'.setWorker id (some { worker with stage })) = some w') :
    Inv handles w' := by
  obtain ⟨worker, hget, hmap⟩ := Option.bind_eq_some_iff.1 hstep
  obtain ⟨⟨w'', stage⟩, hadvance, rfl⟩ := Option.map_eq_some_iff.1 hmap
  exact h.advance hget hadvance (hagrees id worker hid hget)

theorem inv_rebuilding (h : Inv handles w) (hstep : w.rebuild.bind (fun rebuild =>
      (advanceRebuild w rebuild act).map fun (w', stage) => { w' with rebuild := some { rebuild with stage } }) = some w') :
    Inv handles w' := by
  obtain ⟨rebuild, hget, hmap⟩ := Option.bind_eq_some_iff.1 hstep
  obtain ⟨⟨w'', stage⟩, hadvance, rfl⟩ := Option.map_eq_some_iff.1 hmap
  exact h.advanceRebuild hget hadvance

/-- **Step lemma.** -/
theorem inv_step (h : Inv handles w) (hagrees : Agrees handles w act) (hstep : step w act = some w') : Inv handles w' := by
  cases act with
  | start id release =>
    obtain ⟨-, ⟨⟩⟩ := Option.ite_none_left_eq_some.1 hstep
    refine h.setWorker id fun x hx => ?_
    cases hx
    exact ⟨trivial, fun hholds => by cases hholds⟩
  | stop id =>
    obtain ⟨-, ⟨⟩⟩ := Option.ite_none_right_eq_some.1 hstep
    exact h.setWorker id fun x hx => by cases hx
  | rebuild release =>
    simp only [step, Option.ite_none_left_eq_some, Option.some.injEq, Bool.or_eq_true, not_or] at hstep
    obtain ⟨⟨-, hsharers⟩, rfl⟩ := hstep
    refine ⟨fun _ => by simpa using hsharers, h.shared, h.sound, h.workers, fun r hr => ?_⟩
    cases hr
    trivial
  | rebuildEnd =>
    obtain ⟨-, ⟨⟩⟩ := Option.ite_none_right_eq_some.1 hstep
    exact ⟨fun hsome => (by cases hsome), h.shared, h.sound, h.workers, fun _ hr => by cases hr⟩
  | tryLock | narrow | countNodes | selectDelivered | record | project | deliver | endBatch =>
    exact inv_worker h hagrees rfl hstep
  | dropMarker | wipeBatch | wiped | replay | rebuildRecord => exact inv_rebuilding h hstep

/-- **The marker is truthful where every step agrees.** -/
theorem marker_truthful (handles : Key P V → U → Bool) (acts : List (Act U P V)) (w : World U P V)
    (hagrees : Meets step (Agrees handles) World.empty acts) (hrun : run step World.empty acts = some w) :
    Truthful handles w ∧
      ∀ key, Names w.markers key → ∀ a ∈ w.applied, handles key a.event = true → Runs a.release key := by
  have hinv : Inv handles w := run_invariant_where (fun _ _ _ h hok hstep => inv_step h hok hstep) Inv.empty hagrees hrun
  exact ⟨hinv.sound.truthful, fun key hkey => (hinv.sound key hkey).1⟩

/-! ## A worker of another release -/

def sampleRelease (version : Nat) : Release String Nat := [⟨"knowledge", version, true⟩]

def sampleHandles : Key String Nat → Nat → Bool := fun _ _ => true

/-- Worker 0, of release 1, starts while release 2 rebuilds, and goes on after it. -/
def staleActs : List (Act Nat String Nat) :=
  [.rebuild (sampleRelease 2), .start 0 (sampleRelease 1), .tryLock 0, .dropMarker, .wiped, .rebuildRecord, .rebuildEnd,
    .tryLock 0, .project 0 7 1, .deliver 0 7]

theorem stale_worker : ¬ ∀ (handles : Key String Nat → Nat → Bool) (acts : List (Act Nat String Nat))
    (w : World Nat String Nat), run step World.empty acts = some w → Truthful handles w := by
  intro hall
  have hrun : (run step World.empty staleActs).map (fun w => (w.markers, w.delivered, w.applied)) =
      some ([[⟨"knowledge", 2⟩]], [7], [⟨7, sampleRelease 1⟩]) := by
    decide +kernel
  obtain ⟨w, hw, hfields⟩ := Option.map_eq_some_iff.1 hrun
  obtain ⟨hmarkers, hfields⟩ := Prod.mk.inj hfields
  obtain ⟨hdelivered, happlied⟩ := Prod.mk.inj hfields
  have htruthful := hall sampleHandles staleActs w hw ⟨"knowledge", 2⟩
  rw [hmarkers, hdelivered, happlied] at htruthful
  obtain ⟨a, ha, -, projector, hmem, hkey⟩ := htruthful ⟨_, rfl, List.mem_cons_self⟩ 7 List.mem_cons_self rfl
  cases List.mem_singleton.1 ha
  cases List.mem_singleton.1 hmem
  cases hkey

/-- A first worker of release 1, and a rebuild by release 2 after it has stopped. -/
def freshActs : List (Act Nat String Nat) :=
  [.start 0 (sampleRelease 1), .tryLock 0, .narrow 0, .countNodes 0, .selectDelivered 0, .record 0 false, .tryLock 0,
    .project 0 7 1, .deliver 0 7, .endBatch 0, .stop 0, .rebuild (sampleRelease 2), .dropMarker, .wipeBatch 0, .wiped,
    .replay 1, .rebuildRecord, .rebuildEnd, .start 1 (sampleRelease 2), .tryLock 1, .narrow 1, .countNodes 1, .tryLock 1,
    .project 1 8 2, .deliver 1 8]

theorem marker_truthful_sample : ∃ w, run step World.empty freshActs = some w ∧ w.delivered = [8, 7] ∧
    w.markers = [[⟨"knowledge", 2⟩]] ∧ Truthful sampleHandles w := by
  have hrun : (run step World.empty freshActs).map (fun w => (w.delivered, w.markers)) =
      some ([8, 7], [[⟨"knowledge", 2⟩]]) := by
    decide +kernel
  obtain ⟨w, hw, hfields⟩ := Option.map_eq_some_iff.1 hrun
  obtain ⟨hdelivered, hmarkers⟩ := Prod.mk.inj hfields
  exact ⟨w, hw, hdelivered, hmarkers, (marker_truthful sampleHandles freshActs w (by decide +kernel) hw).1⟩

end History

end Projection
