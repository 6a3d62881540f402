import AgentContext.Search.Purges
import AgentContext.Search.Replay

/-!
# Workers between three commits

A worker claims an outbox row, lets the projector write PostgreSQL (its own transactions), commits the graph and then
finalizes the row.  It may fail or crash in between, its lease may be taken over, and it may go on after that.

    Indexed    the event's transaction is committed: its documents are written, its purge has its tombstones
    WorkInv    what is delivered is indexed; a tombstone is of a purge in the ledger; what is committed was readable
-/

namespace Search

open Keyset Locking Transition Projection

theorem lawfulBEq_event {U : Type} [LinearOrder U] : LawfulBEq U := inferInstance

attribute [local instance] lawfulBEq_event

variable {U T V : Type}

/-! ## The system -/

/-- The corpus of the index and purge transactions. -/
def Source.corpus (source : Source U T V) (lockHash : String → Int) : Corpus U T where
  event u :=
    let event := source.event u
    if event.eventType = contentPurgedType then .purged event.purgedContents event.purgedAt
    else .content event.eventType event.projectId event.repositoryId event.sessionId event.occurredAt event.contentRefs
  text := source.text
  toTsvector := source.toTsvector
  lockHash := lockHash

/-- How far a claimed row is: before the end of its transactions in PostgreSQL, before the graph commit, after it. -/
inductive AttemptStage where
  | projecting
  | projected
  | committed
deriving DecidableEq, Repr

structure Attempt (U : Type) where
  event : U
  stage : AttemptStage

/-- The tables of search, the outbox, and the attempts of the workers. -/
structure Workers (U T : Type) where
  tables : World U T
  status : U → OutboxStatus
  lease : U → Option Nat
  attempts : Nat → Option (Attempt U)

def Act.id : Act U → Nat
  | .deliver id _ | .read id | .lock id | .check id | .write id | .tombstone id | .delete id | .commit id | .fail id => id

inductive Work (U : Type) where
  | claim (id : Nat) (u : U)
  | pass (id : Nat)
  | search (act : Act U)
  | redo (id : Nat)
  | graph (id : Nat)
  | finalize (id : Nat)
  | retry (id : Nat)
  | deadLetter (id : Nat)
  | crash (id : Nat)
  | requeue (u : U)

section Step

variable [LinearOrder U] (source : Source U T V) (lockHash : String → Int)

def Workers.start : Workers U T := ⟨World.start, fun _ => .pending, fun _ => none, fun _ => none⟩

/-- The next read of a delivery raises. -/
def readFails (w : World U T) (id : Nat) : Bool :=
  match w.deliveries id with
  | some ⟨u, .reading (ref :: _) _⟩ => (w.tombstones ref.contentId).isNone && !source.readable u ref
  | _ => false

/-- A step of the projector's transactions, on the content there is. -/
def searchStep (w : World U T) (act : Act U) : Option (World U T) :=
  match act with
  | .read id => if readFails source w id then step (source.corpus lockHash) w (.fail id) else step (source.corpus lockHash) w act
  | _ => step (source.corpus lockHash) w act

/-- The attempt is over, and with it its transaction. -/
def Workers.endAttempt (s : Workers U T) (id : Nat) : Workers U T :=
  { s with
    tables := (step (source.corpus lockHash) s.tables (.fail id)).getD s.tables
    attempts := Function.update s.attempts id none }

/-- The attempt still holds its row. -/
def Workers.holds (s : Workers U T) (id : Nat) (u : U) : Bool := s.lease u = some id && s.status u = .leased

/-- The row is finalized: `_fenced_update`. -/
def Workers.setStatus (s : Workers U T) (u : U) (status : OutboxStatus) : Workers U T :=
  { s with status := Function.update s.status u status, lease := Function.update s.lease u none }

def Workers.setStage (s : Workers U T) (id : Nat) (u : U) (stage : AttemptStage) : Workers U T :=
  { s with attempts := Function.update s.attempts id (some ⟨u, stage⟩) }

/-- A delivery is of the event of its attempt. -/
def Act.isOf [DecidableEq U] (act : Act U) (u : U) : Bool :=
  match act with
  | .deliver _ u' => u' = u
  | _ => true

def Act.isCommit : Act U → Bool
  | .commit _ => true
  | _ => false

/-- One step of the workers.  A callback of `execute_write` may run again (`redo`), and a row may be claimed while another
attempt on it is still under way. -/
def workStep (s : Workers U T) : Work U → Option (Workers U T)
  | .claim id u =>
    if (s.attempts id).isNone ∧ u ∈ source.ledger ∧ (s.status u = .pending ∨ s.status u = .leased) then
      some { s with
        status := Function.update s.status u .leased
        lease := Function.update s.lease u (some id)
        attempts := Function.update s.attempts id (some ⟨u, .projecting⟩) }
    else none
  | .pass id =>
    match s.attempts id with
    | some ⟨u, .projecting⟩ =>
      if handles source (source.event u).eventType then none else some (s.setStage id u .projected)
    | _ => none
  | .search act =>
    match s.attempts act.id with
    | some ⟨u, .projecting⟩ =>
      if handles source (source.event u).eventType ∧ act.isOf u then
        (searchStep source lockHash s.tables act).map fun tables =>
          if act.isCommit then ({ s with tables }).setStage act.id u .projected else { s with tables }
      else none
    | _ => none
  | .redo id =>
    match s.attempts id with
    | some ⟨u, .projected⟩ => some (s.setStage id u .projecting)
    | _ => none
  | .graph id =>
    match s.attempts id with
    | some ⟨u, .projected⟩ => some (s.setStage id u .committed)
    | _ => none
  | .finalize id =>
    match s.attempts id with
    | some ⟨u, .committed⟩ =>
      if s.holds id u then some ((s.setStatus u .delivered).endAttempt source lockHash id) else none
    | _ => none
  | .retry id =>
    match s.attempts id with
    | some ⟨u, _⟩ => if s.holds id u then some ((s.setStatus u .pending).endAttempt source lockHash id) else none
    | none => none
  | .deadLetter id =>
    match s.attempts id with
    | some ⟨u, _⟩ => if s.holds id u then some ((s.setStatus u .deadLettered).endAttempt source lockHash id) else none
    | none => none
  | .crash id => (s.attempts id).map fun _ => s.endAttempt source lockHash id
  | .requeue u => if s.status u = .deadLettered then some (s.setStatus u .pending) else none

end Step

/-! ## What a step of the transactions does -/

section Effect

variable [LinearOrder U] {corpus : Corpus U T} {w w' : World U T}

/-- The stage after a delivery's own step. -/
def Moved (corpus : Corpus U T) (w : World U T) (act : Act U) (delivery : Delivery U T) : Prop :=
  (act = .deliver act.id delivery.event ∧ delivery.stage = firstStage corpus delivery.event) ∨
    ∃ stage, w.deliveries act.id = some ⟨delivery.event, stage⟩ ∧
      (advance corpus w delivery.event act stage = some delivery.stage ∨
        ∃ contentId, nextLock stage = some (contentId, delivery.stage))

/-- A step before the commit: the tables stay. -/
structure Quiet (corpus : Corpus U T) (w w' : World U T) (act : Act U) (delivery? : Option (Delivery U T)) : Prop where
  notCommit : act.isCommit = false
  deliveries : w'.deliveries = Function.update w.deliveries act.id delivery?
  tombstones : w'.tombstones = w.tombstones
  delivered : w'.delivered = w.delivered
  moved : ∀ delivery, delivery? = some delivery → Moved corpus w act delivery

structure Commits (corpus : Corpus U T) (w w' : World U T) (id : Nat) (delivery : Delivery U T) : Prop where
  found : w.deliveries id = some delivery
  deliveries : w'.deliveries = Function.update w.deliveries id none
  effect : ∃ w'', commitStage corpus w delivery.event delivery.stage = some w'' ∧ w'.tombstones = w''.tombstones ∧
    w'.delivered = w''.delivered

omit [LinearOrder U] in
theorem commitStage_deliveries {u : U} {stage : Stage U T} {w'' : World U T}
    (h : commitStage corpus w u stage = some w'') : w''.deliveries = w.deliveries := by
  unfold commitStage at h
  split at h
  · split at h
    · cases h
      rfl
    · cases h
  · cases h
    rfl
  · split at h
    · cases h
      rfl
    · cases h
  · cases h

theorem proceed_quiet {act : Act U} (hact : act.isCommit = false) (h : proceed corpus w act.id act = some w') :
    ∃ delivery?, Quiet corpus w w' act delivery? := by
  obtain ⟨⟨u, stage⟩, hget, hnext⟩ := Option.map_eq_some_iff.1 h
  dsimp only at hnext
  cases hadvance : advance corpus w u act stage with
  | none =>
    rw [hadvance] at hnext
    subst hnext
    exact ⟨none, hact, rfl, rfl, rfl, fun _ heq => nomatch heq⟩
  | some stage' =>
    rw [hadvance] at hnext
    subst hnext
    refine ⟨_, hact, rfl, rfl, rfl, fun delivery heq => ?_⟩
    cases heq
    exact Or.inr ⟨stage, hget, Or.inl hadvance⟩

theorem step_effect {act : Act U} (h : step corpus w act = some w') :
    (∃ delivery?, Quiet corpus w w' act delivery?) ∨ ∃ id delivery, act = .commit id ∧ Commits corpus w w' id delivery := by
  cases act with
  | deliver id u =>
    obtain ⟨-, ⟨⟩⟩ := Option.ite_none_left_eq_some.1 h
    refine Or.inl ⟨_, rfl, rfl, rfl, rfl, fun delivery heq => ?_⟩
    cases heq
    exact Or.inl ⟨rfl, rfl⟩
  | lock id =>
    simp only [step] at h
    split at h
    · rename_i delivery hget
      split at h
      · rename_i contentId stage hnext
        obtain ⟨locks, -, rfl⟩ := Option.map_eq_some_iff.1 h
        refine Or.inl ⟨_, rfl, rfl, rfl, rfl, fun delivery' heq => ?_⟩
        cases heq
        exact Or.inr ⟨delivery.stage, hget, Or.inr ⟨contentId, hnext⟩⟩
      · cases h
    · cases h
  | commit id =>
    simp only [step] at h
    split at h
    · rename_i delivery hget
      obtain ⟨w'', hcommit, rfl⟩ := Option.map_eq_some_iff.1 h
      refine Or.inr ⟨id, delivery, rfl, hget, ?_, w'', hcommit, rfl, rfl⟩
      show Function.update w''.deliveries id none = _
      rw [commitStage_deliveries hcommit]
    · cases h
  | fail id =>
    obtain ⟨delivery, -, rfl⟩ := Option.map_eq_some_iff.1 h
    exact Or.inl ⟨none, rfl, rfl, rfl, rfl, fun _ heq => by cases heq⟩
  | read | check | write | tombstone | delete => exact Or.inl (proceed_quiet rfl h)

end Effect

/-! ## The invariant -/

section Invariant

variable [LinearOrder U] (source : Source U T V) (lockHash : String → Int)

/-- Of every reference that the event indexes the content is purged or can be read. -/
def AllRead (w : World U T) (u : U) : Prop :=
  ∀ ref ∈ indexedRefs (source.corpus lockHash) u, (w.tombstones ref.contentId).isSome = true ∨ source.readable u ref = true

/-- The references a delivery has still to read. -/
def Stage.unread : Stage U T → List ContentRef
  | .reading left _ => left
  | _ => []

def StageRead (w : World U T) (u : U) (stage : Stage U T) : Prop :=
  ∀ ref ∈ indexedRefs (source.corpus lockHash) u,
    ref ∈ stage.unread ∨ (w.tombstones ref.contentId).isSome = true ∨ source.readable u ref = true

/-- The event's transaction is committed, if the projector handles it. -/
def Indexed (w : World U T) (u : U) : Prop :=
  handles source (source.event u).eventType = true →
    if (source.event u).eventType = contentPurgedType then
      ∀ c ∈ (source.event u).purgedContents, (w.tombstones c).isSome = true
    else u ∈ w.delivered

/-- An event that the projector is given. -/
def Given (u : U) : Prop := u ∈ source.ledger ∧ handles source (source.event u).eventType = true

structure TablesInv (w : World U T) : Prop where
  inv : Inv (source.corpus lockHash) w
  purged : ∀ c, (w.tombstones c).isSome = true → ledgerPurged source c = true
  committed : ∀ u ∈ w.delivered, Given source u ∧ AllRead source lockHash w u
  reads : ∀ id delivery, w.deliveries id = some delivery →
    Given source delivery.event ∧ StageRead source lockHash w delivery.event delivery.stage

structure WorkInv (s : Workers U T) : Prop where
  tables : TablesInv source lockHash s.tables
  owned : ∀ id delivery, s.tables.deliveries id = some delivery → s.attempts id = some ⟨delivery.event, .projecting⟩
  attempts : ∀ id attempt, s.attempts id = some attempt →
    attempt.event ∈ source.ledger ∧ (attempt.stage ≠ .projecting → Indexed source s.tables attempt.event)
  delivered : ∀ u, s.status u = .delivered → Indexed source s.tables u

/-- What a step of the transactions never takes back. -/
structure Grows (w w' : World U T) : Prop where
  delivered : ∀ u ∈ w.delivered, u ∈ w'.delivered
  tombstones : ∀ c, (w.tombstones c).isSome = true → (w'.tombstones c).isSome = true

variable {source lockHash} {w w' : World U T} {u : U}
variable {act : Act U} {stage : AttemptStage}

section

omit [LinearOrder U]

theorem Indexed.mono (h : Indexed source w u) (hgrows : Grows w w') : Indexed source w' u := by
  intro hhandles
  have hindexed := h hhandles
  split
  · rename_i hpurge
    rw [if_pos hpurge] at hindexed
    exact fun c hc => hgrows.tombstones c (hindexed c hc)
  · rename_i hpurge
    rw [if_neg hpurge] at hindexed
    exact hgrows.delivered u hindexed

theorem AllRead.mono (h : AllRead source lockHash w u) (hgrows : Grows w w') : AllRead source lockHash w' u :=
  fun ref href => (h ref href).imp_left (hgrows.tombstones _)

theorem StageRead.mono {stage : Stage U T} (h : StageRead source lockHash w u stage) (hgrows : Grows w w') :
    StageRead source lockHash w' u stage :=
  fun ref href => (h ref href).imp_right fun hread => hread.imp_left (hgrows.tombstones _)

theorem stageRead_first (w : World U T) (u : U) :
    StageRead source lockHash w u (firstStage (source.corpus lockHash) u) := by
  intro ref href
  unfold firstStage
  split
  · exact Or.inl href
  · rename_i hevent
    unfold indexedRefs at href
    rw [hevent] at href
    cases href

end

/-- A delivery's own step reads no more than one content, and that one is purged or can be read. -/
theorem stageRead_advance {stage stage' : Stage U T} {id : Nat} (hget : w.deliveries id = some ⟨u, stage⟩)
    (hread : ∀ x, act = .read x → readFails source w id = false)
    (hadvance : advance (source.corpus lockHash) w u act stage = some stage')
    (h : StageRead source lockHash w u stage) : StageRead source lockHash w u stage' := by
  unfold advance at hadvance
  split at hadvance
  · rename_i x ref left kept
    have hread := hread x rfl
    unfold readFails at hread
    rw [hget] at hread
    dsimp only at hread
    have hone : ∀ r ∈ indexedRefs (source.corpus lockHash) u,
        r ∈ left ∨ (w.tombstones r.contentId).isSome = true ∨ source.readable u r = true := by
      intro r hr
      rcases h r hr with hmem | hdone
      · rcases List.mem_cons.1 hmem with rfl | hmem
        · refine Or.inr ?_
          cases htombstone : w.tombstones r.contentId with
          | some _ => exact Or.inl rfl
          | none =>
            rw [htombstone] at hread
            exact Or.inr (by simpa using hread)
        · exact Or.inl hmem
      · exact Or.inr hdone
    split at hadvance
    · cases hadvance
      exact hone
    · cases hadvance
      exact hone
  · dsimp only at hadvance
    split at hadvance
    · cases hadvance
    · cases hadvance
      exact h
  · cases hadvance
    exact h
  · obtain ⟨row, -, rfl⟩ := Option.map_eq_some_iff.1 hadvance
    exact h
  · cases hadvance
    exact h
  · cases hadvance
    exact h
  · cases hadvance
    exact h
  · cases hadvance

omit [LinearOrder U] in
theorem stageRead_lock {stage stage' : Stage U T} {contentId : String} (hnext : nextLock stage = some (contentId, stage'))
    (h : StageRead source lockHash w u stage) : StageRead source lockHash w u stage' := by
  unfold nextLock at hnext
  split at hnext
  · cases hnext
    exact h
  · cases hnext
    exact h
  · cases hnext

theorem commitStage_spec {stage : Stage U T} {w'' : World U T} (h : TablesInv source lockHash w) (hgiven : Given source u)
    (hread : StageRead source lockHash w u stage) (hfits : Fits (source.corpus lockHash) u stage)
    (hcommit : commitStage (source.corpus lockHash) w u stage = some w'') :
    Grows w w'' ∧ Indexed source w'' u ∧ (∀ c, (w''.tombstones c).isSome = true → ledgerPurged source c = true) ∧
      ∀ u' ∈ w''.delivered, Given source u' ∧ AllRead source lockHash w'' u' := by
  have hcontent : (∀ contentIds purgedAt, (source.corpus lockHash).event u ≠ .purged contentIds purgedAt) →
      (source.event u).eventType ≠ contentPurgedType := fun hne htype => hne _ _ (by simp only [Source.corpus, if_pos htype]; rfl)
  -- the index of an event whose references are all read
  have hindex : ∀ w1 : World U T, w1.tombstones = w.tombstones → w1.delivered = w.delivered ++ [u] →
      (source.event u).eventType ≠ contentPurgedType → AllRead source lockHash w u →
      Grows w w1 ∧ Indexed source w1 u ∧ (∀ c, (w1.tombstones c).isSome = true → ledgerPurged source c = true) ∧
        ∀ u' ∈ w1.delivered, Given source u' ∧ AllRead source lockHash w1 u' := by
    intro w1 htombstones hdelivered htype hall
    have hgrows : Grows w w1 := ⟨fun u' hu' => hdelivered ▸ List.mem_append_left _ hu', fun c hc => htombstones ▸ hc⟩
    refine ⟨hgrows, fun _ => ?_, fun c hc => h.purged c (htombstones ▸ hc), fun u' hu' => ?_⟩
    · rw [if_neg htype, hdelivered]
      exact List.mem_append_right _ (List.mem_singleton_self u)
    · rw [hdelivered] at hu'
      rcases List.mem_append.1 hu' with hu' | hu'
      · exact (h.committed u' hu').imp_right (AllRead.mono · hgrows)
      · rw [List.mem_singleton.1 hu']
        exact ⟨hgiven, hall.mono hgrows⟩
  have hnothing : stage.unread = [] → AllRead source lockHash w u := fun hunread ref href => by
    rcases hread ref href with hmem | hdone
    · rw [hunread] at hmem
      cases hmem
    · exact hdone
  unfold commitStage at hcommit
  split at hcommit
  · split at hcommit
    · cases hcommit
      exact hindex _ rfl rfl (hcontent hfits) (hnothing rfl)
    · cases hcommit
  · cases hcommit
    exact hindex _ rfl rfl (hcontent hfits) (hnothing rfl)
  · rename_i contentIds
    obtain ⟨purgedAt, hevent⟩ := hfits
    rw [hevent] at hcommit
    cases hcommit
    have htype : (source.event u).eventType = contentPurgedType := by
      by_contra hne
      simp [Source.corpus, hne] at hevent
    have hids : contentIds = (source.event u).purgedContents := by
      simp only [Source.corpus, if_pos htype, Event.purged.injEq] at hevent
      exact hevent.1.symm
    have hgrows : Grows w (w.commitPurge u purgedAt contentIds) := by
      refine ⟨fun _ hu' => hu', fun c hc => ?_⟩
      simp only [World.commitPurge]
      split
      · rw [Option.isSome_or, hc, Bool.true_or]
      · exact hc
    refine ⟨hgrows, fun _ => ?_, fun c hc => ?_, fun u' hu' => (h.committed u' hu').imp_right (AllRead.mono · hgrows)⟩
    · rw [if_pos htype]
      intro c hc
      simp [World.commitPurge, hids, hc]
    · by_cases hmem : c ∈ contentIds
      · exact ledgerPurged_of hgiven.1 htype (hids ▸ hmem)
      · exact h.purged c (by simpa [World.commitPurge, hmem] using hc)
  · cases hcommit

theorem searchStep_step (h : searchStep source lockHash w act = some w') :
    ∃ act', act'.id = act.id ∧ act'.isCommit = act.isCommit ∧ (∀ id u, act' = .deliver id u → act = .deliver id u) ∧
      (∀ id, act' = .read id → readFails source w id = false) ∧ step (source.corpus lockHash) w act' = some w' := by
  unfold searchStep at h
  split at h
  · rename_i id
    split at h
    · exact ⟨.fail id, rfl, rfl, fun _ _ heq => (nomatch heq), fun _ heq => (nomatch heq), h⟩
    · rename_i hread
      refine ⟨.read id, rfl, rfl, fun _ _ heq => (nomatch heq), fun id' heq => ?_, h⟩
      cases heq
      simpa using hread
  · rename_i hne
    exact ⟨act, rfl, rfl, fun _ _ heq => heq, fun id heq => absurd heq (hne id), h⟩

/-- A step of the transactions of one attempt. -/
theorem tables_step (h : TablesInv source lockHash w) (hgiven : ∀ id u, act = .deliver id u → Given source u)
    (hstep : searchStep source lockHash w act = some w') :
    TablesInv source lockHash w' ∧ Grows w w' ∧ (∀ id, id ≠ act.id → w'.deliveries id = w.deliveries id) ∧
      (act.isCommit = true → ∃ delivery, w.deliveries act.id = some delivery ∧ Indexed source w' delivery.event) ∧
      ∀ delivery, w'.deliveries act.id = some delivery → act.isCommit = false ∧
        (act = .deliver act.id delivery.event ∨ ∃ stage, w.deliveries act.id = some ⟨delivery.event, stage⟩) := by
  obtain ⟨act', hid, hcommit, hdeliver, hread, hstep⟩ := searchStep_step hstep
  have hinv' := inv_step h.inv hstep
  rcases step_effect hstep with ⟨delivery?, hquiet⟩ | ⟨id, delivery, rfl, hcommits⟩
  · have hgrows : Grows w w' := ⟨fun u hu => hquiet.delivered ▸ hu, fun c hc => hquiet.tombstones ▸ hc⟩
    have hself : w'.deliveries act.id = delivery? := by rw [hquiet.deliveries, hid, Function.update_self]
    have hother : ∀ id, id ≠ act.id → w'.deliveries id = w.deliveries id := fun id hne => by
      rw [hquiet.deliveries, hid, Function.update_of_ne hne]
    refine ⟨⟨hinv', fun c hc => h.purged c (hquiet.tombstones ▸ hc), fun u hu => ?_, fun id delivery hget => ?_⟩, hgrows,
      hother, fun hc => ?_, fun delivery hget => ?_⟩
    · exact (h.committed u (hquiet.delivered ▸ hu)).imp_right (AllRead.mono · hgrows)
    · by_cases hne : id = act.id
      · subst hne
        rcases hquiet.moved delivery (hself.symm.trans hget) with ⟨heq, hstage⟩ | ⟨stage, hget', hmove⟩
        · refine ⟨hgiven _ _ (hdeliver _ _ heq), ?_⟩
          rw [hstage]
          exact stageRead_first w' delivery.event
        · rw [hid] at hget'
          obtain ⟨hgiven', hstage⟩ := h.reads _ _ hget'
          refine ⟨hgiven', StageRead.mono ?_ hgrows⟩
          rcases hmove with hadvance | ⟨contentId, hnext⟩
          · refine stageRead_advance hget' (fun x hx => ?_) hadvance hstage
            have hx' : act.id = x := by rw [← hid, hx]; rfl
            rw [hx']
            exact hread x hx
          · exact stageRead_lock hnext hstage
      · rw [hother id hne] at hget
        exact (h.reads id delivery hget).imp_right (StageRead.mono · hgrows)
    · rw [← hcommit, hquiet.notCommit] at hc
      cases hc
    · refine ⟨hcommit ▸ hquiet.notCommit, ?_⟩
      rcases hquiet.moved delivery (hself.symm.trans hget) with ⟨heq, -⟩ | ⟨stage, hget', -⟩
      · exact Or.inl (hid ▸ hdeliver _ _ heq)
      · exact Or.inr ⟨stage, hid ▸ hget'⟩
  · have hid' : act.id = id := hid.symm
    obtain ⟨w'', hstage, htombstones, hdelivered⟩ := hcommits.effect
    obtain ⟨hgiven', hread'⟩ := h.reads id delivery hcommits.found
    have hfits := (h.inv.deliveries id delivery hcommits.found).1
    obtain ⟨hgrows, hindexed, hpurged, hcommitted⟩ := commitStage_spec h hgiven' hread' hfits hstage
    have hgrows' : Grows w'' w' := ⟨fun u hu => hdelivered ▸ hu, fun c hc => htombstones ▸ hc⟩
    have hgrows'' : Grows w w' := ⟨fun u hu => hgrows'.delivered u (hgrows.delivered u hu), fun c hc =>
      hgrows'.tombstones c (hgrows.tombstones c hc)⟩
    have hother : ∀ id', id' ≠ id → w'.deliveries id' = w.deliveries id' := fun id' hne => by
      rw [hcommits.deliveries, Function.update_of_ne hne]
    rw [hid']
    refine ⟨⟨hinv', fun c hc => hpurged c (htombstones ▸ hc), fun u hu => ?_, fun id' delivery' hget => ?_⟩, hgrows'', hother,
      fun _ => ⟨delivery, hcommits.found, hindexed.mono hgrows'⟩, fun delivery' hget => ?_⟩
    · exact (hcommitted u (hdelivered ▸ hu)).imp_right (AllRead.mono · hgrows')
    · have hne : id' ≠ id := by
        rintro rfl
        rw [hcommits.deliveries, Function.update_self] at hget
        cases hget
      rw [hother id' hne] at hget
      exact (h.reads id' delivery' hget).imp_right (StageRead.mono · hgrows'')
    · rw [hcommits.deliveries, Function.update_self] at hget
      cases hget

/-! ## The workers' steps -/

variable {s s' : Workers U T}

theorem WorkInv.start : WorkInv source lockHash (Workers.start : Workers U T) where
  tables := ⟨Inv.start, fun _ hc => (nomatch hc), fun _ hu => (nomatch hu), fun _ _ hget => (nomatch hget)⟩
  owned := fun _ _ hget => nomatch hget
  attempts := fun _ _ hget => nomatch hget
  delivered := fun _ hstatus => nomatch hstatus

section

variable (h : WorkInv source lockHash s)
include h

theorem WorkInv.grow {tables : World U T} (htables : TablesInv source lockHash tables)
    (hgrows : Grows s.tables tables)
    (howned : ∀ id delivery, tables.deliveries id = some delivery → s.attempts id = some ⟨delivery.event, .projecting⟩) :
    WorkInv source lockHash { s with tables } where
  tables := htables
  owned := howned
  attempts := fun id attempt hget => (h.attempts id attempt hget).imp_right fun hindexed hstage => (hindexed hstage).mono hgrows
  delivered := fun u hu => (h.delivered u hu).mono hgrows

/-- An attempt ends, and its transaction rolls back. -/
theorem WorkInv.endAttempt (id : Nat) : WorkInv source lockHash (s.endAttempt source lockHash id) := by
  have hattempts : ∀ id' attempt, Function.update s.attempts id none id' = some attempt → id' ≠ id ∧ s.attempts id' = some attempt := by
    intro id' attempt hget
    by_cases hne : id' = id
    · subst hne
      rw [Function.update_self] at hget
      cases hget
    · exact ⟨hne, by rwa [Function.update_of_ne hne] at hget⟩
  unfold Workers.endAttempt
  cases hstep : step (source.corpus lockHash) s.tables (.fail id) with
  | none =>
    have hnone : s.tables.deliveries id = none := by
      cases hget : s.tables.deliveries id with
      | none => rfl
      | some delivery => simp [step, hget] at hstep
    refine ⟨h.tables, fun id' delivery hget => ?_, fun id' attempt hget => h.attempts id' attempt (hattempts id' attempt hget).2,
      h.delivered⟩
    have hne : id' ≠ id := by
      rintro rfl
      have hsome : s.tables.deliveries id' = some delivery := hget
      rw [hnone] at hsome
      cases hsome
    exact (Function.update_of_ne hne _ _).trans (h.owned id' delivery hget)
  | some tables =>
    have hfail : searchStep source lockHash s.tables (.fail id) = some tables := hstep
    obtain ⟨htables, hgrows, hother, -, hmine⟩ := tables_step h.tables (fun _ _ heq => by cases heq) hfail
    have hgone : tables.deliveries id = none := by
      obtain ⟨delivery, -, rfl⟩ := Option.map_eq_some_iff.1 hstep
      exact Function.update_self ..
    refine ⟨htables, fun id' delivery hget => ?_, fun id' attempt hget => ?_, fun u hu => (h.delivered u hu).mono hgrows⟩
    · have hne : id' ≠ id := by
        rintro rfl
        have hsome : tables.deliveries id' = some delivery := hget
        rw [hgone] at hsome
        cases hsome
      have hsame : s.tables.deliveries id' = some delivery := (hother id' hne).symm.trans hget
      exact (Function.update_of_ne hne _ _).trans (h.owned id' delivery hsame)
    · exact (h.attempts id' attempt (hattempts id' attempt hget).2).imp_right fun hindexed hstage => (hindexed hstage).mono hgrows

/-- A row gets another status: delivered only when its event is indexed. -/
theorem WorkInv.setStatus {status : OutboxStatus} (u : U)
    (hindexed : status = .delivered → Indexed source s.tables u) : WorkInv source lockHash (s.setStatus u status) where
  tables := h.tables
  owned := h.owned
  attempts := h.attempts
  delivered := fun u' hu' => by
    by_cases hu : u' = u
    · subst hu
      have hself : Function.update s.status u' status u' = .delivered := hu'
      exact hindexed (by rwa [Function.update_self] at hself)
    · have hother : Function.update s.status u status u' = .delivered := hu'
      exact h.delivered u' (by rwa [Function.update_of_ne hu] at hother)

/-- An attempt without a transaction under way goes to another stage. -/
theorem WorkInv.setStage {id : Nat} (hledger : u ∈ source.ledger)
    (hfree : s.tables.deliveries id = none) (hindexed : stage ≠ .projecting → Indexed source s.tables u) :
    WorkInv source lockHash (s.setStage id u stage) where
  tables := h.tables
  owned := fun id' delivery hget => by
    have hne : id' ≠ id := by
      rintro rfl
      have hsome : s.tables.deliveries id' = some delivery := hget
      rw [hfree] at hsome
      cases hsome
    exact (Function.update_of_ne hne _ _).trans (h.owned id' delivery hget)
  attempts := fun id' attempt hget => by
    by_cases hne : id' = id
    · subst hne
      obtain rfl : ⟨u, stage⟩ = attempt := Option.some.inj ((Function.update_self id' _ s.attempts).symm.trans hget)
      exact ⟨hledger, hindexed⟩
    · exact h.attempts id' attempt ((Function.update_of_ne hne _ s.attempts).symm.trans hget)
  delivered := h.delivered

/-- Only an attempt that is projecting has a transaction under way. -/
theorem WorkInv.free {id : Nat} (hget : s.attempts id = some ⟨u, stage⟩)
    (hstage : stage ≠ .projecting) : s.tables.deliveries id = none := by
  cases hdelivery : s.tables.deliveries id with
  | none => rfl
  | some delivery =>
    have howned := h.owned id delivery hdelivery
    rw [hget] at howned
    injection howned with howned
    injection howned with _ hprojecting
    exact absurd hprojecting hstage

theorem work_step {work : Work U} (hstep : workStep source lockHash s work = some s') :
    WorkInv source lockHash s' := by
  cases work with
  | claim id u =>
    obtain ⟨⟨hfree, hledger, hclaimable⟩, ⟨⟩⟩ := Option.ite_none_right_eq_some.1 hstep
    have hnone : s.attempts id = none := Option.isNone_iff_eq_none.1 hfree
    have hdelivery : s.tables.deliveries id = none := by
      cases hget : s.tables.deliveries id with
      | none => rfl
      | some delivery =>
        have howned := h.owned id delivery hget
        rw [hnone] at howned
        cases howned
    have hset : WorkInv source lockHash (s.setStage id u .projecting) := h.setStage hledger hdelivery fun hne => absurd rfl hne
    refine ⟨hset.tables, hset.owned, hset.attempts, fun u' hu' => ?_⟩
    by_cases hu : u' = u
    · subst hu
      simp at hu'
    · exact h.delivered u' (by simpa [Function.update_of_ne hu] using hu')
  | pass id =>
    simp only [workStep] at hstep
    split at hstep
    · rename_i u hget
      simp only [Option.ite_none_left_eq_some, Option.some.injEq] at hstep
      obtain ⟨hskip, rfl⟩ := hstep
      have hfree : s.tables.deliveries id = none := by
        cases hdelivery : s.tables.deliveries id with
        | none => rfl
        | some delivery =>
          have howned := h.owned id delivery hdelivery
          rw [hget] at howned
          cases howned
          exact absurd (h.tables.reads id delivery hdelivery).1.2 hskip
      exact h.setStage (h.attempts id _ hget).1 hfree fun _ hhandles => absurd hhandles hskip
    · cases hstep
  | search act =>
    simp only [workStep] at hstep
    split at hstep
    · rename_i u hget
      simp only [Option.ite_none_right_eq_some] at hstep
      obtain ⟨⟨hhandles, hof⟩, hstep⟩ := hstep
      obtain ⟨tables, htables, rfl⟩ := Option.map_eq_some_iff.1 hstep
      have hdeliver : ∀ id' u', act = .deliver id' u' → u' = u := fun id' u' heq => by
        subst heq
        simpa [Act.isOf] using hof
      obtain ⟨hinv, hgrows, hother, hcommit, hmine⟩ := tables_step h.tables
        (fun id' u' heq => hdeliver id' u' heq ▸ ⟨(h.attempts _ _ hget).1, hhandles⟩) htables
      have hgrown : WorkInv source lockHash { s with tables } := by
        refine h.grow hinv hgrows fun id' delivery hdelivery => ?_
        by_cases hne : id' = act.id
        · subst hne
          rcases (hmine delivery hdelivery).2 with heq | ⟨stage, hbefore⟩
          · rw [hget, hdeliver _ _ heq]
          · exact h.owned act.id ⟨delivery.event, stage⟩ hbefore
        · exact h.owned id' delivery ((hother id' hne).symm.trans hdelivery)
      by_cases hends : act.isCommit = true
      · rw [if_pos hends]
        obtain ⟨delivery, hbefore, hindexed⟩ := hcommit hends
        have howned := h.owned _ _ hbefore
        rw [hget] at howned
        cases howned
        refine hgrown.setStage (h.attempts _ _ hget).1 ?_ fun _ => hindexed
        show tables.deliveries act.id = none
        cases hafter : tables.deliveries act.id with
        | none => rfl
        | some delivery' =>
          have hnot := (hmine delivery' hafter).1
          rw [hends] at hnot
          cases hnot
      · rw [if_neg hends]
        exact hgrown
    · cases hstep
  | redo id =>
    simp only [workStep] at hstep
    split at hstep
    · rename_i u hget
      cases hstep
      exact h.setStage (h.attempts id _ hget).1 (h.free hget nofun) fun hne => absurd rfl hne
    · cases hstep
  | graph id =>
    simp only [workStep] at hstep
    split at hstep
    · rename_i u hget
      cases hstep
      exact h.setStage (h.attempts id _ hget).1 (h.free hget nofun) fun _ => (h.attempts id _ hget).2 nofun
    · cases hstep
  | finalize id =>
    simp only [workStep] at hstep
    split at hstep
    · rename_i u hget
      obtain ⟨-, ⟨⟩⟩ := Option.ite_none_right_eq_some.1 hstep
      exact (h.setStatus u fun _ => (h.attempts id _ hget).2 nofun).endAttempt id
    · cases hstep
  | retry id =>
    simp only [workStep] at hstep
    split at hstep
    · rename_i u stage hget
      obtain ⟨-, ⟨⟩⟩ := Option.ite_none_right_eq_some.1 hstep
      have hset : WorkInv source lockHash (s.setStatus u .pending) := h.setStatus u nofun
      exact hset.endAttempt id
    · cases hstep
  | deadLetter id =>
    simp only [workStep] at hstep
    split at hstep
    · rename_i u stage hget
      obtain ⟨-, ⟨⟩⟩ := Option.ite_none_right_eq_some.1 hstep
      have hset : WorkInv source lockHash (s.setStatus u .deadLettered) := h.setStatus u nofun
      exact hset.endAttempt id
    · cases hstep
  | crash id =>
    obtain ⟨attempt, -, rfl⟩ := Option.map_eq_some_iff.1 hstep
    exact h.endAttempt id
  | requeue u =>
    obtain ⟨-, ⟨⟩⟩ := Option.ite_none_right_eq_some.1 hstep
    exact h.setStatus u nofun

end

theorem work_run {works : List (Work U)} (hrun : run (workStep source lockHash) Workers.start works = some s) :
    WorkInv source lockHash s :=
  run_invariant (fun _ _ _ h hstep => work_step h hstep) WorkInv.start hrun

end Invariant

end Search
