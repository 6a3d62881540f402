import AgentContext.Projection.Safety

/-!
# Progress of the projectors

Every projector's checkpoint summarizes the delivered rows it handles, in every reachable world:

    handledRows p  =  the delivered rows whose event type `p` handles
    finalize       :  a row joins `handledRows p` exactly when `p` is among the projectors `advance` is called for

The second line needs that a worker about to finalize still knows the projectors that matched its event
(`Decided`), and that identities of projectors are distinct.
-/

namespace Projection

open Transition List

variable {J G : Type} {r : Runner J G} {w w' : World J G}
variable {events : List (LedgerEvent J)} {row : OutboxRow} {l : Label J}
variable {counted : OutboxRow → Bool} {matching : OutboxRow → Bool} {outbox : List OutboxRow}
variable {values : OutboxRow → OutboxRow} {claimed : ClaimedOutboxRow}

/-- The projector handles the event type, without raising. -/
def Projector.takes (p : Projector J G) (eventType : String) : Bool :=
  match p.handles eventType with
  | .ok handles => handles
  | .error _ => false

/-- The event type of a row is one the projector handles. -/
def Projector.takesRow (p : Projector J G) (events : List (LedgerEvent J)) (row : OutboxRow) : Bool :=
  (events.find? (·.eventId = row.eventId)).any fun event => p.takes event.eventType

/-- The delivered outbox rows whose event type the projector handles. -/
def World.handledRows (w : World J G) (p : Projector J G) : List OutboxRow :=
  w.outbox.filter fun row => row.status = .delivered && p.takesRow w.events row

/-! ## Matching projectors -/

theorem matchingProjectors_ok : ∀ {ps matching : List (Projector J G)} {eventType : String},
    matchingProjectors ps eventType = .ok matching → matching = ps.filter (·.takes eventType)
  | [], _, _, h => by
    cases h
    rfl
  | p :: ps, matching, eventType, h => by
    unfold matchingProjectors at h
    cases hp : p.handles eventType with
    | error error =>
      rw [hp] at h
      cases h
    | ok handles =>
      cases hps : matchingProjectors ps eventType with
      | error error =>
        rw [hp, hps] at h
        cases h
      | ok rest =>
        rw [hp, hps] at h
        have htakes : p.takes eventType = handles := by simp [Projector.takes, hp]
        have hrest := matchingProjectors_ok hps
        rw [filter_cons, htakes, ← hrest]
        cases h
        cases handles <;> rfl

theorem getCheckpoint_foldl_advance {outboxId now : Nat} {eventId name version : String} :
    ∀ {ps : List (Projector J G)} (_ : (ps.map fun p => (p.name, p.version)).Nodup)
      (checkpoints : List ProjectionCheckpointRow),
      getCheckpoint (ps.foldl (fun cs p => advance cs p.name p.version outboxId eventId now) checkpoints) name version =
        if (name, version) ∈ ps.map (fun p => (p.name, p.version))
        then getCheckpoint (advance checkpoints name version outboxId eventId now) name version
        else getCheckpoint checkpoints name version
  | [], _, checkpoints => by simp
  | p :: ps, hnodup, checkpoints => by
    rw [map_cons, nodup_cons] at hnodup
    rw [foldl_cons, getCheckpoint_foldl_advance hnodup.2]
    by_cases hp : (name, version) = (p.name, p.version)
    · obtain ⟨rfl, rfl⟩ := Prod.mk.inj hp
      rw [if_neg hnodup.1, if_pos (by simp)]
    · have hother := getCheckpoint_advance_other checkpoints outboxId eventId now hp
      by_cases hmem : (name, version) ∈ ps.map fun p => (p.name, p.version)
      · rw [if_pos hmem, if_pos (by simp [hmem]), getCheckpoint_advance, getCheckpoint_advance, hother]
      · rw [if_neg hmem, if_neg (by simpa [hp] using hmem), hother]

/-! ## Invariants -/

/-- A worker about to deliver a row knows the projectors that match the row's event. -/
def Decided (r : Runner J G) (events : List (LedgerEvent J)) (worker : Worker J G) : Prop :=
  ∀ claimed rest matching, worker = ⟨claimed :: rest, some (.success matching)⟩ →
    ∃ event, events.find? (·.eventId = claimed.eventId) = some event ∧
      matchingProjectors r.projectors event.eventType = .ok matching

structure ProgressInv (r : Runner J G) (w : World J G) : Prop where
  runner : RunnerInv r w
  decided : ∀ id, Decided r w.events (w.workers id)
  summarized : ∀ p ∈ r.projectors, Summarizes (w.handledRows p) (getCheckpoint w.checkpoints p.name p.version)

theorem ProgressInv.start (r : Runner J G) (graph : G) : ProgressInv r (World.start graph) where
  runner := RunnerInv.start r graph
  decided := fun _ _ _ _ h => nomatch h
  summarized := fun _ _ => rfl

theorem Decided.idle (r : Runner J G) (events : List (LedgerEvent J)) (rows : List ClaimedOutboxRow) :
    Decided r events ⟨rows, none⟩ := fun _ _ _ h => nomatch h

theorem decided_update {id : String} {worker : Worker J G} {workers : String → Worker J G}
    (h : ∀ x, Decided r events (workers x)) (hid : Decided r events worker) (x : String) :
    Decided r events (Function.update workers id worker x) := by
  by_cases hx : x = id
  · subst hx
    rw [Function.update_self]
    exact hid
  · rw [Function.update_of_ne hx]
    exact h x

theorem handledRows_update (hbefore : ∀ row ∈ outbox, matching row = true → counted row = false)
    (hafter : ∀ row ∈ outbox, matching row = true → counted (values row) = false) :
    (updateWhere matching values outbox).filter counted = outbox.filter counted := by
  induction outbox with
  | nil => rfl
  | cons row rows ih =>
    have ih' := ih (fun row h => hbefore row (mem_cons_of_mem _ h)) fun row h => hafter row (mem_cons_of_mem _ h)
    unfold updateWhere at ih' ⊢
    rw [map_cons, filter_cons, filter_cons, ih']
    by_cases hm : matching row = true
    · simp [hm, hbefore row mem_cons_self hm, hafter row mem_cons_self hm]
    · simp [hm]

theorem handledRows_deliver (hrow : row ∈ outbox) (hm : matching row = true)
    (hunique : ∀ other ∈ outbox, matching other = true → other = row) (hnodup : outbox.Nodup)
    (hbefore : counted row = false) (hafter : counted (values row) = true) :
    ((updateWhere matching values outbox).filter counted).Perm (values row :: outbox.filter counted) := by
  obtain ⟨before, after, rfl⟩ := append_of_mem hrow
  have hsame : ∀ part : List OutboxRow, (∀ other ∈ part, other ∈ before ++ row :: after) → row ∉ part →
      updateWhere matching values part = part := by
    intro part hsub hnot
    refine (map_congr_left fun other hother => ?_).trans (map_id _)
    rw [if_neg]
    · rfl
    · intro hother'
      exact hnot (hunique other (hsub other hother) hother' ▸ hother)
  have hmid := (nodup_middle.1 hnodup)
  rw [nodup_cons, mem_append, not_or] at hmid
  have hb := hsame before (fun _ h => mem_append_left _ h) hmid.1.1
  have ha := hsame after (fun _ h => mem_append_right _ (mem_cons_of_mem _ h)) hmid.1.2
  have hsplit : updateWhere matching values (before ++ row :: after) = before ++ values row :: after := by
    unfold updateWhere at hb ha ⊢
    rw [map_append, map_cons, hb, ha, if_pos hm]
  rw [hsplit, filter_append, filter_append, filter_cons_of_pos hafter,
    filter_cons_of_neg (by simp [hbefore])]
  exact perm_middle

/-! ## Each step keeps the checkpoints exact -/

theorem find?_events_append {eventId : String} {event : LedgerEvent J} {more : List (LedgerEvent J)}
    (h : events.find? (·.eventId = eventId) = some event) :
    (events ++ more).find? (·.eventId = eventId) = some event := by
  rw [List.find?_append, h]
  rfl

theorem RunnerInv.event (inv : RunnerInv r w) (hrow : row ∈ w.outbox) :
    ∃ event, w.events.find? (·.eventId = row.eventId) = some event := by
  have hmem : row.eventId ∈ w.events.map (·.eventId) := inv.events ▸ mem_map_of_mem hrow
  obtain ⟨event, hevent, hid⟩ := mem_map.1 hmem
  exact Option.isSome_iff_exists.1 (List.find?_isSome.2 ⟨event, hevent, by simpa using hid⟩)

theorem loadEvent_ok {eventId : String} {event : LedgerEvent J} : loadEvent r events eventId = .ok event ↔
      events.find? (·.eventId = eventId) = some event ∧ r.verifyEvent event = true := by
  unfold loadEvent
  cases events.find? (·.eventId = eventId) with
  | none => simp
  | some found =>
    by_cases hv : r.verifyEvent found = true
    · simp only [hv, if_true, Except.ok.injEq, Option.some.injEq]
      exact ⟨fun h => ⟨h, h ▸ hv⟩, And.left⟩
    · constructor
      · intro h
        simp [hv] at h
      · rintro ⟨h, hv'⟩
        cases h
        exact absurd hv' hv

/-- What can come of one attempt: a failure that wrote nothing, an event nobody handles, or a graph
transaction that committed, whatever the worker learns of it. -/
theorem processClaimedRow_cases (r : Runner J G) (events : List (LedgerEvent J)) (claimed : ClaimedOutboxRow)
    (attempt : Attempt) :
    (∃ failing error, processClaimedRow r events claimed attempt = (.failure failing error, none)) ∨
    ∃ event matching, loadEvent r events claimed.eventId = .ok event ∧
      matchingProjectors r.projectors event.eventType = .ok matching ∧
      ((matching = [] ∧ processClaimedRow r events claimed attempt = (.success [], none)) ∨
        (matching ≠ [] ∧ (processClaimedRow r events claimed attempt = (.success matching, some (event, matching)) ∨
          ∃ failing error,
            processClaimedRow r events claimed attempt = (.failure failing error, some (event, matching))))) := by
  unfold processClaimedRow
  split
  · exact Or.inl ⟨_, _, rfl⟩
  · exact Or.inl ⟨_, _, rfl⟩
  · next event _ hevent =>
    split
    · exact Or.inl ⟨_, _, rfl⟩
    · next hmatch => exact Or.inr ⟨event, [], hevent, hmatch, Or.inl ⟨rfl, rfl⟩⟩
    · next p ps hmatch =>
      split
      · next failing error committed _ =>
        cases committed with
        | false => exact Or.inl ⟨_, _, rfl⟩
        | true => exact Or.inr ⟨event, p :: ps, hevent, hmatch, Or.inr ⟨by simp, Or.inr ⟨_, _, rfl⟩⟩⟩
      · exact Or.inr ⟨event, p :: ps, hevent, hmatch, Or.inr ⟨by simp, Or.inl rfl⟩⟩

theorem processClaimedRow_success {attempt : Attempt} {matching : List (Projector J G)}
    (h : (processClaimedRow r events claimed attempt).1 = .success matching) :
    ∃ event, events.find? (·.eventId = claimed.eventId) = some event ∧
      matchingProjectors r.projectors event.eventType = .ok matching := by
  rcases processClaimedRow_cases r events claimed attempt with ⟨_, _, he⟩ | ⟨event, ms, hload, hmatch, hcases⟩
  · rw [he] at h
    cases h
  · refine ⟨event, (loadEvent_ok.1 hload).1, ?_⟩
    rcases hcases with ⟨rfl, he⟩ | ⟨-, he | ⟨_, _, he⟩⟩ <;> rw [he] at h <;> cases h <;> exact hmatch

theorem summarizes_of_eq {rows rows' : List OutboxRow} {checkpoint : Option ProjectionCheckpointRow}
    (h : Summarizes rows checkpoint) (heq : rows' = rows) : Summarizes rows' checkpoint := heq ▸ h

theorem ProgressInv.append (inv : ProgressInv r w) {event : LedgerEvent J} {outboxId now : Nat}
    (inv' : RunnerInv r w')
    (hw : w' = { w with events := w.events ++ [event], outbox := w.outbox ++ [outboxRow outboxId event.eventId now] }) :
    ProgressInv r w' := by
  subst hw
  refine ⟨inv', ?_, ?_⟩
  · intro id claimed rest matching hworker
    obtain ⟨found, hfind, hmatch⟩ := inv.decided id claimed rest matching hworker
    exact ⟨found, find?_events_append hfind, hmatch⟩
  · intro p hp
    refine summarizes_of_eq (inv.summarized p hp) ?_
    unfold World.handledRows
    rw [filter_append, filter_cons_of_neg (by simp [outboxRow]), filter_nil, append_nil]
    apply filter_congr
    intro row hrow
    obtain ⟨found, hfind⟩ := inv.runner.event hrow
    unfold Projector.takesRow
    rw [hfind, find?_events_append hfind]

theorem ProgressInv.finalized (inv : ProgressInv r w) {finalized : World J G} {id : String} {now : Nat}
    {rest : List ClaimedOutboxRow} {finalization : Finalization J G} {outcome : ClaimOutcome}
    (hworker : w.workers id = ⟨claimed :: rest, some finalization⟩) (hrow : row ∈ w.outbox)
    (hfence : claimed.fence id row = true) (hfin : Finalized r w id claimed now finalization outcome finalized)
    (inv' : RunnerInv r (finalized.finish id claimed rest outcome)) :
    ProgressInv r (finalized.finish id claimed rest outcome) := by
  have hclaimed : claimed ∈ (w.workers id).claimed := by
    rw [hworker]
    exact mem_cons_self
  have hleased : ∀ other ∈ w.outbox, claimed.fence id other = true → other.status ≠ .delivered := by
    intro other _ hf
    rw [(fence_iff.1 hf).2.1]
    decide
  have hdecided : ∀ x, Decided r w.events (Function.update w.workers id ⟨rest, none⟩ x) :=
    decided_update inv.decided (Decided.idle r w.events rest)
  cases hfin with
  | retried failing error hleft =>
    refine ⟨inv', hdecided, fun p hp => summarizes_of_eq (inv.summarized p hp) ?_⟩
    exact handledRows_update (fun other hother hf => by simp [hleased other hother hf]) fun _ _ _ => by
      simp [OutboxRow.retry]
  | deadLettered failing error hspent =>
    refine ⟨inv', hdecided, fun p hp => summarizes_of_eq (inv.summarized p hp) ?_⟩
    exact handledRows_update (fun other hother hf => by simp [hleased other hother hf]) fun _ _ _ => by
      simp [OutboxRow.deadLetter]
  | delivered matching =>
    refine ⟨inv', hdecided, fun p hp => ?_⟩
    obtain ⟨hid, hevent, -, -⟩ := fence_claim inv.runner hclaimed hrow hfence
    obtain ⟨event, hfind, hmatch⟩ := inv.decided id claimed rest matching hworker
    have hmatching := matchingProjectors_ok hmatch
    have hnodup : (matching.map fun p => (p.name, p.version)).Nodup :=
      hmatching ▸ r.identities_nodup.sublist (filter_sublist.map _)
    have htakes : ∀ other : OutboxRow, other.eventId = claimed.eventId →
        p.takesRow w.events other = p.takes event.eventType := by
      intro other hother
      simp [Projector.takesRow, hother, hfind]
    show Summarizes (World.handledRows _ p) (getCheckpoint (matching.foldl _ w.checkpoints) p.name p.version)
    rw [getCheckpoint_foldl_advance hnodup]
    cases ht : p.takes event.eventType with
    | true =>
      have hmem : p ∈ matching := hmatching ▸ mem_filter.2 ⟨hp, ht⟩
      rw [if_pos (mem_map.2 ⟨p, hmem, rfl⟩), ← hid, ← hevent]
      have hsum := summarizes_advance (OutboxRow.deliver now row) now (inv.summarized p hp)
      refine hsum.perm (handledRows_deliver hrow hfence ?_ inv.runner.ids.of_map ?_ ?_).symm
      · intro other hother hf
        exact eq_of_outboxId inv.runner.ids hother hrow ((fence_iff.1 hf).1.trans hid.symm)
      · simp [hleased row hrow hfence]
      · show (true && p.takesRow w.events (OutboxRow.deliver now row)) = true
        rw [Bool.true_and, htakes (OutboxRow.deliver now row) hevent, ht]
    | false =>
      have hnot : (p.name, p.version) ∉ matching.map fun p => (p.name, p.version) := by
        intro hmem
        obtain ⟨q, hq, hkey⟩ := mem_map.1 hmem
        rw [hmatching] at hq
        obtain ⟨hqmem, hqtakes⟩ := mem_filter.1 hq
        have : q = p := inj_on_of_nodup_map r.identities_nodup hqmem hp hkey
        rw [this, ht] at hqtakes
        cases hqtakes
      rw [if_neg hnot]
      refine summarizes_of_eq (inv.summarized p hp) ?_
      refine handledRows_update (fun other hother hf => by simp [hleased other hother hf]) fun other hother hf => ?_
      have hother' := eq_of_outboxId inv.runner.ids hother hrow ((fence_iff.1 hf).1.trans hid.symm)
      show (true && p.takesRow w.events (OutboxRow.deliver now other)) = false
      rw [Bool.true_and, htakes (OutboxRow.deliver now other) (hother' ▸ hevent), ht]

theorem decided_step (hdecided : ∀ id, Decided r w.events (w.workers id)) (h : step r w l = some w') :
    ∀ id, Decided r w'.events (w'.workers id) := by
  cases step_cases h with
  | append =>
    intro id claimed rest matching hworker
    obtain ⟨found, hfind, hmatch⟩ := hdecided id claimed rest matching hworker
    exact ⟨found, find?_events_append hfind, hmatch⟩
  | @project id attempt claimed =>
    obtain ⟨he, -, -, -, hworkers, -⟩ := write_tables w (processClaimedRow r w.events claimed attempt).2
    show ∀ x, Decided r (w.write _).events (Function.update (w.write _).workers id _ x)
    rw [he, hworkers]
    refine decided_update hdecided ?_
    intro c cs matching hdecided
    obtain ⟨hrows, hfinal⟩ := Worker.mk.inj hdecided
    obtain ⟨rfl, rfl⟩ := List.cons.inj hrows
    exact processClaimedRow_success (Option.some.inj hfinal)
  | finalized hfin => cases hfin <;> exact decided_update hdecided (Decided.idle _ _ _)
  | claim | lost | crash => exact decided_update hdecided (Decided.idle _ _ _)
  | release => exact hdecided

/-- **One step keeps every checkpoint exact.** -/
theorem ProgressInv.step (inv : ProgressInv r w) (h : step r w l = some w') : ProgressInv r w' := by
  have inv' := inv.runner.step h
  have hdecided := decided_step inv.decided h
  cases step_cases h with
  | append => exact inv.append inv' rfl
  | claim =>
    refine ⟨inv', hdecided, fun p hp => ?_⟩
    refine summarizes_of_eq (inv.summarized p hp) (handledRows_update (fun row hrow hm => ?_) fun row _ _ => ?_)
    · have hopen := claimed_open inv.runner hrow (by simpa using hm)
      rcases hopen with h | h <;> simp [h]
    · simp [OutboxRow.lease]
  | @project id attempt claimed =>
    obtain ⟨he, ho, hc, -, -, -⟩ := write_tables w (processClaimedRow r w.events claimed attempt).2
    refine ⟨inv', hdecided, fun p hp => ?_⟩
    show Summarizes ((w.write _).outbox.filter fun row => row.status = .delivered && p.takesRow (w.write _).events row)
      (getCheckpoint (w.write _).checkpoints p.name p.version)
    rw [he, ho, hc]
    exact inv.summarized p hp
  | finalized hfin hworker hrow hf => exact inv.finalized hworker hrow hf hfin inv'
  | release =>
    refine ⟨inv', hdecided, fun p hp => ?_⟩
    refine summarizes_of_eq (inv.summarized p hp) (handledRows_update (fun row hrow hm => ?_) fun row _ _ => ?_)
    · simp only [Bool.and_eq_true, decide_eq_true_eq] at hm
      simp [hm.1]
    · simp [OutboxRow.release]
  | lost | crash => exact ⟨inv', hdecided, inv.summarized⟩

/-! ## The handled rows only grow -/

theorem mem_handledRows {p : Projector J G} :
    row ∈ w.handledRows p ↔ row ∈ w.outbox ∧ row.status = .delivered ∧ p.takesRow w.events row = true := by
  simp [World.handledRows]

theorem step_events (h : step r w l = some w') : ∃ more, w'.events = w.events ++ more := by
  cases step_cases h with
  | append => exact ⟨_, rfl⟩
  | project =>
    refine ⟨[], ?_⟩
    rw [append_nil]
    exact (write_tables w _).1
  | finalized hfin => cases hfin <;> exact ⟨[], (append_nil _).symm⟩
  | claim | lost | release | crash => exact ⟨[], (append_nil _).symm⟩

theorem takesRow_step (inv : RunnerInv r w) (h : step r w l = some w') (p : Projector J G) (hrow : row ∈ w.outbox) :
    p.takesRow w'.events row = p.takesRow w.events row := by
  obtain ⟨found, hfind⟩ := inv.event hrow
  obtain ⟨more, hmore⟩ := step_events h
  have hkept : w'.events.find? (·.eventId = row.eventId) = some found := hmore ▸ find?_events_append hfind
  unfold Projector.takesRow
  rw [hkept, hfind]

theorem handledRows_step (inv : RunnerInv r w) (h : step r w l = some w') (p : Projector J G)
    (hrow : row ∈ w.handledRows p) : row ∈ w'.handledRows p := by
  obtain ⟨hmem, hdelivered, htakes⟩ := mem_handledRows.1 hrow
  refine mem_handledRows.2 ⟨step_terminal inv h hmem (by rw [hdelivered]; rfl), hdelivered, ?_⟩
  rw [takesRow_step inv h p hmem]
  exact htakes

theorem handledRows_new (inv : RunnerInv r w) (hdecided : ∀ id, Decided r w.events (w.workers id))
    (h : step r w l = some w') {p : Projector J G} (hp : p ∈ r.projectors) (hrow : row ∈ w'.handledRows p) :
    row ∈ w.handledRows p ∨ ∃ id now claimed rest matching, l = .finalize id now ∧
      w.workers id = ⟨claimed :: rest, some (.success matching)⟩ ∧ w.outbox.any (claimed.fence id) = true ∧ p ∈ matching := by
  obtain ⟨hmem, hdelivered, htakes⟩ := mem_handledRows.1 hrow
  have hold : row ∈ w.outbox → row ∈ w.handledRows p := fun hmem' =>
    mem_handledRows.2 ⟨hmem', hdelivered, takesRow_step inv h p hmem' ▸ htakes⟩
  have hupdated : ∀ {matching : OutboxRow → Bool} {values : OutboxRow → OutboxRow},
      row ∈ updateWhere matching values w.outbox → (∀ old, (values old).status ≠ .delivered) → row ∈ w.outbox := by
    intro matching values hmem hvalues
    obtain ⟨old, hmem, heq⟩ := mem_updateWhere.1 hmem
    by_cases hm : matching old = true
    · rw [if_pos hm] at heq
      exact absurd hdelivered (heq ▸ hvalues old)
    · rw [if_neg hm] at heq
      exact heq ▸ hmem
  cases step_cases h with
  | append =>
    rcases mem_append.1 hmem with hmem | hmem
    · exact Or.inl (hold hmem)
    · rw [mem_singleton.1 hmem] at hdelivered
      cases hdelivered
  | claim => exact Or.inl (hold (hupdated hmem fun _ => by simp [OutboxRow.lease]))
  | @project id attempt claimed =>
    have hsame : row ∈ (w.write (processClaimedRow r w.events claimed attempt).2).outbox := hmem
    rw [(write_tables w _).2.1] at hsame
    exact Or.inl (hold hsame)
  | release => exact Or.inl (hold (hupdated hmem fun _ => by simp [OutboxRow.release]))
  | lost | crash => exact Or.inl (hold hmem)
  | @finalized id now claimed rest _ _ _ _ hfin hworker =>
    cases hfin with
    | retried failing error hleft => exact Or.inl (hold (hupdated hmem fun _ => by simp [OutboxRow.retry]))
    | deadLettered failing error hspent => exact Or.inl (hold (hupdated hmem fun _ => by simp [OutboxRow.deadLetter]))
    | delivered matching =>
      obtain ⟨found, hfound, heq⟩ := mem_updateWhere.1 hmem
      by_cases hm : claimed.fence id found = true
      · -- the delivered row: its event is the one the worker has decided on
        right
        rw [if_pos hm] at heq
        refine ⟨id, now, claimed, rest, matching, rfl, hworker, any_eq_true.2 ⟨found, hfound, hm⟩, ?_⟩
        have hclaimed : claimed ∈ (w.workers id).claimed := by
          rw [hworker]
          exact mem_cons_self
        obtain ⟨-, hevent, -, -⟩ := fence_claim inv hclaimed hfound hm
        obtain ⟨event, hfind, hmatch⟩ := hdecided id claimed rest matching hworker
        have htakes' : p.takesRow w.events row = true := htakes
        rw [← heq, Projector.takesRow, show (OutboxRow.deliver now found).eventId = claimed.eventId from hevent, hfind]
          at htakes'
        rw [matchingProjectors_ok hmatch]
        exact mem_filter.2 ⟨hp, htakes'⟩
      · rw [if_neg hm] at heq
        exact Or.inl (hold (heq ▸ hfound))

end Projection
