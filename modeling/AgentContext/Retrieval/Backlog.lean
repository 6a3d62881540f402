import AgentContext.Projection.Replay
import AgentContext.Retrieval.Instant

/-!
# The backlog

`_BEYOND` looks at the rows past the watermark that a projector may have seen (`touched`).  A row that was handed to a
worker stays touched, as long as no release happens at the very instant its row was created (`ReleasedLater`), so every
event that the graph holds past the watermark when `_BEYOND` runs is observed after the record time of the read.

What enters the graph later is another matter: a row that nobody had touched is not in the bound.
-/

namespace Retrieval

open Projection Transition

variable {P G : Type} {r : Runner (Stored P) G} {w w' : World (Stored P) G} {d d' : Database (Stored P) G}
variable {row : OutboxRow} {l : Label (Stored P)}

/-! ## Rows handed to a worker -/

/-- The row is there and was handed to a worker. -/
def HandedOver (w : World (Stored P) G) (outboxId : Nat) : Prop :=
  ∃ row ∈ w.outbox, row.outboxId = outboxId ∧ touched row = true

instance (w : World (Stored P) G) (outboxId : Nat) : Decidable (HandedOver w outboxId) :=
  inferInstanceAs (Decidable (∃ row ∈ w.outbox, row.outboxId = outboxId ∧ touched row = true))

/-- A release moves `updated_at` past `created_at`. -/
def ReleasedLater (w : World (Stored P) G) : Label (Stored P) → Prop
  | .release id now => ∀ row ∈ w.outbox, row.leaseOwner = some id → row.createdAt < now
  | _ => True

instance (w : World (Stored P) G) (l : Label (Stored P)) : Decidable (ReleasedLater w l) := by
  cases l <;> unfold ReleasedLater <;> infer_instance

theorem touched_of_status (h : row.status ≠ .pending) : touched row = true := by simp [touched, h]

theorem exists_updated {outbox : List OutboxRow} {matching : OutboxRow → Bool} {values : OutboxRow → OutboxRow}
    (hrow : row ∈ outbox) (hids : (values row).outboxId = row.outboxId)
    (hevent : (values row).eventId = row.eventId) {ok : Prop}
    (htouched : ok → matching row = true → touched (values row) = true) :
    ∃ row' ∈ updateWhere matching values outbox, row'.outboxId = row.outboxId ∧ row'.eventId = row.eventId ∧
      (ok → touched row = true → touched row' = true) := by
  by_cases hm : matching row = true
  · exact ⟨values row, mem_updateWhere.2 ⟨row, hrow, if_pos hm⟩, hids, hevent, fun hok _ => htouched hok hm⟩
  · exact ⟨row, mem_updateWhere.2 ⟨row, hrow, if_neg hm⟩, rfl, rfl, fun _ ht => ht⟩

theorem step_row (h : step r w l = some w') (hrow : row ∈ w.outbox) :
    ∃ row' ∈ w'.outbox, row'.outboxId = row.outboxId ∧ row'.eventId = row.eventId ∧
      (ReleasedLater w l → touched row = true → touched row' = true) := by
  cases step_cases h with
  | append => exact ⟨row, List.mem_append_left _ hrow, rfl, rfl, fun _ ht => ht⟩
  | claim => exact exists_updated hrow rfl rfl fun _ _ => touched_of_status (by simp [OutboxRow.lease])
  | project =>
    refine ⟨row, ?_, rfl, rfl, fun _ ht => ht⟩
    show row ∈ (w.write _).outbox
    rw [(write_tables w _).2.1]
    exact hrow
  | finalized hfin =>
    cases hfin with
    | delivered matching =>
      exact exists_updated hrow rfl rfl fun _ _ => touched_of_status (by simp [OutboxRow.deliver])
    | retried failing error hleft => exact exists_updated hrow rfl rfl fun _ _ => by simp [touched, OutboxRow.retry]
    | deadLettered failing error hspent =>
      exact exists_updated hrow rfl rfl fun _ _ => touched_of_status (by simp [OutboxRow.deadLetter])
  | release id now =>
    refine exists_updated hrow rfl rfl fun hreleased hm => ?_
    have howner : row.leaseOwner = some id := by simp at hm; exact hm.2
    have hlt := hreleased row hrow howner
    have hne : now ≠ row.createdAt := by omega
    simp [touched, OutboxRow.release, hne]
  | lost | crash => exact ⟨row, hrow, rfl, rfl, fun _ ht => ht⟩

/-- The rows of the graph's events, and of the workers, were handed over. -/
structure Handed (w : World (Stored P) G) : Prop where
  written : ∀ e ∈ w.written, ∃ row ∈ w.outbox, row.eventId = e.eventId ∧ touched row = true
  claimed : ∀ id, ∀ claimed ∈ (w.workers id).claimed, HandedOver w claimed.outboxId

theorem Handed.start (graph : G) : Handed (World.start graph : World (Stored P) G) where
  written := by simp [World.start]
  claimed := by simp [World.start]

theorem step_written (h : step r w l = some w') :
    w'.written = w.written ∨ ∃ id attempt claimed rest event matching, l = .project id attempt ∧
      w.workers id = ⟨claimed :: rest, none⟩ ∧ (processClaimedRow r w.events claimed attempt).2 = some (event, matching) ∧
      event.eventId = claimed.eventId ∧ w'.written = w.written ++ [event] := by
  cases step_cases h with
  | @project id attempt claimed rest hworker =>
    cases hwrites : (processClaimedRow r w.events claimed attempt).2 with
    | none => exact Or.inl rfl
    | some writes =>
      obtain ⟨event, matching⟩ := writes
      exact Or.inr ⟨id, attempt, claimed, rest, event, matching, rfl, hworker, hwrites,
        processClaimedRow_written hwrites, rfl⟩
  | finalized hfin => cases hfin <;> exact Or.inl rfl
  | append | claim | lost | release | crash => exact Or.inl rfl

theorem step_claimed (h : step r w l = some w') {id : String} {claimed : ClaimedOutboxRow}
    (hclaimed : claimed ∈ (w'.workers id).claimed) :
    (∃ id', claimed ∈ (w.workers id').claimed) ∨ HandedOver w' claimed.outboxId := by
  have hother : ∀ {x : String} {worker : Worker (Stored P) G}, claimed ∈ (Function.update w.workers x worker id).claimed →
      claimed ∈ worker.claimed ∨ claimed ∈ (w.workers id).claimed := by
    intro x worker hmem
    by_cases hx : id = x
    · subst hx
      rw [Function.update_self] at hmem
      exact Or.inl hmem
    · rw [Function.update_of_ne hx] at hmem
      exact Or.inr hmem
  have hfinished : ∀ {x : String} {row : ClaimedOutboxRow} {rest : List ClaimedOutboxRow}
      {finalization : Option (Finalization (Stored P) G)}, w.workers x = ⟨row :: rest, finalization⟩ →
      claimed ∈ (Function.update w.workers x ⟨rest, none⟩ id).claimed → ∃ id', claimed ∈ (w.workers id').claimed := by
    intro x row rest finalization hworker hmem
    rcases hother hmem with hmem | hmem
    · refine ⟨x, ?_⟩
      rw [hworker]
      exact List.mem_cons_of_mem _ hmem
    · exact ⟨id, hmem⟩
  cases step_cases h with
  | claim x =>
    rcases hother hclaimed with hmem | hmem
    · -- the claim leases the rows it takes
      right
      obtain ⟨row, hrow, hid, rfl⟩ := mem_claimedRows hmem
      refine ⟨row.lease x _ _, mem_updateWhere.2 ⟨row, hrow, if_pos ?_⟩, rfl,
        touched_of_status (by simp [OutboxRow.lease])⟩
      simpa using hid
    · exact Or.inl ⟨id, hmem⟩
  | @project x _ _ _ hworker =>
    left
    simp only [World.setWorker, (write_tables w _).2.2.2.2.1] at hclaimed
    rcases hother hclaimed with hmem | hmem
    · exact ⟨x, by rw [hworker]; exact hmem⟩
    · exact ⟨id, hmem⟩
  | lost hworker => exact Or.inl (hfinished hworker hclaimed)
  | finalized hfin hworker => cases hfin <;> exact Or.inl (hfinished hworker hclaimed)
  | append | release => exact Or.inl ⟨id, hclaimed⟩
  | crash =>
    rcases hother hclaimed with hmem | hmem
    · exact absurd hmem List.not_mem_nil
    · exact Or.inl ⟨id, hmem⟩

theorem Handed.step (inv : RunnerInv r w) (handed : Handed w) (hreleased : ReleasedLater w l)
    (h : step r w l = some w') : Handed w' := by
  have hkeeps : ∀ outboxId, HandedOver w outboxId → HandedOver w' outboxId := by
    rintro outboxId ⟨row, hrow, rfl, ht⟩
    obtain ⟨row', hrow', hid, -, htouched⟩ := step_row h hrow
    exact ⟨row', hrow', hid, htouched hreleased ht⟩
  have hkept : ∀ eventId, (∃ row ∈ w.outbox, row.eventId = eventId ∧ touched row = true) →
      ∃ row ∈ w'.outbox, row.eventId = eventId ∧ touched row = true := by
    rintro eventId ⟨row, hrow, rfl, ht⟩
    obtain ⟨row', hrow', -, hevent, htouched⟩ := step_row h hrow
    exact ⟨row', hrow', hevent, htouched hreleased ht⟩
  constructor
  · intro e he
    rcases step_written h with hsame | ⟨id, attempt, claimed, rest, event, matching, -, hworker, -, hid, hadded⟩
    · exact hkept _ (handed.written e (hsame ▸ he))
    · rw [hadded] at he
      rcases List.mem_append.1 he with he | he
      · exact hkept _ (handed.written e he)
      · rw [List.mem_singleton.1 he, hid]
        have hmine : claimed ∈ (w.workers id).claimed := by
          rw [hworker]
          exact List.mem_cons_self
        obtain ⟨row, hrow, hrowId, ht⟩ := handed.claimed id claimed hmine
        obtain ⟨own, hown, hownId, hevent, -⟩ := inv.claims id claimed hmine
        have hsame : row = own := eq_of_outboxId inv.ids hrow hown (hrowId.trans hownId.symm)
        exact hkept _ ⟨row, hrow, hsame ▸ hevent, ht⟩
  · intro id claimed hclaimed
    rcases step_claimed h hclaimed with ⟨id', hold⟩ | hnew
    · exact hkeeps _ (handed.claimed id' claimed hold)
    · exact hnew

/-! ## The bound -/

variable {digest : List (String × String × Nat × String) → String} {views : Views P G}
  {projectors : List (String × String)} {now : Nat} {projectId repositoryId : Option String} {freshness : Freshness}

/-- An event of the scope past the watermark, whose row was handed over when `_BEYOND` ran, is observed after the
record time of the read. -/
theorem known_lt (hread : read digest views projectors now projectId repositoryId = .ok freshness)
    (hrow : row ∈ views.beyond.outbox) (hpast : freshness.asOfOutboxId < row.outboxId)
    (htouched : touched row = true) {e : LedgerEvent (Stored P)} (he : eventOf views.beyond row = some e)
    (htype : temporalType e.eventType = true) (hscope : inScope projectId repositoryId e = true)
    (ceiling : Option Int) : known freshness ceiling < e.content.observedAt := by
  obtain ⟨mark, -, -, hasOf, -, hknown, -⟩ := read_eq_ok hread
  rw [← hasOf] at hknown
  have hmem : e.content.observedAt ∈ ((((views.beyond.outbox.filter fun row =>
      freshness.asOfOutboxId < row.outboxId && touched row).filterMap (eventOf views.beyond)).filter fun e =>
      temporalType e.eventType && inScope projectId repositoryId e).map (·.content.observedAt)) := by
    refine List.mem_map_of_mem (List.mem_filter.2 ⟨List.mem_filterMap.2 ⟨row, List.mem_filter.2 ⟨hrow, ?_⟩, he⟩, ?_⟩)
    · simpa using ⟨hpast, htouched⟩
    · rw [htype, hscope]
      rfl
  cases hbeyond : beyond views.beyond freshness.asOfOutboxId projectId repositoryId with
  | none =>
    rw [beyond, List.min?_eq_none_iff] at hbeyond
    rw [hbeyond] at hmem
    exact absurd hmem List.not_mem_nil
  | some earliest =>
    rw [hbeyond] at hknown
    have hle : earliest ≤ e.content.observedAt := (List.min?_eq_some_iff.1 hbeyond).2 _ hmem
    have hbound := (le_known (t := known freshness ceiling)).1 le_rfl
    have hlt := hbound.2 (earliest - 1) (by rw [hknown]; rfl)
    omega

/-! ## What enters the graph after the read -/

/-- Of the rows past the watermark, the step writes only the events of rows that were handed over at `b`, or events
that meet `Q`. -/
def WritesLate (r : Runner (Stored P) G) (b : World (Stored P) G) (asOf : Nat) (Q : LedgerEvent (Stored P) → Prop)
    (w : World (Stored P) G) : Label (Stored P) → Prop
  | .project id attempt => ∀ claimed ∈ (w.workers id).claimed.head?, (w.workers id).finalization.isNone = true →
      ∀ writes ∈ (processClaimedRow r w.events claimed attempt).2,
        asOf < claimed.outboxId → ¬ HandedOver b claimed.outboxId → Q writes.1
  | _ => True

instance (b : World (Stored P) G) (asOf : Nat) (Q : LedgerEvent (Stored P) → Prop) [DecidablePred Q]
    (w : World (Stored P) G) : (l : Label (Stored P)) → Decidable (WritesLate r b asOf Q w l)
  | .project id attempt => inferInstanceAs (Decidable (∀ claimed ∈ (w.workers id).claimed.head?,
      (w.workers id).finalization.isNone = true → ∀ writes ∈ (processClaimedRow r w.events claimed attempt).2,
        asOf < claimed.outboxId → ¬ HandedOver b claimed.outboxId → Q writes.1))
  | .append _ _ _ | .claim _ _ _ _ | .finalize _ _ | .release _ _ | .crash _ => isTrue trivial

/-- Every event that the graph holds since `b` meets the condition. -/
def Late (b : World (Stored P) G) (asOf : Nat) (Q : LedgerEvent (Stored P) → Prop) (w : World (Stored P) G) : Prop :=
  ∀ e ∈ w.written, e ∈ b.written ∨ ∃ row ∈ w.outbox, row.eventId = e.eventId ∧
    (asOf < row.outboxId → ¬ HandedOver b row.outboxId → Q e)

theorem Late.step {b : World (Stored P) G} {asOf : Nat} {Q : LedgerEvent (Stored P) → Prop} (inv : RunnerInv r w)
    (late : Late b asOf Q w) (hok : WritesLate r b asOf Q w l) (h : step r w l = some w') : Late b asOf Q w' := by
  have hold : ∀ e ∈ w.written, e ∈ b.written ∨ ∃ row ∈ w'.outbox, row.eventId = e.eventId ∧
      (asOf < row.outboxId → ¬ HandedOver b row.outboxId → Q e) := by
    intro e he
    refine (late e he).imp id ?_
    rintro ⟨row, hrow, hevent, hq⟩
    obtain ⟨row', hrow', hid, hevent', -⟩ := step_row h hrow
    exact ⟨row', hrow', hevent'.trans hevent, hid ▸ hq⟩
  intro e he
  rcases step_written h with hsame | ⟨id, attempt, claimed, rest, event, matching, rfl, hworker, hwrites, hid, hadded⟩
  · exact hold e (hsame ▸ he)
  · rw [hadded] at he
    rcases List.mem_append.1 he with he | he
    · exact hold e he
    · rw [List.mem_singleton.1 he]
      have hmine : claimed ∈ (w.workers id).claimed := by
        rw [hworker]
        exact List.mem_cons_self
      obtain ⟨own, hown, hownId, hevent, -⟩ := inv.claims id claimed hmine
      obtain ⟨row', hrow', hid', hevent', -⟩ := step_row h hown
      refine Or.inr ⟨row', hrow', (hevent'.trans hevent).trans hid.symm, ?_⟩
      rw [hid', hownId]
      exact hok claimed (by rw [hworker]; rfl) (by rw [hworker]; rfl) (event, matching) hwrites

/-- **What the graph holds past the watermark is observed after the record time of the read**, unless it was written
since, from a row that nobody had been handed. -/
theorem written_observed_later {graph : G} {before after : List (Statement (Stored P))} {b c : Database (Stored P) G}
    (hb : run (execute r) (.start graph) before = some b) (hc : run (execute r) b after = some c)
    (hreleased : Meets (execute r) (OnWork ReleasedLater) (.start graph) before) (hview : views.beyond = b.world)
    (hread : read digest views projectors now projectId repositoryId = .ok freshness) (ceiling : Option Int)
    (hlate : Meets (execute r) (OnWork (WritesLate r b.world freshness.asOfOutboxId fun e =>
      temporalType e.eventType = true → inScope projectId repositoryId e = true →
        known freshness ceiling < e.content.observedAt)) b after) :
    ∀ e ∈ c.world.written, ∀ row ∈ c.world.outbox, row.eventId = e.eventId → freshness.asOfOutboxId < row.outboxId →
      temporalType e.eventType = true → inScope projectId repositoryId e = true →
        known freshness ceiling < e.content.observedAt := by
  have invb : GraphInv r graph b.world ∧ Handed b.world :=
    executed_keeps_where (I := fun w => GraphInv r graph w ∧ Handed w) (fun _ _ _ _ => trivial)
      (fun _ _ _ ⟨inv, handed⟩ hok hs => ⟨inv.step hs, handed.step inv.runner hok hs⟩)
      ⟨GraphInv.start r graph, Handed.start graph⟩ hreleased hb
  obtain ⟨invb, handed⟩ := invb
  have invc : GraphInv r graph c.world ∧ Late b.world freshness.asOfOutboxId (fun e =>
      temporalType e.eventType = true → inScope projectId repositoryId e = true →
        known freshness ceiling < e.content.observedAt) c.world :=
    executed_keeps_where (I := fun w => GraphInv r graph w ∧ Late b.world freshness.asOfOutboxId _ w)
      (fun _ _ _ _ => trivial) (fun _ _ _ ⟨inv, late⟩ hok hs => ⟨inv.step hs, late.step inv.runner hok hs⟩)
      ⟨invb, fun e he => Or.inl he⟩ hlate hc
  obtain ⟨invc, late⟩ := invc
  intro e he row hrow hevent hpast htype hscope
  -- the row, where it was already there and handed over
  have hseen : ∀ own ∈ b.world.outbox, own.outboxId = row.outboxId → own.eventId = e.eventId → touched own = true →
      known freshness ceiling < e.content.observedAt := by
    intro own hown hid hownEvent htouched
    have hmem : own.eventId ∈ b.world.events.map (·.eventId) := invb.runner.events ▸ List.mem_map_of_mem hown
    obtain ⟨e', he', hid'⟩ := List.mem_map.1 hmem
    have hfound : ∃ found, eventOf b.world own = some found := by
      cases hfind : eventOf b.world own with
      | some found => exact ⟨found, rfl⟩
      | none => exact absurd (List.find?_eq_none.1 hfind e' he') (by simp [hid'])
    obtain ⟨found, hfound⟩ := hfound
    have hsame : found = e := by
      have hlater := eventOf_later hfound hc
      have hload := (loadEvent_ok.1 (invc.written e he).1).1
      rw [eventOf, hownEvent, hload] at hlater
      exact (Option.some.inj hlater).symm
    subst hsame
    exact known_lt hread (hview ▸ hown) (hid ▸ hpast) htouched (hview ▸ hfound) htype hscope ceiling
  have hrows : ∀ own ∈ c.world.outbox, own.eventId = e.eventId → own = row := by
    intro own hown hownEvent
    have hnodup : (c.world.outbox.map (·.eventId)).Nodup := invc.runner.events ▸ invc.runner.eventIds
    exact List.inj_on_of_nodup_map hnodup hown hrow (hownEvent.trans hevent.symm)
  have hkept : ∀ own ∈ b.world.outbox, ∃ own' ∈ c.world.outbox, own'.outboxId = own.outboxId ∧ own'.eventId = own.eventId := by
    intro own hown
    refine executed_keeps (I := fun w => ∃ own' ∈ w.outbox, own'.outboxId = own.outboxId ∧ own'.eventId = own.eventId) ?_
      ⟨own, hown, rfl, rfl⟩ hc
    rintro w l w' ⟨own', hown', hid, hownEvent⟩ hs
    obtain ⟨next, hnext, hnextId, hnextEvent, -⟩ := step_row hs hown'
    exact ⟨next, hnext, hnextId.trans hid, hnextEvent.trans hownEvent⟩
  rcases late e he with hold | ⟨own, hown, hownEvent, hq⟩
  · obtain ⟨own, hown, hownEvent, htouched⟩ := handed.written e hold
    obtain ⟨own', hown', hid, hevent'⟩ := hkept own hown
    have hsame := hrows own' hown' (hevent'.trans hownEvent)
    exact hseen own hown (by rw [← hid, hsame]) hownEvent htouched
  · obtain rfl := hrows own hown hownEvent
    by_cases hhanded : HandedOver b.world own.outboxId
    · obtain ⟨first, hfirst, hid, htouched⟩ := hhanded
      obtain ⟨first', hfirst', hid', hevent'⟩ := hkept first hfirst
      have hsame : first' = own := eq_of_outboxId invc.runner.ids hfirst' hown (hid'.trans hid)
      refine hseen first hfirst hid ?_ htouched
      rw [← hevent', hsame, hevent]
    · exact hq hpast hhanded htype hscope

end Retrieval
