import AgentContext.Lib.Delivery
import AgentContext.Projection.Verify

/-!
# The live graph and a replay of the ledger

The graph transaction of a row commits before the row is finalized, in another database.  `replay_ledger`
builds a graph from the outbox alone, so the two agree as long as the outbox remembers what the graph holds:

    delivered      the event is in the graph, or no projector handles it   (Settled)
    dead_lettered  the event is not in the graph

The second line is not the runner's to keep: a worker may commit a row's graph transaction and lose the row
before it finalizes, and the row then fails its way to the dead letters.  `KeepsGraph` is what a step must
not do for it.
-/

namespace Projection

open Transition Keyset Delivery List

attribute [local instance] lawfulBEq_key

variable {J G : Type} {r : Runner J G} {w w' : World J G} {graph : G}
variable {rest : List ClaimedOutboxRow} {claimed : ClaimedOutboxRow}
variable {ps : List (Projector J G)} {matching : List (Projector J G)} {events : List (LedgerEvent J)}
variable {event : LedgerEvent J}

/-! ## `replay_ledger` -/

structure ReplayProgress where
  count : Nat
  lastOutboxId : Option Nat
  lastEventId : Option String
deriving DecidableEq, Repr

structure ReplayResult (G : Type) where
  target : G
  rows : Nat
  projected : Nat
  head : Option Nat
  progress : List ((String × String) × ReplayProgress)

def ReplayResult.start (r : Runner J G) (target : G) : ReplayResult G where
  target := target
  rows := 0
  projected := 0
  head := none
  progress := r.projectors.map fun p => ((p.name, p.version), ⟨0, none, none⟩)

def replayed (deliveredOnly : Bool) (row : OutboxRow) : Bool :=
  if deliveredOnly then row.status = .delivered else row.status ≠ .deadLettered

/-- One row of a page. -/
def replayRow (r : Runner J G) (w : World J G) (result : ReplayResult G) (outboxId : Nat) :
    Except String (ReplayResult G) := do
  let eventId := (w.outbox.find? (·.outboxId = outboxId)).elim "" (·.eventId)
  let event ← loadEvent r w.events eventId
  let matching ← (matchingProjectors r.projectors event.eventType).mapError (·.2)
  let counted := { result with rows := result.rows + 1, head := some outboxId }
  if matching = [] then return counted
  else return { counted with
    target := runMatching matching event result.target
    projected := result.projected + 1
    progress := result.progress.map fun (identity, step) =>
      if identity ∈ matching.map (fun p => (p.name, p.version))
      then (identity, ⟨step.count + 1, some outboxId, some event.eventId⟩) else (identity, step) }

/-- The ids the pages of the replay run through. -/
def replayIds (w : World J G) (deliveredOnly : Bool) : List Nat :=
  sortedSet ((w.outbox.filter (replayed deliveredOnly)).map (·.outboxId))

/-- Page after page until one is empty. -/
def replayPages (r : Runner J G) (w : World J G) (ids : List Nat) (pageSize : Nat) :
    Nat → Nat → ReplayResult G → Except String (ReplayResult G)
  | 0, _, result => .ok result
  | fuel + 1, after, result =>
    match (page ids pageSize after).getLast? with
    | none => .ok result
    | some last => do
      let result ← (page ids pageSize after).foldlM (replayRow r w) result
      replayPages r w ids pageSize fuel last result

/-- `replay_ledger` from the start of the ledger. -/
def replayLedger (r : Runner J G) (w : World J G) (deliveredOnly : Bool) (pageSize : Nat) (target : G) :
    Except String (ReplayResult G) :=
  let ids := replayIds w deliveredOnly
  replayPages r w ids pageSize (ids.length + 1) 0 (ReplayResult.start r target)

/-! ## The effect of an event -/

/-- The graph transaction of an event: what the projectors that handle it write. -/
def applyEvent (r : Runner J G) (graph : G) (event : LedgerEvent J) : G :=
  match matchingProjectors r.projectors event.eventType with
  | .ok matching => runMatching matching event graph
  | .error _ => graph

/-- The live graph contains the effect of an event. -/
def World.holds (w : World J G) (eventId : String) : Prop := eventId ∈ w.written.map (·.eventId)

instance (w : World J G) (eventId : String) : Decidable (w.holds eventId) :=
  inferInstanceAs (Decidable (eventId ∈ w.written.map (·.eventId)))

/-- What the projectors promise: writes of any two events commute, and repeating one changes nothing. -/
structure OrderFree (r : Runner J G) : Prop where
  comm : ∀ p ∈ r.projectors, ∀ q ∈ r.projectors, ∀ e e' graph,
    p.project e (q.project e' graph) = q.project e' (p.project e graph)
  idem : ∀ p ∈ r.projectors, ∀ e graph, p.project e (p.project e graph) = p.project e graph

theorem runMatching_push (free : OrderFree r) {p : Projector J G} (hp : p ∈ r.projectors)
    (hps : ∀ q ∈ ps, q ∈ r.projectors) (e e' : LedgerEvent J) (graph : G) :
    runMatching ps e (p.project e' graph) = p.project e' (runMatching ps e graph) := by
  unfold runMatching
  induction ps generalizing graph with
  | nil => rfl
  | cons q ps ih =>
    rw [foldl_cons, foldl_cons, free.comm q (hps q mem_cons_self) p hp]
    exact ih (fun q hq => hps q (mem_cons_of_mem _ hq)) _

theorem runMatching_comm (free : OrderFree r) {ps qs : List (Projector J G)} (hps : ∀ p ∈ ps, p ∈ r.projectors)
    (hqs : ∀ q ∈ qs, q ∈ r.projectors) (e e' : LedgerEvent J) (graph : G) :
    runMatching ps e (runMatching qs e' graph) = runMatching qs e' (runMatching ps e graph) := by
  induction qs generalizing graph with
  | nil => rfl
  | cons q qs ih =>
    show runMatching ps e (runMatching qs e' (q.project e' graph)) = runMatching qs e' (q.project e' (runMatching ps e graph))
    rw [ih (fun q hq => hqs q (mem_cons_of_mem _ hq)), runMatching_push free (hqs q mem_cons_self) hps]

theorem runMatching_idem (free : OrderFree r) (hps : ∀ p ∈ ps, p ∈ r.projectors) (e : LedgerEvent J) (graph : G) :
    runMatching ps e (runMatching ps e graph) = runMatching ps e graph := by
  induction ps generalizing graph with
  | nil => rfl
  | cons p ps ih =>
    have hp := hps p mem_cons_self
    have hps' := fun q hq => hps q (mem_cons_of_mem p hq)
    show runMatching ps e (p.project e (runMatching ps e (p.project e graph))) = runMatching ps e (p.project e graph)
    rw [← runMatching_push free hp hps', free.idem p hp, ih hps']

theorem matching_mem {eventType : String} (h : matchingProjectors r.projectors eventType = .ok matching) :
    ∀ p ∈ matching, p ∈ r.projectors := by
  intro p hp
  rw [matchingProjectors_ok h] at hp
  exact mem_of_mem_filter hp

/-- Projectors that keep their promise make every delivery converge. -/
theorem OrderFree.converges (free : OrderFree r) (events : List (LedgerEvent J)) :
    Converges (applyEvent r) events where
  comm := by
    intro a _ b _ s
    unfold applyEvent
    cases ha : matchingProjectors r.projectors a.eventType with
    | error => rfl
    | ok ps =>
      cases hb : matchingProjectors r.projectors b.eventType with
      | error => rfl
      | ok qs => exact runMatching_comm free (matching_mem hb) (matching_mem ha) b a s
  idem := by
    intro a _ s
    unfold applyEvent
    cases ha : matchingProjectors r.projectors a.eventType with
    | error => rfl
    | ok ps => exact runMatching_idem free (matching_mem ha) a s

/-! ## What the outbox knows of the graph -/

/-- The graph has what a delivery of the event leaves there. -/
def Settled (r : Runner J G) (w : World J G) (eventId : String) : Prop :=
  ∃ event matching, loadEvent r w.events eventId = .ok event ∧
    matchingProjectors r.projectors event.eventType = .ok matching ∧ (matching = [] ∨ event ∈ w.written)

structure GraphInv (r : Runner J G) (graph : G) (w : World J G) : Prop where
  runner : RunnerInv r w
  positive : ∀ row ∈ w.outbox, 0 < row.outboxId
  graph_eq : w.graph = w.written.foldl (applyEvent r) graph
  written : ∀ event ∈ w.written, loadEvent r w.events event.eventId = .ok event ∧
    ∃ matching, matchingProjectors r.projectors event.eventType = .ok matching ∧ matching ≠ []
  success : ∀ id claimed rest matching, w.workers id = ⟨claimed :: rest, some (.success matching)⟩ →
    Settled r w claimed.eventId
  delivered : ∀ row ∈ w.outbox, row.status = .delivered → Settled r w row.eventId

theorem GraphInv.start (r : Runner J G) (graph : G) : GraphInv r graph (World.start graph) where
  runner := RunnerInv.start r graph
  positive := by simp [World.start]
  graph_eq := rfl
  written := by simp [World.start]
  success := fun _ _ _ _ h => nomatch h
  delivered := by simp [World.start]

theorem loadEvent_append {eventId : String} {event new : LedgerEvent J} (h : loadEvent r events eventId = .ok event) :
    loadEvent r (events ++ [new]) eventId = .ok event := by
  obtain ⟨hfind, hv⟩ := loadEvent_ok.1 h
  exact loadEvent_ok.2 ⟨find?_events_append hfind, hv⟩

theorem loadEvent_id {eventId : String} (h : loadEvent r events eventId = .ok event) : event.eventId = eventId := by
  have hfind := List.find?_some (loadEvent_ok.1 h).1
  simpa using hfind

/-- A step that leaves events and graph alone keeps the invariant if what it delivers was settled. -/
theorem GraphInv.frame (inv : GraphInv r graph w) (inv' : RunnerInv r w') (he : w'.events = w.events)
    (hg : w'.graph = w.graph) (hw : w'.written = w.written)
    (hids : w'.outbox.map (·.outboxId) = w.outbox.map (·.outboxId))
    (hsuccess : ∀ id claimed rest matching, w'.workers id = ⟨claimed :: rest, some (.success matching)⟩ →
      w.workers id = ⟨claimed :: rest, some (.success matching)⟩)
    (hdelivered : ∀ row ∈ w'.outbox, row.status = .delivered → Settled r w row.eventId) : GraphInv r graph w' := by
  have hsettled : ∀ eventId, Settled r w eventId → Settled r w' eventId := by
    intro eventId h
    unfold Settled
    rw [he, hw]
    exact h
  refine ⟨inv', ?_, by rw [hg, hw, inv.graph_eq], ?_, ?_, fun row hrow h => hsettled _ (hdelivered row hrow h)⟩
  · intro row hrow
    have hmem : row.outboxId ∈ w.outbox.map (·.outboxId) := hids ▸ mem_map_of_mem hrow
    obtain ⟨old, hold, hid⟩ := mem_map.1 hmem
    exact hid ▸ inv.positive old hold
  · rw [hw, he]
    exact inv.written
  · exact fun id claimed rest matching h => hsettled _ (inv.success id claimed rest matching (hsuccess _ _ _ _ h))

theorem delivered_update {outbox : List OutboxRow} {matching : OutboxRow → Bool} {values : OutboxRow → OutboxRow}
    {status : OutboxStatus} (hvalues : ∀ row, (values row).status ≠ status) {row : OutboxRow}
    (hrow : row ∈ updateWhere matching values outbox) (hstatus : row.status = status) : row ∈ outbox := by
  obtain ⟨old, hold, rfl⟩ := mem_updateWhere.1 hrow
  by_cases hm : matching old = true
  · rw [if_pos hm] at hstatus
    exact absurd hstatus (hvalues old)
  · rw [if_neg hm]
    exact hold

theorem success_update {id : String} {rows : List ClaimedOutboxRow} {workers : String → Worker J G} {x : String}
    (h : Function.update workers id ⟨rows, none⟩ x = ⟨claimed :: rest, some (.success matching)⟩) :
    workers x = ⟨claimed :: rest, some (.success matching)⟩ := by
  by_cases hx : x = id
  · subst hx
    rw [Function.update_self] at h
    cases h
  · rwa [Function.update_of_ne hx] at h

section

variable (inv : GraphInv r graph w)
include inv

theorem GraphInv.append {outboxId now : Nat} (hpos : 0 < outboxId) (inv' : RunnerInv r w')
    (hw : w' = { w with events := w.events ++ [event], outbox := w.outbox ++ [outboxRow outboxId event.eventId now] }) :
    GraphInv r graph w' := by
  subst hw
  have hsettled : ∀ eventId, Settled r w eventId → ∃ e matching, loadEvent r (w.events ++ [event]) eventId = .ok e ∧
      matchingProjectors r.projectors e.eventType = .ok matching ∧ (matching = [] ∨ e ∈ w.written) := by
    rintro eventId ⟨e, matching, hload, h⟩
    exact ⟨e, matching, loadEvent_append hload, h⟩
  refine ⟨inv', ?_, inv.graph_eq, ?_, ?_, ?_⟩
  · intro row hrow
    rcases mem_append.1 hrow with hrow | hrow
    · exact inv.positive row hrow
    · rw [mem_singleton.1 hrow]
      exact hpos
  · intro e he
    obtain ⟨hload, h⟩ := inv.written e he
    exact ⟨loadEvent_append hload, h⟩
  · exact fun id claimed rest matching h => hsettled _ (inv.success id claimed rest matching h)
  · intro row hrow hstatus
    rcases mem_append.1 hrow with hrow | hrow
    · exact hsettled _ (inv.delivered row hrow hstatus)
    · rw [mem_singleton.1 hrow] at hstatus
      cases hstatus

theorem GraphInv.project {id : String} {attempt : Attempt}
    (hworker : w.workers id = ⟨claimed :: rest, none⟩) :
    GraphInv r graph ((w.write (processClaimedRow r w.events claimed attempt).2).setWorker id
      ⟨claimed :: rest, some (processClaimedRow r w.events claimed attempt).1⟩) := by
  have inv' : RunnerInv r ((w.write (processClaimedRow r w.events claimed attempt).2).setWorker id
      ⟨claimed :: rest, some (processClaimedRow r w.events claimed attempt).1⟩) := inv.runner.project hworker
  have hother : ∀ {workers : String → Worker J G} {finalization : Finalization J G} {x c cs matching}, x ≠ id →
      Function.update workers id ⟨claimed :: rest, some finalization⟩ x = ⟨c :: cs, some (.success matching)⟩ →
      workers x = ⟨c :: cs, some (.success matching)⟩ := by
    intro workers finalization x c cs matching hx h
    rwa [Function.update_of_ne hx] at h
  rcases processClaimedRow_cases r w.events claimed attempt with ⟨failing, error, hp⟩ |
    ⟨event, matching, hload, hmatch, ⟨hnil, hp⟩ | ⟨hne, hwrites⟩⟩
  · rw [hp] at inv' ⊢
    refine ⟨inv', inv.positive, inv.graph_eq, inv.written, ?_, inv.delivered⟩
    intro x c cs ms h
    by_cases hx : x = id
    · subst hx
      simp [World.setWorker] at h
    · exact inv.success x c cs ms (hother hx h)
  · rw [hp] at inv' ⊢
    refine ⟨inv', inv.positive, inv.graph_eq, inv.written, ?_, inv.delivered⟩
    intro x c cs ms h
    by_cases hx : x = id
    · subst hx
      simp only [World.setWorker, World.write, Function.update_self, Worker.mk.injEq, List.cons.injEq] at h
      obtain ⟨⟨rfl, -⟩, -⟩ := h
      exact ⟨event, matching, hload, hmatch, Or.inl hnil⟩
    · exact inv.success x c cs ms (hother hx h)
  · have hsettled : ∀ eventId, Settled r w eventId → ∃ e ms, loadEvent r w.events eventId = .ok e ∧
        matchingProjectors r.projectors e.eventType = .ok ms ∧ (ms = [] ∨ e ∈ w.written ++ [event]) := by
      rintro eventId ⟨e, ms, hload, hmatch, h⟩
      exact ⟨e, ms, hload, hmatch, h.imp_right (mem_append_left _)⟩
    have key : ∀ finalization : Finalization J G,
        RunnerInv r ((w.write (some (event, matching))).setWorker id ⟨claimed :: rest, some finalization⟩) →
        GraphInv r graph ((w.write (some (event, matching))).setWorker id ⟨claimed :: rest, some finalization⟩) := by
      intro finalization inv'
      refine ⟨inv', inv.positive, ?_, ?_, ?_, fun row hrow h => hsettled _ (inv.delivered row hrow h)⟩
      · show runMatching matching event w.graph = (w.written ++ [event]).foldl (applyEvent r) graph
        rw [foldl_append, ← inv.graph_eq]
        show runMatching matching event w.graph = applyEvent r w.graph event
        unfold applyEvent
        rw [hmatch]
      · intro e he
        rcases mem_append.1 he with he | he
        · exact inv.written e he
        · rw [mem_singleton.1 he]
          exact ⟨(loadEvent_id hload).symm ▸ hload, matching, hmatch, hne⟩
      · intro x c cs ms h
        by_cases hx : x = id
        · subst hx
          simp only [World.setWorker, World.write, Function.update_self, Worker.mk.injEq, List.cons.injEq] at h
          obtain ⟨⟨rfl, -⟩, -⟩ := h
          exact ⟨event, matching, hload, hmatch, Or.inr (mem_append_right _ mem_cons_self)⟩
        · exact hsettled _ (inv.success x c cs ms (hother hx h))
    rcases hwrites with hp | ⟨failing, error, hp⟩
    · rw [hp] at inv' ⊢
      exact key _ inv'
    · rw [hp] at inv' ⊢
      exact key _ inv'

theorem GraphInv.finalized {finalized : World J G} {id : String} {now : Nat}
    {finalization : Finalization J G} {outcome : ClaimOutcome}
    (hworker : w.workers id = ⟨claimed :: rest, some finalization⟩)
    (hfin : Finalized r w id claimed now finalization outcome finalized)
    (inv' : RunnerInv r (finalized.finish id claimed rest outcome)) :
    GraphInv r graph (finalized.finish id claimed rest outcome) := by
  cases hfin with
  | retried failing error hleft =>
    exact inv.frame inv' rfl rfl rfl (map_updateWhere fun _ => rfl) (fun _ _ _ _ h => success_update h)
      fun row hrow h => inv.delivered row (delivered_update (fun _ => by simp [OutboxRow.retry]) hrow h) h
  | deadLettered failing error hspent =>
    exact inv.frame inv' rfl rfl rfl (map_updateWhere fun _ => rfl) (fun _ _ _ _ h => success_update h)
      fun row hrow h => inv.delivered row (delivered_update (fun _ => by simp [OutboxRow.deadLetter]) hrow h) h
  | delivered matching =>
    refine inv.frame inv' rfl rfl rfl (map_updateWhere fun _ => rfl) (fun _ _ _ _ h => success_update h) ?_
    intro row hrow hstatus
    obtain ⟨old, hold, rfl⟩ := mem_updateWhere.1 hrow
    by_cases hf : claimed.fence id old = true
    · rw [if_pos hf]
      have hclaimed : claimed ∈ (w.workers id).claimed := by
        rw [hworker]
        exact mem_cons_self
      obtain ⟨-, hevent, -, -⟩ := fence_claim inv.runner hclaimed hold hf
      exact hevent ▸ inv.success id claimed rest matching hworker
    · rw [if_neg hf] at hstatus ⊢
      exact inv.delivered old hold hstatus

theorem GraphInv.step {l : Label J} (h : step r w l = some w') : GraphInv r graph w' := by
  have inv' := inv.runner.step h
  cases step_cases h with
  | append hevent hid hpos => exact inv.append hpos inv' rfl
  | claim =>
    exact inv.frame inv' rfl rfl rfl (map_updateWhere fun _ => rfl) (fun _ _ _ _ h => success_update h)
      fun row hrow h => inv.delivered row (delivered_update (fun _ => by simp [OutboxRow.lease]) hrow h) h
  | project hworker => exact inv.project hworker
  | finalized hfin hworker => exact inv.finalized hworker hfin inv'
  | release =>
    exact inv.frame inv' rfl rfl rfl (map_updateWhere fun _ => rfl) (fun _ _ _ _ h => h)
      fun row hrow h => inv.delivered row (delivered_update (fun _ => by simp [OutboxRow.release]) hrow h) h
  | lost | crash => exact inv.frame inv' rfl rfl rfl rfl (fun _ _ _ _ h => success_update h) inv.delivered

end

/-! ## What a step must not do to the graph -/

def Finalization.isFailure : Finalization J G → Bool
  | .success _ => false
  | .failure _ _ => true

/-- The step neither gives up on a row whose event an attempt has already put into the graph, nor
puts into the graph an event whose row was given up on. -/
def KeepsGraph (r : Runner J G) (w : World J G) : Label J → Prop
  | .project id attempt => ∀ claimed ∈ (w.workers id).claimed.head?, (w.workers id).finalization.isNone = true →
      (processClaimedRow r w.events claimed attempt).2.isSome = true →
      ∀ row ∈ w.outbox, row.outboxId = claimed.outboxId → row.status ≠ .deadLettered
  | .finalize id _ => ∀ claimed ∈ (w.workers id).claimed.head?, (w.workers id).finalization.any (·.isFailure) = true →
      r.maxAttempts ≤ claimed.retryCount + 1 → (∃ row ∈ w.outbox, claimed.fence id row = true) →
      ¬ w.holds claimed.eventId
  | _ => True

instance (r : Runner J G) (w : World J G) : (l : Label J) → Decidable (KeepsGraph r w l)
  | .project id attempt => inferInstanceAs (Decidable (∀ claimed ∈ (w.workers id).claimed.head?,
      (w.workers id).finalization.isNone = true → (processClaimedRow r w.events claimed attempt).2.isSome = true →
      ∀ row ∈ w.outbox, row.outboxId = claimed.outboxId → row.status ≠ .deadLettered))
  | .finalize id _ => inferInstanceAs (Decidable (∀ claimed ∈ (w.workers id).claimed.head?,
      (w.workers id).finalization.any (·.isFailure) = true → r.maxAttempts ≤ claimed.retryCount + 1 →
      (∃ row ∈ w.outbox, claimed.fence id row = true) → ¬ w.holds claimed.eventId))
  | .append _ _ _ | .claim _ _ _ _ | .release _ _ | .crash _ => isTrue trivial

/-- The graph holds nothing of a dead-lettered event. -/
def DeadInv (w : World J G) : Prop := ∀ row ∈ w.outbox, row.status = .deadLettered → ¬ w.holds row.eventId

theorem processClaimedRow_written {events : List (LedgerEvent J)} {attempt : Attempt} {event : LedgerEvent J}
    {matching : List (Projector J G)} (h : (processClaimedRow r events claimed attempt).2 = some (event, matching)) :
    event.eventId = claimed.eventId := by
  rcases processClaimedRow_cases r events claimed attempt with ⟨_, _, hp⟩ | ⟨e, ms, hload, -, hcases⟩
  · rw [hp] at h
    cases h
  · rcases hcases with ⟨-, hp⟩ | ⟨-, hp | ⟨_, _, hp⟩⟩ <;> rw [hp] at h <;> cases h <;> exact loadEvent_id hload

theorem DeadInv.step (inv : RunnerInv r w) (dead : DeadInv w) {l : Label J} (ok : KeepsGraph r w l)
    (h : step r w l = some w') : DeadInv w' := by
  cases step_cases h with
  | append =>
    intro row hrow hstatus
    rcases mem_append.1 hrow with hrow | hrow
    · exact dead row hrow hstatus
    · rw [mem_singleton.1 hrow] at hstatus
      cases hstatus
  | claim => exact fun row hrow h => dead row (delivered_update (fun _ => by simp [OutboxRow.lease]) hrow h) h
  | release => exact fun row hrow h => dead row (delivered_update (fun _ => by simp [OutboxRow.release]) hrow h) h
  | lost | crash => exact dead
  | @project id attempt claimed _ hworker =>
    cases hwrites : (processClaimedRow r w.events claimed attempt).2 with
    | none => exact dead
    | some written =>
      obtain ⟨event, matching⟩ := written
      have hclaimed : claimed ∈ (w.workers id).claimed := by
        rw [hworker]
        exact mem_cons_self
      obtain ⟨own, hown, hid, heventId, -⟩ := inv.claims id claimed hclaimed
      have halive := ok claimed (by simp [hworker]) (by simp [hworker]) (by simp [hwrites]) own hown hid
      have hevent := processClaimedRow_written hwrites
      intro row hrow hstatus hholds
      have hmem : row.eventId ∈ w.written.map (·.eventId) ∨ row.eventId = event.eventId := by
        have : row.eventId ∈ (w.written ++ [event]).map (·.eventId) := hholds
        simpa using this
      rcases hmem with hmem | heq
      · exact dead row hrow hstatus hmem
      · have hnodup : (w.outbox.map (·.eventId)).Nodup := inv.events ▸ inv.eventIds
        have : row = own := inj_on_of_nodup_map hnodup hrow hown (heq.trans (hevent.trans heventId.symm))
        exact halive (this ▸ hstatus)
  | @finalized id _ claimed _ _ _ _ _ hfin hworker =>
    cases hfin with
    | delivered matching =>
      exact fun row hrow h => dead row (delivered_update (fun _ => by simp [OutboxRow.deliver]) hrow h) h
    | retried failing error hleft =>
      exact fun row hrow h => dead row (delivered_update (fun _ => by simp [OutboxRow.retry]) hrow h) h
    | deadLettered failing error hspent =>
      intro row hrow hstatus
      obtain ⟨old, hold, rfl⟩ := mem_updateWhere.1 hrow
      by_cases hf : claimed.fence id old = true
      · rw [if_pos hf]
        have hclaimed : claimed ∈ (w.workers id).claimed := by
          rw [hworker]
          exact mem_cons_self
        obtain ⟨-, hevent, -, -⟩ := fence_claim inv hclaimed hold hf
        have hnot := ok claimed (by simp [hworker]) (by simp [hworker, Finalization.isFailure]) hspent ⟨old, hold, hf⟩
        exact fun hholds => hnot (hevent ▸ hholds)
      · rw [if_neg hf] at hstatus ⊢
        exact dead old hold hstatus

/-! ## The replayed graph -/

/-- The event has a projector, so its graph transaction may write. -/
def touches (r : Runner J G) (event : LedgerEvent J) : Bool :=
  match matchingProjectors r.projectors event.eventType with
  | .ok (_ :: _) => true
  | _ => false

theorem foldl_touches (events : List (LedgerEvent J)) (graph : G) :
    events.foldl (applyEvent r) graph = (events.filter (touches r)).foldl (applyEvent r) graph := by
  induction events generalizing graph with
  | nil => rfl
  | cons event events ih =>
    by_cases ht : touches r event = true
    · rw [filter_cons_of_pos ht, foldl_cons, foldl_cons, ih]
    · have hsame : applyEvent r graph event = graph := by
        unfold touches at ht
        unfold applyEvent
        split at ht
        · exact absurd rfl ht
        · next hother =>
          split
          · next matching hmatch =>
            cases matching with
            | nil => rfl
            | cons p ps => exact absurd hmatch (hother p ps)
          · rfl
      rw [filter_cons_of_neg ht, foldl_cons, hsame, ih]

theorem replayPages_walk (ids : List Nat) (pageSize : Nat) : ∀ (fuel after : Nat) (result : ReplayResult G),
    replayPages r w ids pageSize fuel after result = (walk (page ids pageSize) fuel after).foldlM (replayRow r w) result
  | 0, _, _ => rfl
  | fuel + 1, after, result => by
    unfold replayPages walk
    cases hlast : (page ids pageSize after).getLast? with
    | none => rfl
    | some last =>
      simp only [foldlM_append]
      cases (page ids pageSize after).foldlM (replayRow r w) result with
      | error error => rfl
      | ok next => exact replayPages_walk ids pageSize fuel last next

theorem replayRow_settled (inv : RunnerInv r w) {row : OutboxRow} (hrow : row ∈ w.outbox)
    (hsettled : Settled r w row.eventId) (result : ReplayResult G) :
    ∃ event next, loadEvent r w.events row.eventId = .ok event ∧ replayRow r w result row.outboxId = .ok next ∧
      next.target = applyEvent r result.target event := by
  obtain ⟨event, matching, hload, hmatch, -⟩ := hsettled
  have hfind := find?_unique inv.ids hrow
  have happly : applyEvent r result.target event = runMatching matching event result.target := by
    unfold applyEvent
    rw [hmatch]
  have hnext : ∃ next, replayRow r w result row.outboxId = .ok next ∧
      next.target = runMatching matching event result.target := by
    unfold replayRow
    simp only [hfind, Option.elim_some, hload, hmatch, Except.mapError, bind, Except.bind]
    by_cases hnil : matching = []
    · rw [if_pos hnil, hnil]
      exact ⟨_, rfl, rfl⟩
    · rw [if_neg hnil]
      exact ⟨_, rfl, rfl⟩
  obtain ⟨next, hstep, htarget⟩ := hnext
  exact ⟨event, next, hload, hstep, htarget.trans happly.symm⟩

theorem replayRows_settled (inv : RunnerInv r w) {ids : List Nat}
    (hids : ∀ i ∈ ids, ∃ row ∈ w.outbox, row.outboxId = i ∧ Settled r w row.eventId) (result : ReplayResult G) :
    ∃ (events : List (LedgerEvent J)) (next : ReplayResult G), ids.foldlM (replayRow r w) result = .ok next ∧
      next.target = events.foldl (applyEvent r) result.target ∧
      ∀ event, event ∈ events ↔ ∃ row ∈ w.outbox, row.outboxId ∈ ids ∧ loadEvent r w.events row.eventId = .ok event := by
  induction ids generalizing result with
  | nil => exact ⟨[], result, rfl, rfl, by simp⟩
  | cons i ids ih =>
    obtain ⟨row, hrow, rfl, hsettled⟩ := hids i mem_cons_self
    obtain ⟨event, next, hload, hstep, htarget⟩ := replayRow_settled inv hrow hsettled result
    obtain ⟨events, final, hfold, hfinal, hmem⟩ := ih (fun i hi => hids i (mem_cons_of_mem _ hi)) next
    refine ⟨event :: events, final, ?_, ?_, ?_⟩
    · rw [foldlM_cons, hstep]
      exact hfold
    · rw [hfinal, htarget, foldl_cons]
    · intro e
      rw [mem_cons, hmem]
      constructor
      · rintro (rfl | ⟨other, hother, hid, hl⟩)
        · exact ⟨row, hrow, mem_cons_self, hload⟩
        · exact ⟨other, hother, mem_cons_of_mem _ hid, hl⟩
      · rintro ⟨other, hother, hid, hl⟩
        rcases mem_cons.1 hid with heq | hid
        · rw [eq_of_outboxId inv.ids hother hrow heq, hload] at hl
          exact Or.inl (Except.ok.inj hl).symm
        · exact Or.inr ⟨other, hother, hid, hl⟩

/-- **Replaying the delivered rows rebuilds a graph that holds the delivered events only.** -/
theorem GraphInv.replay (inv : GraphInv r graph w) (free : OrderFree r)
    (honly : ∀ row ∈ w.outbox, w.holds row.eventId → row.status = .delivered) {pageSize : Nat} (hpage : 0 < pageSize) :
    ∃ result, replayLedger r w true pageSize graph = .ok result ∧ result.target = w.graph := by
  have hmemIds : ∀ i, i ∈ replayIds w true ↔ ∃ row ∈ w.outbox, row.status = .delivered ∧ row.outboxId = i := by
    intro i
    simp [replayIds, replayed, and_assoc]
  have hall : (replayIds w true).filter (0 < ·) = replayIds w true := by
    apply filter_eq_self.2
    intro i hi
    obtain ⟨row, hrow, -, rfl⟩ := (hmemIds i).1 hi
    simpa using inv.positive row hrow
  have hwalk : walk (page (replayIds w true) pageSize) ((replayIds w true).length + 1) 0 = replayIds w true := by
    have hsorted : (replayIds w true).Pairwise (· < ·) := sortedSet_pairwise _
    rw [walk_pages hsorted hpage (by rw [hall]; omega), hall]
  have hsettled : ∀ i ∈ replayIds w true, ∃ row ∈ w.outbox, row.outboxId = i ∧ Settled r w row.eventId := by
    intro i hi
    obtain ⟨row, hrow, hstatus, rfl⟩ := (hmemIds i).1 hi
    exact ⟨row, hrow, rfl, inv.delivered row hrow hstatus⟩
  obtain ⟨events, next, hfold, htarget, hmem⟩ := replayRows_settled inv.runner hsettled (ReplayResult.start r graph)
  refine ⟨next, ?_, ?_⟩
  · unfold replayLedger
    rw [replayPages_walk, hwalk, hfold]
  · rw [htarget, inv.graph_eq, foldl_touches]
    refine (free.converges _).deliver_eq (fun event => ?_) graph
    rw [mem_filter, hmem]
    constructor
    · rintro ⟨⟨row, hrow, hid, hload⟩, htouch⟩
      obtain ⟨other, hother, hstatus, hsame⟩ := (hmemIds row.outboxId).1 hid
      rw [eq_of_outboxId inv.runner.ids hother hrow hsame] at hstatus
      obtain ⟨e, matching, hload', hmatch, hwritten⟩ := inv.delivered row hrow hstatus
      obtain rfl : event = e := Except.ok.inj (hload.symm.trans hload')
      refine hwritten.resolve_left fun hnil => ?_
      subst hnil
      simp [touches, hmatch] at htouch
    · intro hwritten
      obtain ⟨hload, matching, hmatch, hne⟩ := inv.written event hwritten
      have hevent : event.eventId ∈ w.events.map (·.eventId) :=
        mem_map_of_mem (List.mem_of_find?_eq_some (loadEvent_ok.1 hload).1)
      rw [← inv.runner.events] at hevent
      obtain ⟨row, hrow, hid⟩ := mem_map.1 hevent
      have hholds : w.holds row.eventId := hid ▸ mem_map_of_mem hwritten
      refine ⟨⟨row, hrow, (hmemIds _).2 ⟨row, hrow, honly row hrow hholds, rfl⟩, hid.symm ▸ hload⟩, ?_⟩
      cases matching with
      | nil => exact absurd rfl hne
      | cons p ps => simp [touches, hmatch]

/-! ## The live graph -/

end Projection
