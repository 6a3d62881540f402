import AgentContext.Projection.Progress
import Mathlib.Algebra.GroupWithZero.Nat

/-!
# Verifying checkpoints against the ledger

`projection/verify.py`: `event_type_stats` counts the ledger's events by type against an outbox position, and
`classify_projector` judges a projector's checkpoint by these counts.  The verifier's query starts from the
events, the runner's upserts from the rows it delivers; in a reachable world the two agree:

    Σ delivered_covered over the handled types  =  |handledRows p| at or below the position
    Σ delivered_beyond over the handled types   =  |handledRows p| above it
-/

namespace Projection

open Transition Keyset List

variable {J G : Type} {r : Runner J G} {w : World J G}
variable {p : Projector J G}

/-! ## The aggregates -/

structure EventTypeStats where
  eventType : String
  total : Nat
  unqueued : Nat
  covered : Nat
  deliveredCovered : Nat
  deadCovered : Nat
  deliveredBeyond : Nat
  firstEventId : Option String
  lastEventId : Option String
deriving DecidableEq, Repr

/-- An event and its outbox row, if it has one: `event_id` is unique in the outbox. -/
abbrev Joined (J : Type) := LedgerEvent J × Option OutboxRow

/-- `events LEFT JOIN outbox USING (event_id)`. -/
def World.joined (w : World J G) : List (Joined J) :=
  w.events.map fun event => (event, w.outbox.find? (·.eventId = event.eventId))

/-- The row is there and passes; NULL passes no filter. -/
def Joined.filter (passes : OutboxRow → Bool) (row : Joined J) : Bool := row.2.any passes

/-- `event_type_stats`. -/
def eventTypeStats (w : World J G) (position : Option Nat) : List EventTypeStats :=
  let cutoff := position.getD 0
  (sortedSet (w.joined.map (·.1.eventType))).map fun eventType =>
    let group := w.joined.filter (·.1.eventType = eventType)
    { eventType := eventType
      total := group.length
      unqueued := group.countP (·.2.isNone)
      covered := group.countP (Joined.filter (·.outboxId ≤ cutoff))
      deliveredCovered := group.countP (Joined.filter fun row => row.outboxId ≤ cutoff && row.status = .delivered)
      deadCovered := group.countP (Joined.filter fun row => row.outboxId ≤ cutoff && row.status = .deadLettered)
      deliveredBeyond := group.countP (Joined.filter fun row => cutoff < row.outboxId && row.status = .delivered)
      firstEventId := (group.map (·.1.eventId)).min?
      lastEventId := (group.map (·.1.eventId)).max? }

/-! ## The verdict -/

structure CheckpointView where
  outboxId : Option Nat
  eventId : Option String
  processedCount : Nat
  state : ProjectionState
  updatedAt : Nat
  pointerEventId : Option String
deriving DecidableEq, Repr

/-- `_checkpoint_view`. -/
def checkpointView (w : World J G) (p : Projector J G) : Option CheckpointView :=
  (getCheckpoint w.checkpoints p.name p.version).map fun row => {
    outboxId := row.lastOutboxId
    eventId := row.lastEventId
    processedCount := row.processedCount
    state := row.state
    updatedAt := row.updatedAt
    pointerEventId := row.lastOutboxId.bind fun last => (w.outbox.find? (·.outboxId = last)).map (·.eventId) }

structure ProjectorVerification where
  name : String
  version : String
  checkpointOutboxId : Option Nat
  processedCount : Nat
  handledEvents : Nat
  coveredEvents : Nat
  lag : Int
  inFlight : Int
  deadLettered : Nat
  unqueued : Nat
  fromEventId : Option String
  throughEventId : Option String
  issues : List String
deriving DecidableEq, Repr

/-- The stats of the types a projector handles; `handles` may raise. -/
def handledStats (p : Projector J G) : List EventTypeStats → Except String (List EventTypeStats)
  | [] => .ok []
  | item :: stats => do
    let handles ← p.handles item.eventType
    let rest ← handledStats p stats
    return if handles then item :: rest else rest

def sumOf (column : EventTypeStats → Nat) (stats : List EventTypeStats) : Nat := (stats.map column).sum

/-- `_event_range`. -/
def eventRange (handled : List EventTypeStats) : Option String × Option String × Nat :=
  let firsts := handled.filterMap (·.firstEventId)
  let lasts := handled.filterMap (·.lastEventId)
  let count := sumOf (·.total) handled
  if firsts = [] ∨ lasts = [] then (none, none, count) else (firsts.min?, lasts.max?, count)

/-- `issues.append(name)` if the condition holds. -/
def issue (condition : Bool) (name : String) : List String := if condition then [name] else []

/-- `classify_projector`. -/
def classifyProjector (p : Projector J G) (checkpoint : Option CheckpointView) (stats : List EventTypeStats)
    (requireCaughtUp : Bool) : Except String ProjectorVerification := do
  let handled ← handledStats p stats
  let total := sumOf (·.total) handled
  let unqueued := sumOf (·.unqueued) handled
  let covered := sumOf (·.covered) handled
  let deliveredCovered := sumOf (·.deliveredCovered) handled
  let dead := sumOf (·.deadCovered) handled
  let beyond := sumOf (·.deliveredBeyond) handled
  let inFlight : Int := covered - deliveredCovered - dead
  let lag : Int := total - unqueued - covered - beyond
  let (fromId, throughId, count) := eventRange handled
  let position := checkpoint.bind (·.outboxId)
  let processed := checkpoint.elim 0 (·.processedCount)
  let issues :=
    issue (checkpoint.any fun view => view.outboxId.isSome && view.pointerEventId ≠ view.eventId)
      "checkpoint_pointer_mismatch" ++
    issue (checkpoint.any (·.state = .rebuilding)) "checkpoint_rebuilding" ++
    issue (beyond ≠ 0) "checkpoint_regressed" ++
    issue (dead ≠ 0) "dead_lettered_below_checkpoint" ++
    issue (processed ≠ deliveredCovered) "processed_count_mismatch" ++
    issue (unqueued ≠ 0) "unqueued_events" ++
    issue (requireCaughtUp && lag ≠ 0) "lagging" ++
    issue (requireCaughtUp && inFlight ≠ 0) "in_flight_below_checkpoint"
  return {
    name := p.name
    version := p.version
    checkpointOutboxId := position
    processedCount := processed
    handledEvents := count
    coveredEvents := covered
    lag := lag
    inFlight := inFlight
    deadLettered := dead
    unqueued := unqueued
    fromEventId := fromId
    throughEventId := throughId
    issues := issues }

/-- What `verify` does for one projector. -/
def verifyProjector (w : World J G) (p : Projector J G) (requireCaughtUp : Bool) :
    Except String ProjectorVerification :=
  let checkpoint := checkpointView w p
  classifyProjector p checkpoint (eventTypeStats w (checkpoint.bind (·.outboxId))) requireCaughtUp

/-! ## Sums of the aggregates are counts of outbox rows -/

theorem handledStats_ok : ∀ {stats handled : List EventTypeStats},
    handledStats p stats = .ok handled → handled = stats.filter fun item => p.takes item.eventType
  | [], _, h => by
    cases h
    rfl
  | item :: stats, handled, h => by
    unfold handledStats at h
    cases hp : p.handles item.eventType with
    | error error =>
      rw [hp] at h
      cases h
    | ok handles =>
      cases hs : handledStats p stats with
      | error error =>
        rw [hp, hs] at h
        cases h
      | ok rest =>
        rw [hp, hs] at h
        have htakes : p.takes item.eventType = handles := by simp [Projector.takes, hp]
        rw [filter_cons, htakes, ← handledStats_ok hs]
        cases h
        cases handles <;> rfl

theorem find?_unique {α κ : Type} [DecidableEq κ] {rows : List α} {column : α → κ} (hnodup : (rows.map column).Nodup)
    {row : α} (hrow : row ∈ rows) : (rows.find? fun other => column other = column row) = some row := by
  have hsome : (rows.find? fun other => column other = column row).isSome := List.find?_isSome.2 ⟨row, hrow, by simp⟩
  obtain ⟨found, hfound⟩ := Option.isSome_iff_exists.1 hsome
  have heq : column found = column row := by simpa using List.find?_some hfound
  rw [hfound, inj_on_of_nodup_map hnodup (List.mem_of_find?_eq_some hfound) hrow heq]

theorem joined_countP (inv : RunnerInv r w) (p : Projector J G) (counted : OutboxRow → Bool) :
    (w.joined.countP fun row => p.takes row.1.eventType && row.filter counted) =
      w.outbox.countP fun row => p.takesRow w.events row && counted row := by
  have hlen : w.events.length = w.outbox.length := by simpa using (congrArg List.length inv.events).symm
  have hevents : (w.events.zip w.outbox).map Prod.fst = w.events := map_fst_zip hlen.le
  have houtbox : (w.events.zip w.outbox).map Prod.snd = w.outbox := map_snd_zip hlen.ge
  have hrowIds : (w.outbox.map (·.eventId)).Nodup := inv.events ▸ inv.eventIds
  have hpair : ∀ pair ∈ w.events.zip w.outbox, pair.2.eventId = pair.1.eventId := by
    intro pair hmem
    obtain ⟨i, hi, rfl⟩ := getElem_of_mem hmem
    have := congrArg (·[i]?) inv.events
    simp only [length_zip] at hi
    simp only [List.getElem?_map, getElem_zip] at this ⊢
    rw [List.getElem?_eq_getElem (by omega), List.getElem?_eq_getElem (by omega)] at this
    simpa using this
  have hjoined : w.joined = (w.events.zip w.outbox).map fun pair => (pair.1, some pair.2) := by
    unfold World.joined
    conv_lhs => rw [← hevents]
    rw [map_map]
    apply map_congr_left
    intro pair hmem
    have hrow : pair.2 ∈ w.outbox := (of_mem_zip hmem).2
    have hfind := find?_unique hrowIds hrow
    rw [hpair pair hmem] at hfind
    simp [hfind]
  rw [hjoined, countP_map]
  conv_rhs => rw [← houtbox, countP_map]
  apply countP_congr
  intro pair hmem
  have hevent : pair.1 ∈ w.events := (of_mem_zip hmem).1
  have hfind := find?_unique inv.eventIds hevent
  rw [← hpair pair hmem] at hfind
  simp [Projector.takesRow, hfind, Joined.filter]

variable {handled : List EventTypeStats}

theorem sumOf_eventTypeStats (inv : RunnerInv r w) (p : Projector J G) {position : Option Nat}
    (h : handledStats p (eventTypeStats w position) = .ok handled) (column : EventTypeStats → Nat)
    (counted : OutboxRow → Bool) (hcolumn : ∀ item ∈ eventTypeStats w position, column item =
      (w.joined.filter (·.1.eventType = item.eventType)).countP (Joined.filter counted)) :
    sumOf column handled = w.outbox.countP fun row => p.takesRow w.events row && counted row := by
  have hsum := sum_countP_groups w.joined (·.1.eventType) (Joined.filter counted)
    ((sortedSet_nodup (w.joined.map (·.1.eventType))).filter p.takes)
  rw [handledStats_ok h, ← joined_countP inv p counted]
  unfold sumOf
  rw [map_congr_left fun item hmem => hcolumn item (mem_of_mem_filter hmem)]
  unfold eventTypeStats
  rw [filter_map, map_map]
  refine hsum.trans ?_
  apply countP_congr
  intro row hrow
  have hmem : row.1.eventType ∈ w.joined.map (·.1.eventType) := mem_map_of_mem hrow
  simp [mem_filter, hmem]

/-! ## Exact checkpoints pass -/

def World.processedCount (w : World J G) (p : Projector J G) : Nat :=
  (getCheckpoint w.checkpoints p.name p.version).elim 0 (·.processedCount)

def World.lastOutboxId (w : World J G) (p : Projector J G) : Option Nat :=
  (getCheckpoint w.checkpoints p.name p.version).bind (·.lastOutboxId)

def World.lastEventId (w : World J G) (p : Projector J G) : Option String :=
  (getCheckpoint w.checkpoints p.name p.version).bind (·.lastEventId)

/-- The checkpoint of a projector, read off the outbox. -/
structure CheckpointExact (w : World J G) (p : Projector J G) : Prop where
  count : w.processedCount p = (w.handledRows p).length
  noPointer : w.lastOutboxId p = none ↔ w.processedCount p = 0
  noEvent : w.lastEventId p = none ↔ w.processedCount p = 0
  pointer : ∀ last, w.lastOutboxId p = some last →
    ∃ top ∈ w.handledRows p, top.outboxId = last ∧ w.lastEventId p = some top.eventId ∧
      ∀ other ∈ w.handledRows p, other.outboxId ≤ last

theorem ProgressInv.checkpointExact (inv : ProgressInv r w) (hp : p ∈ r.projectors) : CheckpointExact w p := by
  have hsum := inv.summarized p hp
  unfold Summarizes at hsum
  cases hget : getCheckpoint w.checkpoints p.name p.version with
  | none =>
    rw [hget] at hsum
    have hcount : w.processedCount p = 0 := by simp [World.processedCount, hget]
    have hlast : w.lastOutboxId p = none := by simp [World.lastOutboxId, hget]
    have hevent : w.lastEventId p = none := by simp [World.lastEventId, hget]
    refine ⟨by simp [hcount, hsum], by simp [hcount, hlast], by simp [hcount, hevent], ?_⟩
    intro last h
    rw [hlast] at h
    cases h
  | some checkpoint =>
    rw [hget] at hsum
    obtain ⟨hlen, -, top, htop, hid, heventId, hmax⟩ := hsum
    have hcount : w.processedCount p = (w.handledRows p).length := by simp [World.processedCount, hget, hlen]
    have hlast : w.lastOutboxId p = some top.outboxId := by simp [World.lastOutboxId, hget, hid]
    have hevent : w.lastEventId p = some top.eventId := by simp [World.lastEventId, hget, heventId]
    have hpos : 0 < (w.handledRows p).length := length_pos_of_mem htop
    refine ⟨hcount, ?_, ?_, ?_⟩
    · rw [hlast, hcount]
      exact iff_of_false (by simp) (by omega)
    · rw [hevent, hcount]
      exact iff_of_false (by simp) (by omega)
    · intro last h
      rw [hlast] at h
      cases h
      exact ⟨top, htop, rfl, hevent, hmax⟩

section

variable (inv : RunnerInv r w) (hexact : CheckpointExact w p)
include inv hexact

theorem deliveredCovered_eq
    (h : handledStats p (eventTypeStats w (w.lastOutboxId p)) = .ok handled) :
    sumOf (·.deliveredCovered) handled = w.processedCount p := by
  rw [sumOf_eventTypeStats inv p h _ (fun row => row.outboxId ≤ (w.lastOutboxId p).getD 0 && row.status = .delivered)
    fun item hitem => by obtain ⟨t, -, rfl⟩ := mem_map.1 hitem; rfl]
  rw [hexact.count, World.handledRows, ← countP_eq_length_filter]
  apply countP_congr
  intro row hrow
  cases hlast : w.lastOutboxId p with
  | none =>
    have hempty : w.handledRows p = [] := by
      apply length_eq_zero_iff.1
      rw [← hexact.count]
      exact hexact.noPointer.1 hlast
    have hnot : ¬ (row.status = .delivered ∧ p.takesRow w.events row = true) := by
      intro hand
      have := mem_handledRows.2 ⟨hrow, hand⟩
      rw [hempty] at this
      cases this
    simp only [Bool.and_eq_true, decide_eq_true_eq]
    exact iff_of_false (fun hc => hnot ⟨hc.2.2, hc.1⟩) hnot
  | some last =>
    obtain ⟨top, -, -, -, hmax⟩ := hexact.pointer last hlast
    simp only [Bool.and_eq_true, decide_eq_true_eq, Option.getD_some]
    constructor
    · exact fun hc => ⟨hc.2.2, hc.1⟩
    · exact fun hc => ⟨hc.2, hmax row (mem_handledRows.2 ⟨hrow, hc⟩), hc.1⟩

theorem deliveredBeyond_eq
    (h : handledStats p (eventTypeStats w (w.lastOutboxId p)) = .ok handled) :
    sumOf (·.deliveredBeyond) handled = 0 := by
  rw [sumOf_eventTypeStats inv p h _ (fun row => (w.lastOutboxId p).getD 0 < row.outboxId && row.status = .delivered)
    fun item hitem => by obtain ⟨t, -, rfl⟩ := mem_map.1 hitem; rfl]
  apply countP_eq_zero.2
  intro row hrow hc
  simp only [Bool.and_eq_true, decide_eq_true_eq] at hc
  have hmem := mem_handledRows.2 ⟨hrow, hc.2.2, hc.1⟩
  cases hlast : w.lastOutboxId p with
  | none =>
    have hzero := hexact.count.symm.trans (hexact.noPointer.1 hlast)
    rw [length_eq_zero_iff.1 hzero] at hmem
    cases hmem
  | some last =>
    obtain ⟨top, -, -, -, hmax⟩ := hexact.pointer last hlast
    have := hmax row hmem
    rw [hlast] at hc
    simp only [Option.getD_some] at hc
    omega

/-- The row the pointer names carries the event the checkpoint names. -/
theorem pointerEventId_eq {view : CheckpointView}
    (h : checkpointView w p = some view) : view.pointerEventId = view.eventId := by
  obtain ⟨checkpoint, hget, rfl⟩ := Option.map_eq_some_iff.1 h
  show (checkpoint.lastOutboxId.bind _) = checkpoint.lastEventId
  have hlast : w.lastOutboxId p = checkpoint.lastOutboxId := by simp [World.lastOutboxId, hget]
  have hevent : w.lastEventId p = checkpoint.lastEventId := by simp [World.lastEventId, hget]
  cases hid : checkpoint.lastOutboxId with
  | none =>
    rw [← hevent, hexact.noEvent.2 (hexact.noPointer.1 (hlast.trans hid))]
    rfl
  | some last =>
    obtain ⟨top, htop, rfl, htopEvent, -⟩ := hexact.pointer last (hlast.trans hid)
    have hfind := find?_unique inv.ids (mem_handledRows.1 htop).1
    rw [← hevent, htopEvent]
    simp [hfind]

end

theorem mem_issue {condition : Bool} {name other : String} : other ∈ issue condition name ↔ condition = true ∧ other = name := by
  unfold issue
  cases condition <;> simp

/-- **Checkpoints are exact, and the verifier finds them so.** -/
theorem checkpoints_exact (r : Runner J G) (graph : G) (w : World J G)
    (h : Reachable (step r) (World.start graph) w) (p : Projector J G) (hp : p ∈ r.projectors) :
    CheckpointExact w p ∧ ∀ requireCaughtUp verification, verifyProjector w p requireCaughtUp = .ok verification →
      "checkpoint_pointer_mismatch" ∉ verification.issues ∧ "checkpoint_regressed" ∉ verification.issues ∧
      "processed_count_mismatch" ∉ verification.issues := by
  have inv : ProgressInv r w := h.invariant (ProgressInv.start r graph) fun _ _ _ inv hs => inv.step hs
  have hexact := inv.checkpointExact hp
  refine ⟨hexact, fun requireCaughtUp verification hverify => ?_⟩
  have hposition : (checkpointView w p).bind (·.outboxId) = w.lastOutboxId p := by
    simp [checkpointView, World.lastOutboxId, Option.bind_map]
  have hprocessed : (checkpointView w p).elim 0 (·.processedCount) = w.processedCount p := by
    cases hget : getCheckpoint w.checkpoints p.name p.version <;>
      simp [checkpointView, World.processedCount, hget]
  unfold verifyProjector classifyProjector at hverify
  simp only [hposition] at hverify
  cases hhandled : handledStats p (eventTypeStats w (w.lastOutboxId p)) with
  | error error =>
    rw [hhandled] at hverify
    cases hverify
  | ok handled =>
    rw [hhandled] at hverify
    cases hverify
    have hpointer : ((checkpointView w p).any fun view => view.outboxId.isSome && view.pointerEventId ≠ view.eventId) =
        false := by
      cases hview : checkpointView w p with
      | none => rfl
      | some view => simp [pointerEventId_eq inv.runner hexact hview]
    have hcovered := deliveredCovered_eq inv.runner hexact hhandled
    have hbeyond := deliveredBeyond_eq inv.runner hexact hhandled
    simp only [List.mem_append, mem_issue, hpointer, hprocessed, hcovered, hbeyond]
    simp

/-- The row behind is delivered last, after a retry: the pointer stays at the other one. -/
def outOfOrderRun : List (Label Unit) := [
  .append (sampleEvent "e1") 1 5, .append (sampleEvent "e2") 2 5, .append (sampleEvent "e3") 3 5,
  .claim "a" 2 [] 10, .project "a" (.writeError (some 0) "Boom" false), .finalize "a" 11,
  .project "a" .works, .finalize "a" 12,
  .claim "b" 1 [] 20, .project "b" .works, .finalize "b" 21]

theorem checkpoints_exact_sample : ∃ w, run (step sampleRunner) (World.start ∅) outOfOrderRun = some w ∧
    ∃ p ∈ sampleRunner.projectors, w.processedCount p = 2 ∧ w.lastOutboxId p = some 2 ∧ CheckpointExact w p ∧
      (verifyProjector w p true).toOption.map (·.issues) = some ["lagging"] := by
  have hmem : (⟨"portfolio", "1", fun eventType => .ok (eventType = "session.started"), fun event => insert event.eventId⟩ :
      Projector Unit (Finset String)) ∈ sampleRunner.projectors := List.mem_cons_self
  have hrun : (run (step sampleRunner) (World.start ∅) outOfOrderRun).map (fun w =>
      sampleRunner.projectors.map fun p => (w.processedCount p, w.lastOutboxId p,
        (verifyProjector w p true).toOption.map (·.issues))) = some [(2, some 2, some ["lagging"])] := by decide
  obtain ⟨w, hw, hcount⟩ := Option.map_eq_some_iff.1 hrun
  obtain ⟨hexact, -⟩ := checkpoints_exact sampleRunner ∅ w ⟨outOfOrderRun, hw⟩ _ hmem
  simp only [sampleRunner, List.map_cons, List.map_nil, List.cons.injEq, Prod.mk.injEq, and_true] at hcount
  exact ⟨w, hw, _, hmem, hcount.1, hcount.2.1, hexact, hcount.2.2⟩

end Projection
