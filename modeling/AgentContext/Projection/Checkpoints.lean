import AgentContext.Projection.Rows
import Mathlib.Tactic.Common

/-!
# Checkpoints

`CheckpointRepository.advance`: one upsert per delivered row and projector.

    no row           →  (outbox_id, event_id, 1)
    last_outbox_id   →  GREATEST(last_outbox_id, outbox_id), where NULL loses
    last_event_id    →  the greater row's event
    processed_count  →  + 1

`Summarizes` says that a checkpoint is exact for a list of rows, and `summarizes_advance` that an
upsert keeps it exact whatever the order the rows come in.
-/

namespace Projection

/-- `GREATEST`, which ignores NULL. -/
def greatest : Option Nat → Nat → Nat
  | none, b => b
  | some a, b => max a b

/-- The `ON CONFLICT DO UPDATE` of `advance`. -/
def ProjectionCheckpointRow.advanced (row : ProjectionCheckpointRow) (outboxId : Nat) (eventId : String) (now : Nat) :
    ProjectionCheckpointRow :=
  { row with
    lastOutboxId := some (greatest row.lastOutboxId outboxId)
    lastEventId :=
      match row.lastOutboxId with
      | none => some eventId
      | some last => if last ≤ outboxId then some eventId else row.lastEventId
    processedCount := row.processedCount + 1
    updatedAt := now }

def ProjectionCheckpointRow.isFor (row : ProjectionCheckpointRow) (name version : String) : Bool :=
  row.projectorName = name && row.projectorVersion = version

/-- `CheckpointRepository.get`. -/
def getCheckpoint (checkpoints : List ProjectionCheckpointRow) (name version : String) :
    Option ProjectionCheckpointRow :=
  checkpoints.find? (·.isFor name version)

/-- `CheckpointRepository.advance`. -/
def advance (checkpoints : List ProjectionCheckpointRow) (name version : String) (outboxId : Nat) (eventId : String)
    (now : Nat) : List ProjectionCheckpointRow :=
  if checkpoints.any (·.isFor name version) then
    checkpoints.map fun row => if row.isFor name version then row.advanced outboxId eventId now else row
  else
    checkpoints ++ [⟨name, version, some outboxId, some eventId, 1, .active, now⟩]

/-! ## Reading a checkpoint after an upsert -/

section Get

variable {checkpoints : List ProjectionCheckpointRow} {name version name' version' eventId : String} {outboxId now : Nat}
variable {row : ProjectionCheckpointRow}

theorem isFor_iff : row.isFor name version = true ↔ row.projectorName = name ∧ row.projectorVersion = version := by
  simp [ProjectionCheckpointRow.isFor]

@[simp] theorem advanced_isFor (row : ProjectionCheckpointRow) :
    (row.advanced outboxId eventId now).isFor name version = row.isFor name version := rfl

theorem getCheckpoint_map_advanced (h : getCheckpoint checkpoints name version = some row) :
    getCheckpoint (checkpoints.map fun row => if row.isFor name version then row.advanced outboxId eventId now else row)
      name version = some (row.advanced outboxId eventId now) := by
  induction checkpoints with
  | nil => cases h
  | cons c cs ih =>
    unfold getCheckpoint at h ih ⊢
    cases hc : c.isFor name version with
    | true =>
      simp only [List.find?_cons, hc, Option.some.injEq] at h
      subst h
      simp only [List.map_cons, hc, if_true, List.find?_cons, advanced_isFor]
    | false =>
      simp only [List.find?_cons, hc] at h
      simp only [List.map_cons, hc, List.find?_cons, Bool.false_eq_true, if_false]
      exact ih h

/-- The upsert of a projector creates its checkpoint or moves it. -/
theorem getCheckpoint_advance : getCheckpoint (advance checkpoints name version outboxId eventId now) name version =
      match getCheckpoint checkpoints name version with
      | none => some ⟨name, version, some outboxId, some eventId, 1, .active, now⟩
      | some row => some (row.advanced outboxId eventId now) := by
  unfold advance
  cases h : getCheckpoint checkpoints name version with
  | none =>
    have hnone : ∀ row ∈ checkpoints, row.isFor name version = false := by simpa [getCheckpoint] using h
    have hany : checkpoints.any (·.isFor name version) = false := by simpa using hnone
    rw [hany]
    have hnew : ProjectionCheckpointRow.isFor ⟨name, version, some outboxId, some eventId, 1, .active, now⟩
        name version = true := isFor_iff.2 ⟨rfl, rfl⟩
    unfold getCheckpoint at h ⊢
    simp only [Bool.false_eq_true, if_false, List.find?_append, h, List.find?_cons, hnew, Option.none_or]
  | some row =>
    have hfor : row.isFor name version = true := by
      unfold getCheckpoint at h
      exact (List.find?_eq_some_iff_append.1 h).1
    have hany : checkpoints.any (·.isFor name version) = true :=
      List.any_eq_true.2 ⟨row, List.mem_of_find?_eq_some h, hfor⟩
    rw [if_pos hany]
    exact getCheckpoint_map_advanced h

theorem getCheckpoint_advance_other (checkpoints : List ProjectionCheckpointRow) (outboxId : Nat) (eventId : String)
    (now : Nat) (hne : (name', version') ≠ (name, version)) :
    getCheckpoint (advance checkpoints name version outboxId eventId now) name' version' =
      getCheckpoint checkpoints name' version' := by
  have hother : ∀ row : ProjectionCheckpointRow, row.isFor name version = true → row.isFor name' version' = false := by
    intro row hrow
    obtain ⟨rfl, rfl⟩ := isFor_iff.1 hrow
    cases hrow' : row.isFor name' version' with
    | false => rfl
    | true =>
      obtain ⟨rfl, rfl⟩ := isFor_iff.1 hrow'
      exact absurd rfl hne
  have hmap : ∀ cs : List ProjectionCheckpointRow,
      (cs.map fun row => if row.isFor name version then row.advanced outboxId eventId now else row).find?
        (·.isFor name' version') = cs.find? (·.isFor name' version') := by
    intro cs
    induction cs with
    | nil => rfl
    | cons c cs ih =>
      cases hc : c.isFor name version with
      | true => simp only [List.map_cons, hc, if_true, List.find?_cons, advanced_isFor, hother c hc, ih]
      | false => simp only [List.map_cons, hc, Bool.false_eq_true, if_false, List.find?_cons, ih]
  unfold advance
  split
  · exact hmap checkpoints
  · have hnew := hother ⟨name, version, some outboxId, some eventId, 1, .active, now⟩ (isFor_iff.2 ⟨rfl, rfl⟩)
    unfold getCheckpoint
    simp [List.find?_append, hnew]

end Get

/-! ## Exact checkpoints -/

/-- The checkpoint counts the rows and points at the greatest of them. -/
def Summarizes (rows : List OutboxRow) : Option ProjectionCheckpointRow → Prop
  | none => rows = []
  | some row => row.processedCount = rows.length ∧ row.state = .active ∧
      ∃ top ∈ rows, row.lastOutboxId = some top.outboxId ∧ row.lastEventId = some top.eventId ∧
        ∀ other ∈ rows, other.outboxId ≤ top.outboxId

theorem Summarizes.perm {rows rows' : List OutboxRow} {checkpoint : Option ProjectionCheckpointRow}
    (h : Summarizes rows checkpoint) (hp : rows.Perm rows') : Summarizes rows' checkpoint := by
  cases checkpoint with
  | none =>
    subst h
    exact hp.symm.eq_nil
  | some row =>
    obtain ⟨hcount, hstate, top, htop, hid, hevent, hmax⟩ := h
    exact ⟨hcount.trans hp.length_eq, hstate, top, hp.mem_iff.1 htop, hid, hevent,
      fun other hother => hmax other (hp.mem_iff.2 hother)⟩

/-- **An upsert keeps a checkpoint exact**, wherever the row stands in the outbox. -/
theorem summarizes_advance {checkpoints : List ProjectionCheckpointRow} {name version : String}
    {rows : List OutboxRow} (row : OutboxRow) (now : Nat)
    (h : Summarizes rows (getCheckpoint checkpoints name version)) :
    Summarizes (row :: rows)
      (getCheckpoint (advance checkpoints name version row.outboxId row.eventId now) name version) := by
  rw [getCheckpoint_advance]
  cases hget : getCheckpoint checkpoints name version with
  | none =>
    rw [hget] at h
    subst h
    refine ⟨rfl, rfl, row, by simp, rfl, rfl, ?_⟩
    intro other hother
    rw [List.mem_singleton.1 hother]
  | some checkpoint =>
    rw [hget] at h
    obtain ⟨hcount, hstate, top, htop, hid, hevent, hmax⟩ := h
    refine ⟨by simp [ProjectionCheckpointRow.advanced, hcount], hstate, ?_⟩
    by_cases hle : top.outboxId ≤ row.outboxId
    · -- the row is the new top
      refine ⟨row, by simp, ?_, ?_, ?_⟩
      · simp [ProjectionCheckpointRow.advanced, hid, greatest, hle]
      · simp [ProjectionCheckpointRow.advanced, hid, hle]
      · intro other hother
        rcases List.mem_cons.1 hother with rfl | hother
        · exact le_rfl
        · have := hmax other hother
          omega
    · -- a row behind the pointer only counts
      refine ⟨top, by simp [htop], ?_, ?_, ?_⟩
      · have : max top.outboxId row.outboxId = top.outboxId := by omega
        simp [ProjectionCheckpointRow.advanced, hid, greatest, this]
      · simp [ProjectionCheckpointRow.advanced, hid, hle, hevent]
      · intro other hother
        rcases List.mem_cons.1 hother with rfl | hother
        · omega
        · exact hmax other hother

end Projection
