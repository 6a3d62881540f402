import Mathlib.Data.String.Basic

/-!
# Rows of the projection schema

`projection/models.py`: the outbox, the per-projector checkpoints and the dead letters, each with the
CHECK constraints PostgreSQL holds its rows to.  Times are UTC instants in microseconds.
-/

namespace Projection

inductive OutboxStatus | pending | leased | delivered | deadLettered
deriving DecidableEq, Repr

inductive ProjectionState | active | paused | rebuilding
deriving DecidableEq, Repr

inductive DeadLetterStatus | opened | requeued | resolved
deriving DecidableEq, Repr

/-- A row in a terminal status is never claimed, released or finalized again. -/
def OutboxStatus.terminal : OutboxStatus → Bool
  | .delivered | .deadLettered => true
  | .pending | .leased => false

structure OutboxRow where
  outboxId : Nat
  eventId : String
  status : OutboxStatus
  retryCount : Nat
  availableAt : Nat
  leaseOwner : Option String
  leaseExpiresAt : Option Nat
  lastErrorClass : Option String
  deliveredAt : Option Nat
  deadLetteredAt : Option Nat
  createdAt : Nat
  updatedAt : Nat
deriving DecidableEq, Repr

structure ProjectionCheckpointRow where
  projectorName : String
  projectorVersion : String
  lastOutboxId : Option Nat
  lastEventId : Option String
  processedCount : Nat
  state : ProjectionState
  updatedAt : Nat
deriving DecidableEq, Repr

structure DeadLetterRow where
  outboxId : Nat
  eventId : String
  projectorName : String
  projectorVersion : String
  attempts : Nat
  errorClass : String
  status : DeadLetterStatus
  firstFailedAt : Nat
  updatedAt : Nat
  resolvedAt : Option Nat
deriving DecidableEq, Repr

/-- `_outbox_row`: the row an append inserts next to its event. -/
def outboxRow (outboxId : Nat) (eventId : String) (now : Nat) : OutboxRow where
  outboxId := outboxId
  eventId := eventId
  status := .pending
  retryCount := 0
  availableAt := now
  leaseOwner := none
  leaseExpiresAt := none
  lastErrorClass := none
  deliveredAt := none
  deadLetteredAt := none
  createdAt := now
  updatedAt := now

/-! ## Public error classes -/

/-- `[A-Za-z0-9_.]`. -/
def publicChar (c : Char) : Bool := c.isAlphanum || c = '_' || c = '.'

/-- `^[A-Za-z][A-Za-z0-9_.]{0,127}$` on the whole name. -/
def isPublicErrorClass (name : String) : Bool :=
  match name.toList with
  | [] => false
  | c :: cs => c.isAlpha && cs.length ≤ 127 && cs.all publicChar

/-- `_public_error_class` on the class name of an error. -/
def publicErrorClass (name : String) : String :=
  if isPublicErrorClass name then name
  else
    let replaced := name.toList.map fun c => if publicChar c then c else '_'
    let sanitized := String.ofList
      ((replaced.dropWhile fun c => c = '_' || c = '.' || c.isDigit).take 128)
    if isPublicErrorClass sanitized then sanitized else "UnnamedProjectionError"

/-! ## CHECK constraints -/

def OutboxRow.leaseMatchesStatus (row : OutboxRow) : Prop :=
  (row.status = .leased ↔ row.leaseOwner ≠ none) ∧ (row.status = .leased ↔ row.leaseExpiresAt ≠ none)

def OutboxRow.terminalTimestampMatchesStatus (row : OutboxRow) : Prop :=
  (row.status = .delivered ↔ row.deliveredAt ≠ none) ∧ (row.status = .deadLettered ↔ row.deadLetteredAt ≠ none)

/-- The CHECK constraints of `projection.outbox`. -/
def OutboxRow.Checked (row : OutboxRow) : Prop :=
  row.leaseMatchesStatus ∧ row.terminalTimestampMatchesStatus ∧
    (row.createdAt ≤ row.updatedAt ∧ row.createdAt ≤ row.availableAt) ∧
    ∀ name ∈ row.lastErrorClass, isPublicErrorClass name = true

/-- The CHECK constraint of `projection.projection_checkpoints`: progress is a complete pair. -/
def ProjectionCheckpointRow.Checked (row : ProjectionCheckpointRow) : Prop :=
  (row.processedCount = 0 ∧ row.lastOutboxId = none ∧ row.lastEventId = none) ∨
    (0 < row.processedCount ∧ row.lastOutboxId ≠ none ∧ row.lastEventId ≠ none)

/-- The CHECK constraints of `projection.dead_letters`. -/
def DeadLetterRow.Checked (row : DeadLetterRow) : Prop :=
  0 < row.attempts ∧ (row.status = .opened ↔ row.resolvedAt = none) ∧
    (row.firstFailedAt ≤ row.updatedAt ∧ ∀ resolvedAt ∈ row.resolvedAt, row.firstFailedAt ≤ resolvedAt) ∧
    isPublicErrorClass row.errorClass = true

instance (row : OutboxRow) : Decidable row.leaseMatchesStatus :=
  inferInstanceAs (Decidable ((row.status = .leased ↔ row.leaseOwner ≠ none) ∧
    (row.status = .leased ↔ row.leaseExpiresAt ≠ none)))

instance (row : OutboxRow) : Decidable row.terminalTimestampMatchesStatus :=
  inferInstanceAs (Decidable ((row.status = .delivered ↔ row.deliveredAt ≠ none) ∧
    (row.status = .deadLettered ↔ row.deadLetteredAt ≠ none)))

instance (row : OutboxRow) : Decidable row.Checked :=
  inferInstanceAs (Decidable (row.leaseMatchesStatus ∧ row.terminalTimestampMatchesStatus ∧
    (row.createdAt ≤ row.updatedAt ∧ row.createdAt ≤ row.availableAt) ∧
    ∀ name ∈ row.lastErrorClass, isPublicErrorClass name = true))

instance (row : ProjectionCheckpointRow) : Decidable row.Checked :=
  inferInstanceAs (Decidable (_ ∨ _))

instance (row : DeadLetterRow) : Decidable row.Checked :=
  inferInstanceAs (Decidable (0 < row.attempts ∧ (row.status = .opened ↔ row.resolvedAt = none) ∧
    (row.firstFailedAt ≤ row.updatedAt ∧ ∀ resolvedAt ∈ row.resolvedAt, row.firstFailedAt ≤ resolvedAt) ∧
    isPublicErrorClass row.errorClass = true))

theorem outboxRow_checked (outboxId : Nat) (eventId : String) (now : Nat) : (outboxRow outboxId eventId now).Checked := by
  simp [OutboxRow.Checked, OutboxRow.leaseMatchesStatus, OutboxRow.terminalTimestampMatchesStatus, outboxRow]

end Projection
