import AgentContext.Projection.Appends

/-!
# Freshness

`FreshnessReader.read`: one transaction at READ COMMITTED, so each of its statements sees what is committed when it
runs (`Views`).

    _WAITING      the oldest row that waits
    _WATERMARK    the newest delivered row below it
    _RECENT       valid_instant, the latest clamped time among the newest delivered rows
    _BEYOND       known_until, just before the earliest event past the watermark that the graph may hold
    _CHECKPOINTS, _DEAD_LETTERS

`digest` is the first 40 hex digits of the SHA-256 of the checkpoints' JSON.
-/

namespace Retrieval

open Projection Keyset

/-- What the retrieval side reads of a stored event: its times, its scope and its payload. -/
structure Stored (P : Type) where
  observedAt : Int
  recordedAt : Int
  projectId : Option String
  repositoryId : Option String
  payload : P

variable {P G : Type}

/-! ## The statements -/

def waiting (row : OutboxRow) : Bool := row.status = .pending || row.status = .leased

/-- `_WAITING`, the oldest id. -/
def low (w : World (Stored P) G) : Option Nat := ((w.outbox.filter waiting).map (·.outboxId)).min?

/-- `_WAITING`, the oldest creation. -/
def oldest (w : World (Stored P) G) : Option Nat := ((w.outbox.filter waiting).map (·.createdAt)).min?

def markable (low : Option Nat) (row : OutboxRow) : Bool := row.status = .delivered && low.all (row.outboxId < ·)

/-- `_WATERMARK`. -/
def watermark (w : World (Stored P) G) (low : Option Nat) : Option OutboxRow :=
  leastBy (OrderDual.toDual ·.outboxId) (w.outbox.filter (markable low))

/-- `RECENT_EVENTS`. -/
def recentEvents : Nat := 1000

/-- The newest delivered rows at or below a row. -/
def recentRows (w : World (Stored P) G) (asOf : Nat) : List OutboxRow :=
  (sortBy (OrderDual.toDual ·.outboxId)
    (w.outbox.filter fun row => row.outboxId ≤ asOf && row.status = .delivered)).take recentEvents

def eventOf (w : World (Stored P) G) (row : OutboxRow) : Option (LedgerEvent (Stored P)) :=
  w.events.find? (·.eventId = row.eventId)

/-- `least(observed_at, recorded_at)`. -/
def clamped (e : LedgerEvent (Stored P)) : Int := min e.content.observedAt e.content.recordedAt

/-- `_RECENT`. -/
def recent (w : World (Stored P) G) (asOf : Nat) : Option Int :=
  (((recentRows w asOf).filterMap (eventOf w)).map clamped).max?

/-- A row that a projector may have seen: claimed or failed at least once. -/
def touched (row : OutboxRow) : Bool :=
  !(row.status = .pending && row.retryCount = 0 && row.updatedAt = row.createdAt)

/-- `LIKE 'knowledge.%' OR LIKE 'quality.%'`. -/
def temporalType (eventType : String) : Bool := eventType.startsWith "knowledge." || eventType.startsWith "quality."

def inScope (projectId repositoryId : Option String) (e : LedgerEvent (Stored P)) : Bool :=
  projectId.all (e.content.projectId = some ·) && repositoryId.all (e.content.repositoryId = some ·)

/-- `_BEYOND`. -/
def beyond (w : World (Stored P) G) (asOf : Nat) (projectId repositoryId : Option String) : Option Int :=
  ((((w.outbox.filter fun row => asOf < row.outboxId && touched row).filterMap (eventOf w)).filter fun e =>
    temporalType e.eventType && inScope projectId repositoryId e).map (·.content.observedAt)).min?

/-! ## The read -/

/-- What each statement sees. -/
structure Views (P G : Type) where
  waiting : World (Stored P) G
  watermark : World (Stored P) G
  recent : World (Stored P) G
  beyond : World (Stored P) G
  checkpoints : World (Stored P) G
  deadLetters : World (Stored P) G

/-- Nothing commits while the read runs. -/
def Views.at (w : World (Stored P) G) : Views P G := ⟨w, w, w, w, w, w⟩

structure Freshness where
  asOfEventId : String
  asOfOutboxId : Nat
  validInstant : Int
  knownUntil : Option Int
  projectionCheckpoint : String
  stalenessMs : Nat
  warnings : List String
deriving DecidableEq, Repr

inductive RetrievalError
  | projectionNotReady (message : String)
deriving DecidableEq, Repr

def stateText : ProjectionState → String
  | .active => "active"
  | .paused => "paused"
  | .rebuilding => "rebuilding"

/-- A projector's entry of the checkpoint digest: `(name, version, last_outbox_id, state)`. -/
def material (checkpoints : List ProjectionCheckpointRow) (p : String × String) : String × String × Nat × String :=
  match getCheckpoint checkpoints p.1 p.2 with
  | none => (p.1, p.2, 0, "none")
  | some row => (p.1, p.2, row.lastOutboxId.getD 0, stateText row.state)

def hasOpenDeadLetter (deadLetters : List DeadLetterRow) (p : String × String) : Bool :=
  deadLetters.any fun letter =>
    letter.status = .opened && letter.projectorName = p.1 && letter.projectorVersion = p.2

def projectorWarnings (checkpoints : List ProjectionCheckpointRow) (deadLetters : List DeadLetterRow)
    (p : String × String) : List String :=
  match getCheckpoint checkpoints p.1 p.2 with
  | none => ["projection_not_started:" ++ p.1]
  | some row =>
    (if row.state = .active then [] else ["projection_" ++ stateText row.state ++ ":" ++ p.1]) ++
      if hasOpenDeadLetter deadLetters p then ["projection_dead_letters:" ++ p.1] else []

section Read

variable (digest : List (String × String × Nat × String) → String)

/-- `FreshnessReader.read`. -/
def read (views : Views P G) (projectors : List (String × String)) (now : Nat)
    (projectId repositoryId : Option String) : Except RetrievalError Freshness :=
  match watermark views.watermark (low views.waiting) with
  | none => .error (.projectionNotReady "no event has been projected yet")
  | some mark =>
    match recent views.recent mark.outboxId with
    | none => .error (.projectionNotReady "no event has been projected yet")
    | some recent => .ok
      { asOfEventId := mark.eventId
        asOfOutboxId := mark.outboxId
        validInstant := recent
        knownUntil := (beyond views.beyond mark.outboxId projectId repositoryId).map (· - 1)
        projectionCheckpoint := "pc1-" ++ digest (projectors.map (material views.checkpoints.checkpoints))
        stalenessMs := (oldest views.waiting).elim 0 fun oldest => (now - oldest) / 1000
        warnings := (projectors.flatMap
          (projectorWarnings views.checkpoints.checkpoints views.deadLetters.deadLetters)).eraseDups }

variable {digest} {views : Views P G} {projectors : List (String × String)} {now : Nat}
  {projectId repositoryId : Option String} {freshness : Freshness}

theorem read_eq_ok (h : read digest views projectors now projectId repositoryId = .ok freshness) :
    ∃ mark, watermark views.watermark (low views.waiting) = some mark ∧ freshness.asOfEventId = mark.eventId ∧
      freshness.asOfOutboxId = mark.outboxId ∧ recent views.recent mark.outboxId = some freshness.validInstant ∧
      freshness.knownUntil = (beyond views.beyond mark.outboxId projectId repositoryId).map (· - 1) ∧
      freshness.projectionCheckpoint =
        "pc1-" ++ digest (projectors.map (material views.checkpoints.checkpoints)) := by
  unfold read at h
  split at h
  · cases h
  · next mark hmark =>
    split at h
    · cases h
    · next instant hinstant =>
      obtain rfl := Except.ok.inj h
      exact ⟨mark, hmark, rfl, rfl, hinstant, rfl, rfl⟩

end Read

theorem toOption_eq_some {ε α : Type} {result : Except ε α} {a : α} (h : result.toOption = some a) : result = .ok a := by
  cases result with
  | error error => cases h
  | ok found => exact congrArg Except.ok (Option.some.inj h)

/-! ## What the statements find -/

variable {w : World (Stored P) G}

/-- No row below the oldest waiting one waits. -/
theorem below_low {row : OutboxRow} (hrow : row ∈ w.outbox) (hlow : (low w).all (row.outboxId < ·) = true) :
    row.status.terminal = true := by
  cases hstatus : row.status with
  | delivered | deadLettered => rfl
  | pending | leased =>
    exfalso
    have hmem : row.outboxId ∈ (w.outbox.filter waiting).map (·.outboxId) :=
      List.mem_map_of_mem (List.mem_filter.2 ⟨hrow, by simp [waiting, hstatus]⟩)
    cases hmin : low w with
    | none => rw [low, List.min?_eq_none_iff] at hmin; rw [hmin] at hmem; cases hmem
    | some m =>
      have hle : m ≤ row.outboxId := (List.min?_eq_some_iff.1 hmin).2 _ hmem
      rw [hmin] at hlow
      have hlt : row.outboxId < m := by simpa using hlow
      omega

theorem watermark_spec {low : Option Nat} {mark : OutboxRow} (h : watermark w low = some mark) :
    mark ∈ w.outbox ∧ mark.status = .delivered ∧ low.all (mark.outboxId < ·) = true ∧
      ∀ row ∈ w.outbox, row.status = .delivered → low.all (row.outboxId < ·) = true → row.outboxId ≤ mark.outboxId := by
  obtain ⟨hmem, hmax⟩ := leastBy_spec h
  obtain ⟨hmem, hmark⟩ := List.mem_filter.1 hmem
  simp only [markable, Bool.and_eq_true, decide_eq_true_eq] at hmark
  refine ⟨hmem, hmark.1, hmark.2, ?_⟩
  intro row hrow hdelivered hbelow
  exact hmax row (List.mem_filter.2 ⟨hrow, by simp [markable, hdelivered, hbelow]⟩)

theorem exists_watermark {low : Option Nat} {row : OutboxRow} (hrow : row ∈ w.outbox) (hdelivered : row.status = .delivered)
    (hbelow : low.all (row.outboxId < ·) = true) : ∃ mark, watermark w low = some mark :=
  exists_leastBy _ (List.mem_filter.2 ⟨hrow, by simp [markable, hdelivered, hbelow]⟩)

/-! ## A sample system -/

/-- One projector that records every event of the knowledge family. -/
def sampleRunner : Runner (Stored Unit) (Finset String) where
  projectors := [⟨"knowledge", "1", fun eventType => .ok (eventType.startsWith "knowledge."),
    fun event => insert event.eventId⟩]
  verifyEvent := fun _ => true
  leaseDuration := 30
  maxAttempts := 3
  baseRetryDelay := 1
  maxRetryDelay := 60
  leaseDuration_pos := lease_pos
  maxAttempts_pos := attempts_pos
  baseRetryDelay_pos := Nat.one_pos
  maxRetryDelay_le := retry_le
  identities_nodup := by decide

def sampleEvent (eventId : String) (observedAt recordedAt : Int) : LedgerEvent (Stored Unit) :=
  ⟨eventId, "knowledge.decision.recorded", ⟨observedAt, recordedAt, some "project", none, ()⟩⟩

end Retrieval
