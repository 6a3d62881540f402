import AgentContext.Ledger.PartialSuccess
import AgentContext.Ledger.Verify

/-!
# The end of an index run

`IndexingService.ingest` submits the drafts of a run that the ledger does not have yet, in batches that commit one by
one.  A run may be cut off at any batch and tried again; a draft is known by the digest of its claim.

    claimView             what an event says, its observations aside
    Submitted             what becomes of a batch, on a ledger other transactions write to
    submit_run            what the batches of an attempt leave, wherever they stop
    completed_after_all   the completed event of a run is not stored before the rest
-/

namespace Indexing.Completion

open Ledger List
open Ledger.Otlp (reachable_world stored_later held_later held_of_spec)
open Transition (Reachable)

variable {J D σ : Type}

/-! ## Claims -/

inductive CodeEvent
  | fileIndexed | symbolIndexed | relationAsserted | dependencyAsserted | assertionObserved | fileCoverageReported
  | indexStarted | indexCompleted
deriving DecidableEq, Repr

def CodeEvent.value : CodeEvent → String
  | .fileIndexed => "code.file.indexed"
  | .symbolIndexed => "code.symbol.indexed"
  | .relationAsserted => "code.relation.asserted"
  | .dependencyAsserted => "code.dependency.asserted"
  | .assertionObserved => "code.assertion.observed"
  | .fileCoverageReported => "code.file.coverage_reported"
  | .indexStarted => "code.index.started"
  | .indexCompleted => "code.index.completed"

/-- The keys of `OBSERVATION_FIELDS`. -/
def CodeEvent.all : List CodeEvent :=
  [.fileIndexed, .symbolIndexed, .relationAsserted, .dependencyAsserted, .assertionObserved, .fileCoverageReported,
    .indexStarted, .indexCompleted]

/-- `OBSERVATION_FIELDS`. -/
def CodeEvent.observationFields : CodeEvent → List String
  | .symbolIndexed | .assertionObserved => ["index_id", "commit_id", "snapshot_id"]
  | .relationAsserted | .dependencyAsserted => ["index_id", "valid_from"]
  | .indexCompleted => ["duration_ms"]
  | .fileIndexed | .fileCoverageReported | .indexStarted => []

/-- `_CLAIM_ENVELOPE`, the payload without its observation fields. -/
structure ClaimView (J : Type) where
  eventType : String
  schemaVersion : String
  streamId : String
  producer : J
  trace : Option J
  payload : List (String × J)
  redaction : J
deriving DecidableEq, Repr

/-- What the emitter computes of documents. -/
structure Claims (J : Type) where
  /-- The members of a dumped payload, by name. -/
  members : J → List (String × J)
  /-- `_digest` of the canonical JSON of a claim. -/
  digest : ClaimView J → String
  /-- `event_id_for`. -/
  eventIdFor : String → String

def Claims.viewAs (c : Claims J) (event : CodeEvent) (e : Envelope J) : ClaimView J where
  eventType := e.eventType
  schemaVersion := e.schemaVersion
  streamId := e.streamId
  producer := e.producer
  trace := e.trace
  payload := (c.members e.payload).filter (·.1 ∉ event.observationFields)
  redaction := e.redaction

/-- `_claim_view`; `none` for a type without an entry, a `KeyError`. -/
def Claims.claimView (c : Claims J) (e : Envelope J) : Option (ClaimView J) :=
  (CodeEvent.all.find? (·.value = e.eventType)).map (c.viewAs · e)

/-- `claim_key`, of an event of a type of the emitter. -/
def Claims.claimKey (c : Claims J) (event : CodeEvent) (e : Envelope J) : String :=
  event.value ++ ":" ++ c.digest (c.viewAs event e)

/-! ## The drafts of a run -/

/-- What a run says, and when and where it ran. -/
structure IndexRun (J : Type) where
  repositoryId : String
  producer : J
  context : J
  redaction : J
  now : Nat
  started : J
  /-- Files, symbols, relations, dependencies, supersessions, observations and coverage. -/
  body : List (CodeEvent × J)
  completed : J
  inner : ∀ item ∈ body, item.1 ≠ .indexStarted ∧ item.1 ≠ .indexCompleted

/-- `_Run.draft`. -/
def IndexRun.draft (c : Claims J) (run : IndexRun J) (event : CodeEvent) (payload : J) : EventDraft J D :=
  let pending : EventDraft J D := {
    eventType := event.value
    schemaVersion := "1.0.0"
    streamId := "code-index:" ++ run.repositoryId
    occurredAt := run.now
    observedAt := run.now
    producer := run.producer
    context := run.context
    trace := none
    payload
    redaction := run.redaction
    idempotencyKey := "pending"
    eventId := c.eventIdFor "pending"
    contentClaims := [] }
  let key := c.claimKey event pending.toEnvelope
  { pending with eventId := c.eventIdFor key, idempotencyKey := key }

/-- What `build` returns. -/
def IndexRun.build (c : Claims J) (run : IndexRun J) : List (EventDraft J D) :=
  run.draft c .indexStarted run.started :: run.body.map (fun item => run.draft c item.1 item.2) ++
    [run.draft c .indexCompleted run.completed]

/-! ## Ingestion -/

/-- `MAX_BATCH_EVENTS`. -/
def maxBatchEvents : Nat := 500

inductive IngestFailure
  /-- The run is cut off, or what it calls raises. -/
  | raised
  /-- `IndexingError("idempotency_conflict")`. -/
  | idempotencyConflict
  /-- `ingest_rejected_409` and the like. -/
  | ingestRejected (httpStatus : Nat)
deriving DecidableEq, Repr

structure IndexingOutcome (J D : Type) where
  drafts : List (EventDraft J D)
  submitted : Nat
  replayed : Nat
deriving DecidableEq, Repr

/-- The ledger and the ingestion service, as a run meets them. -/
structure Service (J D σ : Type) where
  world : σ → World J D
  /-- Until the next statement of the session reads. -/
  wait : σ → σ
  newUuid7 : σ → String
  /-- `none` when the service raises, or the run is cut off before it has the answer. -/
  serve : σ → IngestBatch J D → Option IngestOutcome × σ

/-- The lookup of `ingest`, page by page; the newest answer for a key comes first. -/
def lookupStored (sdk : Sdk J D) (service : Service J D σ) : List (List (String × String)) →
    List ((String × String) × StoredEvent J D) → σ → Option (List ((String × String) × StoredEvent J D)) × σ
  | [], stored, s => (some stored, s)
  | keys :: pages, stored, s =>
    match getByIdempotencyKeys sdk (service.world (service.wait s)).db keys with
    | none => (none, service.wait s)
    | some found => lookupStored sdk service pages (found ++ stored) (service.wait s)

def submit (service : Service J D σ) : List (List (EventDraft J D)) → σ → Except IngestFailure Unit × σ
  | [], s => (.ok (), s)
  | batch :: batches, s =>
    match service.serve s ⟨service.newUuid7 s, batch⟩ with
    | (none, s) => (.error .raised, s)
    | (some outcome, s) =>
      if outcome.httpStatus ≥ 300 then (.error (.ingestRejected outcome.httpStatus), s) else submit service batches s

section Ingest

variable [DecidableEq J]

/-- `IndexingService.ingest`, of a configured service. -/
def ingest (c : Claims J) (sdk : Sdk J D) (service : Service J D σ) (drafts : List (EventDraft J D)) (s : σ) :
    Except IngestFailure (IndexingOutcome J D) × σ :=
  let keys := drafts.map sdk.draftKey
  match lookupStored sdk service (partitions maxBatchEvents keys.length keys) [] s with
  | (none, s) => (.error .raised, s)
  | (some stored, s) =>
    let fresh := drafts.filter fun draft => (stored.lookup (sdk.draftKey draft)).isNone
    let known := drafts.filterMap fun draft => (stored.lookup (sdk.draftKey draft)).map (draft, ·)
    -- `_same_claim` raises for a stored event of another type; a conflict is raised after the loop
    if known.any fun (_, found) => (c.claimView found.toEnvelope).isNone then (.error .raised, s)
    else if known.any fun (draft, found) => c.claimView draft.toEnvelope ≠ c.claimView found.toEnvelope then
      (.error .idempotencyConflict, s)
    else
      match submit service (partitions maxBatchEvents fresh.length fresh) s with
      | (.error failure, s) => (.error failure, s)
      | (.ok (), s) => (.ok ⟨drafts, fresh.length, drafts.length - fresh.length⟩, s)

/-- A run and its retries, one after the other. -/
def ingestAll (c : Claims J) (sdk : Sdk J D) (service : Service J D σ) (attempts : List (IndexRun J)) (s : σ) : σ :=
  attempts.foldl (fun s attempt => (ingest c sdk service (attempt.build c) s).2) s

end Ingest

/-! ## What a ledger holds -/

/-- A key, and what is said under it. -/
abbrev Claim (J : Type) : Type := (String × String) × Option (ClaimView J)

section Held

variable [DecidableEq J] [LinearOrder D] {c : Claims J} {sdk : Sdk J D} {lockKey : String × String → Int} {w w' : World J D}
  {closing : String × String} {draft : EventDraft J D} {claim : Claim J}
variable {batch : IngestBatch J D}

def claimOf (c : Claims J) (sdk : Sdk J D) (draft : EventDraft J D) : Claim J :=
  (sdk.draftKey draft, c.claimView draft.toEnvelope)

/-- Some event is stored under the key. -/
def HasKey (key : String × String) (w : World J D) : Prop := ∃ row ∈ w.db.events, row.key = key

/-- A claim is stored, under its key. -/
def Held (c : Claims J) (sdk : Sdk J D) (w : World J D) (claim : Claim J) : Prop :=
  ∃ row ∈ w.db.events, row.key = claim.1 ∧ ∃ e, StoredAs sdk w.db row e ∧ c.claimView e.toEnvelope = claim.2

/-- Other transactions, none of which stores an event under the key. -/
structure Quiet (sdk : Sdk J D) (lockKey : String × String → Int) (closing : String × String) (w w' : World J D) :
    Prop where
  reachable : Reachable (step sdk lockKey) w w'
  key : HasKey closing w' → HasKey closing w

/-- What becomes of a batch: its transaction commits, whether or not the answer arrives, or the service refuses it, or
it is lost. -/
inductive Submitted (sdk : Sdk J D) (lockKey : String × String → Int) (closing : String × String) (w : World J D)
    (batch : IngestBatch J D) (answer : Option IngestOutcome) (w' : World J D) : Prop
  | committed (u u' : World J D) (t : Nat) (txn : Txn J D) (before : Quiet sdk lockKey closing w u)
      (running : u.txns[t]? = some txn) (drafts : txn.batch.map (·.draft) = batch.events)
      (commits : step sdk lockKey u (.commit t) = some u') (after : Quiet sdk lockKey closing u' w')
  | refused (read : Option (Db J D)) (error : IngestError) (outcome : IngestOutcome)
      (moves : Quiet sdk lockKey closing w w') (refuses : Ledger.ingest sdk read batch (.error error) = some outcome)
      (answer : answer = some outcome)
  | lost (moves : Quiet sdk lockKey closing w w') (answer : answer = none)

/-- A service that behaves so, on a ledger where nobody else stores the closing event. -/
structure Service.Sound (service : Service J D σ) (sdk : Sdk J D) (lockKey : String × String → Int)
    (closing : String × String) : Prop where
  wait : ∀ s, Quiet sdk lockKey closing (service.world s) (service.world (service.wait s))
  serve : ∀ s batch, Submitted sdk lockKey closing (service.world s) batch (service.serve s batch).1
    (service.world (service.serve s batch).2)

omit [DecidableEq J] [LinearOrder D] in
theorem Held.hasKey (h : Held c sdk w claim) : HasKey claim.1 w := h.imp fun _ hrow => ⟨hrow.1, hrow.2.1⟩

theorem Held.later (h : Held c sdk w claim) (law : sdk.Lawful)
    (inv : WorldInv sdk lockKey w) (hrun : Reachable (step sdk lockKey) w w') : Held c sdk w' claim := by
  obtain ⟨row, hrow, hkey, e, he, hclaim⟩ := h
  obtain ⟨hrow', he'⟩ := stored_later law inv hrun hrow he
  exact ⟨row, hrow', hkey, e, he', hclaim⟩

omit [DecidableEq J] [LinearOrder D] in
theorem held_of_own (h : HeldAsOwn sdk w.db draft) : Held c sdk w (claimOf c sdk draft) := by
  obtain ⟨row, hrow, hkey, e, he, hid⟩ := h
  have henvelope : e.toEnvelope = draft.toEnvelope := congrArg DraftIdentity.toEnvelope hid
  exact ⟨row, hrow, hkey, e, he, by rw [henvelope]; rfl⟩

theorem refused_status {read : Option (Db J D)} {error : IngestError} {outcome : IngestOutcome}
    (h : Ledger.ingest sdk read batch (.error error) = some outcome) : 300 ≤ outcome.httpStatus := by
  have hreject : ∀ {r : Rejection}, reject sdk read batch r = some outcome → outcome.httpStatus = r.httpStatus := by
    intro r hr
    obtain ⟨found, -, rfl⟩ := Option.map_eq_some_iff.1 hr
    rfl
  unfold Ledger.ingest at h
  split at h
  · rw [hreject h]
    decide
  · obtain ⟨r, hr, h⟩ := Option.bind_eq_some_iff.1 h
    rw [hreject h]
    cases error <;> cases hr <;> exact Nat.le_of_ble_eq_true rfl

/-- One batch: it is stored whole, or nothing of it is and the attempt ends. -/
theorem submitted_step (law : sdk.Lawful) (inv : WorldInv sdk lockKey w) {answer : Option IngestOutcome}
    (h : Submitted sdk lockKey closing w batch answer w') :
    Reachable (step sdk lockKey) w w' ∧ ((∀ draft ∈ batch.events, Held c sdk w' (claimOf c sdk draft)) ∧
          (HasKey closing w' → HasKey closing w ∨ ∃ draft ∈ batch.events, sdk.draftKey draft = closing) ∨
        (HasKey closing w' → HasKey closing w) ∧ ∀ outcome, answer = some outcome → 300 ≤ outcome.httpStatus) := by
  cases h with
  | lost moves answer => exact ⟨moves.reachable, .inr ⟨moves.key, fun outcome h => nomatch answer.symm.trans h⟩⟩
  | refused read error outcome moves refuses answer =>
    exact ⟨moves.reachable, .inr ⟨moves.key, fun other h => Option.some.inj (answer.symm.trans h) ▸ refused_status refuses⟩⟩
  | committed u u' t txn before running drafts commits after =>
    have inv₁ := reachable_world law inv before.reachable
    have inv₂ := inv₁.step law commits
    have spec := commit_spec law inv₁ running commits
    have hkept : ∀ d, HeldAsOwn sdk u.db d → HeldAsOwn sdk u'.db d := fun d hd =>
      held_later law inv₁ hd ((Transition.Reachable.refl u).next commits)
    refine ⟨(before.reachable.next commits).trans after.reachable, .inl ⟨fun draft hdraft => ?_, fun hkey => ?_⟩⟩
    · rw [← drafts] at hdraft
      obtain ⟨resolved, hresolved, rfl⟩ := mem_map.1 hdraft
      obtain ⟨i, hi⟩ := mem_iff_getElem?.1 hresolved
      exact (held_of_own (held_of_spec spec hkept i resolved hi)).later law inv₂ after.reachable
    · -- a row the commit added is that of a draft of the batch
      obtain ⟨row, hrow, hrowKey⟩ := after.key hkey
      obtain ⟨rows, hevents, hrows⟩ := spec.events
      rw [hevents] at hrow
      rcases mem_append.1 hrow with hold | hnew
      · exact .inl (before.key ⟨row, hold, hrowKey⟩)
      · obtain ⟨outcome, houtcome, hstored⟩ := Fallible.forall₂_right hrows _ hnew
        obtain ⟨i, hi⟩ := mem_iff_getElem?.1 (mem_filter.1 houtcome).1
        have hlt := (List.getElem?_eq_some_iff.1 hi).1
        obtain ⟨resolved, hresolved⟩ : ∃ resolved, txn.batch[i]? = some resolved :=
          ⟨_, List.getElem?_eq_getElem (spec.positional ▸ hlt)⟩
        refine .inr ⟨_, drafts ▸ mem_map_of_mem (mem_of_getElem? hresolved), ?_⟩
        rw [← hrowKey, hstored.key, storedIdentity_key sdk (spec.identity i _ outcome hresolved hi)]

/-! ## One attempt -/

variable {service : Service J D σ} {s : σ} {claims : List (Claim J)}

/-- What holds of a run's claims at any moment: the completed event comes last. -/
structure Last (c : Claims J) (sdk : Sdk J D) (lockKey : String × String → Int) (closing : String × String)
    (claims : List (Claim J)) (w : World J D) : Prop where
  world : WorldInv sdk lockKey w
  last : HasKey closing w → ∀ claim ∈ claims, Held c sdk w claim

theorem Last.quiet (h : Last c sdk lockKey closing claims w) (law : sdk.Lawful) (moves : Quiet sdk lockKey closing w w') :
    Last c sdk lockKey closing claims w' :=
  ⟨reachable_world law h.world moves.reachable, fun hkey claim hclaim =>
    (h.last (moves.key hkey) claim hclaim).later law h.world moves.reachable⟩

section

variable (law : sdk.Lawful) (sound : service.Sound sdk lockKey closing)
  (h : Last c sdk lockKey closing claims (service.world s))
include law sound h

theorem lookupStored_run {pages : List (List (String × String))} {stored : List ((String × String) × StoredEvent J D)}
    (hstored : ∀ {key e}, stored.lookup key = some e → Held c sdk (service.world s) (key, c.claimView e.toEnvelope))
    {s' : σ} {result : Option (List ((String × String) × StoredEvent J D))}
    (hrun : lookupStored sdk service pages stored s = (result, s')) :
    Last c sdk lockKey closing claims (service.world s') ∧ ∀ found, result = some found → ∀ {key e},
      found.lookup key = some e → Held c sdk (service.world s') (key, c.claimView e.toEnvelope) := by
  induction pages generalizing stored s with
  | nil =>
    cases hrun
    exact ⟨h, fun found hfound => Option.some.inj hfound ▸ hstored⟩
  | cons keys pages ih =>
    have h' := h.quiet law (sound.wait s)
    obtain ⟨found, hfound, hlookup⟩ := getByIdempotencyKeys_spec law h'.world.ledger.toRowsInv keys
    rw [lookupStored, hfound] at hrun
    refine ih h' (fun {key e} hget => ?_) hrun
    rw [lookup_append] at hget
    cases hfirst : found.lookup key with
    | some e' =>
      rw [hfirst] at hget
      cases hget
      obtain ⟨-, row, hrow, hkey, he⟩ := (hlookup key e).1 hfirst
      exact ⟨row, hrow, hkey, e, he, rfl⟩
    | none =>
      rw [hfirst] at hget
      exact (hstored hget).later law h.world (sound.wait s).reachable

/-- The batches of an attempt, wherever it stops: what is not stored yet is in the batches to come, and nothing comes
after the completed event. -/
theorem submit_run {batches : List (List (EventDraft J D))}
    (hcovered : ∀ claim ∈ claims, Held c sdk (service.world s) claim ∨ claim ∈ batches.flatten.map (claimOf c sdk))
    (hclosing : batches.flatten.Pairwise fun draft _ => sdk.draftKey draft ≠ closing) {s' : σ}
    {result : Except IngestFailure Unit} (hrun : submit service batches s = (result, s')) :
    Last c sdk lockKey closing claims (service.world s') ∧
      (result = .ok () → ∀ claim ∈ claims, Held c sdk (service.world s') claim) := by
  induction batches generalizing s with
  | nil =>
    cases hrun
    exact ⟨h, fun _ claim hclaim => (hcovered claim hclaim).resolve_right not_mem_nil⟩
  | cons batch batches ih =>
    rw [flatten_cons] at hclosing
    obtain ⟨-, hrest, hapart⟩ := pairwise_append.1 hclosing
    obtain ⟨hreach, hserved⟩ := submitted_step (c := c) law h.world (sound.serve s ⟨service.newUuid7 s, batch⟩)
    rw [submit] at hrun
    obtain ⟨⟨answer, between⟩, hanswer⟩ : ∃ answer, answer = service.serve s ⟨service.newUuid7 s, batch⟩ := ⟨_, rfl⟩
    rw [← hanswer] at hreach hserved hrun
    have hkept : ∀ claim ∈ claims, Held c sdk (service.world s) claim → Held c sdk (service.world between) claim :=
      fun claim _ hheld => hheld.later law h.world hreach
    have inv' := reachable_world law h.world hreach
    rcases hserved with ⟨hbatch, hkey⟩ | ⟨hkey, hrefused⟩
    · have hcovered' : ∀ claim ∈ claims, Held c sdk (service.world between) claim ∨
          claim ∈ batches.flatten.map (claimOf c sdk) := by
        intro claim hclaim
        rcases hcovered claim hclaim with hheld | hmem
        · exact .inl (hkept claim hclaim hheld)
        · rw [flatten_cons, map_append, mem_append] at hmem
          rcases hmem with hnow | hlater
          · obtain ⟨draft, hdraft, rfl⟩ := mem_map.1 hnow
            exact .inl (hbatch draft hdraft)
          · exact .inr hlater
      have h' : Last c sdk lockKey closing claims (service.world between) := ⟨inv', fun hhas claim hclaim => by
        rcases hkey hhas with hold | ⟨draft, hdraft, hclose⟩
        · exact hkept claim hclaim (h.last hold claim hclaim)
        · -- the completed event is in this batch, so no draft is left
          refine (hcovered' claim hclaim).resolve_right fun hmem => ?_
          obtain ⟨other, hother, -⟩ := mem_map.1 hmem
          exact hapart draft hdraft other hother hclose⟩
      cases answer with
      | none =>
        cases hrun
        exact ⟨h', nofun⟩
      | some outcome =>
        dsimp only at hrun
        split at hrun
        · cases hrun
          exact ⟨h', nofun⟩
        · exact ih h' hcovered' hrest hrun
    · have h' : Last c sdk lockKey closing claims (service.world between) := ⟨inv', fun hhas claim hclaim =>
        hkept claim hclaim (h.last (hkey hhas) claim hclaim)⟩
      cases answer with
      | none =>
        cases hrun
        exact ⟨h', nofun⟩
      | some outcome =>
        dsimp only at hrun
        rw [if_pos (hrefused outcome rfl)] at hrun
        cases hrun
        exact ⟨h', nofun⟩

/-- An attempt keeps the order, however it ends, and has stored every claim when it returns. -/
theorem ingest_run {drafts : List (EventDraft J D)} (hclaims : ∀ claim ∈ claims, claim ∈ drafts.map (claimOf c sdk))
    (hclosing : drafts.Pairwise fun draft _ => sdk.draftKey draft ≠ closing) {s' : σ}
    {result : Except IngestFailure (IndexingOutcome J D)} (hrun : ingest c sdk service drafts s = (result, s')) :
    Last c sdk lockKey closing claims (service.world s') ∧
      (∀ outcome, result = .ok outcome → ∀ claim ∈ claims, Held c sdk (service.world s') claim) := by
  unfold ingest at hrun
  dsimp only at hrun
  split at hrun
  · next between hlookup =>
    cases hrun
    exact ⟨(lookupStored_run law sound h (by simp) hlookup).1, nofun⟩
  · next stored between hlookup =>
    obtain ⟨h', hstored⟩ := lookupStored_run law sound h (by simp) hlookup
    split at hrun
    · cases hrun
      exact ⟨h', nofun⟩
    split at hrun
    · cases hrun
      exact ⟨h', nofun⟩
    · next hsame =>
      have hflat : ∀ fresh : List (EventDraft J D), (partitions maxBatchEvents fresh.length fresh).flatten = fresh :=
        fun fresh => partitions_flatten (by decide) (Nat.le_refl _)
      -- what the lookup found makes the draft's own claim
      have hcovered : ∀ claim ∈ claims, Held c sdk (service.world between) claim ∨
          claim ∈ (drafts.filter fun draft => (stored.lookup (sdk.draftKey draft)).isNone).map (claimOf c sdk) := by
        intro claim hclaim
        obtain ⟨draft, hdraft, rfl⟩ := mem_map.1 (hclaims claim hclaim)
        cases hget : stored.lookup (sdk.draftKey draft) with
        | none => exact .inr (mem_map_of_mem (mem_filter.2 ⟨hdraft, by rw [hget]; rfl⟩))
        | some found =>
          have hknown : (draft, found) ∈ drafts.filterMap fun draft => (stored.lookup (sdk.draftKey draft)).map (draft, ·) :=
            mem_filterMap.2 ⟨draft, hdraft, by rw [hget]; rfl⟩
          have heq : c.claimView draft.toEnvelope = c.claimView found.toEnvelope := by
            by_contra hne
            exact hsame (any_eq_true.2 ⟨_, hknown, decide_eq_true hne⟩)
          left
          rw [claimOf, heq]
          exact hstored _ rfl hget
      generalize hsubmit : submit service _ between = submitted at hrun
      obtain ⟨submitted, after⟩ := submitted
      obtain ⟨hlast, hall⟩ := submit_run law sound h' (by rw [hflat]; exact hcovered)
        (by rw [hflat]; exact hclosing.sublist filter_sublist) hsubmit
      cases submitted with
      | error failure =>
        cases hrun
        exact ⟨hlast, nofun⟩
      | ok =>
        cases hrun
        exact ⟨hlast, fun _ _ => hall rfl⟩

end

end Held

/-! ## A run and its retries -/

def IndexRun.closing (c : Claims J) (sdk : Sdk J D) (run : IndexRun J) : String × String :=
  sdk.draftKey (run.draft c .indexCompleted run.completed)

/-- The drafts make the claims of the run, whenever and wherever they were seen. -/
def IndexRun.Retries (c : Claims J) (sdk : Sdk J D) (run again : IndexRun J) : Prop :=
  ∀ claim, claim ∈ (again.build c).map (claimOf c sdk) ↔ claim ∈ (run.build c).map (claimOf c sdk)

section Runs

variable {c : Claims J} {sdk : Sdk J D} {run again : IndexRun J}

theorem completed_key {event : CodeEvent} (h : event ≠ .indexCompleted) (payload : J) :
    sdk.draftKey (run.draft c event payload) ≠ again.closing c sdk := by
  intro heq
  have hkey : event.value ++ ":" ++ _ = "code.index.completed" ++ ":" ++ _ := congrArg Prod.snd heq
  have hchars := congrArg String.toList hkey
  cases event with
  | indexCompleted => exact h rfl
  | _ => simp [CodeEvent.value] at hchars

/-- What comes before the completed event. -/
def IndexRun.front (c : Claims J) (run : IndexRun J) : List (EventDraft J D) :=
  run.draft c .indexStarted run.started :: run.body.map fun item => run.draft c item.1 item.2

theorem front_key {draft : EventDraft J D} (h : draft ∈ run.front c) : sdk.draftKey draft ≠ again.closing c sdk := by
  rcases mem_cons.1 h with rfl | hbody
  · exact completed_key (by decide) _
  · obtain ⟨item, hitem, rfl⟩ := mem_map.1 hbody
    exact completed_key (run.inner item hitem).2 _

/-- Nothing comes after the completed event. -/
theorem build_closing : (run.build c).Pairwise fun draft _ => sdk.draftKey draft ≠ run.closing c sdk := by
  refine pairwise_append.2 ⟨?_, pairwise_singleton _ _, fun draft h _ _ => front_key h⟩
  exact pairwise_of_forall_mem_list fun draft h _ _ => front_key h

/-- A retry ends with the run's completed event. -/
theorem IndexRun.Retries.closing_eq (h : run.Retries c sdk again) : again.closing c sdk = run.closing c sdk := by
  obtain ⟨draft, hdraft, hclaim⟩ := mem_map.1 ((h _).1 (mem_map_of_mem
    (mem_append_right (again.front c) (mem_singleton_self _))))
  have hkey : sdk.draftKey draft = again.closing c sdk := congrArg Prod.fst hclaim
  rcases mem_append.1 hdraft with hfront | hlast
  · exact absurd hkey (front_key hfront)
  · rw [← hkey, mem_singleton.1 hlast]
    rfl

variable [DecidableEq J] [LinearOrder D] {lockKey : String × String → Int} {service : Service J D σ} {s : σ}
variable {attempts : List (IndexRun J)}

/-- The completed event of a run comes last. -/
abbrev IndexRun.Ordered (c : Claims J) (sdk : Sdk J D) (lockKey : String × String → Int) (run : IndexRun J) (w : World J D) :
    Prop :=
  Last c sdk lockKey (run.closing c sdk) ((run.build c).map (claimOf c sdk)) w

theorem attempt_run (law : sdk.Lawful) (sound : service.Sound sdk lockKey (run.closing c sdk)) (h : run.Retries c sdk again)
    (hlast : run.Ordered c sdk lockKey (service.world s)) {s' : σ}
    {result : Except IngestFailure (IndexingOutcome J D)} (hrun : ingest c sdk service (again.build c) s = (result, s')) :
    run.Ordered c sdk lockKey (service.world s') ∧
      (∀ outcome, result = .ok outcome → ∀ draft ∈ run.build c, Held c sdk (service.world s') (claimOf c sdk draft)) := by
  obtain ⟨hlast', hall⟩ := ingest_run law sound hlast (fun claim hclaim => (h claim).2 hclaim)
    (h.closing_eq ▸ build_closing) hrun
  exact ⟨hlast', fun outcome hok draft hdraft => hall outcome hok _ (mem_map_of_mem hdraft)⟩

theorem attempts_run (law : sdk.Lawful) (sound : service.Sound sdk lockKey (run.closing c sdk))
    (hattempts : ∀ again ∈ attempts, run.Retries c sdk again) (hlast : run.Ordered c sdk lockKey (service.world s)) :
    run.Ordered c sdk lockKey (service.world (ingestAll c sdk service attempts s)) := by
  induction attempts generalizing s with
  | nil => exact hlast
  | cons again attempts ih =>
    obtain ⟨hagain, hrest⟩ := forall_mem_cons.1 hattempts
    exact ih hrest (attempt_run law sound hagain hlast rfl).1

/-- **The completed event of a run is not stored before the rest**, wherever its attempts were cut off, if it was not
stored before them and nobody else stores it; no key is stored twice, and an attempt that returns has stored every
draft of the run, once. -/
theorem completed_after_all (law : sdk.Lawful) (hattempts : ∀ again ∈ attempts, run.Retries c sdk again)
    (sound : service.Sound sdk lockKey (run.closing c sdk))
    (hstart : Reachable (step sdk lockKey) World.init (service.world s))
    (hnew : ¬HasKey (run.closing c sdk) (service.world s)) :
    let s' := ingestAll c sdk service attempts s
    (HasKey (run.closing c sdk) (service.world s') →
        ∀ draft ∈ run.build c, Held c sdk (service.world s') (claimOf c sdk draft)) ∧
      (∀ key, ((service.world s').db.events.map (·.key)).count key ≤ 1) ∧
      ∀ again, run.Retries c sdk again → ∀ outcome s'', ingest c sdk service (again.build c) s' = (.ok outcome, s'') →
        ∀ draft ∈ run.build c, Held c sdk (service.world s'') (claimOf c sdk draft) ∧
          ((service.world s'').db.events.map (·.key)).count (sdk.draftKey draft) = 1 := by
  intro s'
  have hlast : run.Ordered c sdk lockKey (service.world s') :=
    attempts_run law sound hattempts ⟨reachable_inv law hstart, fun h => absurd h hnew⟩
  refine ⟨fun hkey draft hdraft => hlast.last hkey _ (List.mem_map_of_mem hdraft),
    List.nodup_iff_count_le_one.1 hlast.world.ledger.keys, fun again hagain outcome s'' hrun draft hdraft => ?_⟩
  obtain ⟨hlast', hall⟩ := attempt_run law sound hagain hlast hrun
  have hheld := hall outcome rfl draft hdraft
  obtain ⟨row, hrow, hkey⟩ := hheld.hasKey
  exact ⟨hheld, List.count_eq_one_of_mem hlast'.world.ledger.keys (List.mem_map.2 ⟨row, hrow, hkey⟩)⟩

end Runs

/-! ## A sample -/

abbrev Document := List (String × String)

def sampleClaims : Claims Document where
  members doc := doc.map fun (name, value) => (name, [(value, "")])
  digest view := String.join (view.payload.flatMap fun (name, value) => name :: value.map (·.1))
  eventIdFor key := key

def sampleRun (assertionId : String) : IndexRun Document where
  repositoryId := "r"
  producer := []
  context := []
  redaction := []
  now := 0
  started := [("index_id", "i")]
  body := [(.relationAsserted, [("assertion_id", assertionId)])]
  completed := [("index_id", "i"), ("relation_count", "1"), ("duration_ms", "7")]
  inner := List.forall_mem_singleton.2 ⟨nofun, nofun⟩

def indexSdk : Sdk Document Nat := Sdk.plain (fun _ => "indexer") (fun _ => "") (fun _ => 0) (·.streamSequence)

/-- A transaction that appends drafts, with nothing else going on. -/
def appended (w : World Document Nat) (drafts : List (EventDraft Document Nat)) : Option (World Document Nat) :=
  (Transition.run (step indexSdk fun _ => 0) w (.start (drafts.map fun draft => ⟨draft, [], []⟩) sampleStamps ::
    List.replicate (2 + drafts.length) (.exec w.txns.length))).bind fun u =>
  (u.txns[w.txns.length]?).bind fun txn =>
  if txn.batch.map (·.draft) = drafts ∧ u.db.events = w.db.events then
    step indexSdk (fun _ => 0) u (.commit w.txns.length)
  else none

/-- A service that cuts every run off, after its batch or before it. -/
def cutOff (after : Bool) : Service Document Nat (World Document Nat) where
  world := id
  wait := id
  newUuid7 _ := "b"
  serve w batch := (none, if after then (appended w batch.events).getD w else w)

theorem cutOff_sound (after : Bool) (closing : String × String) : (cutOff after).Sound indexSdk (fun _ => 0) closing := by
  have hquiet : ∀ w : World Document Nat, Quiet indexSdk (fun _ => 0) closing w w := fun w => ⟨.refl w, id⟩
  refine ⟨hquiet, fun w batch => ?_⟩
  show Submitted indexSdk _ closing w batch none (if after then (appended w batch.events).getD w else w)
  split
  · cases hw : appended w batch.events with
    | none => exact .lost (hquiet w) rfl
    | some w' =>
      obtain ⟨u, hrun, hw⟩ := Option.bind_eq_some_iff.1 hw
      obtain ⟨txn, htxn, hw⟩ := Option.bind_eq_some_iff.1 hw
      split at hw
      · next h => exact .committed u w' _ txn ⟨⟨_, hrun⟩, by rw [HasKey, h.2]; exact id⟩ htxn h.1 hw (hquiet w')
      · cases hw
  · exact .lost (hquiet w) rfl

instance (key : String × String) (w : World Document Nat) : Decidable (HasKey key w) :=
  inferInstanceAs (Decidable (∃ row ∈ w.db.events, row.key = key))

/-- A run whose only answer is lost, and its retry. -/
theorem completed_after_all_resumed : ∃ outcome w, ingest sampleClaims indexSdk (cutOff true) ((sampleRun "s1").build sampleClaims)
      (ingestAll sampleClaims indexSdk (cutOff true) [sampleRun "s1"] World.init) = (.ok outcome, w) ∧
    ∀ draft ∈ (sampleRun "s1").build sampleClaims, Held sampleClaims indexSdk w (claimOf sampleClaims indexSdk draft) ∧
      (w.db.events.map (·.key)).count (indexSdk.draftKey draft) = 1 := by
  have hkept := (completed_after_all (c := sampleClaims) (s := World.init) (Sdk.plain_lawful _ _ _ _)
    (List.forall_mem_singleton.2 fun _ => Iff.rfl) (cutOff_sound true _) (.refl _) (by decide)).2.2 (sampleRun "s1")
      fun _ => Iff.rfl
  have hok : (ingest sampleClaims indexSdk (cutOff true) ((sampleRun "s1").build sampleClaims)
      (ingestAll sampleClaims indexSdk (cutOff true) [sampleRun "s1"] World.init)).1.isOk = true := by decide +kernel
  generalize hrun : ingest sampleClaims indexSdk (cutOff true) _ _ = answer at hok
  obtain ⟨result, w⟩ := answer
  cases result with
  | error failure => cases hok
  | ok outcome => exact ⟨outcome, w, rfl, hkept outcome w hrun⟩

/-- A run cut off before its only batch, after one of the same outcome that superseded something else. -/
theorem completed_from_earlier :
    let w := ingestAll sampleClaims indexSdk (cutOff false) [sampleRun "s2"]
      (ingestAll sampleClaims indexSdk (cutOff true) [sampleRun "s1"] World.init)
    HasKey ((sampleRun "s2").closing sampleClaims indexSdk) w ∧
      ∃ draft ∈ (sampleRun "s2").build sampleClaims, ¬HasKey (indexSdk.draftKey draft) w := by
  decide +kernel

end Indexing.Completion
