import Mathlib.Data.List.Sort
import Mathlib.Data.String.Basic

/-!
# Rows and envelopes of the event ledger

The records of `ledger/models.py` and of the SDK's event contract, with the columns the ledger code
reads and writes.  `J` is the type of JSON documents (a JSONB column, or the `model_dump` of the
model it decodes to), `D` the type of SHA-256 digests.  Times are UTC instants in microseconds and
event ids are the text form of their UUID.

The SDK is a dependency and not part of the repository: `Sdk` collects the functions the ledger
calls, `Sdk.Lawful` what its contract promises of them.
-/

namespace Ledger

inductive StreamStatus | active | quarantined
deriving DecidableEq, Repr

inductive ContentDisposition | sanitized | metadataOnly | droppedRedactionFailure | purged
deriving DecidableEq, Repr

inductive ContentStorage | inline | object
deriving DecidableEq, Repr

/-! ## Drafts, stored events and their rows -/

/-- The fields a draft, a stored event and an event row have in common. -/
structure Envelope (J : Type) where
  eventType : String
  schemaVersion : String
  streamId : String
  occurredAt : Nat
  observedAt : Nat
  producer : J
  context : J
  trace : Option J
  payload : J
  redaction : J
  idempotencyKey : String
deriving DecidableEq, Repr

structure ContentClaim (D : Type) where
  contentId : String
  contentSha256 : D
  mediaType : String
  uncompressedBytes : Nat
deriving DecidableEq, Repr

structure ContentRef (D : Type) extends ContentClaim D where
  disposition : ContentDisposition
  storage : ContentStorage
  inlineId : Option String
  objectKey : Option String
  encoding : Option String
deriving DecidableEq, Repr

structure EventDraft (J D : Type) extends Envelope J where
  eventId : String
  contentClaims : List (ContentClaim D)
deriving DecidableEq, Repr

/-- A draft without its `event_id`: what `_draft_identity` compares. -/
structure DraftIdentity (J D : Type) extends Envelope J where
  contentClaims : List (ContentClaim D)
deriving DecidableEq, Repr

structure EventIntegrity (D : Type) where
  payloadSha256 : D
  previousEventSha256 : Option D
  eventSha256 : D
deriving DecidableEq, Repr

structure StoredEvent (J D : Type) extends Envelope J where
  eventId : String
  streamSequence : Nat
  contentRefs : List (ContentRef D)
  integrity : EventIntegrity D
deriving DecidableEq, Repr

structure EventRow (J D : Type) extends Envelope J where
  eventId : String
  streamSequence : Nat
  producerId : String
  recordedAt : Nat
  payloadSha256 : D
  previousEventSha256 : Option D
  eventSha256 : D
deriving DecidableEq, Repr

structure EventContentRefRow (D : Type) extends ContentRef D where
  eventId : String
deriving DecidableEq, Repr

structure EventStreamRow (D : Type) where
  streamId : String
  lastSequence : Nat
  lastEventId : Option String
  lastEventSha256 : Option D
  status : StreamStatus
deriving DecidableEq, Repr

/-- The key of `uq_events_producer_id`. -/
def EventRow.key {J D : Type} (r : EventRow J D) : String × String := (r.producerId, r.idempotencyKey)

/-! ## What the ledger uses of the SDK -/

structure Sdk (J D : Type) where
  /-- `ProducerV1.producer_id` of a dumped producer. -/
  producerId : J → String
  /-- `seal_event`; `none` when it raises. -/
  sealEvent : EventDraft J D → List (ContentRef D) → Nat → Option D → Option (StoredEvent J D)
  /-- `EventDraftV1.model_validate` of a document without `event_id`; `none` when it raises. -/
  validateDraft : DraftIdentity J D → Option (DraftIdentity J D)
  /-- `StoredEventV1.model_validate`; `none` when it raises. -/
  validateStored : StoredEvent J D → Option (StoredEvent J D)
  /-- `canonical_json_bytes`, where JSON `null` is the argument `none`; `none` when it raises. -/
  canonicalJsonBytes : Option J → Option String
  /-- `_serialized_payload`. -/
  serializedPayload : StoredEvent J D → J
  /-- `sha256_hex`. -/
  sha256Hex : String → D
  /-- `_event_sha256`: the digest of the canonical envelope without `integrity.event_sha256`. -/
  eventSha256 : StoredEvent J D → D

/-- The payload digest `seal_event` stores and the verifier recomputes. -/
def Sdk.payloadSha256 {J D : Type} (sdk : Sdk J D) (e : StoredEvent J D) : Option D :=
  (sdk.canonicalJsonBytes (some (sdk.serializedPayload e))).map sdk.sha256Hex

/-- `_idempotency` key of a draft: `(producer_id, idempotency_key)`. -/
def Sdk.draftKey {J D : Type} (sdk : Sdk J D) (d : EventDraft J D) : String × String :=
  (sdk.producerId d.producer, d.idempotencyKey)

/-- The JSON columns of an event row, in the order the verifier compares them. -/
def Envelope.jsonColumns {J : Type} (e : Envelope J) : List (Option J) :=
  [some e.producer, some e.context, e.trace, some e.payload, some e.redaction]

/-- An envelope with its JSON columns taken from another one. -/
def Envelope.withJson {J : Type} (e from_ : Envelope J) : Envelope J :=
  { e with
    producer := from_.producer
    context := from_.context
    trace := from_.trace
    payload := from_.payload
    redaction := from_.redaction }

/-- The promises of the SDK's event contract the ledger relies on.  `seal_event` copies the draft,
resolves each claim to one reference in claim order (it rejects a missing, duplicate or mismatched
resolution), chains from the head it is given and digests with the two functions above; models are
strict, so a document dumped by a model validates to itself, it has a canonical form, and validation
normalizes JSON columns only. -/
structure Sdk.Lawful {J D : Type} (sdk : Sdk J D) : Prop where
  seal_envelope : ∀ {d refs n p e}, sdk.sealEvent d refs n p = some e →
    e.toEnvelope = d.toEnvelope ∧ e.eventId = d.eventId
  seal_chain : ∀ {d refs n p e}, sdk.sealEvent d refs n p = some e →
    e.streamSequence = n ∧ e.integrity.previousEventSha256 = p
  seal_refs : ∀ {d refs n p e}, sdk.sealEvent d refs n p = some e →
    e.contentRefs.map ContentRef.toContentClaim = d.contentClaims ∧
      (e.contentRefs.map (·.contentId)).Nodup
  seal_digests : ∀ {d refs n p e}, sdk.sealEvent d refs n p = some e →
    sdk.payloadSha256 e = some e.integrity.payloadSha256 ∧ sdk.eventSha256 e = e.integrity.eventSha256
  seal_valid : ∀ {d refs n p e}, sdk.sealEvent d refs n p = some e → sdk.validateStored e = some e
  seal_bytes : ∀ {d refs n p e}, sdk.sealEvent d refs n p = some e →
    ∀ column ∈ e.jsonColumns, (sdk.canonicalJsonBytes column).isSome
  stored_plain : ∀ {raw e}, sdk.validateStored raw = some e →
    e = { raw with toEnvelope := raw.toEnvelope.withJson e.toEnvelope }
  draft_valid : ∀ {d refs n p e claims}, sdk.sealEvent d refs n p = some e →
    claims.Perm d.contentClaims →
      sdk.validateDraft ⟨d.toEnvelope, claims⟩ = some ⟨d.toEnvelope, claims⟩

/-! ## An SDK that meets the contract -/

section Plain

variable {J D : Type} [DecidableEq D]
variable {refs : List (ContentRef D)}

/-- An SDK without validation, over any serialisation and any digests: it resolves every claim by its
`content_id`, and its event digest does not look at `integrity.event_sha256`. -/
def Sdk.plain (producerId : J → String) (bytes : Option J → String) (sha256Hex : String → D)
    (digest : StoredEvent J D → D) : Sdk J D :=
  let blank (e : StoredEvent J D) : StoredEvent J D :=
    { e with integrity := { e.integrity with eventSha256 := e.integrity.payloadSha256 } }
  { producerId := producerId
    sealEvent := fun draft refs sequence previous =>
      match draft.contentClaims.mapM fun claim => refs.find? (·.toContentClaim = claim) with
      | none => none
      | some resolved =>
        if (resolved.map (·.contentId)).Nodup then
          let payloadSha256 := sha256Hex (bytes (some draft.payload))
          let open_ : StoredEvent J D :=
            { toEnvelope := draft.toEnvelope, eventId := draft.eventId, streamSequence := sequence,
              contentRefs := resolved, integrity := ⟨payloadSha256, previous, payloadSha256⟩ }
          some { open_ with integrity := ⟨payloadSha256, previous, digest open_⟩ }
        else none
    validateDraft := some
    validateStored := some
    canonicalJsonBytes := fun document => some (bytes document)
    serializedPayload := (·.payload)
    sha256Hex := sha256Hex
    eventSha256 := fun e => digest (blank e) }

theorem mapM_find?_map : ∀ {claims : List (ContentClaim D)} {resolved : List (ContentRef D)},
      (claims.mapM fun claim => refs.find? (·.toContentClaim = claim)) = some resolved →
        resolved.map ContentRef.toContentClaim = claims
  | [], resolved, h => by
    cases h
    rfl
  | claim :: claims, resolved, h => by
    rw [List.mapM_cons] at h
    obtain ⟨ref, href, h⟩ := Option.bind_eq_some_iff.1 h
    obtain ⟨rest, hrest, h⟩ := Option.bind_eq_some_iff.1 h
    cases h
    rw [List.map_cons, mapM_find?_map hrest]
    have := List.find?_some href
    simpa using this

theorem Sdk.plain_seal {producerId : J → String} {bytes : Option J → String} {sha256Hex : String → D}
    {digest : StoredEvent J D → D} {draft : EventDraft J D} {n : Nat} {p : Option D} {e : StoredEvent J D}
    (h : (Sdk.plain producerId bytes sha256Hex digest).sealEvent draft refs n p = some e) :
    ∃ resolved, (draft.contentClaims.mapM fun claim => refs.find? (·.toContentClaim = claim)) = some resolved ∧
      (resolved.map (·.contentId)).Nodup ∧
      e.toEnvelope = draft.toEnvelope ∧ e.eventId = draft.eventId ∧ e.streamSequence = n ∧ e.contentRefs = resolved ∧
      e.integrity.payloadSha256 = sha256Hex (bytes (some draft.payload)) ∧ e.integrity.previousEventSha256 = p ∧
      e.integrity.eventSha256 = (Sdk.plain producerId bytes sha256Hex digest).eventSha256 e := by
  unfold Sdk.plain at h ⊢
  simp only at h
  split at h
  · cases h
  · next resolved hres =>
    split at h
    · next hnodup =>
      cases h
      exact ⟨resolved, hres, hnodup, rfl, rfl, rfl, rfl, rfl, rfl, rfl⟩
    · cases h

/-- **The contract can be met.** -/
theorem Sdk.plain_lawful (producerId : J → String) (bytes : Option J → String) (sha256Hex : String → D)
    (digest : StoredEvent J D → D) : (Sdk.plain producerId bytes sha256Hex digest).Lawful where
  seal_envelope := by
    intro d refs n p e h
    obtain ⟨_, -, -, henv, hid, -⟩ := Sdk.plain_seal h
    exact ⟨henv, hid⟩
  seal_chain := by
    intro d refs n p e h
    obtain ⟨_, -, -, -, -, hn, -, -, hp, -⟩ := Sdk.plain_seal h
    exact ⟨hn, hp⟩
  seal_refs := by
    intro d refs n p e h
    obtain ⟨_, hres, hnodup, -, -, -, rfl, -⟩ := Sdk.plain_seal h
    exact ⟨mapM_find?_map hres, hnodup⟩
  seal_digests := by
    intro d refs n p e h
    obtain ⟨_, -, -, henv, -, -, -, hpay, -, hsha⟩ := Sdk.plain_seal h
    refine ⟨?_, hsha.symm⟩
    rw [hpay, ← congrArg Envelope.payload henv]
    rfl
  seal_valid := fun _ => rfl
  seal_bytes := fun _ _ _ => rfl
  stored_plain := by
    intro raw e h
    cases h
    rfl
  draft_valid := fun _ _ => rfl

end Plain

end Ledger
