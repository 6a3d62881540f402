import AgentContext.Ledger.Append
import AgentContext.Lib.JsonText
import AgentContext.Lib.Table
import AgentContext.Lib.Text
import AgentContext.Lib.Utf8

/-!
# Mapping an export of traces

`codex_otel.map_record` and `otlp_api.map_export`: an export is a list of resources with their spans, a span or one of
its events that names an event is a record, and a record of an allowed service becomes a draft.

    mapRecord        a record, to a draft, to nothing, or refused
    mapReceived      the same with the times of the receiver
    mapExport        the drafts of an export and the spans that are refused

Times are in microseconds since the first one a `datetime` can hold, and the ids of new drafts come from a sequence.
-/

namespace Ledger.Otlp

open Table (put)

/-! ## What the mapping calls -/

/-- What `datetime.fromisoformat(raw).astimezone(UTC)` comes to. -/
inductive Parsed
  | invalid
  | naive
  | instant (time : Nat)
  /-- `astimezone` leaves the range of `datetime`. -/
  | overflow
deriving DecidableEq, Repr

/-- The standard library: nothing here depends on how a time is read. -/
structure Python where
  /-- `datetime.fromtimestamp(n / 1e9, tz=UTC)`; `none` when it raises. -/
  fromTimestamp : Nat → Option Nat
  fromIsoformat : String → Parsed
  lower : String → String
  /-- `hmac.new(key, text.encode(), hashlib.sha256).hexdigest()`. -/
  hmacSha256 : List UInt8 → String → String
  /-- `hashlib.sha256(data).hexdigest()`. -/
  sha256 : List UInt8 → String

/-- The models of the SDK the mapping builds; `none` where a constructor raises `ValidationError`. -/
structure Models (J : Type) where
  /-- `SessionStartedV1(source, session_id, model, permission_mode, sandbox_mode).model_dump(mode="json")`. -/
  sessionStarted : String → String → Option String → Option String → Option String → Option J
  /-- `EventContextV1(session_id=…)`. -/
  eventContext : String → Option J
  /-- `context.session_id`. -/
  sessionId : J → Option String
  traceContext : String → String → Option J
  redactionSummary : String → ContentDisposition → Option J
  schemaVersion : String
  /-- Whether `EventDraftV1` takes these values. -/
  accepts : Envelope J → Bool

/-! ## Attributes -/

inductive AnyValue
  | string (value : String)
  | bool (value : Bool)
  | int (value : Int)
  | double (bits : UInt64)
  /-- An array, a key-value list or bytes. -/
  | compound (kind : String)
  | unset
deriving DecidableEq, Repr

structure KeyValue where
  key : String
  value : AnyValue
deriving DecidableEq, Repr

/-- A value of an attribute dictionary. -/
inductive Value
  | text (value : String)
  | bool (value : Bool)
  | int (value : Int)
  | double (bits : UInt64)
  | null
  /-- `_TOO_LONG`. -/
  | tooLong
  | compound (kind : String)
deriving DecidableEq, Repr

abbrev Attributes : Type := List (String × Value)

def maxAttributeValueChars : Nat := 16384

def scalar : AnyValue → Value
  | .string text => if text.length > maxAttributeValueChars then .tooLong else .text text
  | .bool b => .bool b
  | .int n => .int n
  | .double bits => .double bits
  | .unset => .null
  | .compound kind => .compound kind

def attributes (pairs : List KeyValue) : Attributes := pairs.foldl (fun found pair => put pair.key (scalar pair.value) found) []

def platformOriginAttribute : String := "agent_context.origin"

def carriesMarker (pairs : List KeyValue) : Bool := pairs.any (·.key = platformOriginAttribute)

/-! ## The mapper -/

inductive RejectionReason
  | unsupportedSignal | platformOrigin | unknownService | missingService | tooManyAttributes | attributeKeyTooLong
  | attributeValueTooLong | nonScalarAttribute | missingAttribute | invalidAttribute | invalidTraceContext | invalidEvent
deriving DecidableEq, Repr

def RejectionReason.value : RejectionReason → String
  | .unsupportedSignal => "unsupported_signal"
  | .platformOrigin => "platform_origin"
  | .unknownService => "unknown_service"
  | .missingService => "missing_service"
  | .tooManyAttributes => "too_many_attributes"
  | .attributeKeyTooLong => "attribute_key_too_long"
  | .attributeValueTooLong => "attribute_value_too_long"
  | .nonScalarAttribute => "non_scalar_attribute"
  | .missingAttribute => "missing_attribute"
  | .invalidAttribute => "invalid_attribute"
  | .invalidTraceContext => "invalid_trace_context"
  | .invalidEvent => "invalid_event"

inductive Raised
  /-- `CodexOtelError`. -/
  | codex (reason : RejectionReason)
  /-- `_RecordRejected`. -/
  | record (reason : String)
  /-- `OverflowError`, which nothing catches. -/
  | overflow
deriving DecidableEq, Repr

inductive OtelSignal | log | trace
deriving DecidableEq, Repr

structure CodexOtelRecord where
  signal : OtelSignal
  resource : Attributes
  attributes : Attributes
  traceId : Option String
  spanId : Option String
deriving DecidableEq, Repr

/-- `CodexOtelMapperConfig`; `producerId` is that of `producer`. -/
structure MapperConfig (J : Type) where
  hmacKey : List UInt8
  producer : J
  producerId : String
  streamId : String
  acceptedSignal : OtelSignal

def sourceLabel : String := "codex_otel"

def redactionPolicyVersion : String := "codex-otel-metadata-v1"

def allowedServiceNames : List String := ["codex_cli_rs", "codex_exec"]

def platformServicePrefixes : List String := ["agent-context-", "agent_context_", "agent-context."]

def platformServiceNames : List String := ["agent-context", "agent_context"]

def maxAttributes : Nat := 128

def maxResourceAttributes : Nat := 64

def maxKeyChars : Nat := 128

def maxDeclaredValueChars : Nat := 256

def maxOpaqueValueChars : Nat := 1048576

def eventConversationStarts : String := "codex.conversation_starts"

def approvalPolicies : List String := ["untrusted", "on-request", "granular", "never"]

def sandboxPolicies : List String := ["danger-full-access", "read-only", "external-sandbox", "workspace-write"]

/-- `_NATIVE_ID`. -/
def isNativeId (text : String) : Bool :=
  1 ≤ text.length && text.length ≤ 128 && text.toList.all fun c => c.isAlphanum || c ∈ ['.', '_', ':', '-']

def isHex (digits : Nat) (text : String) : Bool :=
  text.length = digits && text.toList.all fun c => c.isDigit || ('a' ≤ c && c ≤ 'f')

def isPlatformOrigin (py : Python) (serviceName : String) : Bool :=
  let lowered := py.lower serviceName
  platformServiceNames.contains lowered || platformServicePrefixes.any fun start => start.toList.isPrefixOf lowered.toList

def checkScalar (entry : String × Value) : Except Raised Unit :=
  if entry.1.length > maxKeyChars then .error (.codex .attributeKeyTooLong)
  else
    match entry.2 with
    | .tooLong | .compound _ => .error (.codex .nonScalarAttribute)
    | .text text => if text.length > maxOpaqueValueChars then .error (.codex .attributeValueTooLong) else .ok ()
    | _ => .ok ()

def checkScalars (attributes : Attributes) : Except Raised Unit := attributes.forM checkScalar

/-- `_check_service`, and `check_resource`. -/
def checkResource (py : Python) (resource : Attributes) : Except Raised Unit :=
  if resource.length > maxResourceAttributes then .error (.codex .tooManyAttributes)
  else do
    checkScalars resource
    if resource.any (·.1 = platformOriginAttribute) then throw (.codex .platformOrigin)
    else
      match resource.lookup "service.name" with
      | some (.text service) =>
        if service = "" then throw (.codex .missingService)
        else if service.length > maxKeyChars then throw (.codex .unknownService)
        else if isPlatformOrigin py service then throw (.codex .platformOrigin)
        else if service ∉ allowedServiceNames then throw (.codex .unknownService)
        else pure ()
      | _ => throw (.codex .missingService)

/-- `_declared`. -/
def declared (attributes : Attributes) (key : String) (required : Bool) : Except Raised (Option String) :=
  let missing : Except Raised (Option String) := if required then .error (.codex .missingAttribute) else .ok none
  match attributes.lookup key with
  | none | some .null => missing
  | some (.text text) =>
    if text.length > maxDeclaredValueChars then .error (.codex .attributeValueTooLong)
    else if Text.strip text.toList = [] then missing
    else .ok (some text)
  | some _ => .error (.codex .invalidAttribute)

/-- `_declared(…, required=True)`, with the narrowing its callers add. -/
def required (attributes : Attributes) (key : String) : Except Raised String := do
  match ← declared attributes key true with
  | some text => pure text
  | none => throw (.codex .missingAttribute)

/-- `_timestamp`. -/
def timestamp (py : Python) (raw : String) : Except Raised Nat :=
  match py.fromIsoformat raw with
  | .instant time => .ok time
  | .overflow => .error .overflow
  | .invalid | .naive => .error (.codex .invalidAttribute)

variable {J D : Type}

/-- What a constructor gives, or the `INVALID_EVENT` its `ValidationError` becomes. -/
def valid (built : Option J) : Except Raised J :=
  match built with
  | some model => .ok model
  | none => .error (.codex .invalidEvent)

/-- `_trace`. -/
def traceOf (models : Models J) (record : CodexOtelRecord) : Except Raised (Option J) :=
  match record.traceId, record.spanId with
  | none, none => .ok none
  | some traceId, some spanId =>
    if isHex 32 traceId && isHex 16 spanId then
      match models.traceContext traceId spanId with
      | some context => .ok (some context)
      | none => .error (.codex .invalidTraceContext)
    else .error (.codex .invalidTraceContext)
  | _, _ => .error (.codex .invalidTraceContext)

def idempotencyKey (py : Python) (key : List UInt8) (eventName : String) (nativeIds : List String) (timestamp : String)
    (declared : List (String × Option String)) : String :=
  ":".intercalate ([sourceLabel, eventName] ++ nativeIds ++ [timestamp, py.hmacSha256 key (JsonText.dumps declared)])

/-- The declared attributes of a session start. -/
structure Declared where
  conversationId : String
  rawTimestamp : String
  model : Option String
  permissionMode : Option String
  sandboxMode : Option String
deriving DecidableEq, Repr

def Declared.fields (found : Declared) : List (String × Option String) :=
  [("conversation.id", some found.conversationId), ("model", found.model), ("approval_policy", found.permissionMode),
    ("sandbox_policy", found.sandboxMode)]

/-- A value of a fixed set, any other dropped. -/
def among (values : List String) (value : Option String) : Option String := value.filter (values.contains ·)

/-- What `_session_started` reads, with the time it happened at. -/
def sessionDeclared (py : Python) (attributes : Attributes) : Except Raised (Declared × Nat) := do
  let conversationId ← required attributes "conversation.id"
  let rawTimestamp ← required attributes "event.timestamp"
  if isNativeId conversationId then
    let occurredAt ← timestamp py rawTimestamp
    let model ← declared attributes "model" false
    let approval ← declared attributes "approval_policy" false
    let sandbox ← declared attributes "sandbox_policy" false
    pure (⟨conversationId, rawTimestamp, model, among approvalPolicies approval, among sandboxPolicies sandbox⟩, occurredAt)
  else throw (.codex .invalidAttribute)

/-- `_session_started`, but for the id of the draft. -/
def sessionStarted (py : Python) (models : Models J) (config : MapperConfig J) (record : CodexOtelRecord) (observedAt : Nat) :
    Except Raised (Envelope J) := do
  let (found, occurredAt) ← sessionDeclared py record.attributes
  let payload ← valid (models.sessionStarted sourceLabel found.conversationId found.model found.permissionMode found.sandboxMode)
  let context ← valid (models.eventContext found.conversationId)
  let trace ← traceOf models record
  let redaction ← valid (models.redactionSummary redactionPolicyVersion .metadataOnly)
  let envelope : Envelope J := {
    eventType := "agent.session.started"
    schemaVersion := models.schemaVersion
    streamId := config.streamId
    occurredAt := occurredAt
    observedAt := observedAt
    producer := config.producer
    context := context
    trace := trace
    payload := payload
    redaction := redaction
    idempotencyKey := idempotencyKey py config.hmacKey eventConversationStarts [found.conversationId] found.rawTimestamp
      found.fields }
  if models.accepts envelope then pure envelope else throw (.codex .invalidEvent)

/-- `codex_otel.map_record`. -/
def mapRecord (py : Python) (models : Models J) (config : MapperConfig J) (record : CodexOtelRecord) (observedAt : Nat) :
    Except Raised (Option (Envelope J)) :=
  if record.signal ≠ config.acceptedSignal then .error (.codex .unsupportedSignal)
  else do
    checkResource py record.resource
    if record.attributes.any (·.1 = platformOriginAttribute) then throw (.codex .platformOrigin)
    else if record.attributes.length > maxAttributes then throw (.codex .tooManyAttributes)
    else
      checkScalars record.attributes
      let eventName ← declared record.attributes "event.name" true
      if eventName = some eventConversationStarts then some <$> sessionStarted py models config record observedAt
      else pure none

/-! ## The receiver -/

structure SpanEvent where
  timeUnixNano : Nat
  attributes : List KeyValue
deriving DecidableEq, Repr

structure Span where
  traceId : List UInt8
  spanId : List UInt8
  startTimeUnixNano : Nat
  endTimeUnixNano : Nat
  attributes : List KeyValue
  events : List SpanEvent
deriving DecidableEq, Repr

structure ScopeSpans where
  scopeAttributes : List KeyValue
  spans : List Span
deriving DecidableEq, Repr

structure ResourceSpans where
  resourceAttributes : List KeyValue
  scopeSpans : List ScopeSpans
deriving DecidableEq, Repr

/-- The settings of the receiver that decide what is mapped, and the time it maps at. -/
structure Receipt where
  now : Nat
  maxClockSkew : Nat
  maxEventsPerSpan : Nat
  maxAttributes : Nat
deriving DecidableEq, Repr

/-- `bytes.hex()`. -/
def hex (data : List UInt8) : String :=
  String.ofList (data.flatMap fun byte => [Nat.digitChar (byte.toNat / 16), Nat.digitChar (byte.toNat % 16)])

/-- `len(…).to_bytes(4, "big")`. -/
def fourBytes (n : Nat) : List UInt8 := [24, 16, 8, 0].map fun shift => UInt8.ofNat (n >>> shift)

/-- One part of the digest of `stream_id`: no part, or one with its length before it. -/
def streamPart : Option String → List UInt8
  | none => [45]
  | some part => fourBytes (Utf8.encode part.toList).length ++ Utf8.encode part.toList

/-- `stream_id`. -/
def streamOf (py : Python) (producerId : String) (sessionId : Option String) : String :=
  "codex-otel:" ++ String.ofList ((py.sha256 (streamPart (some producerId) ++ streamPart sessionId)).toList.take 40)

/-- `_otlp_time`. -/
def otlpTime (py : Python) (timeUnixNano : Nat) : Option Nat := if timeUnixNano = 0 then none else py.fromTimestamp timeUnixNano

def namesEvent (pairs : List KeyValue) : Bool := pairs.any (·.key = "event.name")

/-- `bytes.hex() or None`. -/
def hexOrNone (data : List UInt8) : Option String := if data = [] then none else some (hex data)

def recordOf (span : Span) (resource : Attributes) (pairs : List KeyValue) : CodexOtelRecord where
  signal := .trace
  resource := resource
  attributes := attributes pairs
  traceId := hexOrNone span.traceId
  spanId := hexOrNone span.spanId

/-- `_records`: a record that is `none` carries the marker of the platform. -/
def records (span : Span) (resource : Attributes) : List (Option CodexOtelRecord × Nat) :=
  if carriesMarker span.attributes then [(none, 0)]
  else
    (if namesEvent span.attributes then
      [(some (recordOf span resource span.attributes),
        if span.endTimeUnixNano = 0 then span.startTimeUnixNano else span.endTimeUnixNano)]
    else []) ++
    span.events.flatMap fun event =>
      if carriesMarker event.attributes then [(none, 0)]
      else if namesEvent event.attributes then [(some (recordOf span resource event.attributes), event.timeUnixNano)]
      else []

def missingTimestamp : String := "missing_timestamp"

def futureTimestamp : String := "future_timestamp"

/-- `_map_record`, but for the id of the draft. -/
def mapReceived (py : Python) (models : Models J) (config : MapperConfig J) (record : CodexOtelRecord) (timeUnixNano latest : Nat) :
    Except Raised (Option (Envelope J)) :=
  if record.attributes.any (·.2 = .tooLong) then .error (.record RejectionReason.attributeValueTooLong.value)
  else
    match otlpTime py timeUnixNano with
    | none => .error (.record missingTimestamp)
    | some received =>
      if received > latest then .error (.record futureTimestamp)
      else
        match mapRecord py models config record received with
        | .error raised => .error raised
        | .ok none => .ok none
        | .ok (some envelope) =>
          if envelope.occurredAt > latest then .error (.record futureTimestamp)
          else
            -- An empty session id is no session.
            let session := (models.sessionId envelope.context).filter (· ≠ "")
            .ok (some { envelope with
              streamId := streamOf py config.producerId session
              observedAt := max envelope.occurredAt received })

/-- A record of an export, mapped: the marker of the platform is refused here. -/
def mapItem (py : Python) (models : Models J) (config : MapperConfig J) (latest : Nat) (item : Option CodexOtelRecord × Nat) :
    Except Raised (Option (Envelope J)) :=
  match item.1 with
  | none => .error (.record RejectionReason.platformOrigin.value)
  | some record => mapReceived py models config record item.2 latest

/-! ## An export -/

/-- `_Mapping`. -/
structure Mapping (J D : Type) where
  drafts : List (Nat × EventDraft J D) := []
  rejectedSpans : Finset Nat := ∅
  reasons : Finset String := ∅
  unmappedSpans : Nat := 0
  spanCount : Nat := 0

def Mapping.reject (mapping : Mapping J D) (index : Nat) (reason : String) : Mapping J D :=
  { mapping with rejectedSpans := insert index mapping.rejectedSpans, reasons := insert reason mapping.reasons }

/-- The loop of `map_export`: its mapping, the keys seen, and how many ids were drawn. -/
structure MapState (J D : Type) where
  mapping : Mapping J D := {}
  seen : Finset String := ∅
  drawn : Nat := 0

def draftOf (envelope : Envelope J) (eventId : String) : EventDraft J D :=
  { toEnvelope := envelope, eventId := eventId, contentClaims := [] }

/-- One record: the state after it, and whether the span has produced something. -/
def mapStep (py : Python) (models : Models J) (config : MapperConfig J) (ids : Nat → String) (latest index : Nat)
    (state : MapState J D × Bool) (item : Option CodexOtelRecord × Nat) : Except Raised (MapState J D × Bool) :=
  let drawn := state.1.drawn + 1
  match mapItem py models config latest item with
  | .error .overflow => .error .overflow
  | .error (.codex reason) => .ok ({ state.1 with mapping := state.1.mapping.reject index reason.value, drawn := drawn }, state.2)
  | .error (.record reason) => .ok ({ state.1 with mapping := state.1.mapping.reject index reason, drawn := drawn }, state.2)
  | .ok none => .ok ({ state.1 with drawn := drawn }, state.2)
  | .ok (some envelope) =>
    if envelope.idempotencyKey ∈ state.1.seen then .ok ({ state.1 with drawn := drawn }, true)
    else .ok ({
      mapping := { state.1.mapping with
        drafts := state.1.mapping.drafts ++ [(index, draftOf envelope (ids state.1.drawn))] }
      seen := insert envelope.idempotencyKey state.1.seen
      drawn := drawn }, true)

/-- `_resource_reason`. -/
def resourceReason (py : Python) (resource : Attributes) : Option String :=
  if resource.any (·.2 = .tooLong) then some RejectionReason.attributeValueTooLong.value
  else
    match checkResource py resource with
    | .error (.codex reason) => some reason.value
    | _ => none

/-- `_span_reason`. -/
def spanReason (span : Span) (receipt : Receipt) : Option String :=
  if span.events.length > receipt.maxEventsPerSpan then some "too_many_events"
  else if span.attributes.length > receipt.maxAttributes ∨ span.events.any (·.attributes.length > receipt.maxAttributes) then
    some "too_many_attributes"
  else none

/-- A span with its resource, and why the span is refused as a whole. -/
structure Located where
  resource : Attributes
  refused : Option String
  span : Span
deriving DecidableEq, Repr

/-- The spans of an export in their order; a resource without spans is not looked at. -/
def spansOf (py : Python) (receipt : Receipt) (export_ : List ResourceSpans) : List Located :=
  export_.flatMap fun resourceSpans =>
    if resourceSpans.scopeSpans.all (·.spans = []) then []
    else
      let resource := attributes resourceSpans.resourceAttributes
      let reason := resourceReason py resource
      resourceSpans.scopeSpans.flatMap fun scopeSpans =>
        let scopeReason := reason.or
          (if carriesMarker scopeSpans.scopeAttributes then some RejectionReason.platformOrigin.value else none)
        scopeSpans.spans.map fun span => ⟨resource, scopeReason.or (spanReason span receipt), span⟩

def mapSpan (py : Python) (models : Models J) (config : MapperConfig J) (ids : Nat → String) (latest : Nat)
    (state : MapState J D) (located : Located) : Except Raised (MapState J D) :=
  let index := state.mapping.spanCount
  let counted : MapState J D := { state with mapping := { state.mapping with spanCount := index + 1 } }
  match located.refused with
  | some reason => .ok { counted with mapping := counted.mapping.reject index reason }
  | none =>
    match (records located.span located.resource).foldlM (mapStep py models config ids latest index) (counted, false) with
    | .error raised => .error raised
    | .ok (after, produced) =>
      if !produced && index ∉ after.mapping.rejectedSpans then
        .ok { after with mapping := { after.mapping with unmappedSpans := after.mapping.unmappedSpans + 1 } }
      else .ok after

/-- `map_export`, with the ids of its drafts in the order they are drawn. -/
def mapExport (py : Python) (models : Models J) (config : MapperConfig J) (ids : Nat → String) (receipt : Receipt)
    (export_ : List ResourceSpans) : Except Raised (Mapping J D) :=
  let latest := receipt.now + receipt.maxClockSkew
  ((spansOf py receipt export_).foldlM (mapSpan py models config ids latest) {}).map (·.mapping)

end Ledger.Otlp
