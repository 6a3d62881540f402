import AgentContext.Content.Store
import AgentContext.Lib.Base64
import AgentContext.Lib.Text
import Mathlib.Algebra.GroupWithZero.Nat

/-!
# Preparing the content of a batch

`ContentService.prepare` and what `IngestionService.ingest` makes of its errors.  All items are validated before the
first byte is uploaded:

    b64decode              the bytes
    digest, length         those of the claim
    parseJsonStrict        UTF-8 and JSON, without duplicate keys, NaN or more than 256 levels
    redact, canonical      the redaction policy leaves the value as it is

`Python` stands for the interpreter's JSON reader, the hash and the SDK.  The reader calls the two hooks of the source;
it may also raise a plain `ValueError`, for an integer literal beyond the interpreter's digit limit.
-/

namespace Content.Prepare

open Content

/-! ## Values -/

/-- The code points of a `str`, surrogates included. -/
abbrev PyStr : Type := List Nat

inductive Atom where
  | null
  | bool (b : Bool)
  | int (n : Int)
  | float (literal : String)
  | str (s : PyStr)
deriving DecidableEq, Repr

/-- `JsonValue`. -/
inductive Json where
  | atom (a : Atom)
  | array (items : List Json)
  | object (fields : List (PyStr × Json))

def Json.children : Json → List Json
  | .atom _ => []
  | .array items => items
  | .object fields => fields.map Prod.snd

/-- The levels below a value. -/
def Json.depth : Json → Nat
  | .atom _ => 0
  | .array items => deepest items
  | .object fields => deepestField fields
where
  deepest : List Json → Nat
    | [] => 0
    | v :: vs => max (v.depth + 1) (deepest vs)
  deepestField : List (PyStr × Json) → Nat
    | [] => 0
    | (_, v) :: vs => max (v.depth + 1) (deepestField vs)

/-- The values in a value. -/
def Json.nodes : Json → Nat
  | .atom _ => 1
  | .array items => all items + 1
  | .object fields => allFields fields + 1
where
  all : List Json → Nat
    | [] => 0
    | v :: vs => v.nodes + all vs
  allFields : List (PyStr × Json) → Nat
    | [] => 0
    | (_, v) :: vs => v.nodes + allFields vs

/-- The loop of `_exceeds_max_json_depth`: the end of the stack stands first. -/
def exceedsLoop (maxDepth : Nat) : Nat → List (Json × Nat) → Bool
  | _, [] => false
  | 0, _ => false
  | fuel + 1, (current, depth) :: stack =>
    if maxDepth < depth then true
    else exceedsLoop maxDepth fuel ((current.children.map fun item => (item, depth + 1)).reverse ++ stack)

/-- `_exceeds_max_json_depth`. -/
def exceedsMaxJsonDepth (value : Json) (maxDepth : Nat) : Bool := exceedsLoop maxDepth value.nodes [(value, 0)]

/-- The classes of `ContentServiceError` that `prepare` raises. -/
inductive ContentErrorKind where
  | duplicateContentId
  | unsupportedMediaType
  | invalidContentEncoding
  | contentRequiresRedaction
  | contentResolution
deriving DecidableEq, Repr

/-- `error_code`. -/
def ContentErrorKind.errorCode : ContentErrorKind → String
  | .duplicateContentId => "duplicate_content_id"
  | .unsupportedMediaType => "unsupported_media_type"
  | .invalidContentEncoding => "invalid_content_encoding"
  | .contentRequiresRedaction => "content_requires_redaction"
  | .contentResolution => "content_resolution_mismatch"

structure ContentServiceError where
  kind : ContentErrorKind
  message : String
deriving DecidableEq, Repr

/-- `BlobStoreError`: one of its classes, or itself. -/
inductive BlobStoreError where
  | blob (e : BlobError)
  | failed
deriving DecidableEq, Repr

/-- What `prepare` raises: a `ContentServiceError`, a `BlobStoreError`, or a plain `ValueError`. -/
inductive Raised where
  | content (e : ContentServiceError)
  | blob (e : BlobStoreError)
  | valueError
deriving DecidableEq, Repr

def invalidEncoding (message : String) : Raised := .content ⟨.invalidContentEncoding, message⟩

/-! ## The interpreter and the SDK -/

/-- What the hooks raise: `_DuplicateJsonKeyError` and `_NonFiniteJsonConstantError`. -/
inductive HookError where
  | duplicateKey
  | nonFinite
deriving DecidableEq, Repr

/-- What `json.loads` raises: `JSONDecodeError`, `RecursionError`, a plain `ValueError`, or what a hook raised. -/
inductive LoadsError where
  | decode
  | recursion
  | value
  | hook (e : HookError)
deriving DecidableEq, Repr

/-- What `redact_json` raises. -/
inductive RedactError where
  | redaction
  | recursion
deriving DecidableEq, Repr

/-- `json.loads` with its two hooks, the hash in hexadecimal, and the SDK under the service's policy.  A canonical form
that raises is none. -/
structure Python where
  loads : (List (PyStr × Json) → Except HookError Json) → (String → Except HookError Json) → String →
    Except LoadsError Json
  sha256 : List UInt8 → List Char
  redactJson : Json → Except RedactError Json
  canonicalJsonBytes : Json → Option (List UInt8)

/-- `bytes.decode` of UTF-8. -/
def decodeUtf8 (data : List UInt8) : Option String := String.fromUTF8? ⟨data.toArray⟩

def isBase64Char (c : Char) : Bool :=
  ('A' ≤ c && c ≤ 'Z') || ('a' ≤ c && c ≤ 'z') || ('0' ≤ c && c ≤ '9') || c = '+' || c = '/'

theorem lawfulBEq_chars : LawfulBEq (List Char) := inferInstance

attribute [local instance] lawfulBEq_chars

/-- `base64.b64decode` with `validate=True`. -/
def b64decode (text : String) : Option (List UInt8) :=
  if text.toList.dropWhile isBase64Char ∈ [[], ['='], ['=', '=']] then Base64.decode text.toList else none

/-! ## Items -/

/-- `ContentClaimV1`. -/
structure ContentClaim where
  contentId : String
  contentSha256 : List Char
  mediaType : String
  uncompressedBytes : Nat
deriving DecidableEq, Repr

/-- `RedactionReportV1`: what the service reads of it, and the rest. -/
structure RedactionReport where
  disposition : String
  rest : String
deriving DecidableEq, Repr

/-- `SanitizedContentItemV1`. -/
structure Item where
  claim : ContentClaim
  sanitizedBytesBase64 : String
  redactionReport : RedactionReport
deriving DecidableEq, Repr

inductive ContentStorage where
  | inline
  | object
deriving DecidableEq, Repr

/-- `ContentRefV1`. -/
structure ContentRef where
  contentId : String
  contentSha256 : List Char
  mediaType : String
  uncompressedBytes : Nat
  disposition : String
  storage : ContentStorage
  inlineId : Option (List Char)
  objectKey : Option (List Char)
  encoding : Option String
deriving DecidableEq, Repr

/-- `_PreparedItem`. -/
structure PreparedItem where
  claim : ContentClaim
  ref : ContentRef
  redactionReport : RedactionReport
  data : Option (List UInt8)
  storedBlob : Option StoredBlob
  reused : Bool
deriving DecidableEq, Repr

/-! ## Validation -/

section Service

variable (py : Python)

/-- `_media_type_base`; a letter outside ASCII is not lowered, and no supported type has one that lowers to it. -/
def mediaTypeBase (mediaType : String) : String :=
  String.ofList ((Text.strip (mediaType.toList.takeWhile (· ≠ ';'))).map Char.toLower)

/-- `_reject_duplicate_keys`. -/
def rejectDuplicateKeys (pairs : List (PyStr × Json)) : Except HookError Json :=
  if (pairs.map Prod.fst).Nodup then .ok (.object pairs) else .error .duplicateKey

/-- `_reject_non_finite_constant`. -/
def rejectNonFiniteConstant (_constant : String) : Except HookError Json := .error .nonFinite

/-- `_MAX_JSON_DEPTH`. -/
def maxJsonDepth : Nat := 256

/-- `json.loads` with the hooks of the service. -/
def Python.loadsStrict (text : String) : Except LoadsError Json :=
  py.loads rejectDuplicateKeys rejectNonFiniteConstant text

/-- `_parse_json_strict`. -/
def parseJsonStrict (text : String) : Except Raised Json :=
  match py.loadsStrict text with
  | .error (.hook .duplicateKey) => .error (invalidEncoding "content contains duplicate JSON object keys")
  | .error (.hook .nonFinite) => .error (invalidEncoding "content contains a non-finite JSON numeric constant")
  | .error .recursion => .error (invalidEncoding "content is nested too deeply to parse")
  | .error .decode => .error (invalidEncoding "content is not valid JSON")
  | .error .value => .error .valueError
  | .ok parsed =>
    if exceedsMaxJsonDepth parsed maxJsonDepth then .error (invalidEncoding "content is nested too deeply to parse")
    else .ok parsed

/-- `_decode_utf8_strict`. -/
def decodeUtf8Strict (data : List UInt8) : Except Raised String :=
  match decodeUtf8 data with
  | none => .error (invalidEncoding "content is not valid UTF-8")
  | some text => .ok text

/-- `_canonicalize_or_reject`. -/
def canonicalizeOrReject (value : Json) : Except Raised (List UInt8) :=
  match py.canonicalJsonBytes value with
  | none => .error (invalidEncoding "content could not be canonicalized")
  | some data => .ok data

def textValue (text : String) : Json := .atom (.str (text.toList.map Char.toNat))

/-- The value of the bytes, by their media type. -/
def readValue (mediaType : String) (data : List UInt8) : Except Raised Json :=
  if mediaTypeBase mediaType = "application/json" then do
    let text ← decodeUtf8Strict data
    parseJsonStrict py text
  else if mediaTypeBase mediaType = "text/plain" then do
    let text ← decodeUtf8Strict data
    return textValue text
  else .error (.content ⟨.unsupportedMediaType, "media type is not supported for content storage"⟩)

/-- `_recheck_redaction`. -/
def recheckRedaction (mediaType : String) (data : List UInt8) : Except Raised Unit := do
  let value ← readValue py mediaType data
  match py.redactJson value with
  | .error _ => .error (invalidEncoding "content could not be processed by the redaction policy")
  | .ok result =>
    let originalCanonical ← canonicalizeOrReject py value
    let redactedCanonical ← canonicalizeOrReject py result
    if redactedCanonical ≠ originalCanonical then
      .error (.content ⟨.contentRequiresRedaction, "applying the redaction policy to this content would change it"⟩)
    else .ok ()

/-- One item of the validation loop, after its `content_id`. -/
def validateItem (item : Item) : Except Raised (List UInt8) :=
  match b64decode item.sanitizedBytesBase64 with
  | none => .error (invalidEncoding "content base64 could not be decoded")
  | some data =>
    if py.sha256 data ≠ item.claim.contentSha256 ∨ data.length ≠ item.claim.uncompressedBytes then
      .error (.content ⟨.contentResolution, "content bytes do not match their claim"⟩)
    else (recheckRedaction py item.claim.mediaType data).map fun _ => data

/-- The validation loop of `_prepare`. -/
def validate (seen : List String) : List Item → Except Raised (List (Item × List UInt8))
  | [] => .ok []
  | item :: items =>
    if item.claim.contentId ∈ seen then
      .error (.content ⟨.duplicateContentId, "duplicate content_id in prepare() batch"⟩)
    else do
      let data ← validateItem py item
      let rest ← validate (item.claim.contentId :: seen) items
      return (item, data) :: rest

/-! ## Storage -/

/-- `BlobStore.put_verified`, from one state of the store to the next. -/
abbrev PutVerified (σ : Type) : Type := σ → List UInt8 → String → Except BlobStoreError StoredBlob × σ

/-- `_OBJECT_STORAGE_MEDIA_TYPE`. -/
def objectStorageMediaType : String := "application/octet-stream"

/-- The store, the calls of `put_verified` so far, and `object_blob_cache`. -/
structure Uploads (σ : Type) where
  store : σ
  calls : List (List UInt8)
  cache : List (List Char × StoredBlob)

variable {σ : Type} (put : PutVerified σ) (inlineThreshold : Nat)

/-- The ref of an object. -/
def objectItem (item : Item) (blob : StoredBlob) (reused : Bool) : PreparedItem where
  claim := item.claim
  ref := ⟨item.claim.contentId, item.claim.contentSha256, item.claim.mediaType, item.claim.uncompressedBytes,
    item.redactionReport.disposition, .object, none, some blob.objectKey, some "zstd"⟩
  redactionReport := item.redactionReport
  data := none
  storedBlob := some blob
  reused := reused

def inlineItem (item : Item) (data : List UInt8) : PreparedItem where
  claim := item.claim
  ref := ⟨item.claim.contentId, item.claim.contentSha256, item.claim.mediaType, item.claim.uncompressedBytes,
    item.redactionReport.disposition, .inline, some item.claim.contentSha256, none, none⟩
  redactionReport := item.redactionReport
  data := some data
  storedBlob := none
  reused := false

/-- `_store_one`. -/
def storeOne (item : Item) (data : List UInt8) (up : Uploads σ) : Except Raised PreparedItem × Uploads σ :=
  if data.length ≤ inlineThreshold then (.ok (inlineItem item data), up)
  else
    match up.cache.lookup item.claim.contentSha256 with
    | some blob => (.ok (objectItem item blob true), up)
    | none =>
      let (result, store) := put up.store data objectStorageMediaType
      let up := { up with store, calls := up.calls ++ [data] }
      match result with
      | .error e => (.error (.blob e), up)
      | .ok blob =>
        (.ok (objectItem item blob false), { up with cache := (item.claim.contentSha256, blob) :: up.cache })

def storeAll : List (Item × List UInt8) → Uploads σ → Except Raised (List PreparedItem) × Uploads σ
  | [], up => (.ok [], up)
  | (item, data) :: rest, up =>
    match storeOne put inlineThreshold item data up with
    | (.error e, up) => (.error e, up)
    | (.ok entry, up) =>
      match storeAll rest up with
      | (.error e, up) => (.error e, up)
      | (.ok entries, up) => (.ok (entry :: entries), up)

/-- `_prepare`. -/
def prepare (store : σ) (items : List Item) : Except Raised (List PreparedItem) × Uploads σ :=
  match validate py [] items with
  | .error e => (.error e, ⟨store, [], []⟩)
  | .ok validated => storeAll put inlineThreshold validated ⟨store, [], []⟩

/-! ## Ingestion -/

/-- What the transaction of `_commit` raises. -/
inductive CommitError where
  | content (e : ContentServiceError)
  | blob (e : BlobStoreError)
  | idempotencyConflict
  | streamQuarantined
  | database
  | other
deriving DecidableEq, Repr

/-- `IngestOutcome`, without the events it lists. -/
structure IngestOutcome where
  httpStatus : Nat
  errorCode : Option String
  retryable : Bool
  retryAfterSeconds : Option Nat
deriving DecidableEq, Repr

def rejected (httpStatus : Nat) (errorCode : String) : IngestOutcome := ⟨httpStatus, some errorCode, false, none⟩

/-- `SERVICE_UNAVAILABLE`, to be retried. -/
def unavailable (retryAfter : Nat) : IngestOutcome := ⟨503, some "service_unavailable", true, some retryAfter⟩

/-- A failed verification waits longer than an outage or a limit. -/
def blobOutcome : BlobStoreError → IngestOutcome
  | .blob .integrity => unavailable 60
  | _ => unavailable 5

/-- The handlers of `ingest` for what `_commit` raises. -/
def commitOutcome : Option CommitError → Option IngestOutcome
  | none => some ⟨200, none, false, none⟩
  | some (.content e) => some (rejected 422 e.kind.errorCode)
  | some .idempotencyConflict => some (rejected 409 "idempotency_conflict")
  | some .streamQuarantined => some (rejected 409 "stream_quarantined")
  | some (.blob e) => some (blobOutcome e)
  | some .database => some (unavailable 5)
  | some .other => none

/-- `IngestionService.ingest`; none where an exception escapes it. -/
def ingest (duplicateKey : Bool) (commit : List PreparedItem → Option CommitError) (store : σ) (items : List Item) :
    Option IngestOutcome :=
  if duplicateKey then some (rejected 422 "duplicate_idempotency_key")
  else
    match (prepare py put inlineThreshold store items).1 with
    | .error (.content e) => some (rejected 422 e.kind.errorCode)
    | .error (.blob e) => some (blobOutcome e)
    | .error .valueError => none
    | .ok prepared => commitOutcome (commit prepared)

end Service

end Content.Prepare
