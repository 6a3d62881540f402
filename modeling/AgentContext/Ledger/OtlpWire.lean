import Mathlib.Data.List.Basic
import Mathlib.Data.Nat.Bitwise

/-!
# The wire scan of an export

`otlp_wire.py`: the structural scan of an `ExportTraceServiceRequest` before it is parsed.

    fields            the walk of one message, field by field; `message` enters it and walks it
    plainAttribute    the common attribute, read inline

The tables of the generated descriptors are a `Schema`: which fields a message has, and what the scan takes from the
`KeyValue` and `AnyValue` messages.  A read of the data is an action that fails outside of its frame.  The scan ends by
the limits of the data, which the fuel of a walk stands for.
-/

namespace AgentContext.OtlpWire

/-! ## The schema -/

/-- `_VARINT`. -/
abbrev varintType : Nat := 0

/-- `_FIXED64`. -/
abbrev fixed64Type : Nat := 1

/-- `_LENGTH_DELIMITED`. -/
abbrev lengthDelimited : Nat := 2

/-- `_FIXED32`. -/
abbrev fixed32Type : Nat := 5

/-- `MAX_VALUE_DEPTH`. -/
def maxValueDepth : Nat := 4

/-- The message types, by the names the scan knows. -/
inductive Kind where
  | request
  | resourceSpans
  | scopeSpans
  | span
  | event
  | link
  | keyValue
  | anyValue
  | arrayValue
  | keyValueList
  | resource
  | instrumentationScope
  | other (name : String)
deriving DecidableEq, Repr

/-- `_NESTING`. -/
def Kind.nesting : Kind → Bool
  | .arrayValue | .keyValueList => true
  | _ => false

/-- `_CONTAINERS`. -/
def Kind.container : Kind → Bool
  | .resource | .instrumentationScope => true
  | _ => false

/-- `_Field`. -/
structure Field where
  number : Nat
  wireType : Nat
  repeated : Bool
  message : Option Kind
deriving DecidableEq, Repr

/-- `_TABLES`, and the field numbers of the descriptors.  The wire types are those of `_WIRE_TYPE_BY_FIELD_TYPE`, and
`_tables` takes no repeated scalar. -/
structure Schema where
  table : Kind → Nat → Option Field
  key : Nat
  value : Nat
  stringValue : Nat
  resourceAttributes : Nat
  scopeAttributes : Nat
  numbered : ∀ kind number spec, table kind number = some spec → spec.number = number
  wired : ∀ kind number spec, table kind number = some spec →
    spec.wireType ∈ [varintType, fixed64Type, lengthDelimited, fixed32Type]
  delimited : ∀ kind number spec, table kind number = some spec → spec.repeated = true ∨ spec.message ≠ none →
    spec.wireType = lengthDelimited
  key_lt : key < 16
  value_lt : value < 16
  stringValue_lt : stringValue < 16
  key_field : table .keyValue key = some ⟨key, lengthDelimited, false, none⟩
  value_field : table .keyValue value = some ⟨value, lengthDelimited, false, some .anyValue⟩
  string_field : table .anyValue stringValue = some ⟨stringValue, lengthDelimited, false, none⟩

/-- The tag of a length-delimited field. -/
def tagOf (number : Nat) : Nat := number <<< 3 ||| lengthDelimited

/-! ## Counts -/

/-- `WireLimits`. -/
structure WireLimits where
  maxResources : Nat
  maxScopes : Nat
  maxSpans : Nat
  maxRecords : Nat
  maxLinks : Nat
  maxTotalAttributes : Nat
  maxContainerAttributes : Nat
  maxFields : Nat
  maxObjects : Nat
deriving DecidableEq, Repr

structure Counts where
  resources : Nat
  scopes : Nat
  spans : Nat
  records : Nat
  links : Nat
  attributes : Nat
  fields : Nat
  objects : Nat
deriving DecidableEq, Repr

def Counts.zero : Counts := ⟨0, 0, 0, 0, 0, 0, 0, 0⟩

inductive Stop where
  /-- `WireRefused`. -/
  | refused (code : String)
  /-- `WireLimitExceeded`. -/
  | exceeded (code : String)
  /-- A read outside of the data or of its frame. -/
  | outside
  | fuel
deriving DecidableEq, Repr

def malformed : Stop := .refused "malformed_request"

/-- A piece of the scan: what it comes to, and the counts it leaves. -/
abbrev Scan := ExceptT Stop (StateM Counts)

section Charges

variable (limits : WireLimits)

/-- `_field_visited`. -/
def fieldVisited : Scan Unit := do
  modify fun counts => { counts with fields := counts.fields + 1 }
  if (← get).fields > limits.maxFields then throw (.exceeded "too_many_fields")

/-- `_objects`. -/
def objects (number : Nat) : Scan Unit := do
  modify fun counts => { counts with objects := counts.objects + number }
  if (← get).objects > limits.maxObjects then throw (.exceeded "too_many_objects")

/-- `_attribute`. -/
def attributeVisited (depth : Nat) : Scan Unit := do
  modify fun counts => { counts with attributes := counts.attributes + 1 }
  if (← get).attributes > limits.maxTotalAttributes ∨ depth > maxValueDepth then throw (.exceeded "too_many_attributes")

/-- `_record`. -/
def record : Scan Unit := do
  modify fun counts => { counts with records := counts.records + 1 }
  if (← get).records > limits.maxRecords then throw (.exceeded "too_many_records")

/-- `_enter`. -/
def enter (kind : Kind) (depth : Nat) : Scan Unit :=
  match kind with
  | .keyValue => attributeVisited limits depth
  | .span => do
    modify fun counts => { counts with spans := counts.spans + 1 }
    if (← get).spans > limits.maxSpans then throw (.exceeded "too_many_spans")
    record limits
  | .event => record limits
  | .link => do
    modify fun counts => { counts with links := counts.links + 1 }
    if (← get).links > limits.maxLinks then throw (.exceeded "too_many_links")
  | .scopeSpans => do
    modify fun counts => { counts with scopes := counts.scopes + 1 }
    if (← get).scopes > limits.maxScopes then throw (.exceeded "too_many_scopes")
  | .resourceSpans => do
    modify fun counts => { counts with resources := counts.resources + 1 }
    if (← get).resources > limits.maxResources then throw (.exceeded "too_many_resources")
  | .arrayValue | .keyValueList => if depth > maxValueDepth then throw (.exceeded "too_many_attributes") else pure ()
  | .request | .anyValue | .resource | .instrumentationScope | .other _ => pure ()

end Charges

/-! ## Reads -/

section Reads

variable (data : List UInt8) (stop : Nat)

/-- `data[i]`, inside of a frame. -/
def byteAt (i : Nat) : Except Stop Nat :=
  if i < stop then
    match data[i]? with
    | none => .error .outside
    | some byte => .ok byte.toNat
  else .error .outside

/-- The loop of `_varint`, with the bytes that it may still take. -/
def varintFrom : Nat → Nat → Nat → Nat → Except Stop (Nat × Nat)
  | 0, _, _, _ => .error malformed
  | left + 1, position, shift, result =>
    if stop ≤ position then .error malformed
    else do
      let byte ← byteAt data stop position
      let result := result ||| (byte &&& 0x7F) <<< shift
      if byte < 0x80 then .ok (result, position + 1)
      else varintFrom left (position + 1) (shift + 7) result

/-- `_varint`. -/
def varint (position : Nat) : Except Stop (Nat × Nat) := varintFrom data stop 10 position 0 0

/-- The tag of a field. -/
def tagAt (position : Nat) : Except Stop (Nat × Nat) := do
  let byte ← byteAt data stop position
  if byte < 0x80 then .ok (byte, position + 1) else varint data stop position

/-- The length of a field, and where its content starts. -/
def lengthAt (position : Nat) : Except Stop (Nat × Nat) :=
  if position < stop then do
    let byte ← byteAt data stop position
    if byte < 0x80 then .ok (byte, position + 1) else varint data stop position
  else varint data stop position

/-- `_skip`. -/
def skip (position wireType : Nat) : Except Stop Nat := do
  let position ←
    if wireType = varintType then Prod.snd <$> varint data stop position
    else if wireType = fixed64Type then .ok (position + 8)
    else .ok (position + 4)
  if position > stop then .error malformed else .ok position

/-- `_skip_unknown`. -/
def skipUnknown (position wireType : Nat) : Except Stop Nat :=
  if wireType = lengthDelimited then do
    let (length, position) ← varint data stop position
    if position + length > stop then .error malformed else .ok (position + length)
  else if wireType = varintType ∨ wireType = fixed64Type ∨ wireType = fixed32Type then skip data stop position wireType
  else .error malformed

end Reads

/-! ## The walk -/

section Walk

variable (schema : Schema) (limits : WireLimits) (data : List UInt8)

/-- The shape of `_plain_attribute`: exactly a key and a single string value. -/
def plainShape (start stop : Nat) : Except Stop Bool :=
  if stop - start < 4 then .ok false
  else do
    let keyTag ← byteAt data stop start
    if keyTag ≠ tagOf schema.key then .ok false
    else
      let keyLength ← byteAt data stop (start + 1)
      if keyLength ≥ 0x80 then .ok false
      else
        let valueTagAt := start + 2 + keyLength
        if valueTagAt + 3 > stop then .ok false
        else
          let valueTag ← byteAt data stop valueTagAt
          if valueTag ≠ tagOf schema.value then .ok false
          else
            let valueLength ← byteAt data stop (valueTagAt + 1)
            let valueStart := valueTagAt + 2
            if valueLength ≥ 0x80 ∨ valueStart + valueLength ≠ stop then .ok false
            else
              let stringTag ← byteAt data stop valueStart
              if stringTag ≠ tagOf schema.stringValue ∨ valueStart + 1 ≥ stop then .ok false
              else
                let stringLength ← byteAt data stop (valueStart + 1)
                .ok (stringLength < 0x80 && valueStart + 2 + stringLength = stop)

/-- `_plain_attribute`. -/
def plainAttribute (start stop depth : Nat) : Scan Bool := do
  if !(← plainShape schema data start stop) then pure false
  else
    attributeVisited limits depth
    fieldVisited limits
    fieldVisited limits
    fieldVisited limits
    pure true

/-- An occurrence of a message field, with the singular ones that were seen. -/
def occurrence (spec : Field) (singular : List Nat) : Scan (List Nat) :=
  if spec.repeated then do
    objects limits 1
    pure singular
  else if spec.number ∈ singular then throw (.refused "repeated_singular_field")
  else pure (spec.number :: singular)

/-- An attribute of a container, with the number that were seen. -/
def containerVisited (kind : Kind) (spec : Field) (attributes : Nat) : Scan Nat :=
  if kind.container && (spec.number = schema.resourceAttributes || spec.number = schema.scopeAttributes) then
    if attributes + 1 > limits.maxContainerAttributes then throw (.exceeded "too_many_attributes")
    else pure (attributes + 1)
  else pure attributes

/-- A repeated string or bytes element. -/
def elementVisited (spec : Field) : Scan Unit := if spec.repeated then objects limits 1 else pure ()

/-- An array element is an attribute value. -/
def valueVisited (kind : Kind) (depth : Nat) : Scan Unit := if kind = .arrayValue then attributeVisited limits depth else pure ()

/-- The inline reading of a message; `fast` says whether there is one. -/
def readInline (fast : Bool) (start stop : Nat) (child : Kind) (depth : Nat) : Scan Bool :=
  if fast && child = .keyValue then plainAttribute schema limits data start stop depth else pure false

/-- The depth of a value inside of a message. -/
def childDepth (child : Kind) (depth : Nat) : Nat := if child.nesting then depth + 1 else depth

/-- The loop of `_message`. -/
def fields (fast : Bool) : Nat → Nat → Nat → Kind → Nat → List Nat → Nat → Scan Unit
  | 0, position, stop, _, _, _, _ => if position < stop then throw .fuel else pure ()
  | fuel + 1, position, stop, kind, depth, singular, attributes =>
    if position < stop then do
      fieldVisited limits
      let (tag, position) ← tagAt data stop position
      let number := tag >>> 3
      let wireType := tag &&& 7
      match schema.table kind number with
      | none => do
        let position ← skipUnknown data stop position wireType
        fields fast fuel position stop kind depth singular attributes
      | some spec =>
        if wireType = lengthDelimited then do
          let (length, position) ← lengthAt data stop position
          let fieldEnd := position + length
          if fieldEnd > stop then throw malformed
          else if spec.wireType ≠ lengthDelimited then throw malformed
          else
            match spec.message with
            | none => do
              elementVisited limits spec
              fields fast fuel fieldEnd stop kind depth singular attributes
            | some child => do
              let singular ← occurrence limits spec singular
              let attributes ← containerVisited schema limits kind spec attributes
              valueVisited limits kind depth
              let plain ← readInline schema limits data fast position fieldEnd child (childDepth child depth)
              (if plain then pure ()
                else do
                  enter limits child (childDepth child depth)
                  fields fast fuel position fieldEnd child (childDepth child depth) [] 0)
              fields fast fuel fieldEnd stop kind depth singular attributes
        else if wireType = spec.wireType then do
          let position ← skip data stop position wireType
          fields fast fuel position stop kind depth singular attributes
        else throw malformed
    else pure ()

/-- `_message`. -/
def message (fast : Bool) (fuel start stop : Nat) (kind : Kind) (depth : Nat) : Scan Unit := do
  enter limits kind depth
  fields schema limits data fast fuel start stop kind depth [] 0

/-- `scan`. -/
def scan (fast : Bool) : Except Stop Counts :=
  match (message schema limits data fast data.length 0 data.length .request 0).run.run .zero with
  | (.ok _, counts) => .ok counts
  | (.error e, _) => .error e

end Walk

end AgentContext.OtlpWire
