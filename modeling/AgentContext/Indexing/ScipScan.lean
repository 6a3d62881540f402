import AgentContext.Lib.Wire
import Mathlib.Logic.Function.Basic

/-!
# The pre-scan of a SCIP index

`_PreScan` and `_walk` of `scip.py`, under the messages of the vendored `scip.proto`:

    fieldPlans    what the pre-scan does with each field, planned from its descriptor
    scanFields    the walk of one message, field by field; `scan` looks at the depth and walks it
    walk          the delimited fields of the top level, that `import_scip` slices

A read of the data is an action that fails outside of its frame.  The scan ends by the length of the data, which the fuel
of a walk stands for.
-/

namespace AgentContext.Scip

/-! ## The descriptors -/

/-- The messages of `scip.proto`. -/
inductive Kind where
  | index
  | metadata
  | toolInfo
  | document
  | symbol
  | package
  | descriptor
  | signature
  | symbolInformation
  | relationship
  | singleLineRange
  | multiLineRange
  | occurrence
  | diagnostic
deriving DecidableEq, Repr

inductive FieldType where
  | message (kind : Kind)
  | string
  | bytes
  | fixed32
  | sfixed32
  | float
  | fixed64
  | sfixed64
  | double
  | int32
  | int64
  | uint32
  | uint64
  | sint32
  | sint64
  | bool
  | enum
deriving DecidableEq, Repr

structure FieldDescriptor where
  fullName : String
  number : Nat
  type : FieldType
  repeated : Bool
deriving DecidableEq, Repr

/-- The fields of a message, as `scip.proto` has them. -/
def Kind.fields : Kind → List FieldDescriptor
  | .index => [
      ⟨"scip.Index.metadata", 1, .message .metadata, false⟩,
      ⟨"scip.Index.documents", 2, .message .document, true⟩,
      ⟨"scip.Index.external_symbols", 3, .message .symbolInformation, true⟩]
  | .metadata => [
      ⟨"scip.Metadata.version", 1, .enum, false⟩,
      ⟨"scip.Metadata.tool_info", 2, .message .toolInfo, false⟩,
      ⟨"scip.Metadata.project_root", 3, .string, false⟩,
      ⟨"scip.Metadata.text_document_encoding", 4, .enum, false⟩]
  | .toolInfo => [
      ⟨"scip.ToolInfo.name", 1, .string, false⟩,
      ⟨"scip.ToolInfo.version", 2, .string, false⟩,
      ⟨"scip.ToolInfo.arguments", 3, .string, true⟩]
  | .document => [
      ⟨"scip.Document.language", 4, .string, false⟩,
      ⟨"scip.Document.relative_path", 1, .string, false⟩,
      ⟨"scip.Document.occurrences", 2, .message .occurrence, true⟩,
      ⟨"scip.Document.symbols", 3, .message .symbolInformation, true⟩,
      ⟨"scip.Document.text", 5, .string, false⟩,
      ⟨"scip.Document.position_encoding", 6, .enum, false⟩]
  | .symbol => [
      ⟨"scip.Symbol.scheme", 1, .string, false⟩,
      ⟨"scip.Symbol.package", 2, .message .package, false⟩,
      ⟨"scip.Symbol.descriptors", 3, .message .descriptor, true⟩]
  | .package => [
      ⟨"scip.Package.manager", 1, .string, false⟩,
      ⟨"scip.Package.name", 2, .string, false⟩,
      ⟨"scip.Package.version", 3, .string, false⟩]
  | .descriptor => [
      ⟨"scip.Descriptor.name", 1, .string, false⟩,
      ⟨"scip.Descriptor.disambiguator", 2, .string, false⟩,
      ⟨"scip.Descriptor.suffix", 3, .enum, false⟩]
  | .signature => [
      ⟨"scip.Signature.language", 4, .string, false⟩,
      ⟨"scip.Signature.text", 5, .string, false⟩,
      ⟨"scip.Signature.occurrences", 2, .message .occurrence, true⟩]
  | .symbolInformation => [
      ⟨"scip.SymbolInformation.symbol", 1, .string, false⟩,
      ⟨"scip.SymbolInformation.documentation", 3, .string, true⟩,
      ⟨"scip.SymbolInformation.relationships", 4, .message .relationship, true⟩,
      ⟨"scip.SymbolInformation.kind", 5, .enum, false⟩,
      ⟨"scip.SymbolInformation.display_name", 6, .string, false⟩,
      ⟨"scip.SymbolInformation.signature_documentation", 7, .message .signature, false⟩,
      ⟨"scip.SymbolInformation.enclosing_symbol", 8, .string, false⟩]
  | .relationship => [
      ⟨"scip.Relationship.symbol", 1, .string, false⟩,
      ⟨"scip.Relationship.is_reference", 2, .bool, false⟩,
      ⟨"scip.Relationship.is_implementation", 3, .bool, false⟩,
      ⟨"scip.Relationship.is_type_definition", 4, .bool, false⟩,
      ⟨"scip.Relationship.is_definition", 5, .bool, false⟩]
  | .singleLineRange => [
      ⟨"scip.SingleLineRange.line", 1, .int32, false⟩,
      ⟨"scip.SingleLineRange.start_character", 2, .int32, false⟩,
      ⟨"scip.SingleLineRange.end_character", 3, .int32, false⟩]
  | .multiLineRange => [
      ⟨"scip.MultiLineRange.start_line", 1, .int32, false⟩,
      ⟨"scip.MultiLineRange.start_character", 2, .int32, false⟩,
      ⟨"scip.MultiLineRange.end_line", 3, .int32, false⟩,
      ⟨"scip.MultiLineRange.end_character", 4, .int32, false⟩]
  | .occurrence => [
      ⟨"scip.Occurrence.range", 1, .int32, true⟩,
      ⟨"scip.Occurrence.single_line_range", 8, .message .singleLineRange, false⟩,
      ⟨"scip.Occurrence.multi_line_range", 9, .message .multiLineRange, false⟩,
      ⟨"scip.Occurrence.symbol", 2, .string, false⟩,
      ⟨"scip.Occurrence.symbol_roles", 3, .int32, false⟩,
      ⟨"scip.Occurrence.override_documentation", 4, .string, true⟩,
      ⟨"scip.Occurrence.syntax_kind", 5, .enum, false⟩,
      ⟨"scip.Occurrence.diagnostics", 6, .message .diagnostic, true⟩,
      ⟨"scip.Occurrence.enclosing_range", 7, .int32, true⟩,
      ⟨"scip.Occurrence.single_line_enclosing_range", 10, .message .singleLineRange, false⟩,
      ⟨"scip.Occurrence.multi_line_enclosing_range", 11, .message .multiLineRange, false⟩]
  | .diagnostic => [
      ⟨"scip.Diagnostic.severity", 1, .enum, false⟩,
      ⟨"scip.Diagnostic.code", 2, .string, false⟩,
      ⟨"scip.Diagnostic.message", 3, .string, false⟩,
      ⟨"scip.Diagnostic.source", 4, .string, false⟩,
      ⟨"scip.Diagnostic.tags", 5, .enum, true⟩]

/-- `field.message_type`. -/
def FieldDescriptor.message (field : FieldDescriptor) : Option Kind :=
  match field.type with
  | .message kind => some kind
  | _ => none

/-! ## The plans -/

/-- The limits of `ScipLimits` that bound the wire format. -/
structure ScipLimits where
  maxIndexBytes : Nat
  maxDocuments : Nat
  maxOccurrencesPerDocument : Nat
  maxSymbolsPerDocument : Nat
  maxTotalOccurrences : Nat
  maxTotalSymbols : Nat
  maxRepeatedItemsPerMessage : Nat
  maxTotalElements : Nat
  maxNestingDepth : Nat
  maxExternalSymbols : Nat
  maxRelationshipsPerSymbol : Nat
  maxToolArguments : Nat
deriving DecidableEq, Repr

/-- The reasons of a `ScipImportError` before anything is parsed. -/
inductive Reason where
  | indexTooLarge
  | malformed
  | toolInfoTooLarge
  | tooManyDocuments
  | tooManyExternalSymbols
  | tooManyOccurrences
  | tooManySymbols
  | tooManyRelationships
  | tooManyRepeatedItems
  | tooManyElements
  | tooDeeplyNested
  | duplicateMessageField
deriving DecidableEq, Repr

/-- `_FieldPlan.element`. -/
inductive Element where
  | message
  | lengthDelimited
  | fixed32
  | fixed64
  | varint
deriving DecidableEq, Repr

def FieldDescriptor.element (field : FieldDescriptor) : Element :=
  match field.type with
  | .message _ => .message
  | .string | .bytes => .lengthDelimited
  | .fixed32 | .sfixed32 | .float => .fixed32
  | .fixed64 | .sfixed64 | .double => .fixed64
  | _ => .varint

/-- `_FieldPlan`. -/
structure FieldPlan where
  name : String
  message : Option Kind
  repeated : Bool
  element : Element
  cap : Nat
  reason : Reason
deriving DecidableEq, Repr

variable (limits : ScipLimits)

def overrides : List (String × Nat × Reason) := [
  ("scip.Index.documents", limits.maxDocuments, .tooManyDocuments),
  ("scip.Index.external_symbols", limits.maxExternalSymbols, .tooManyExternalSymbols),
  ("scip.Document.occurrences", limits.maxOccurrencesPerDocument, .tooManyOccurrences),
  ("scip.Signature.occurrences", limits.maxOccurrencesPerDocument, .tooManyOccurrences),
  ("scip.Document.symbols", limits.maxSymbolsPerDocument, .tooManySymbols),
  ("scip.SymbolInformation.relationships", limits.maxRelationshipsPerSymbol, .tooManyRelationships),
  ("scip.ToolInfo.arguments", limits.maxToolArguments, .toolInfoTooLarge),
  ("scip.Occurrence.range", 4, .tooManyRepeatedItems),
  ("scip.Occurrence.enclosing_range", 4, .tooManyRepeatedItems)]

/-- The cap of a field, and the reason where it is exceeded. -/
def capOf (field : FieldDescriptor) : Nat × Reason :=
  ((overrides limits).lookup field.fullName).getD (limits.maxRepeatedItemsPerMessage, .tooManyRepeatedItems)

def planOf (field : FieldDescriptor) : FieldPlan where
  name := field.fullName
  message := field.message
  repeated := field.repeated
  element := field.element
  cap := (capOf limits field).1
  reason := (capOf limits field).2

/-- `_field_plans`, by the message and the number of a field. -/
def fieldPlans (kind : Kind) (number : Nat) : Option FieldPlan :=
  (kind.fields.find? (·.number = number)).map (planOf limits)

/-! ## Reads -/

inductive Stop where
  /-- `ScipImportError`. -/
  | refused (reason : Reason)
  /-- A read outside of the data or of its frame. -/
  | outside
  | fuel
deriving DecidableEq, Repr

def malformed : Stop := .refused .malformed

section Reads

variable (data : List UInt8) (stop : Nat)

/-- `data[i]`, inside of a frame. -/
def byteAt (i : Nat) : Except Stop Nat :=
  if i < stop then
    match data[i]? with
    | none => .error .outside
    | some byte => .ok byte.toNat
  else .error .outside

/-- The loop of `_varint` over its shifts. -/
def varintFrom : List Nat → Nat → Nat → Except Stop (Nat × Nat)
  | [], _, _ => .error malformed
  | shift :: shifts, position, value =>
    if stop ≤ position then .error malformed
    else do
      let byte ← byteAt data stop position
      let value := value ||| (byte &&& 0x7F) <<< shift
      if byte &&& 0x80 = 0 then .ok (value, position + 1) else varintFrom shifts (position + 1) value

/-- `_varint`. -/
def varint (position : Nat) : Except Stop (Nat × Nat) :=
  varintFrom data stop (List.range' 0 10 7) position 0

end Reads

/-- `_packed`: the number of scalars in a packed payload. -/
def packed (payload : List UInt8) (element : Element) : Nat :=
  match element with
  | .fixed32 => payload.length / 4
  | .fixed64 => payload.length / 8
  | _ => payload.length - payload.countP fun byte => 0x80 ≤ byte.toNat

/-! ## The scan -/

/-- What a scan has spent. -/
structure Totals where
  elements : Nat
  occurrences : Nat
  symbols : Nat
deriving DecidableEq, Repr

def Totals.zero : Totals := ⟨0, 0, 0⟩

/-- `_spend`. -/
def spend (totals : Totals) (count : Nat) : Except Stop Totals :=
  if totals.elements + count > limits.maxTotalElements then .error (.refused .tooManyElements)
  else .ok { totals with elements := totals.elements + count }

/-- `_enter`. -/
def enter (child : Kind) (totals : Totals) : Except Stop Totals :=
  match child with
  | .occurrence =>
    if totals.occurrences + 1 > limits.maxTotalOccurrences then .error (.refused .tooManyOccurrences)
    else .ok { totals with occurrences := totals.occurrences + 1 }
  | .symbolInformation =>
    if totals.symbols + 1 > limits.maxTotalSymbols then .error (.refused .tooManySymbols)
    else .ok { totals with symbols := totals.symbols + 1 }
  | _ => .ok totals

/-- What a message has seen of a field, with what was added, against its cap. -/
def note (field : FieldPlan) (number added : Nat) (seen : Nat → Nat) : Except Stop (Nat → Nat) :=
  let count := seen number + added
  if field.repeated then
    if count > field.cap then .error (.refused field.reason) else .ok (Function.update seen number count)
  else if field.message ≠ none ∧ count > 1 then .error (.refused .duplicateMessageField)
  else .ok (Function.update seen number count)

/-- What a scan makes of the payload of a field, with the scan of the message that it may hold: what it adds to the field,
where it ends and what was spent. -/
def scanPayload (scanChild : Nat → Nat → Kind → Totals → Except Stop Totals) (data : List UInt8) (stop key position : Nat)
    (field : Option FieldPlan) (totals : Totals) : Except Stop (Nat × Nat × Totals) :=
  match key &&& 7 with
  | 0 => do
    let (_, position) ← varint data stop position
    .ok (1, position, totals)
  | 1 => .ok (1, position + 8, totals)
  | 5 => .ok (1, position + 4, totals)
  | 2 => do
    let (length, position) ← varint data stop position
    if position + length > stop then .error malformed
    else
      match field with
      | none => .ok (1, position + length, totals)
      | some plan =>
        match plan.message with
        | some child => do
          let totals ← enter limits child totals
          let totals ← scanChild position (position + length) child totals
          .ok (1, position + length, totals)
        | none =>
          if plan.repeated ∧ plan.element ≠ .lengthDelimited then do
            let added := packed (Wire.window data position (position + length)) plan.element
            let totals ← spend limits totals added
            .ok (added, position + length, totals)
          else .ok (1, position + length, totals)
  | _ => .error malformed

/-- The walk of a message in `scan`. -/
def scanFields (data : List UInt8) : Nat → Nat → Nat → Kind → Nat → (Nat → Nat) → Totals → Except Stop Totals
  | 0, position, stop, _, _, _, totals => if position < stop then .error .fuel else .ok totals
  | fuel + 1, position, stop, kind, depth, seen, totals =>
    if position < stop then do
      let (key, position) ← varint data stop position
      let number := key >>> 3
      if number = 0 then .error malformed
      else do
        let totals ← spend limits totals 1
        let scanChild := fun position stop child totals =>
          if depth + 1 > limits.maxNestingDepth then .error (.refused .tooDeeplyNested)
          else scanFields data fuel position stop child (depth + 1) (fun _ => 0) totals
        let (added, position, totals) ←
          scanPayload limits scanChild data stop key position (fieldPlans limits kind number) totals
        if position > stop then .error malformed
        else
          match fieldPlans limits kind number with
          | none => scanFields data fuel position stop kind depth seen totals
          | some plan => do
            let seen ← note plan number added seen
            scanFields data fuel position stop kind depth seen totals
    else .ok totals

/-- `scan`. -/
def scan (data : List UInt8) (fuel position stop : Nat) (kind : Kind) (depth : Nat) (totals : Totals) : Except Stop Totals :=
  if depth > limits.maxNestingDepth then .error (.refused .tooDeeplyNested)
  else scanFields limits data fuel position stop kind depth (fun _ => 0) totals

/-- `_prescan`. -/
def prescan (data : List UInt8) : Except Stop Totals := scan limits data data.length 0 data.length .index 0 .zero

/-! ## The slices -/

/-- A delimited field: its number, and where its payload starts and stops. -/
structure Slice where
  number : Nat
  start : Nat
  stop : Nat
deriving DecidableEq, Repr

/-- What `_walk` makes of the payload of a field, and where it ends. -/
def sliceAt (data : List UInt8) (stop key position : Nat) : Except Stop (List Slice × Nat) :=
  match key &&& 7 with
  | 0 => do
    let (_, position) ← varint data stop position
    .ok ([], position)
  | 1 => .ok ([], position + 8)
  | 5 => .ok ([], position + 4)
  | 2 => do
    let (length, position) ← varint data stop position
    if position + length > stop then .error malformed
    else .ok ([⟨key >>> 3, position, position + length⟩], position + length)
  | _ => .error malformed

/-- `_walk`. -/
def walk (data : List UInt8) (stop : Nat) : Nat → Nat → Except Stop (List Slice)
  | 0, position => if position < stop then .error .fuel else .ok []
  | fuel + 1, position =>
    if position < stop then do
      let (key, position) ← varint data stop position
      if key >>> 3 = 0 then .error malformed
      else do
        let (found, position) ← sliceAt data stop key position
        if position > stop then .error malformed
        else do
          let later ← walk data stop fuel position
          .ok (found ++ later)
    else .ok []

/-- The slices that `import_scip` parses, after it has looked at its other arguments: the metadata, the documents and the
external symbols. -/
def importScip (data : List UInt8) : Except Stop (List Slice) :=
  if data.length > limits.maxIndexBytes then .error (.refused .indexTooLarge)
  else do
    let _ ← prescan limits data
    let slices ← walk data data.length data.length 0
    .ok (slices.filter fun slice => slice.number = 1 ∨ slice.number = 2 ∨ slice.number = 3)

end AgentContext.Scip
