import AgentContext.Indexing.Identity
import AgentContext.Indexing.Positions
import AgentContext.Indexing.ScipScan
import AgentContext.Indexing.ScipSymbol

/-!
# The import of a SCIP index

`import_scip` of `scip.py` from its slices on, and the `_Importer` that goes through all documents and then through the
external symbols.  What parses a slice, the hash functions and the names of symbol kinds are arguments.

    Importer.identify   the id of a symbol, under what the current document declares and what was asked before
    Importer.symbol     symbol information with its relationships
    Importer.document   a document with its occurrences and symbols
    importSlices        the documents, then the external symbols
-/

namespace AgentContext.Scip

open Indexing.Positions (PositionEncoding)

/-! ## Parsed messages -/

/-- A `oneof` of the two typed ranges. -/
inductive TypedRange where
  | singleLine (line startCharacter endCharacter : Int)
  | multiLine (startLine startCharacter endLine endCharacter : Int)
deriving DecidableEq, Repr

structure OccurrenceMessage where
  range : List Int
  typedRange : Option TypedRange
  enclosingRange : List Int
  typedEnclosingRange : Option TypedRange
  symbol : String
  symbolRoles : Int
  overrideDocumentation : List String
deriving DecidableEq, Repr

structure RelationshipMessage where
  symbol : String
  isReference : Bool
  isImplementation : Bool
  isTypeDefinition : Bool
  isDefinition : Bool
deriving DecidableEq, Repr

structure SymbolMessage where
  symbol : String
  documentation : List String
  relationships : List RelationshipMessage
  kind : Int
  displayName : String
  signatureLanguage : String
  signatureText : String
deriving DecidableEq, Repr

structure DocumentMessage where
  relativePath : String
  language : String
  text : String
  positionEncoding : Int
  occurrences : List OccurrenceMessage
  symbols : List SymbolMessage
deriving DecidableEq, Repr

/-! ## What is imported -/

/-- The limits of `ScipLimits` that the importer looks at. -/
structure ImportLimits extends ScipLimits where
  maxSymbolLength : Nat
deriving DecidableEq, Repr

/-- The reasons of a `ScipImportError`. -/
inductive ImportReason where
  | scan (reason : Reason)
  | symbolTooLong
deriving DecidableEq, Repr

inductive DiagnosticCode where
  | conflictingLocalDeclaration
  | duplicateDocument
  | emptyRelationship
  | invalidRange
  | invalidRoles
  | invalidSymbol
  | localSymbolWithoutFileIdentity
  | outOfDocumentRange
  | unknownPositionEncoding
  | unsafePath
deriving DecidableEq, Repr

structure ImportDiagnostic where
  code : DiagnosticCode
  path : Option String
  occurrenceIndex : Option Nat := none
deriving DecidableEq, Repr

structure SourceRange where
  startLine : Nat
  startCharacter : Nat
  endLine : Nat
  endCharacter : Nat
deriving DecidableEq, Repr

inductive RelationshipKind where
  | reference
  | implementation
  | typeDefinition
  | definition
deriving DecidableEq, Repr

def RelationshipKind.value : RelationshipKind → String
  | .reference => "reference"
  | .implementation => "implementation"
  | .typeDefinition => "type_definition"
  | .definition => "definition"

structure SemanticOccurrence (I : Type) where
  symbol : String
  symbolId : I
  range : SourceRange
  enclosingRange : Option SourceRange
  roles : Nat
  isDefinition : Bool
  overrideDocumentation : List String
deriving DecidableEq, Repr

structure SemanticRelationship (I : Type) where
  sourceSymbol : String
  sourceId : I
  targetSymbol : String
  targetId : I
  kinds : List RelationshipKind
deriving DecidableEq, Repr

structure SemanticSymbol (I : Type) where
  symbol : String
  symbolId : I
  revisionId : I
  documentPath : Option String
  kind : String
  displayName : String
  documentation : List String
  signatureText : String
  relationships : List (SemanticRelationship I)
  signatureDigest : String
  semanticDigest : String
deriving DecidableEq, Repr

structure SemanticDocument (I : Type) where
  path : String
  language : String
  positionEncoding : PositionEncoding
  fileLogicalId : Option I
  occurrences : List (SemanticOccurrence I)
  symbols : List (SemanticSymbol I)
deriving DecidableEq, Repr

/-! ## Ranges -/

/-- `position_encoding`. -/
def positionEncoding : Int → PositionEncoding
  | 0 => .unspecified
  | 1 => .utf8
  | 2 => .utf16
  | 3 => .utf32
  | _ => .unknown

/-- `_checked`. -/
def checked (startLine startCharacter endLine endCharacter : Int) : Option SourceRange :=
  if startLine < 0 ∨ startCharacter < 0 ∨ endLine < 0 ∨ endCharacter < 0 then none
  else if toLex (endLine, endCharacter) < toLex (startLine, startCharacter) then none
  else some ⟨startLine.toNat, startCharacter.toNat, endLine.toNat, endCharacter.toNat⟩

/-- `_legacy`. -/
def legacy : List Int → Option SourceRange
  | [line, start, stop] => checked line start line stop
  | [startLine, startCharacter, endLine, endCharacter] => checked startLine startCharacter endLine endCharacter
  | _ => none

def TypedRange.range : TypedRange → Option SourceRange
  | .singleLine line startCharacter endCharacter => checked line startCharacter line endCharacter
  | .multiLine startLine startCharacter endLine endCharacter => checked startLine startCharacter endLine endCharacter

/-- `_range`. -/
def rangeOf (occurrence : OccurrenceMessage) : Option SourceRange :=
  match occurrence.typedRange with
  | some typed => typed.range
  | none => legacy occurrence.range

/-- `_enclosing_range`. -/
def enclosingRangeOf (occurrence : OccurrenceMessage) : Option SourceRange :=
  match occurrence.typedEnclosingRange with
  | some typed => typed.range
  | none => if occurrence.enclosingRange ≠ [] then legacy occurrence.enclosingRange else none

/-- `_has_enclosing`. -/
def hasEnclosing (occurrence : OccurrenceMessage) : Bool :=
  occurrence.typedEnclosingRange.isSome || occurrence.enclosingRange ≠ []

/-- `_encloses`. -/
def encloses (outer inner : SourceRange) : Bool :=
  toLex (outer.startLine, outer.startCharacter) ≤ toLex (inner.startLine, inner.startCharacter) ∧
    toLex (inner.endLine, inner.endCharacter) ≤ toLex (outer.endLine, outer.endCharacter)

/-- `_Bounds`: the lines of the document, where its text is known. -/
structure Bounds where
  lines : Option (List (List Char))
  encoding : PositionEncoding

def removeSuffix (line : List Char) : List Char := if line.getLast? = some '\r' then line.dropLast else line

def Bounds.of (text : Option String) (encoding : PositionEncoding) : Bounds where
  lines := text.map fun text => if text.toList = [] then [] else (text.toList.splitOn '\n').map removeSuffix
  encoding := encoding

/-- `_measure`. -/
def Bounds.measure (bounds : Bounds) (line : List Char) : Option Nat :=
  match bounds.encoding with
  | .utf8 => some (Utf8.size line)
  | .utf16 => some (Utf8.units16 line)
  | .utf32 => some line.length
  | _ => none

/-- `contains`. -/
def Bounds.contains (bounds : Bounds) (located : SourceRange) : Bool :=
  match bounds.lines with
  | none => true
  | some lines =>
    [(located.startLine, located.startCharacter), (located.endLine, located.endCharacter)].all fun place =>
      match lines[place.1]? with
      | none => false
      | some line => (bounds.measure line).all (place.2 ≤ ·)

/-- `_relationship_kinds`. -/
def relationshipKinds (related : RelationshipMessage) : List RelationshipKind :=
  (if related.isReference then [.reference] else []) ++ (if related.isImplementation then [.implementation] else []) ++
    (if related.isTypeDefinition then [.typeDefinition] else []) ++ if related.isDefinition then [.definition] else []

/-! ## The importer -/

/-- `_UNKNOWN_KIND`. -/
def unknownKind : String := "unknown"

/-- `_MAX_PATH_BYTES`. -/
def maxPathBytes : Nat := 4096

/-- `symbol.startswith("local ")`. -/
def isLocal (symbol : String) : Bool := "local ".toList.isPrefixOf symbol.toList

/-- What an import is given; `derive` is that of `identity.py`, in the repository, and `kindName` the name of a value of
`SymbolInformation.Kind`. -/
structure Context (I : Type) where
  limits : ImportLimits
  fileIds : String → Option I
  sources : String → Option String
  derive : List String → I
  idText : I → String
  sha256 : String → String
  kindName : Int → Option String
  /-- `_NO_FILE`. -/
  noFile : I

/-- What the cache of ids is asked for: a symbol, the file of a local one, and its kind. -/
abbrev Key (I : Type) : Type := String × Option I × String

/-- The state of an `_Importer`. -/
structure Importer (I : Type) where
  diagnostics : List ImportDiagnostic := []
  declaredKinds : List (String × String) := []
  ids : List (Key I × I) := []
  conflicting : List String := []

section Importing

variable {I : Type} [DecidableEq I] (context : Context I)

/-- `_digest`. -/
def Context.digest (components : List String) : String := context.sha256 (Indexing.encodeComponents components)

/-- `symbol_logical_id`. -/
def Context.symbolLogicalId (scipSymbol language : String) (fileLogicalId : I) (qualifiedName kind : String) : I :=
  if scipSymbol ≠ "" ∧ ¬isLocal scipSymbol then context.derive ["symbol_scip", scipSymbol]
  else context.derive ["symbol_fallback", language, context.idText fileLogicalId, qualifiedName, kind, ""]

/-- `symbol_revision_id`. -/
def Context.symbolRevisionId (symbolId : I) (signatureDigest semanticFingerprint : String) : I :=
  context.derive ["symbol_revision", context.idText symbolId, signatureDigest, semanticFingerprint]

/-- `_kind_name`. -/
def Context.kindOf (info : SymbolMessage) : String := (context.kindName info.kind).getD unknownKind

/-- `diagnose`. -/
def Importer.diagnose (importer : Importer I) (code : DiagnosticCode) (path : Option String)
    (index : Option Nat := none) : Importer I :=
  { importer with diagnostics := importer.diagnostics ++ [⟨code, path, index⟩] }

/-- The local symbols that a document declares under more than one kind, once each. -/
def conflictingSymbols (symbols : List SymbolMessage) : List String :=
  ((symbols.filter fun info => isLocal info.symbol && symbols.any fun other =>
    decide (other.symbol = info.symbol ∧ context.kindOf other ≠ context.kindOf info)).map (·.symbol)).dedup

/-- `_conflicting_locals`: a diagnostic for each of them. -/
def Importer.conflictingLocals (importer : Importer I) (document : DocumentMessage) (path : String) :
    List String × Importer I :=
  let conflicting := conflictingSymbols context document.symbols
  (conflicting, conflicting.foldl (fun importer _ => importer.diagnose .conflictingLocalDeclaration (some path)) importer)

/-- `_identify`. -/
def Importer.identify (importer : Importer I) (symbol language : String) (fileId : Option I) (path : Option String)
    (position : Option Nat) : Except ImportReason (Option I × Importer I) :=
  if Utf8.size symbol.toList > context.limits.maxSymbolLength then .error .symbolTooLong
  else if !isValidSymbol symbol then .ok (none, importer.diagnose .invalidSymbol path position)
  else if symbol ∈ importer.conflicting then .ok (none, importer)
  else
    let kind := (importer.declaredKinds.lookup symbol).getD unknownKind
    if isLocal symbol && fileId.isNone then
      if path.isNone then .ok (none, importer.diagnose .invalidSymbol path position)
      else .ok (none, importer.diagnose .localSymbolWithoutFileIdentity path position)
    else
      let key : Key I := (symbol, if isLocal symbol then fileId else none, kind)
      match importer.ids.lookup key with
      | some found => .ok (some found, importer)
      | none =>
        let found := context.symbolLogicalId symbol language (fileId.getD context.noFile) symbol kind
        .ok (some found, { importer with ids := (key, found) :: importer.ids })

/-- The loop of `symbol` over relationships. -/
def Importer.relationships (source : String) (sourceId : I) (language : String) (fileId : Option I) (path : Option String) :
    Importer I → List RelationshipMessage → Except ImportReason (List (SemanticRelationship I) × Importer I)
  | importer, [] => .ok ([], importer)
  | importer, related :: rest => do
    let (targetId, importer) ← importer.identify context related.symbol language fileId path none
    match targetId with
    | none => relationships source sourceId language fileId path importer rest
    | some targetId =>
      let kinds := relationshipKinds related
      if kinds = [] then
        relationships source sourceId language fileId path (importer.diagnose .emptyRelationship path) rest
      else do
        let (kept, importer) ← relationships source sourceId language fileId path importer rest
        .ok (⟨source, sourceId, related.symbol, targetId, kinds⟩ :: kept, importer)

/-- The symbol information with its digests: SCIP has no body, so the documentation and the relationships stand for it. -/
def Context.semanticSymbol (info : SymbolMessage) (path : Option String) (symbolId : I)
    (relationships : List (SemanticRelationship I)) : SemanticSymbol I :=
  let kind := context.kindOf info
  let signatureDigest := context.digest
    ["scip-signature-v1", kind, info.displayName, info.signatureLanguage, info.signatureText]
  let lines := relationships.map fun related =>
    Indexing.encodeComponents (related.targetSymbol :: related.kinds.map RelationshipKind.value)
  let semanticDigest := context.digest
    ("scip-semantic-v1" :: info.documentation ++ "relationships" :: lines.insertionSort (· ≤ ·))
  ⟨info.symbol, symbolId, context.symbolRevisionId symbolId signatureDigest semanticDigest, path, kind, info.displayName,
    info.documentation, info.signatureText, relationships, signatureDigest, semanticDigest⟩

/-- `_Importer.symbol`. -/
def Importer.symbol (importer : Importer I) (info : SymbolMessage) (path : Option String) (language : String)
    (fileId : Option I) : Except ImportReason (Option (SemanticSymbol I) × Importer I) :=
  if info.relationships.length > context.limits.maxRelationshipsPerSymbol then .error (.scan .tooManyRelationships)
  else do
    let (symbolId, importer) ← importer.identify context info.symbol language fileId path none
    match symbolId with
    | none => .ok (none, importer)
    | some symbolId => do
      let (relationships, importer) ←
        importer.relationships context info.symbol symbolId language fileId path info.relationships
      .ok (some (context.semanticSymbol info path symbolId relationships), importer)

/-- The enclosing range of an occurrence; where it is wrong only it is dropped. -/
def Importer.enclosing (importer : Importer I) (occurrence : OccurrenceMessage) (position : Nat) (path : String)
    (bounds : Bounds) (located : SourceRange) : Option SourceRange × Importer I :=
  if !hasEnclosing occurrence then (enclosingRangeOf occurrence, importer)
  else
    match enclosingRangeOf occurrence with
    | none => (none, importer.diagnose .invalidRange (some path) (some position))
    | some enclosing =>
      if !encloses enclosing located then (none, importer.diagnose .invalidRange (some path) (some position))
      else if !bounds.contains enclosing then (none, importer.diagnose .outOfDocumentRange (some path) (some position))
      else (some enclosing, importer)

/-- `_occurrence`. -/
def Importer.occurrence (importer : Importer I) (occurrence : OccurrenceMessage) (position : Nat) (path : String)
    (document : DocumentMessage) (fileId : Option I) (bounds : Bounds) :
    Except ImportReason (Option (SemanticOccurrence I) × Importer I) :=
  match rangeOf occurrence with
  | none => .ok (none, importer.diagnose .invalidRange (some path) (some position))
  | some located =>
    if !bounds.contains located then .ok (none, importer.diagnose .outOfDocumentRange (some path) (some position))
    else
      let (enclosing, importer) := importer.enclosing occurrence position path bounds located
      if occurrence.symbolRoles < 0 then .ok (none, importer.diagnose .invalidRoles (some path) (some position))
      else do
        let (symbolId, importer) ←
          importer.identify context occurrence.symbol document.language fileId (some path) (some position)
        .ok (symbolId.map fun symbolId => ⟨occurrence.symbol, symbolId, located, enclosing, occurrence.symbolRoles.toNat,
          occurrence.symbolRoles.toNat % 2 = 1, occurrence.overrideDocumentation⟩, importer)

/-- A loop that keeps what its turns return. -/
def collect {α β : Type} (turn : Importer I → α → Except ImportReason (Option β × Importer I)) :
    Importer I → List α → Except ImportReason (List β × Importer I)
  | importer, [] => .ok ([], importer)
  | importer, item :: rest => do
    let (kept, importer) ← turn importer item
    let (others, importer) ← collect turn importer rest
    .ok (kept.toList ++ others, importer)

/-- The loop of `document` over occurrences; without a known encoding none is kept. -/
def Importer.occurrences (importer : Importer I) (document : DocumentMessage) (fileId : Option I) (bounds : Bounds) :
    Except ImportReason (List (SemanticOccurrence I) × Importer I) :=
  let path := document.relativePath
  if positionEncoding document.positionEncoding = .unknown then
    .ok ([], importer.diagnose .unknownPositionEncoding (some path))
  else
    collect (fun importer (occurrence, position) =>
      importer.occurrence context occurrence position path document fileId bounds) importer document.occurrences.zipIdx

/-- `_Importer.document`. -/
def Importer.document (importer : Importer I) (document : DocumentMessage) :
    Except ImportReason (SemanticDocument I × Importer I) :=
  let path := document.relativePath
  if document.occurrences.length > context.limits.maxOccurrencesPerDocument then .error (.scan .tooManyOccurrences)
  else if document.symbols.length > context.limits.maxSymbolsPerDocument then .error (.scan .tooManySymbols)
  else do
    let fileId := context.fileIds path
    let (conflicting, importer) := importer.conflictingLocals context document path
    -- of one symbol the last declaration counts
    let declaredKinds := ((document.symbols.filter (·.symbol ∉ conflicting)).map
      fun info => (info.symbol, context.kindOf info)).reverse
    let importer := { importer with conflicting := conflicting, declaredKinds := declaredKinds }
    let text := (context.sources path).orElse fun _ => if document.text = "" then none else some document.text
    let encoding := positionEncoding document.positionEncoding
    let bounds := Bounds.of text encoding
    let (occurrences, importer) ← importer.occurrences context document fileId bounds
    let (symbols, importer) ←
      collect (fun importer info => importer.symbol context info (some path) document.language fileId) importer document.symbols
    .ok (⟨path, document.language, encoding, fileId, occurrences, symbols⟩, importer)

/-- The loop of `import_scip` over the slices of documents. -/
def importDocuments (parse : List UInt8 → Option DocumentMessage) : Importer I → List String → List (List UInt8) →
    Except ImportReason (List (SemanticDocument I) × Importer I)
  | importer, _, [] => .ok ([], importer)
  | importer, seen, slice :: rest =>
    match parse slice with
    | none => .error (.scan .malformed)
    | some document =>
      let path := document.relativePath
      if Utf8.size path.toList > maxPathBytes ∨ !Indexing.isSafeRepoPath path then
        importDocuments parse (importer.diagnose .unsafePath none) seen rest
      else if path ∈ seen then importDocuments parse (importer.diagnose .duplicateDocument (some path)) seen rest
      else do
        let (kept, importer) ← importer.document context document
        let (others, importer) ← importDocuments parse importer (path :: seen) rest
        .ok (kept :: others, importer)

def Importer.externalSymbol (parse : List UInt8 → Option SymbolMessage) (importer : Importer I) (slice : List UInt8) :
    Except ImportReason (Option (SemanticSymbol I) × Importer I) :=
  match parse slice with
  | none => .error (.scan .malformed)
  | some info => importer.symbol context info none "" none

/-- What `import_scip` returns of the documents and external symbols. -/
structure Imported (I : Type) where
  documents : List (SemanticDocument I)
  externalSymbols : List (SemanticSymbol I)
  diagnostics : List ImportDiagnostic
deriving DecidableEq, Repr

/-- `import_scip`, from its slices on. -/
def importSlices (parseDocument : List UInt8 → Option DocumentMessage) (parseSymbol : List UInt8 → Option SymbolMessage)
    (documents externals : List (List UInt8)) : Except ImportReason (Imported I) := do
  let (documents, importer) ← importDocuments context parseDocument {} [] documents
  let (externalSymbols, importer) ←
    collect (fun importer slice => importer.externalSymbol context parseSymbol slice) importer externals
  .ok ⟨documents, externalSymbols, importer.diagnostics⟩

end Importing

end AgentContext.Scip
