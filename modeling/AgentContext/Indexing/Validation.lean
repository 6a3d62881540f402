import AgentContext.Indexing.Messages

/-!
# The gate of an adapter's answer

`validate_module` of `indexing/tree_sitter/base.py`: an answer names the files of its request, once each, and every name
and signature in it is text of the file it is about.

    SourceText         the identifier tokens of a file, and its text with white space collapsed
    _validate_file     what is checked of one file
    _finish            what is checked with the names of all files, and what is rewritten
    validate_module    the answer to a request
-/

namespace Indexing.Structural

open Fallible

/-! ## The text of a file -/

/-- `SourceFile.content`. -/
def SourceFile.content (file : SourceFile) : List UInt8 := (Base64.decode file.contentB64).getD []

def isWhitespace (b : UInt8) : Bool := b = 32 || (9 ≤ b && b ≤ 13)

/-- The first byte of an identifier. -/
def isIdentStart (b : UInt8) : Bool :=
  (65 ≤ b && b ≤ 90) || (97 ≤ b && b ≤ 122) || b = 95 || b = 36 || 128 ≤ b

def isIdentRest (b : UInt8) : Bool := isIdentStart b || (48 ≤ b && b ≤ 57)

/-- `_IDENT.fullmatch`. -/
def isIdent : List UInt8 → Bool
  | [] => false
  | b :: rest => isIdentStart b && rest.all isIdentRest

/-- `_IDENT.finditer`: the tokens from a position on, with the token that is being read. -/
def identTokens : Nat → Option (Nat × List UInt8) → List UInt8 → List (Nat × List UInt8)
  | _, none, [] => []
  | _, some (start, word), [] => [(start, word.reverse)]
  | position, none, b :: rest =>
    identTokens (position + 1) (if isIdentStart b then some (position, [b]) else none) rest
  | position, some (start, word), b :: rest =>
    if isIdentRest b then identTokens (position + 1) (some (start, b :: word)) rest
    else (start, word.reverse) :: identTokens (position + 1) none rest

/-- The text with each run of white space as one space, and the position of every byte of it; `inside` a run. -/
def collapse : Nat → Bool → List UInt8 → List (Nat × UInt8)
  | _, _, [] => []
  | position, inside, b :: rest =>
    if isWhitespace b then
      if inside then collapse (position + 1) true rest else (position, 32) :: collapse (position + 1) true rest
    else (position, b) :: collapse (position + 1) false rest

/-- `bytes.strip` of white space. -/
def stripSpace (bytes : List UInt8) : List UInt8 := ((bytes.dropWhile isWhitespace).reverse.dropWhile isWhitespace).reverse

/-- `_path_parts`. -/
def pathParts (path : String) : List (List UInt8) :=
  (path.toList.splitOn '/').flatMap fun piece => (piece :: piece.splitOn '.').map Utf8.encode

/-- `_SEPARATORS.split` of a qualified name. -/
def segments (qualifiedName : String) : List (List UInt8) := (splitName qualifiedName.toList []).map Utf8.encode

/-- `bisect_left` in an ascending list. -/
def bisectLeft (xs : List Nat) (x : Nat) : Nat := (xs.takeWhile (· < x)).length

/-- `content[start:stop]`. -/
def slice (content : List UInt8) (start stop : Nat) : List UInt8 := (content.drop start).take (stop - start)

/-- `_SourceText`. -/
structure SourceText where
  content : List UInt8
  tokens : List (Nat × List UInt8)
  pathParts : List (List UInt8)
  collapsed : List (Nat × UInt8)

def SourceText.of (path : String) (content : List UInt8) : SourceText where
  content := content
  tokens := identTokens 0 none content
  pathParts := Structural.pathParts path
  collapsed := collapse 0 false content

namespace SourceText

variable (text : SourceText)

/-- `_token_within`. -/
def tokenWithin (token : List UInt8) (start stop : Nat) : Bool :=
  match ((text.tokens.filter (·.2 = token)).map (·.1)).find? (start ≤ ·) with
  | some found => found + token.length ≤ stop
  | none => false

/-- `_string_content`. -/
def stringContent (start stop : Nat) : Bool :=
  if start = 0 then false
  else
    match text.content[start - 1]?, text.content[stop]? with
    | some quote, some closing =>
      (quote = 34 || quote = 39 || quote = 96) && closing = quote && quote ∉ slice text.content start stop
    | _, _ => false

/-- `path_ok`, after the charge. -/
def pathOk (targetName : String) (start stop : Nat) (qualifier : Bool) : Bool :=
  let index := bisectLeft (text.tokens.map (·.1)) start
  let cut := (text.tokens.take index).getLast?.any fun token => token.1 + token.2.length > start
  let wanted := (targetName.toList.splitOn '.').map Utf8.encode
  let names := (text.tokens.drop index).take wanted.length
  let next := (text.tokens.drop (index + wanted.length)).head?
  let separators := if qualifier && text.stringContent start stop then [[46], [47]] else [[46]]
  !cut && names.map (·.2) = wanted && names.all (fun token => token.1 + token.2.length ≤ stop) &&
    next.all (fun token => stop ≤ token.1) &&
    (names.zip names.tail).all fun (token, following) =>
      stripSpace (slice text.content (token.1 + token.2.length) following.1) ∈ separators

/-- `final_ok`, after the charge. -/
def finalOk (qualifiedName : String) (kind : SymbolKind) (start stop : Nat) : Bool :=
  let last := (segments qualifiedName).getLastD []
  (segments qualifiedName).all isIdent &&
    (text.tokenWithin last start stop || (kind = .module && last ∈ text.pathParts))

/-- `prefix_ok`. -/
def prefixOk (qualifiedName : String) (start stop : Nat) (finals paths : List (List UInt8)) : Bool :=
  let unbound := (segments qualifiedName).dropLast.filter fun raw => raw ∉ paths && raw ∉ finals
  unbound.all (text.tokenWithin · start stop) && unbound.length ≤ maxRangeBoundPrefix

/-- `signature_ok`. -/
def signatureOk (signature : String) (start stop : Nat) : Bool :=
  let needle := stripSpace ((collapse 0 false (Utf8.encode signature.toList)).map (·.2))
  let low := bisectLeft (text.collapsed.map (·.1)) start
  let high := bisectLeft (text.collapsed.map (·.1)) stop
  needle = [] || decide (needle <:+: ((text.collapsed.take high).drop low).map (·.2))

end SourceText

/-! ## One file -/

/-- `charge`. -/
def charge (nameBytes : Nat) (name : String) : Except StructuralErrorCode Nat :=
  let nameBytes := nameBytes + Utf8.size name.toList
  if nameBytes > maxNameTotalBytes then .error .countExceeded else .ok nameBytes

/-- The variables of the loop over symbols. -/
structure Declared where
  nameBytes : Nat := 0
  refs : List (String × (Nat × Nat)) := []
  declarations : List (String × SymbolKind × Nat × Nat) := []

def checkSymbol (text : SourceText) (language : String) (declared : Declared) (symbol : ParsedSymbol) :
    Except StructuralErrorCode Declared :=
  if symbol.language ≠ language then .error .languageMismatch
  else if symbol.endByte > text.content.length then .error .rangeOutOfBounds
  else do
    let nameBytes ← charge declared.nameBytes symbol.qualifiedName
    let declaration := (symbol.qualifiedName, symbol.kind, symbol.startByte, symbol.endByte)
    if !text.finalOk symbol.qualifiedName symbol.kind symbol.startByte symbol.endByte ||
        !text.signatureOk symbol.signature symbol.startByte symbol.endByte then .error .textNotInSource
    else if symbol.ref ∈ declared.refs.map (·.1) ∨ declaration ∈ declared.declarations then .error .duplicateSymbol
    else
      .ok ⟨nameBytes, declared.refs ++ [(symbol.ref, (symbol.startByte, symbol.endByte))],
        declared.declarations ++ [declaration]⟩

/-- The sources of the relations so far are counted. -/
def checkRelation (size : Nat) (declared : Declared) (sources : List String) (relation : StructuralRelation) :
    Except StructuralErrorCode (List String) :=
  if sources.count relation.sourceRef + 1 > maxRelationsPerSymbol then .error .countExceeded
  else if relation.endByte > size then .error .rangeOutOfBounds
  else if relation.sourceRef ∉ declared.refs.map (·.1) ∨ relation.targetRef ∉ declared.refs.map (·.1) then
    .error .danglingRelation
  else .ok (relation.sourceRef :: sources)

/-- A second name of a reference with its range. -/
def span (name : Option String) (start stop : Option Nat) : Option (String × Nat × Nat) :=
  match name, start, stop with
  | some name, some start, some stop => some (name, start, stop)
  | _, _, _ => none

def ParsedReference.qualifierSpan (reference : ParsedReference) : Option (String × Nat × Nat) :=
  span reference.qualifier reference.qualifierStartByte reference.qualifierEndByte

def ParsedReference.aliasSpan (reference : ParsedReference) : Option (String × Nat × Nat) :=
  span reference.alias_ reference.aliasStartByte reference.aliasEndByte

/-- Two references of one key are one; where an alias ends is not in the key. -/
def ParsedReference.key (reference : ParsedReference) : ParsedReference :=
  { reference with source := none, aliasEndByte := none, confidence := .syntactic }

/-- The variables of the loop over references. -/
structure Referred where
  nameBytes : Nat
  sources : List (Option String) := []
  seen : List ParsedReference := []

def referenceLimit (source : Option String) : Nat := if source = none then maxModuleReferences else maxReferencesPerSymbol

/-- `path_ok` of a name, with its charge. -/
def checkName (text : SourceText) (nameBytes : Nat) (name : String) (start stop : Nat) (qualifier : Bool) :
    Except StructuralErrorCode Nat := do
  let nameBytes ← charge nameBytes name
  if text.pathOk name start stop qualifier then .ok nameBytes else .error .textNotInSource

/-- `path_ok` of a second name. -/
def checkSpan (text : SourceText) (nameBytes : Nat) (qualifier : Bool) :
    Option (String × Nat × Nat) → Except StructuralErrorCode Nat
  | none => .ok nameBytes
  | some (name, start, stop) => checkName text nameBytes name start stop qualifier

/-- The range a reference must lie in: that of its source, or the file. -/
def sourceRange (declared : Declared) (size : Nat) : Option String → Except StructuralErrorCode (Nat × Nat)
  | none => .ok (0, size)
  | some source =>
    match declared.refs.lookup source with
    | none => .error .danglingRelation
    | some range => .ok range

def checkReference (text : SourceText) (declared : Declared) (referred : Referred) (reference : ParsedReference) :
    Except StructuralErrorCode Referred :=
  if referred.sources.count reference.source + 1 > referenceLimit reference.source then .error .countExceeded
  else do
    let (low, high) ← sourceRange declared text.content.length reference.source
    let outside : Option (String × Nat × Nat) → Bool := fun span => span.any fun (_, start, stop) => stop > high || start < low
    -- an alias is a token of its own
    let overlaps := reference.aliasSpan.any fun (_, start, stop) =>
      ((reference.startByte, reference.endByte) :: (reference.qualifierSpan.map (·.2)).toList).any fun other =>
        start < other.2 && other.1 < stop
    if reference.endByte > high ∨ reference.startByte < low ∨ outside reference.qualifierSpan ∨
        outside reference.aliasSpan ∨ overlaps then .error .rangeOutOfBounds
    else if reference.key ∈ referred.seen then .error .duplicateReference
    else do
      let nameBytes ← checkName text referred.nameBytes reference.targetName reference.startByte reference.endByte false
      let nameBytes ← checkSpan text nameBytes true reference.qualifierSpan
      let nameBytes ← checkSpan text nameBytes false reference.aliasSpan
      .ok ⟨nameBytes, reference.source :: referred.sources, reference.key :: referred.seen⟩

/-- `_validate_file`. -/
def validateFile (parsed : Answer) (content : List UInt8) : Except StructuralErrorCode SourceText :=
  if parsed.symbols.length > maxSymbolsPerFile ∨ parsed.relations.length > maxRelationsPerFile ∨
      parsed.references.length > maxReferencesPerFile then .error .countExceeded
  else do
    let text := SourceText.of parsed.path content
    let declared ← parsed.symbols.foldlM (checkSymbol text parsed.language) {}
    let _ ← parsed.relations.foldlM (checkRelation content.length declared) []
    let _ ← parsed.references.foldlM (checkReference text declared) { nameBytes := declared.nameBytes }
    .ok text

/-! ## The answer to a request -/

/-- The names of the symbols, that segments of other names may repeat. -/
def finalsOf (files : List Answer) : List (List UInt8) :=
  files.flatMap fun parsed => parsed.symbols.map fun symbol => (segments symbol.qualifiedName).getLastD []

def pathsOf (request : List SourceFile) : List (List UInt8) := request.flatMap fun file => pathParts file.path

/-- The place of a symbol among those of its name and kind. -/
def ordinal (symbols : List ParsedSymbol) (number : Nat) (symbol : ParsedSymbol) : Nat :=
  (symbols.zipIdx.filter fun (other, n) => decide (other.qualifiedName = symbol.qualifiedName ∧ other.kind = symbol.kind ∧
    toLex (other.startByte, toLex (other.endByte, n)) < toLex (symbol.startByte, toLex (symbol.endByte, number)))).length

def numberOf (symbols : List ParsedSymbol) (ref : String) : String := toString (symbols.findIdx (·.ref = ref))

/-- `_finish`; `rehash` is `rehash_opaque`. -/
def finish (rehash : String → String → String) (finals paths : List (List UInt8)) (parsed : Answer) (text : SourceText) :
    Except StructuralErrorCode Answer :=
  if ∃ symbol ∈ parsed.symbols, ¬ text.prefixOk symbol.qualifiedName symbol.startByte symbol.endByte finals paths then
    .error .textNotInSource
  else
    .ok { parsed with
      symbols := parsed.symbols.zipIdx.map fun (symbol, number) =>
        { symbol with
          ref := toString number
          disambiguator := toString (ordinal parsed.symbols number symbol)
          signatureDigest := rehash "signature_digest" symbol.signatureDigest
          semanticFingerprint := rehash "semantic_fingerprint" symbol.semanticFingerprint }
      relations := parsed.relations.map fun relation =>
        { relation with
          sourceRef := numberOf parsed.symbols relation.sourceRef
          targetRef := numberOf parsed.symbols relation.targetRef }
      references := parsed.references.map fun reference =>
        { reference with source := reference.source.map (numberOf parsed.symbols) } }

/-- One turn of the loop over the files: the files seen, each with its text. -/
def checkFile (request : List SourceFile) (fingerprint : String) (seen : List (Answer × SourceText)) (parsed : Answer) :
    Except StructuralErrorCode (List (Answer × SourceText)) :=
  match request.find? (·.path = parsed.path) with
  | none => .error .pathMismatch
  | some source =>
    if parsed.path ∈ seen.map (·.1.path) then .error .pathMismatch
    else if parsed.language ≠ source.language then .error .languageMismatch
    else if parsed.parserFingerprint ≠ fingerprint then .error .fingerprintMismatch
    else do
      let text ← validateFile parsed source.content
      .ok (seen ++ [(parsed, text)])

/-- `validate_module`. -/
def validateModule (rehash : String → String → String) (request : List SourceFile) (files : List Answer)
    (fingerprint : String) : Except StructuralErrorCode (List Answer) := do
  let seen ← files.foldlM (checkFile request fingerprint) []
  if ∃ source ∈ request, source.path ∉ seen.map (·.1.path) then .error .pathMismatch
  else seen.mapM fun (parsed, text) => finish rehash (finalsOf files) (pathsOf request) parsed text

end Indexing.Structural
