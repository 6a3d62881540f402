import AgentContext.Indexing.Imports
import AgentContext.Indexing.Structural
import AgentContext.Lib.JsonDump

/-!
# What an adapter answers

The values of `indexing/tree_sitter/base.py`: symbols, relations and references of a file, what the models accept, and
their JSON.
-/

namespace Indexing.Structural

/-! ## Values -/

inductive SymbolKind | function | method | class_ | interface | type | variable | constant | module | field | property
deriving DecidableEq, Repr

def SymbolKind.value : SymbolKind → String
  | .function => "function"
  | .method => "method"
  | .class_ => "class"
  | .interface => "interface"
  | .type => "type"
  | .variable => "variable"
  | .constant => "constant"
  | .module => "module"
  | .field => "field"
  | .property => "property"

inductive RelationKind | calls | imports | inherits | references | contains
deriving DecidableEq, Repr

def RelationKind.value : RelationKind → String
  | .calls => "calls"
  | .imports => "imports"
  | .inherits => "inherits"
  | .references => "references"
  | .contains => "contains"

def ReferenceKind.value : ReferenceKind → String
  | .imports => "import"
  | .call => "call"
  | .inherit => "inherit"

inductive ReferenceConfidence | syntactic | heuristic
deriving DecidableEq, Repr

def ReferenceConfidence.value : ReferenceConfidence → String
  | .syntactic => "syntactic"
  | .heuristic => "heuristic"

/-- `EVIDENCE_KIND`, the only value of the `evidence_kind` fields. -/
def evidenceKind : String := "tree_sitter"

structure ParsedSymbol where
  ref : String
  language : String
  qualifiedName : String
  kind : SymbolKind
  disambiguator : String := ""
  startByte : Nat
  endByte : Nat
  signature : String
  signatureDigest : String
  semanticFingerprint : String
deriving DecidableEq, Repr

structure StructuralRelation where
  sourceRef : String
  targetRef : String
  kind : RelationKind
  startByte : Nat
  endByte : Nat
deriving DecidableEq, Repr

structure ParsedReference where
  source : Option String
  kind : ReferenceKind
  targetName : String
  relativeLevel : Nat
  startByte : Nat
  endByte : Nat
  qualifier : Option String
  qualifierStartByte : Option Nat
  qualifierEndByte : Option Nat
  alias_ : Option String
  aliasStartByte : Option Nat
  aliasEndByte : Option Nat
  confidence : ReferenceConfidence
deriving DecidableEq, Repr

/-- What resolution reads of a reference. -/
def ParsedReference.toReference (parsed : ParsedReference) : Reference :=
  ⟨parsed.source, parsed.kind, parsed.targetName, parsed.relativeLevel, parsed.startByte, parsed.qualifier,
    parsed.alias_⟩

/-- The answer to one file. -/
abbrev Answer : Type := ParsedFile ParsedSymbol StructuralRelation ParsedReference

/-- `DIAGNOSTIC_CODES`. -/
def diagnosticCodes : List String :=
  ["work_budget_exceeded", "syntax_recovered", "symbols_dropped", "references_capped", "file_degraded"]

/-! ## Bounds -/

def maxOutputBytes : Nat := 8 * 1024 * 1024
def maxSymbolsPerFile : Nat := 10000
def maxRelationsPerFile : Nat := 50000
def maxNameBytes : Nat := 512
def maxSignatureBytes : Nat := 512
def maxNameTotalBytes : Nat := 256 * 1024
def maxRelationsPerSymbol : Nat := 64
def maxReferencesPerFile : Nat := 50000
def maxReferencesPerSymbol : Nat := 64
def maxModuleReferences : Nat := 4096
def maxRelativeLevel : Nat := 16
def maxDiagnosticCount : Nat := 1000
def maxRangeBoundPrefix : Nat := 1

/-- `OUTPUT_BUDGET` of `_common.py`. -/
def outputBudget : Nat := maxOutputBytes - 1048576

/-! ## What the models accept -/

def isLowerHex (c : Char) : Bool := c.isDigit || ('a' ≤ c && c ≤ 'f')

/-- `_DIGEST`. -/
def isDigest (s : String) : Bool := s.length = 64 && s.toList.all isLowerHex

/-- `_REF`. -/
def isRef (s : String) : Bool := 1 ≤ s.length && s.length ≤ 6 && s.toList.all Char.isDigit

/-- `_DISAMBIGUATOR`. -/
def isDisambiguator (s : String) : Bool := s.length ≤ 6 && s.toList.all Char.isDigit

/-- `Language`. -/
def isLanguage (s : String) : Bool :=
  s.length ≤ 32 &&
    match s.toList with
    | [] => false
    | c :: rest => c.isLower && rest.all fun c => c.isLower || c.isDigit || c = '_' || c = '+' || c = '-'

/-- `Text` of a bounded number of bytes. -/
def isText (limit : Nat) (s : String) : Bool :=
  s.toList.all (fun c => 32 ≤ c.toNat && c.toNat ≠ 127) && Utf8.size s.toList ≤ limit

/-- A name: `Text` that is not empty. -/
def isName (s : String) : Bool := 1 ≤ s.length && isText maxNameBytes s

def ParsedSymbol.valid (symbol : ParsedSymbol) : Bool :=
  isRef symbol.ref && isLanguage symbol.language && isName symbol.qualifiedName &&
    isDisambiguator symbol.disambiguator && isText maxSignatureBytes symbol.signature &&
    isDigest symbol.signatureDigest && isDigest symbol.semanticFingerprint && symbol.startByte < symbol.endByte

def StructuralRelation.valid (relation : StructuralRelation) : Bool :=
  isRef relation.sourceRef && isRef relation.targetRef && relation.startByte < relation.endByte

/-- A second name and both ends of its range, or none of them. -/
def validSpan (name : Option String) (start stop : Option Nat) : Bool :=
  match name, start, stop with
  | none, none, none => true
  | some name, some start, some stop => isName name && start < stop
  | _, _, _ => false

def ParsedReference.valid (reference : ParsedReference) : Bool :=
  reference.source.all isRef && isName reference.targetName && reference.relativeLevel ≤ maxRelativeLevel &&
    reference.startByte < reference.endByte &&
    (reference.confidence = .heuristic) = (reference.kind = .call) &&
    (reference.alias_ = none || reference.kind = .imports) &&
    validSpan reference.alias_ reference.aliasStartByte reference.aliasEndByte &&
    reference.alias_.all (fun name => '.' ∉ name.toList) &&
    validSpan reference.qualifier reference.qualifierStartByte reference.qualifierEndByte

def ParsedDiagnostic.valid (diagnostic : ParsedDiagnostic) : Bool :=
  decide (diagnostic.code ∈ diagnosticCodes) && 1 ≤ diagnostic.count && diagnostic.count ≤ maxDiagnosticCount

/-- A file without symbols, relations and references. -/
def ParsedFile.structureless {S R F : Type} (parsed : ParsedFile S R F) : Bool :=
  parsed.symbols.isEmpty && parsed.relations.isEmpty && parsed.references.isEmpty

/-- `ParsedFile`, as its model validates it. -/
def Answer.valid (parsed : Answer) : Bool :=
  let codes := parsed.diagnostics.map (·.code)
  isRepoPath parsed.path && isLanguage parsed.language && isDigest parsed.parserFingerprint &&
    parsed.symbols.all (·.valid) && parsed.relations.all (·.valid) && parsed.references.all (·.valid) &&
    parsed.diagnostics.all (·.valid) && decide (codes.length ≤ diagnosticCodes.length) && decide codes.Nodup &&
    (decide ("file_degraded" ∉ codes) || (2 ≤ codes.length && parsed.structureless))

/-! ## JSON -/

open JsonDump

def ParsedSymbol.dump (symbol : ParsedSymbol) : List Char :=
  object [("ref", str symbol.ref), ("language", str symbol.language), ("qualified_name", str symbol.qualifiedName),
    ("kind", str symbol.kind.value), ("disambiguator", str symbol.disambiguator), ("start_byte", nat symbol.startByte),
    ("end_byte", nat symbol.endByte), ("signature", str symbol.signature),
    ("signature_digest", str symbol.signatureDigest), ("semantic_fingerprint", str symbol.semanticFingerprint),
    ("evidence_kind", str evidenceKind)]

def StructuralRelation.dump (relation : StructuralRelation) : List Char :=
  object [("source_ref", str relation.sourceRef), ("target_ref", str relation.targetRef),
    ("kind", str relation.kind.value), ("start_byte", nat relation.startByte), ("end_byte", nat relation.endByte),
    ("evidence_kind", str evidenceKind)]

def ParsedReference.dump (reference : ParsedReference) : List Char :=
  object [("source", option str reference.source), ("kind", str (ReferenceKind.value reference.kind)),
    ("target_name", str reference.targetName), ("relative_level", nat reference.relativeLevel),
    ("start_byte", nat reference.startByte), ("end_byte", nat reference.endByte),
    ("qualifier", option str reference.qualifier), ("qualifier_start_byte", option nat reference.qualifierStartByte),
    ("qualifier_end_byte", option nat reference.qualifierEndByte), ("alias", option str reference.alias_),
    ("alias_start_byte", option nat reference.aliasStartByte), ("alias_end_byte", option nat reference.aliasEndByte),
    ("evidence_kind", str evidenceKind), ("confidence", str reference.confidence.value)]

def ParsedDiagnostic.dump (diagnostic : ParsedDiagnostic) : List Char :=
  object [("code", str diagnostic.code), ("count", nat diagnostic.count)]

/-- `ParsedFile.model_dump_json`. -/
def Answer.dump (parsed : Answer) : List Char :=
  object [("path", str parsed.path), ("language", str parsed.language),
    ("parser_fingerprint", str parsed.parserFingerprint), ("symbols", array (parsed.symbols.map (·.dump))),
    ("relations", array (parsed.relations.map (·.dump))), ("references", array (parsed.references.map (·.dump))),
    ("diagnostics", array (parsed.diagnostics.map (·.dump)))]

/-- `ParsedModule.model_dump_json`. -/
def dumpModule (files : List Answer) : List Char :=
  object [("protocol_version", nat 2), ("files", array (files.map Answer.dump))]

end Indexing.Structural
