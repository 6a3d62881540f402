import AgentContext.Indexing.Identity
import AgentContext.Lib.Base64
import Mathlib.Data.List.DropRight

/-!
# Structural parsing

`indexing/emitter.py` and `indexing/registry.py`: the sources go to the adapter of their language in requests of at most
64 files.  A request that fails is split in two while the runs for that last; a file that the budget of a shared request
cut short is asked for once more, alone.

    language_for_path   the language of an extension
    _chunks             the requests of one language
    _parse_bisecting    one request, and the halves of it where it fails
    _parse_solo         one file alone
    parse_structural    all sources

What an adapter answers may depend on the runs before; `Progress.runs` holds all of them.
-/

namespace Indexing.Structural

open Fallible Table

/-! ## Languages -/

/-- The fields of `LanguageSupport` that parsing reads. -/
structure LanguageSupport where
  language : String
  extensions : List String
  maxRequestSourceBytes : Nat
deriving DecidableEq, Repr

def defaultRequestSourceBytes : Nat := 1048576

/-- `_ENTRIES`. -/
def entries : List LanguageSupport :=
  [⟨"python", [".py", ".pyi"], defaultRequestSourceBytes⟩,
    ⟨"typescript", [".ts", ".tsx", ".js", ".jsx", ".mjs", ".cjs"], 524288⟩,
    ⟨"go", [".go"], 524288⟩]

/-- `PurePosixPath(path).suffix`. -/
def suffix (path : String) : String :=
  let name := (((path.toList.splitOn '/').filter fun part => part ≠ [] ∧ part ≠ ['.']).getLast?).getD []
  let tail := (name.reverse.takeWhile (· ≠ '.')).reverse
  if '.' ∈ name ∧ 1 < name.length - tail.length ∧ tail ≠ [] then String.ofList ('.' :: tail) else ""

/-- `support_for`. -/
def supportFor (language : String) : Option LanguageSupport := entries.find? (·.language = language)

/-- `_request_budget`. -/
def requestBudget (language : String) : Nat :=
  match supportFor language with
  | none => defaultRequestSourceBytes
  | some support => support.maxRequestSourceBytes

/-! ## Messages -/

inductive StructuralErrorCode where
  | invalidRequest
  | inputTooLarge
  | spawnFailed
  | sandboxUnavailable
  | unsafeReadSet
  | timeout
  | outputTooLarge
  | stderrTooLarge
  | nonzeroExit
  | malformedOutput
  | schemaViolation
  | pathMismatch
  | languageMismatch
  | fingerprintMismatch
  | rangeOutOfBounds
  | danglingRelation
  | duplicateSymbol
  | countExceeded
  | textNotInSource
  | duplicateReference
deriving DecidableEq, Repr

def StructuralErrorCode.value : StructuralErrorCode → String
  | .invalidRequest => "invalid_request"
  | .inputTooLarge => "input_too_large"
  | .spawnFailed => "spawn_failed"
  | .sandboxUnavailable => "sandbox_unavailable"
  | .unsafeReadSet => "unsafe_read_set"
  | .timeout => "timeout"
  | .outputTooLarge => "output_too_large"
  | .stderrTooLarge => "stderr_too_large"
  | .nonzeroExit => "nonzero_exit"
  | .malformedOutput => "malformed_output"
  | .schemaViolation => "schema_violation"
  | .pathMismatch => "path_mismatch"
  | .languageMismatch => "language_mismatch"
  | .fingerprintMismatch => "fingerprint_mismatch"
  | .rangeOutOfBounds => "range_out_of_bounds"
  | .danglingRelation => "dangling_relation"
  | .duplicateSymbol => "duplicate_symbol"
  | .countExceeded => "count_exceeded"
  | .textNotInSource => "text_not_in_source"
  | .duplicateReference => "duplicate_reference"

/-- `_ENVIRONMENTAL_CODES`. -/
def environmentalCodes : List StructuralErrorCode :=
  [.invalidRequest, .inputTooLarge, .spawnFailed, .sandboxUnavailable, .unsafeReadSet]

def maxSourceBytes : Nat := 1048576

def maxInputFiles : Nat := 64

structure SourceFile where
  path : String
  language : String
  contentB64 : List Char
deriving DecidableEq, Repr

/-- `RepoPath`. -/
def isRepoPath (path : String) : Bool := 1 ≤ path.length && path.length ≤ 4096 && isSafeRepoPath path

/-- What is raised: a refusal of the adapter, or a message that is not valid. -/
inductive Raised where
  | structural (code : StructuralErrorCode)
  | validation
deriving DecidableEq, Repr

/-- `_source_length`. -/
def sourceLength (file : SourceFile) : Nat :=
  let padding := file.contentB64.length - (file.contentB64.rdropWhile (· = '=')).length
  file.contentB64.length / 4 * 3 - padding

structure ParsedDiagnostic where
  code : String
  count : Nat
deriving DecidableEq, Repr

/-- `ParsedFile`, over the symbols, relations and references of an adapter. -/
structure ParsedFile (S R F : Type) where
  path : String
  language : String
  parserFingerprint : String
  symbols : List S
  relations : List R
  references : List F
  diagnostics : List ParsedDiagnostic
deriving DecidableEq, Repr

section Parsing

variable {S R F : Type}

/-- `_budget_degraded`. -/
def budgetDegraded (parsed : ParsedFile S R F) : Bool := parsed.diagnostics.any (·.code = "work_budget_exceeded")

/-- `_degraded`. -/
def degraded (fingerprint : String → String) (file : SourceFile) : ParsedFile S R F where
  path := file.path
  language := file.language
  parserFingerprint := fingerprint file.language
  symbols := []
  relations := []
  references := []
  diagnostics := [⟨"file_degraded", 1⟩, ⟨"work_budget_exceeded", 1⟩]

/-! ## Requests -/

/-- `_chunks`, with a request begun. -/
def chunksFrom (budget : Nat) : List SourceFile → List SourceFile → Nat → List (List SourceFile)
  | [], chunk, _ => if chunk ≠ [] then [chunk] else []
  | item :: rest, chunk, size =>
    let length := sourceLength item
    if chunk ≠ [] ∧ (maxInputFiles ≤ chunk.length ∨ budget < size + length) then
      chunk :: chunksFrom budget rest [item] length
    else chunksFrom budget rest (chunk ++ [item]) (size + length)

/-- `_chunks`. -/
def chunks (files : List SourceFile) (budget : Nat) : List (List SourceFile) := chunksFrom budget files [] 0

/-- What the adapters answer: that of a language, to its files, after so many runs. -/
abbrev Adapters (S R F : Type) : Type :=
  String → Nat → List SourceFile → Except StructuralErrorCode (List (ParsedFile S R F))

/-- A run of an adapter. -/
structure Run (S R F : Type) where
  language : String
  files : List SourceFile
  answer : Except StructuralErrorCode (List (ParsedFile S R F))

/-- What a call has made so far. -/
structure Progress (S R F : Type) where
  out : List (ParsedFile S R F)
  diagnostics : Dict String Nat
  remaining : Nat
  runs : List (Run S R F)

/-- `diagnostics[key] += n`. -/
def Progress.count (progress : Progress S R F) (key : String) (n : Nat) : Progress S R F :=
  { progress with diagnostics := progress.diagnostics.insert key ((progress.diagnostics.lookup key).getD 0 + n) }

variable (adapters : Adapters S R F) (fingerprint : String → String)

/-- `adapter.parse(ParseRequest(files))`. -/
def request (language : String) (files : List SourceFile) (progress : Progress S R F) :
    Except (Raised × Progress S R F) (Except StructuralErrorCode (List (ParsedFile S R F)) × Progress S R F) :=
  if 1 ≤ files.length ∧ files.length ≤ maxInputFiles ∧ (files.map (·.path)).Nodup then
    let answer := adapters language progress.runs.length files
    .ok (answer, { progress with runs := progress.runs ++ [⟨language, files, answer⟩] })
  else .error (.validation, progress)

/-- The requests, language by language. -/
def batches (files : List SourceFile) : List (String × List SourceFile) :=
  (items (groupAll (·.language) files)).flatMap fun entry =>
    (chunks entry.2 (requestBudget entry.1)).map (entry.1, ·)

end Parsing

end Indexing.Structural
