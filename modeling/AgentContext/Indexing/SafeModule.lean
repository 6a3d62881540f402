import AgentContext.Indexing.Validation

/-!
# Shedding

`safe_module` of `indexing/tree_sitter/_common.py`: every file of a request is answered, with less and less structure
where the whole answer would grow too large.
-/

namespace Indexing.Structural

open JsonDump

/-! ## Requests -/

/-- `SourceFile`, as its model validates it. -/
def SourceFile.valid (file : SourceFile) : Bool :=
  isRepoPath file.path && isLanguage file.language &&
    (Base64.decode file.contentB64).any fun content => content.length ≤ maxSourceBytes

/-- `ParseRequest`. -/
structure ParseRequest where
  files : List SourceFile
  nonempty : 1 ≤ files.length
  bounded : files.length ≤ maxInputFiles
  unique : (files.map (·.path)).Nodup
  valid : ∀ file ∈ files, file.valid

/-! ## Answers -/

/-- `diagnostics`: the counts in the order of the codes, up to the greatest count. -/
def diagnostics (counts : String → Nat) : List ParsedDiagnostic :=
  (diagnosticCodes.filter fun code => 0 < counts code).map fun code => ⟨code, min (counts code) maxDiagnosticCount⟩

/-- `degraded_file`. -/
def degradedFile (source : SourceFile) (fingerprint reason : String) : Answer where
  path := source.path
  language := source.language
  parserFingerprint := fingerprint
  symbols := []
  relations := []
  references := []
  diagnostics := diagnostics fun code => if code = "file_degraded" ∨ code = reason then 1 else 0

/-- The counts of a file as a dictionary: the last of a code counts. -/
def countOf (parsed : Answer) (code : String) : Nat :=
  ((parsed.diagnostics.filter (·.code = code)).getLast?.map (·.count)).getD 0

/-- The diagnostics of `_shed`. -/
def cappedBy (parsed : Answer) (dropped : Nat) : List ParsedDiagnostic :=
  diagnostics fun code => if code = "references_capped" then countOf parsed code + dropped else countOf parsed code

/-- `_shed(parsed, "references", …)`. -/
def shedReferences (parsed : Answer) : Answer :=
  { parsed with references := [], diagnostics := cappedBy parsed parsed.references.length }

/-- `_shed(parsed, "relations", …)`. -/
def shedRelations (parsed : Answer) : Answer :=
  { parsed with relations := [], diagnostics := cappedBy parsed parsed.relations.length }

/-- `_reductions`. -/
def reductions (parsed refused : Answer) : List Answer :=
  let shed := if parsed.references = [] then parsed else shedReferences parsed
  parsed :: (if parsed.references = [] then [] else [shed]) ++ (if shed.relations = [] then [] else [shedRelations shed]) ++
    [refused]

/-! ## One file after another -/

inductive FileOutcome
  | parsed (parsed : Answer)
  | workBudgetExceeded
  /-- A `ValidationError` or a `StructuralError`. -/
  | refused

/-- A parse function: it may read and change the state `A` of the adapter, its budget and clock, and the charged output. -/
abbrev ParseFile (A : Type) : Type := SourceFile → A → Nat → FileOutcome × A × Nat

/-- The variables of `safe_module`. -/
structure Batch (A : Type) where
  adapter : A
  output : Nat
  total : Nat
  files : List Answer

section Batch

variable {A : Type} (rehash : String → String → String) (newFile : A → A) (parseFile : ParseFile A) (fingerprint : String)

/-- The file after the `try`: an answer without structure is not validated. -/
def attempt (source : SourceFile) : FileOutcome → Answer
  | .parsed parsed =>
    if parsed.structureless then parsed
    else
      match validateModule rehash [source] [parsed] fingerprint with
      | .ok _ => parsed
      | .error _ => degradedFile source fingerprint "symbols_dropped"
  | .workBudgetExceeded => degradedFile source fingerprint "work_budget_exceeded"
  | .refused => degradedFile source fingerprint "symbols_dropped"

/-- The answer is kept as it was given: else the charged output goes back to the mark. -/
def keeps (source : SourceFile) : FileOutcome → Bool
  | .parsed parsed => parsed.structureless || (validateModule rehash [source] [parsed] fingerprint).toBool
  | _ => false

/-- The first reduction that fits, or the last one. -/
def fit (total : Nat) (parsed refused : Answer) : Answer :=
  ((reductions parsed refused).find? fun reduced => total + reduced.dump.length ≤ outputBudget).getD refused

/-- What the parse function does with a file, after `budget.new_file()`. -/
def Batch.outcome (batch : Batch A) (source : SourceFile) : FileOutcome :=
  (parseFile source (newFile batch.adapter) batch.output).1

/-- One turn of `safe_module`. -/
def Batch.add (batch : Batch A) (source : SourceFile) : Batch A :=
  let (outcome, adapter, output) := parseFile source (newFile batch.adapter) batch.output
  let refused := degradedFile source fingerprint "symbols_dropped"
  let reduced := fit batch.total (attempt rehash fingerprint source outcome) refused
  { adapter := adapter
    output := if keeps rehash fingerprint source outcome then output else batch.output
    total := batch.total + reduced.dump.length
    files := batch.files ++ [reduced] }

/-- `safe_module`, from the state of an adapter. -/
def safeModule (adapter : A) (files : List SourceFile) : Batch A :=
  files.foldl (Batch.add rehash newFile parseFile fingerprint) ⟨adapter, 0, 0, []⟩

end Batch

end Indexing.Structural
