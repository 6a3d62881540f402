import AgentContext.Lib.PropertyGraph
import Mathlib.Data.Prod.Lex
import Mathlib.Data.String.Basic

/-!
# Code events and the facts they write

The eight `code.*` events and the statements the code projector runs for each: which nodes and relationships it
merges, which properties it fills once, which keep the smallest value, and where it records the event as a source.

    run events        started, completed, file, coverage, symbol, observed     name an index run
    assertion events  relation, dependency                                      do not

The graph is that of one repository, so the `repository_id` that every statement carries is left out.  A target is
known by its node id: a commit's starts with `commit:`, a snapshot's does not.
-/

namespace Code

open PropertyGraph

/-- A `timestamp`: fixed-width UTC text, so string order is time order. -/
abbrev Moment := String

/-- `_run_key`: the index id and the target.  Index ids are digests of one length, so the order of the texts
`index|target` is the order of the pairs. -/
abbrev RunKey := String ×ₗ String

def runKey (indexId targetId : String) : RunKey := toLex (indexId, targetId)

/-- `event_order`. -/
abbrev EventOrder := Moment ×ₗ String

/-! ## Payloads -/

inductive CodeRelationPredicate where
  | calls
  | references
  | imports
  | defines
  | possiblySupersedes
  | dependsOn
  | other (name : String)
deriving DecidableEq, Repr

inductive EvidenceKind where
  | scip
  | git
  | test
  | treeSitter
  | other (name : String)
deriving DecidableEq, Repr

inductive CodeAssertionFamily where
  | relation
  | dependency
deriving DecidableEq, Repr

structure CodeIndexStarted where
  indexId : String
  target : String
deriving DecidableEq, Repr

structure CodeIndexCompleted where
  indexId : String
  target : String
  success : Bool
  errorClass : Option String
deriving DecidableEq, Repr

structure CodeFileIndexed where
  indexId : String
  target : String
  fileId : String
  fileRevisionId : String
  path : String
  moduleId : String
  contentSha256 : String
  language : String
  extractorName : String
  extractorVersion : String
deriving DecidableEq, Repr

structure CodeFileCoverageReported where
  indexId : String
  target : String
  fileId : String
  fileRevisionId : String
  complete : Bool
  losses : List String
deriving DecidableEq, Repr

structure CodeSymbolIndexed where
  indexId : String
  target : String
  fileId : String
  fileRevisionId : String
  symbolId : String
  symbolRevisionId : String
  qualifiedName : String
  kind : String
  signatureFingerprintSha256 : Option String
  semanticFingerprintSha256 : Option String
  extractorName : String
  extractorVersion : String
  scipSymbol : Option String
deriving DecidableEq, Repr

structure CodeAssertionObserved where
  indexId : String
  target : String
  fileId : String
  fileRevisionId : String
  assertionId : String
  assertionFamily : CodeAssertionFamily
deriving DecidableEq, Repr

/-- What relation and dependency assertions both carry.  A confidence is only compared and copied. -/
structure Asserted where
  assertionId : String
  evidenceKind : EvidenceKind
  deterministic : Bool
  extractorName : String
  extractorVersion : String
  confidence : Nat
  validFrom : Moment
  validTo : Option Moment
  reviewStatus : String
deriving DecidableEq, Repr

structure CodeRelationAsserted extends Asserted where
  subjectId : String
  predicate : CodeRelationPredicate
  objectId : Option String
deriving DecidableEq, Repr

structure CodeDependencyAsserted extends Asserted where
  dependentId : String
  dependencyId : String
  dependencyKind : String
  requirement : Option String
  resolvedVersion : Option String
deriving DecidableEq, Repr

inductive Payload where
  | indexStarted (p : CodeIndexStarted)
  | indexCompleted (p : CodeIndexCompleted)
  | fileIndexed (p : CodeFileIndexed)
  | fileCoverageReported (p : CodeFileCoverageReported)
  | symbolIndexed (p : CodeSymbolIndexed)
  | assertionObserved (p : CodeAssertionObserved)
  | relationAsserted (p : CodeRelationAsserted)
  | dependencyAsserted (p : CodeDependencyAsserted)
deriving DecidableEq, Repr

structure Event where
  eventId : String
  occurredAt : Moment
  observedAt : Moment
  payload : Payload
deriving DecidableEq, Repr

def Event.run (e : Event) : Option RunKey :=
  match e.payload with
  | .indexStarted p => some (runKey p.indexId p.target)
  | .indexCompleted p => some (runKey p.indexId p.target)
  | .fileIndexed p => some (runKey p.indexId p.target)
  | .fileCoverageReported p => some (runKey p.indexId p.target)
  | .symbolIndexed p => some (runKey p.indexId p.target)
  | .assertionObserved p => some (runKey p.indexId p.target)
  | .relationAsserted _ => none
  | .dependencyAsserted _ => none

/-- Started and completed events re-derive everything. -/
def Event.everything (e : Event) : Bool :=
  match e.payload with
  | .indexStarted _ => true
  | .indexCompleted _ => true
  | _ => false

/-! ## Nodes and relationships -/

/-- What a statement merges on: a node's label and id, or a relationship's ends and its keyed properties. -/
inductive Key where
  | repository
  | target (targetId : String)
  | file (fileId : String)
  | fileRevision (revisionId : String)
  | moduleNode (moduleId : String)
  | symbol (symbolId : String)
  | symbolRevision (symbolRevisionId : String)
  | assertion (assertionId : String)
  | dependency (dependencyId : String)
  | inRepository (node : Key)
  | dependsOn (assertionId dependencyId : String)
  | indexed (run : RunKey)
  | completed (run : RunKey) (eventId : String)
  | memberOf (revisionId : String) (run : RunKey)
  | coveredIn (revisionId : String) (run : RunKey) (eventId : String)
  | definedIn (symbolRevisionId revisionId indexId : String)
  | observedIn (assertionId revisionId indexId : String)
deriving DecidableEq

inductive Value where
  | text (s : String)
  | flag (b : Bool)
  | number (n : Nat)
  | texts (ss : List String)
  | order (o : EventOrder)
  | predicate (p : CodeRelationPredicate)
  | evidence (k : EvidenceKind)
  | family (f : CodeAssertionFamily)
deriving DecidableEq

abbrev Entry := Entity String Value Moment String

abbrev FactStore := Store Key String Value Moment String

/-- `node_statement`: the identity alone. -/
def nodeStatement : Entry := Entity.blank

/-- `fill_once`. -/
def fillOnce (props : List (String × Option Value)) : Entry :=
  ⟨fun p => (props.lookup p).join, fun _ => none, ∅⟩

/-- `_fact_statement`: filled properties, then `min_non_null`, then the provenance. -/
def factStatement (props : List (String × Option Value)) (least : List (String × Moment)) (eventId : String) :
    Entry :=
  ⟨fun p => (props.lookup p).join, fun p => least.lookup p, {eventId}⟩

/-- `relationship_statement`: the provenance alone. -/
def relationshipStatement (eventId : String) : Entry := factStatement [] [] eventId

/-! ## The writes of an event -/

/-- The head of `_write_run_event`: the repository, the target, and the run between them. -/
def runStatement (e : Event) (run : RunKey) : List (Key × Entry) :=
  [(.repository, nodeStatement),
   (.target (ofLex run).2, nodeStatement),
   (.indexed run, factStatement [] [("occurred_at", e.occurredAt), ("observed_at", e.observedAt)] e.eventId)]

def completedStatement (e : Event) (p : CodeIndexCompleted) : Key × Entry :=
  (.completed (runKey p.indexId p.target) e.eventId,
   factStatement
     [("success", some (.flag p.success)),
      ("error_class", p.errorClass.map .text),
      ("event_order", some (.order (toLex (e.occurredAt, e.eventId)))),
      ("occurred_at", some (.text e.occurredAt)),
      ("observed_at", some (.text e.observedAt))]
     [] e.eventId)

/-- `_FILE_REVISION`: a stub with the file it is a revision of. -/
def fileRevisionStub (revisionId fileId : String) : Key × Entry :=
  (.fileRevision revisionId, fillOnce [("file_id", some (.text fileId))])

/-- `_write_file`. -/
def writeFile (e : Event) (p : CodeFileIndexed) : List (Key × Entry) :=
  [(.fileRevision p.fileRevisionId,
    fillOnce
      [("file_id", some (.text p.fileId)),
       ("content_sha256", some (.text p.contentSha256)),
       ("language", some (.text p.language)),
       ("extractor_name", some (.text p.extractorName)),
       ("extractor_version", some (.text p.extractorVersion))]),
   (.file p.fileId, nodeStatement),
   (.moduleNode p.moduleId, nodeStatement),
   (.inRepository (.file p.fileId), relationshipStatement e.eventId),
   (.inRepository (.moduleNode p.moduleId), relationshipStatement e.eventId),
   (.memberOf p.fileRevisionId (runKey p.indexId p.target),
    factStatement
      [("file_id", some (.text p.fileId)), ("path", some (.text p.path)), ("module_id", some (.text p.moduleId))]
      [("occurred_at", e.occurredAt), ("observed_at", e.observedAt)] e.eventId)]

def writeCoverage (e : Event) (p : CodeFileCoverageReported) : List (Key × Entry) :=
  [fileRevisionStub p.fileRevisionId p.fileId,
   (.file p.fileId, nodeStatement),
   (.coveredIn p.fileRevisionId (runKey p.indexId p.target) e.eventId,
    factStatement
      [("complete", some (.flag p.complete)),
       ("losses", some (.texts p.losses)),
       ("event_order", some (.order (toLex (e.occurredAt, e.eventId))))]
      [("observed_at", e.observedAt)] e.eventId)]

/-- The claim a symbol or an assertion event makes for a file revision. -/
def claimStatement (e : Event) (target : String) : Entry :=
  factStatement [("claim_target", some (.text target))]
    [("observed_at", e.observedAt), ("occurred_at", e.occurredAt)] e.eventId

/-- `_write_symbol`. -/
def writeSymbol (e : Event) (p : CodeSymbolIndexed) : List (Key × Entry) :=
  [(.symbol p.symbolId, nodeStatement),
   (.inRepository (.symbol p.symbolId), relationshipStatement e.eventId),
   (.symbolRevision p.symbolRevisionId,
    fillOnce
      [("symbol_id", some (.text p.symbolId)),
       ("qualified_name", some (.text p.qualifiedName)),
       ("kind", some (.text p.kind)),
       ("signature_fingerprint_sha256", p.signatureFingerprintSha256.map .text),
       ("semantic_fingerprint_sha256", p.semanticFingerprintSha256.map .text),
       ("extractor_name", some (.text p.extractorName)),
       ("extractor_version", some (.text p.extractorVersion)),
       ("scip_symbol", p.scipSymbol.map .text)]),
   fileRevisionStub p.fileRevisionId p.fileId,
   (.definedIn p.symbolRevisionId p.fileRevisionId p.indexId, claimStatement e p.target)]

def writeObservation (e : Event) (p : CodeAssertionObserved) : List (Key × Entry) :=
  [(.assertion p.assertionId, fillOnce [("family", some (.family p.assertionFamily))]),
   fileRevisionStub p.fileRevisionId p.fileId,
   (.observedIn p.assertionId p.fileRevisionId p.indexId, claimStatement e p.target)]

/-- `_ASSERTION`. -/
def assertionStatement (e : Event) (family : CodeAssertionFamily) (subjectId : String)
    (predicate : CodeRelationPredicate) (objectId : Option String) (p : Asserted)
    (dependencyKind requirement resolvedVersion : Option String) : Key × Entry :=
  (.assertion p.assertionId,
   factStatement
     [("family", some (.family family)),
      ("subject_id", some (.text subjectId)),
      ("predicate", some (.predicate predicate)),
      ("object_id", objectId.map .text),
      ("evidence_kind", some (.evidence p.evidenceKind)),
      ("deterministic", some (.flag p.deterministic)),
      ("extractor_name", some (.text p.extractorName)),
      ("extractor_version", some (.text p.extractorVersion)),
      ("confidence", some (.number p.confidence)),
      ("valid_from", some (.text p.validFrom)),
      ("asserted_valid_to", p.validTo.map .text),
      ("review_status", some (.text p.reviewStatus)),
      ("dependency_kind", dependencyKind.map .text),
      ("requirement", requirement.map .text),
      ("resolved_version", resolvedVersion.map .text)]
     [("recorded_from", e.observedAt), ("source_event_id", e.eventId)] e.eventId)

/-- `_write_assertion`. -/
def writeRelation (e : Event) (p : CodeRelationAsserted) : List (Key × Entry) :=
  [(.repository, nodeStatement),
   assertionStatement e .relation p.subjectId p.predicate p.objectId p.toAsserted none none none]

/-- `_write_assertion`, for a dependency. -/
def writeDependency (e : Event) (p : CodeDependencyAsserted) : List (Key × Entry) :=
  [(.repository, nodeStatement),
   assertionStatement e .dependency p.dependentId .dependsOn (some p.dependencyId) p.toAsserted
     (some p.dependencyKind) p.requirement p.resolvedVersion,
   (.dependency p.dependencyId, nodeStatement),
   (.dependsOn p.assertionId p.dependencyId, relationshipStatement e.eventId)]

/-- What `CodeProjector.project` writes before it derives. -/
def factWrites (e : Event) : List (Key × Entry) :=
  match e.payload with
  | .indexStarted p => runStatement e (runKey p.indexId p.target)
  | .indexCompleted p => runStatement e (runKey p.indexId p.target) ++ [completedStatement e p]
  | .fileIndexed p => runStatement e (runKey p.indexId p.target) ++ writeFile e p
  | .fileCoverageReported p => runStatement e (runKey p.indexId p.target) ++ writeCoverage e p
  | .symbolIndexed p => runStatement e (runKey p.indexId p.target) ++ writeSymbol e p
  | .assertionObserved p => runStatement e (runKey p.indexId p.target) ++ writeObservation e p
  | .relationAsserted p => writeRelation e p
  | .dependencyAsserted p => writeDependency e p

def factsOf (events : List Event) : FactStore := Store.written (events.flatMap factWrites)

end Code
