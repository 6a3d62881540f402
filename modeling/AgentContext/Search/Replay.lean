import AgentContext.Lib.Bindings
import AgentContext.Projection.Rows
import AgentContext.Search.System

/-!
# The check before a replay

An in-place rebuild resets the tables, wipes the graph and replays the delivered events.  `check_replay` reads first what
the replay will read.

    replay         `project` of each delivered event that the projector handles, in the order of the outbox
    checkReplay    every reference of each delivered event, whether the projector handles it or not
-/

namespace Search

open Keyset Bindings Projection

/-! ## The ledger and the outbox -/

/-- `StoredEventV1`: what the projector and the check read of it. -/
structure LedgerEvent where
  eventType : String
  projectId : Option String
  repositoryId : Option String
  sessionId : Option String
  occurredAt : Int
  recordedAt : Int
  contentRefs : List ContentRef
  purgedContents : List String
  purgedAt : Int
deriving DecidableEq, Repr

/-- `EmbeddingProvider`, which does not fail. -/
structure Embedder (V : Type) where
  modelId : String
  modelRevision : String
  embed : String → V × Bool

/-- The ledger, the stored content and the projector.  `readable` is false where `ContentService.read` raises
`ContentUnavailableError`; `text` is `extract_text` of the bytes of a digest. -/
structure Source (U T V : Type) where
  ledger : List U
  event : U → LedgerEvent
  indexedEventTypes : List String
  readable : U → ContentRef → Bool
  text : String → String → String
  toTsvector : String → T
  embeddings : Option (Embedder V)

/-- `projection.outbox`: its rows are of events in the ledger. -/
structure Outbox {U T V : Type} (source : Source U T V) where
  rows : List (Nat × U × OutboxStatus)
  references : ∀ row ∈ rows, row.2.1 ∈ source.ledger

def contentPurgedType : String := "content.purged"

section Rules

variable {U T V : Type} (source : Source U T V)

/-- `handles`. -/
def handles (eventType : String) : Bool := source.indexedEventTypes.contains eventType || eventType = contentPurgedType

/-- `_scope`. -/
def scopeOf (event : LedgerEvent) : Option (String × String) :=
  match event.projectId, event.repositoryId with
  | some projectId, some repositoryId => some (projectId, repositoryId)
  | _, _ => none

/-- The purge events of a content in the ledger. -/
def purgesOf (contentId : String) : List U :=
  source.ledger.filter fun u =>
    (source.event u).eventType = contentPurgedType && (source.event u).purgedContents.contains contentId

/-- `_ledger_purges`. -/
def ledgerPurged (contentId : String) : Bool := !(purgesOf source contentId).isEmpty

variable {source} in
theorem ledgerPurged_of {u : U} {c : String} (hledger : u ∈ source.ledger)
    (htype : (source.event u).eventType = contentPurgedType) (hc : c ∈ (source.event u).purgedContents) :
    ledgerPurged source c = true := by
  have hmem : u ∈ purgesOf source c := List.mem_filter.2 ⟨hledger, by simp [htype, hc]⟩
  unfold ledgerPurged
  cases hlist : purgesOf source c with
  | nil =>
    rw [hlist] at hmem
    cases hmem
  | cons v vs => rfl

/-- The events of `_DELIVERED_PAGE`, all pages, in the order of the outbox. -/
def deliveredEvents (outbox : Outbox source) : List U :=
  (sortBy (·.1) (outbox.rows.filter fun row => row.2.2 = .delivered)).map (·.2.1)

/-- What `_read_document` makes of a reference. -/
inductive Reading (U : Type) where
  | unavailable
  | blank
  | text (document : Stated U)
deriving DecidableEq, Repr

/-- `_read_document`, with what the event states of the content. -/
def readDocument (u : U) (scope : String × String) (ref : ContentRef) : Reading U :=
  let event := source.event u
  let body := source.text ref.contentSha256 ref.mediaType
  if source.readable u ref = false then .unavailable
  else if Text.strip body.toList = [] then .blank
  else
    .text ⟨ref.contentId, u, event.eventType, scope.1, scope.2, event.sessionId, event.occurredAt, ref.disposition,
      ref.contentSha256, ref.mediaType, body⟩

/-! ## The replay -/

/-- A `ContentEmbedding` node. -/
structure EmbeddingNode (U V : Type) where
  modelId : String
  modelRevision : String
  contentSha256 : String
  mediaType : String
  truncated : Bool
  projectId : String
  repositoryId : String
  sourceEventIds : List U
  embedding : V

structure Tables (U T V : Type) where
  documents : String → Option (Document U T)
  tombstones : String → Option (U × Int)
  nodes : String → Option (EmbeddingNode U V)

/-- Why the projector refuses an event. -/
inductive Refusal where
  | contentUnavailable
  | scopeConflict
  | contentConflict
deriving DecidableEq, Repr

variable [LinearOrder U]

/-- `reset_search_projection`, and the wipe of the graph. -/
def reset (tables : Tables U T V) : Tables U T V where
  documents _ := none
  tombstones contentId :=
    if ledgerPurged source contentId then
      (tables.tombstones contentId).or ((leastBy (fun u => toLex ((source.event u).recordedAt, u))
        (purgesOf source contentId)).map fun u => (u, (source.event u).purgedAt))
    else none
  nodes _ := none

/-- The documents of an event's references, in order: none of a purged content, none without text. -/
def readDocuments (tables : Tables U T V) (u : U) (scope : String × String) :
    List ContentRef → Except Refusal (List (Stated U))
  | [] => .ok []
  | ref :: refs =>
    if (tables.tombstones ref.contentId).isSome then readDocuments tables u scope refs
    else
      match readDocument source u scope ref with
      | .unavailable => .error .contentUnavailable
      | .blank => readDocuments tables u scope refs
      | .text document => (readDocuments tables u scope refs).map (document :: ·)

/-- `_raise_conflict`. -/
def conflict (existing : Option (Document U T)) (document : Stated U) : Refusal :=
  match existing with
  | none => .scopeConflict
  | some row =>
    if row.projectId = document.projectId ∧ row.repositoryId = document.repositoryId then .contentConflict
    else .scopeConflict

/-- One document of the transaction: purged meanwhile, written, or refused. -/
def writeDocument (tables : Tables U T V) (document : Stated U) : Except Refusal (Tables U T V) :=
  let contentId := document.contentId
  if (tables.tombstones contentId).isSome then .ok tables
  else
    match upsert source.toTsvector (tables.documents contentId) document with
    | some row => .ok { tables with documents := Function.update tables.documents contentId (some row) }
    | none => .error (conflict (tables.documents contentId) document)

/-- `_UPSERT_EMBEDDING`. -/
def embeddingNode (embedder : Embedder V) (existing : Option (EmbeddingNode U V)) (document : Stated U) :
    EmbeddingNode U V where
  modelId := embedder.modelId
  modelRevision := embedder.modelRevision
  contentSha256 := document.contentSha256
  mediaType := document.mediaType
  truncated := (embedder.embed document.body).2
  projectId := (existing.map (·.projectId)).getD document.projectId
  repositoryId := (existing.map (·.repositoryId)).getD document.repositoryId
  sourceEventIds := sortedSet ((existing.map (·.sourceEventIds)).getD [] ++ [document.eventId])
  embedding := (embedder.embed document.body).1

/-- `_check_embedding_identity` and `_UPSERT_EMBEDDING`. -/
def writeEmbedding (embedder : Embedder V) (tables : Tables U T V) (document : Stated U) : Except Refusal (Tables U T V) :=
  let contentId := document.contentId
  let existing := tables.nodes contentId
  if existing.any fun node => !(node.projectId = document.projectId && node.repositoryId = document.repositoryId) then
    .error .scopeConflict
  else if existing.any fun node => !(node.contentSha256 = document.contentSha256 && node.mediaType = document.mediaType) then
    .error .contentConflict
  else .ok { tables with nodes := Function.update tables.nodes contentId (some (embeddingNode embedder existing document)) }

/-- `_index_documents` and the graph statements after it. -/
def indexEvent (tables : Tables U T V) (u : U) (scope : String × String) (refs : List ContentRef) :
    Except Refusal (Tables U T V) := do
  let documents ← readDocuments source tables u scope refs
  let written := documents.filter fun document => (tables.tombstones document.contentId).isNone
  let tables ← documents.foldlM (writeDocument source) tables
  match source.embeddings with
  | none => pure tables
  | some embedder => written.foldlM (writeEmbedding embedder) tables

/-- `_purge`. -/
def purge (tables : Tables U T V) (u : U) (event : LedgerEvent) : Tables U T V where
  documents contentId := if contentId ∈ event.purgedContents then none else tables.documents contentId
  tombstones contentId :=
    if contentId ∈ event.purgedContents then (tables.tombstones contentId).or (some (u, event.purgedAt))
    else tables.tombstones contentId
  nodes contentId := if contentId ∈ event.purgedContents then none else tables.nodes contentId

/-- `project`. -/
def project (tables : Tables U T V) (u : U) : Except Refusal (Tables U T V) :=
  let event := source.event u
  if event.eventType = contentPurgedType then .ok (purge tables u event)
  else
    match scopeOf event with
    | none => .ok tables
    | some scope => indexEvent source tables u scope (sortBy (·.contentId) (event.contentRefs.filter indexable))

/-- `replay_ledger` of the delivered events, with this projector. -/
def replay (outbox : Outbox source) (tables : Tables U T V) : Except Refusal (Tables U T V) :=
  ((deliveredEvents source outbox).filter fun u => handles source (source.event u).eventType).foldlM (project source) tables

end Rules

/-! ## The check -/

/-- `(project_id, repository_id, content_sha256, media_type)`. -/
abbrev Identity : Type := String × String × String × String

def identityOf {U : Type} (document : Stated U) : Identity :=
  (document.projectId, document.repositoryId, document.contentSha256, document.mediaType)

structure CheckState where
  identities : String → Option Identity
  checked : Nat
  unreadable : Nat
  conflicting : Nat

/-- `SearchReplayIntegrityError`: counts only. -/
structure ReplayIntegrityError where
  unreadable : Nat
  conflicting : Nat
deriving DecidableEq, Repr

section Check

variable {U T V : Type} (source : Source U T V)

/-- One reference of a delivered event. -/
def checkRef (u : U) (scope : String × String) (state : CheckState) (ref : ContentRef) : CheckState :=
  if !indexable ref || ledgerPurged source ref.contentId then state
  else
    match readDocument source u scope ref with
    | .unavailable => { state with unreadable := state.unreadable + 1 }
    | .blank => state
    | .text document =>
      match state.identities ref.contentId with
      | none =>
        { state with
          identities := Function.update state.identities ref.contentId (some (identityOf document))
          checked := state.checked + 1 }
      | some identity =>
        if identity = identityOf document then { state with checked := state.checked + 1 }
        else { state with conflicting := state.conflicting + 1 }

def checkEvent (state : CheckState) (u : U) : CheckState :=
  match scopeOf (source.event u) with
  | none => state
  | some scope => (source.event u).contentRefs.foldl (checkRef source u scope) state

/-- `check_replay`. -/
def checkReplay (outbox : Outbox source) : Except ReplayIntegrityError Nat :=
  let state := (deliveredEvents source outbox).foldl (checkEvent source) ⟨fun _ => none, 0, 0, 0⟩
  if state.unreadable ≠ 0 ∨ state.conflicting ≠ 0 then .error ⟨state.unreadable, state.conflicting⟩
  else .ok state.checked

end Check

end Search
