import AgentContext.Lib.Locks
import AgentContext.Lib.Text
import AgentContext.Lib.Transition
import AgentContext.Search.Documents

/-!
# Indexing and purging

The PostgreSQL transactions of `SearchProjector`, any number of them at once, each statement reading what is committed
then and what its own transaction has written.

    index   check the tombstones (`_tombstoned`), read the documents (`_read_document`); lock their contents; check the
            tombstones again; upsert; commit
    purge   lock the contents; insert the tombstones; delete the documents; commit

A delivery may be repeated, and may fail before its commit.
-/

namespace Search

open Keyset Locking

/-! ## Events -/

/-- `ContentRefV1`. -/
structure ContentRef where
  contentId : String
  contentSha256 : String
  mediaType : String
  disposition : String
deriving DecidableEq, Repr

inductive Event where
  | content (eventType : String) (projectId repositoryId sessionId : Option String) (occurredAt : Int)
      (contentRefs : List ContentRef)
  | purged (purgedContents : List String) (purgedAt : Int)
deriving DecidableEq, Repr

/-- The ledger's events, the searchable text of stored bytes, and the hash of a lock's text. -/
structure Corpus (U T : Type) where
  event : U → Event
  text : String → String → String
  toTsvector : String → T
  lockHash : String → Int

/-- The media type without its parameters. -/
def mediaBase (mediaType : String) : List Char :=
  (Text.strip (mediaType.toList.takeWhile (· ≠ ';'))).map Char.toLower

/-- `_indexable`. -/
def indexable (ref : ContentRef) : Bool :=
  ref.disposition = "sanitized" &&
    (mediaBase ref.mediaType = "text/plain".toList || mediaBase ref.mediaType = "application/json".toList)

section Statements

variable {U T : Type} (corpus : Corpus U T)

/-- The references that an event indexes, in the order of their content ids. -/
def indexedRefs (u : U) : List ContentRef :=
  match corpus.event u with
  | .content _ (some _) (some _) _ _ refs => sortBy (·.contentId) (refs.filter indexable)
  | _ => []

/-- `_read_document`, for an event: none where there is no text. -/
def stated (u : U) (ref : ContentRef) : Option (Stated U) :=
  match corpus.event u with
  | .content eventType (some projectId) (some repositoryId) sessionId occurredAt _ =>
    let body := corpus.text ref.contentSha256 ref.mediaType
    if Text.strip body.toList = [] then none
    else
      some ⟨ref.contentId, u, eventType, projectId, repositoryId, sessionId, occurredAt, ref.disposition, ref.contentSha256,
        ref.mediaType, body⟩
  | _ => none

/-- What an event states of the contents it references. -/
def statements (u : U) : List (Stated U) := (indexedRefs corpus u).filterMap (stated corpus u)

end Statements

/-! ## Transactions -/

/-- How far the delivery of an event is. -/
inductive Stage (U T : Type) where
  | reading (left kept : List ContentRef)
  | locking (left : List String) (documents : List (Stated U))
  | writing (left written : List (Stated U)) (pending : List (String × Document U T))
  | purgeLocking (left contentIds : List String)
  | tombstoning (left contentIds : List String)
  | deleted (contentIds : List String)

structure Delivery (U T : Type) where
  event : U
  stage : Stage U T

/-- The tables, the locks, and the deliveries; `delivered` are the events whose index is committed. -/
structure World (U T : Type) where
  documents : String → Option (Document U T)
  tombstones : String → Option (U × Int)
  locks : Locks Int Nat
  deliveries : Nat → Option (Delivery U T)
  delivered : List U

inductive Act (U : Type) where
  | deliver (id : Nat) (event : U)
  | read (id : Nat)
  | lock (id : Nat)
  | check (id : Nat)
  | write (id : Nat)
  | tombstone (id : Nat)
  | delete (id : Nat)
  | commit (id : Nat)
  | fail (id : Nat)
deriving DecidableEq, Repr

section Step

variable {U T : Type} [LinearOrder U] (corpus : Corpus U T)

def World.start : World U T := ⟨fun _ => none, fun _ => none, Locks.free, fun _ => none, []⟩

/-- `CONTENT_LOCK_PREFIX` and the hash of the lock. -/
def lockKey (contentId : String) : Int := corpus.lockHash ("agent-context.search.content:" ++ contentId)

namespace World

variable (w : World U T)

def setDelivery (id : Nat) (delivery : Option (Delivery U T)) : World U T :=
  { w with deliveries := Function.update w.deliveries id delivery }

/-- The row of a content, as a transaction with these rows sees it. -/
def seen (pending : List (String × Document U T)) (contentId : String) : Option (Document U T) :=
  (pending.lookup contentId).or (w.documents contentId)

def release (id : Nat) : World U T := { w with locks := w.locks.releaseAll id }

def commitIndex (event : U) (pending : List (String × Document U T)) : World U T :=
  { w with documents := fun contentId => w.seen pending contentId, delivered := w.delivered ++ [event] }

/-- The commit of a purge: a content that is purged already keeps its tombstone. -/
def commitPurge (event : U) (purgedAt : Int) (contentIds : List String) : World U T :=
  { w with
    documents := fun contentId => if contentId ∈ contentIds then none else w.documents contentId
    tombstones := fun contentId =>
      if contentId ∈ contentIds then (w.tombstones contentId).or (some (event, purgedAt)) else w.tombstones contentId }

end World

/-- What a delivery does next in its transaction: another stage, or none where it raises. -/
def advance (w : World U T) (event : U) : Act U → Stage U T → Option (Stage U T)
  | .read _, .reading (ref :: left) kept =>
    if (w.tombstones ref.contentId).isSome then some (.reading left kept) else some (.reading left (kept ++ [ref]))
  | .read _, .reading [] kept =>
    let documents := kept.filterMap (stated corpus event)
    if documents.isEmpty then none else some (.locking (sortedSet (documents.map (·.contentId))) documents)
  | .check _, .locking [] documents =>
    some (.writing (documents.filter fun document => (w.tombstones document.contentId).isNone) [] [])
  | .write _, .writing (document :: left) written pending =>
    (upsert corpus.toTsvector (w.seen pending document.contentId) document).map fun row =>
      .writing left (written ++ [document]) ((document.contentId, row) :: pending)
  | .check _, .purgeLocking [] contentIds => some (.tombstoning contentIds contentIds)
  | .tombstone _, .tombstoning (_ :: left) contentIds => some (.tombstoning left contentIds)
  | .delete _, .tombstoning [] contentIds => some (.deleted contentIds)
  | _, _ => none

/-- The stage a delivery starts in. -/
def firstStage (u : U) : Stage U T :=
  match corpus.event u with
  | .content .. => .reading (indexedRefs corpus u) []
  | .purged contentIds _ => .purgeLocking (sortedSet contentIds) contentIds

/-- The content whose lock a delivery asks for, and the stage after it. -/
def nextLock : Stage U T → Option (String × Stage U T)
  | .locking (contentId :: left) documents => some (contentId, .locking left documents)
  | .purgeLocking (contentId :: left) contentIds => some (contentId, .purgeLocking left contentIds)
  | _ => none

def commitStage (w : World U T) (event : U) : Stage U T → Option (World U T)
  | .reading [] kept =>
    if (kept.filterMap (stated corpus event)).isEmpty then some { w with delivered := w.delivered ++ [event] } else none
  | .writing [] _ pending => some (w.commitIndex event pending)
  | .deleted contentIds =>
    match corpus.event event with
    | .purged _ purgedAt => some (w.commitPurge event purgedAt contentIds)
    | _ => none
  | _ => none

/-- A delivery goes on with its next statement; one that raises, or is not there yet, rolls back and gives its locks
back. -/
def proceed (w : World U T) (id : Nat) (act : Act U) : Option (World U T) :=
  (w.deliveries id).map fun delivery =>
    match advance corpus w delivery.event act delivery.stage with
    | some stage => w.setDelivery id (some { delivery with stage })
    | none => (w.setDelivery id none).release id

def step (w : World U T) (act : Act U) : Option (World U T) :=
  match act with
  | .deliver id event =>
    if (w.deliveries id).isSome then none else some (w.setDelivery id (some ⟨event, firstStage corpus event⟩))
  | .lock id =>
    match w.deliveries id with
    | some delivery =>
      match nextLock delivery.stage with
      | some (contentId, stage) =>
        (w.locks.acquire (lockKey corpus contentId) id).map fun locks =>
          ({ w with locks }).setDelivery id (some { delivery with stage })
      | none => none
    | none => none
  | .commit id =>
    match w.deliveries id with
    | some delivery => (commitStage corpus w delivery.event delivery.stage).map fun w' => (w'.setDelivery id none).release id
    | none => none
  | .fail id => (w.deliveries id).map fun _ => (w.setDelivery id none).release id
  | .read id => proceed corpus w id act
  | .check id => proceed corpus w id act
  | .write id => proceed corpus w id act
  | .tombstone id => proceed corpus w id act
  | .delete id => proceed corpus w id act

end Step

end Search
