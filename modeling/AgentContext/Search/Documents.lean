import AgentContext.Lib.Keyset
import Mathlib.Data.Prod.Lex

/-!
# Search documents

`_UPSERT_DOCUMENT`: one row for each content, fed by every event that references it.

    upsert       a row with one more event, refused where the content's identity differs
    Describes    the row of a set of events: fields of the least (occurred_at, event id), the sorted set of their ids

    Describes stated row → upsert row new = some row' → Describes (stated ++ [new]) row'      (Describes.upsert)
    the row depends on the events alone                                                        (Describes.unique)
-/

namespace Search

open Keyset

/-- What an event states of a content it references: a row of the `VALUES`. -/
structure Stated (U : Type) where
  contentId : String
  eventId : U
  eventType : String
  projectId : String
  repositoryId : String
  sessionId : Option String
  occurredAt : Int
  redaction : String
  contentSha256 : String
  mediaType : String
  body : String
deriving DecidableEq, Repr

/-- A row of `retrieval.search_documents`. -/
structure Document (U T : Type) where
  contentId : String
  eventId : U
  sourceEventIds : List U
  eventType : String
  projectId : String
  repositoryId : String
  sessionId : Option String
  occurredAt : Int
  redaction : String
  contentSha256 : String
  mediaType : String
  tsv : T
deriving DecidableEq, Repr

variable {U T : Type} [LinearOrder U] (toTsvector : String → T)

/-- `(occurred_at, event_id)`. -/
def Stated.key (stated : Stated U) : Int ×ₗ U := toLex (stated.occurredAt, stated.eventId)

def Document.key (document : Document U T) : Int ×ₗ U := toLex (document.occurredAt, document.eventId)

/-- The row that the first event inserts. -/
def insertDocument (new : Stated U) : Document U T where
  contentId := new.contentId
  eventId := new.eventId
  sourceEventIds := [new.eventId]
  eventType := new.eventType
  projectId := new.projectId
  repositoryId := new.repositoryId
  sessionId := new.sessionId
  occurredAt := new.occurredAt
  redaction := new.redaction
  contentSha256 := new.contentSha256
  mediaType := new.mediaType
  tsv := toTsvector new.body

/-- The condition of the update. -/
def SameIdentity (row : Document U T) (new : Stated U) : Prop :=
  row.projectId = new.projectId ∧ row.repositoryId = new.repositoryId ∧ row.contentSha256 = new.contentSha256 ∧
    row.mediaType = new.mediaType

instance (row : Document U T) (new : Stated U) : Decidable (SameIdentity row new) := by
  unfold SameIdentity
  infer_instance

/-- The row that a later event updates. -/
def updateDocument (row : Document U T) (new : Stated U) : Document U T :=
  let earlier := new.key < row.key
  { row with
    eventId := if earlier then new.eventId else row.eventId
    eventType := if earlier then new.eventType else row.eventType
    sessionId := if earlier then new.sessionId else row.sessionId
    redaction := if earlier then new.redaction else row.redaction
    occurredAt := min row.occurredAt new.occurredAt
    sourceEventIds := sortedSet (row.sourceEventIds ++ [new.eventId])
    tsv := toTsvector new.body }

/-- `_UPSERT_DOCUMENT`: none where no row is returned. -/
def upsert (row : Option (Document U T)) (new : Stated U) : Option (Document U T) :=
  match row with
  | none => some (insertDocument toTsvector new)
  | some row => if SameIdentity row new then some (updateDocument toTsvector row new) else none

/-! ## What a row says -/

/-- The events that state a content are one ledger's: an id is one event, the bytes of a digest and media type have one
text. -/
structure Coherent (stated : List (Stated U)) : Prop where
  event : ∀ s ∈ stated, ∀ s' ∈ stated, s.eventId = s'.eventId →
    s.eventType = s'.eventType ∧ s.sessionId = s'.sessionId ∧ s.occurredAt = s'.occurredAt ∧ s.redaction = s'.redaction
  body : ∀ s ∈ stated, ∀ s' ∈ stated, s.contentSha256 = s'.contentSha256 → s.mediaType = s'.mediaType → s.body = s'.body

/-- The row of the events that state a content. -/
structure Describes (stated : List (Stated U)) (row : Document U T) : Prop where
  /-- The event fields are those of the least event. -/
  least : ∃ s ∈ stated, (∀ s' ∈ stated, s.key ≤ s'.key) ∧ row.eventId = s.eventId ∧ row.eventType = s.eventType ∧
    row.sessionId = s.sessionId ∧ row.occurredAt = s.occurredAt ∧ row.redaction = s.redaction
  sources : row.sourceEventIds = sortedSet (stated.map (·.eventId))
  content : ∀ s ∈ stated, s.contentId = row.contentId ∧ SameIdentity row s ∧ row.tsv = toTsvector s.body

variable {toTsvector} {stated stated' : List (Stated U)} {row row' : Document U T} {new : Stated U}

theorem describes_insert (new : Stated U) : Describes toTsvector [new] (insertDocument toTsvector new) where
  least := ⟨new, List.mem_singleton_self _, fun s' hs' => le_of_eq (congrArg Stated.key (List.mem_singleton.1 hs').symm), rfl,
    rfl, rfl, rfl, rfl⟩
  sources := by simp [insertDocument, sortedSet]
  content := fun s hs => by
    rw [List.mem_singleton.1 hs]
    exact ⟨rfl, ⟨rfl, rfl, rfl, rfl⟩, rfl⟩

/-- One more event. -/
theorem Describes.update (h : Describes toTsvector stated row) (hcoherent : Coherent (stated ++ [new]))
    (hcontent : new.contentId = row.contentId) (hsame : SameIdentity row new) :
    Describes toTsvector (stated ++ [new]) (updateDocument toTsvector row new) where
  least := by
    obtain ⟨s, hs, hleast, hid, htype, hsession, hoccurred, hredaction⟩ := h.least
    have hkey : row.key = s.key := by
      unfold Document.key Stated.key
      rw [hid, hoccurred]
    by_cases hearlier : new.key < row.key
    · refine ⟨new, List.mem_append_right _ (List.mem_singleton_self _), fun s' hs' => ?_, ?_⟩
      · rcases List.mem_append.1 hs' with hs' | hs'
        · exact le_trans (le_of_lt (hkey ▸ hearlier)) (hleast s' hs')
        · rw [List.mem_singleton.1 hs']
      · have hmin : min row.occurredAt new.occurredAt = new.occurredAt := by
          refine min_eq_right ?_
          rcases Prod.Lex.lt_iff.1 hearlier with hlt | ⟨heq, -⟩
          · exact le_of_lt hlt
          · exact le_of_eq heq
        simp only [updateDocument, if_pos hearlier, hmin, and_self]
    · refine ⟨s, List.mem_append_left _ hs, fun s' hs' => ?_, ?_⟩
      · rcases List.mem_append.1 hs' with hs' | hs'
        · exact hleast s' hs'
        · rw [List.mem_singleton.1 hs', ← hkey]
          exact not_lt.1 hearlier
      · have hmin : min row.occurredAt new.occurredAt = row.occurredAt := by
          refine min_eq_left ?_
          rcases Prod.Lex.le_iff.1 (not_lt.1 hearlier) with hlt | ⟨heq, -⟩
          · exact le_of_lt hlt
          · exact le_of_eq heq
        simp only [updateDocument, if_neg hearlier, hmin]
        exact ⟨hid, htype, hsession, hoccurred, hredaction⟩
  sources := by
    show sortedSet (row.sourceEventIds ++ [new.eventId]) = _
    refine sortedSet_congr fun a => ?_
    rw [h.sources, List.mem_append, mem_sortedSet, List.map_append, List.mem_append]
    rfl
  content := fun s hs => by
    rcases List.mem_append.1 hs with hs' | hs'
    · obtain ⟨hid, hidentity, -⟩ := h.content s hs'
      have hbody := hcoherent.body s hs new (List.mem_append_right _ (List.mem_singleton_self _))
        (hidentity.2.2.1.symm.trans hsame.2.2.1) (hidentity.2.2.2.symm.trans hsame.2.2.2)
      exact ⟨hid, hidentity, congrArg toTsvector hbody.symm⟩
    · rw [List.mem_singleton.1 hs']
      exact ⟨hcontent, hsame, rfl⟩

/-- The row of the same events is the same, in whatever order and however often they came. -/
theorem Describes.unique (h : Describes toTsvector stated row) (h' : Describes toTsvector stated' row')
    (hcoherent : Coherent stated) (hmem : ∀ s, s ∈ stated ↔ s ∈ stated') : row = row' := by
  obtain ⟨s, hs, hleast, hid, htype, hsession, hoccurred, hredaction⟩ := h.least
  obtain ⟨s', hs', hleast', hid', htype', hsession', hoccurred', hredaction'⟩ := h'.least
  have hkey : s.key = s'.key := le_antisymm (hleast s' ((hmem s').2 hs')) (hleast' s ((hmem s).1 hs))
  have heventId : s.eventId = s'.eventId := congrArg (fun k => (ofLex k).2) hkey
  obtain ⟨htypes, hsessions, hoccurreds, hredactions⟩ := hcoherent.event s hs s' ((hmem s').2 hs') heventId
  have hsources : row.sourceEventIds = row'.sourceEventIds := by
    rw [h.sources, h'.sources]
    refine sortedSet_congr fun a => ?_
    rw [List.mem_map, List.mem_map]
    exact exists_congr fun t => and_congr_left' (hmem t)
  obtain ⟨hcontent, ⟨hproject, hrepository, hsha, hmedia⟩, htsv⟩ := h.content s hs
  obtain ⟨hcontent', ⟨hproject', hrepository', hsha', hmedia'⟩, htsv'⟩ := h'.content s ((hmem s).1 hs)
  cases row
  cases row'
  simp only [Document.mk.injEq] at *
  exact ⟨hcontent.symm.trans hcontent', hid.trans (heventId.trans hid'.symm), hsources,
    htype.trans (htypes.trans htype'.symm), hproject.trans hproject'.symm, hrepository.trans hrepository'.symm,
    hsession.trans (hsessions.trans hsession'.symm), hoccurred.trans (hoccurreds.trans hoccurred'.symm),
    hredaction.trans (hredactions.trans hredaction'.symm), hsha.trans hsha'.symm, hmedia.trans hmedia'.symm,
    htsv.trans htsv'.symm⟩

end Search
