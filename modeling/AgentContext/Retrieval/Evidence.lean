import AgentContext.Lib.Keyset
import Mathlib.Data.Rat.Defs
import Mathlib.Data.String.Basic

/-!
# Evidence for a page

`EvidenceLedger.events` and the renderer of a page: ranked candidates become items that cite the stored events they
name.

    events     the newest `maxEventsPerLoad` of the events asked for, those that may be cited
    load       asks for the events that a window of `loadWindow` candidates cites, once
    render     the item of a candidate, unless none of its events is there

The store is read at one snapshot; the SDK's models (a reference that validates, the JSON of an item) are fields of
`Sources`.
-/

namespace Retrieval

open Keyset

structure Citation where
  eventId : String
  evidenceKind : String
  confidence : Rat
  validFrom : Option Int
  validTo : Option Int
  revisionId : Option String
  contentId : Option String
deriving DecidableEq, Repr

/-- What a page reads of a `_Candidate`: its excerpt names an event, and a content or none. -/
structure Candidate where
  itemId : String
  kind : String
  title : String
  body : String
  citations : List Citation
  excerpt : Option (String × Option String)
deriving DecidableEq, Repr

/-- `UUID` and `str`. -/
structure UuidText (U : Type) where
  parse : String → Option U
  text : U → String
  parse_text : ∀ u, parse (text u) = some u

/-- `ContextItemV1`. -/
structure ContextItem (R : Type) where
  itemId : String
  kind : String
  title : String
  content : String
  evidence : List R
deriving DecidableEq, Repr

structure Sources (U E R : Type) where
  uuid : UuidText U
  /-- The event of an id: delivered up to the snapshot, verified, in the scope. -/
  found : U → Option E
  /-- `scope.admits`. -/
  admits : E → Bool
  eventId : E → String
  /-- `snippets` of one event and content. -/
  snippet : E → Option String → Option String
  /-- `evidence_ref`. -/
  ref : E → Citation → Option R
  refJson : R → String
  itemJson : ContextItem R → String
  /-- A character of the Unicode categories C and Z. -/
  blank : Char → Bool

variable {U E R : Type} [LinearOrder U]

/-! ## Loading events -/

/-- `MAX_EVENTS_PER_LOAD`. -/
def maxEventsPerLoad : Nat := 1000

/-- `LOAD_WINDOW`. -/
def loadWindow : Nat := 50

structure LoadedEvents (E : Type) where
  events : String → Option E
  capped : Bool

def newestIds (wanted : List U) : List U := wanted.drop (wanted.length - maxEventsPerLoad)

/-- `EvidenceLedger.events`. -/
def Sources.events (src : Sources U E R) (ids : List String) : LoadedEvents E :=
  let wanted := sortedSet (ids.filterMap src.uuid.parse)
  { events := fun id => ((newestIds wanted).find? fun u => src.uuid.text u = id).bind src.found
    capped := maxEventsPerLoad < wanted.length }

/-! ## Text -/

/-- `json.dumps(…, ensure_ascii=False)` on one character. -/
def quoteChar (c : Char) : List Char :=
  if c = '\x22' then ['\x5c', '\x22']
  else if c = '\x5c' then ['\x5c', '\x5c']
  else if c = '\n' then ['\x5c', 'n']
  else if c = '\r' then ['\x5c', 'r']
  else if c = '\t' then ['\x5c', 't']
  else if c = '\x0c' then ['\x5c', 'f']
  else if c = '\x08' then ['\x5c', 'b']
  else if c.toNat < 32 then '\x5c' :: 'u' :: '0' :: '0' ::
    [c.toNat / 16, c.toNat % 16].map fun n => "0123456789abcdef".toList.getD n '0'
  else [c]

def quote (text : String) : String := String.ofList ('\x22' :: (text.toList.flatMap quoteChar ++ ['\x22']))

/-- `split` of a text whose only white space is the blank. -/
def words (text : List Char) : List (List Char) := (text.splitOn ' ').filter (· ≠ [])

/-- `clean_text`. -/
def cleanText (blank : Char → Bool) (value : String) (limit : Nat) : String :=
  let kept := (value.toList.take (limit * 4)).map fun c => if blank c then ' ' else c
  let collapsed := [' '].intercalate (words kept)
  if collapsed.length ≤ limit then String.ofList collapsed
  else String.ofList ((collapsed.take (limit - 1)).reverse.dropWhile (· = ' ')).reverse ++ "…"

/-! ## Items -/

/-- `MAX_EVIDENCE_PER_ITEM`. -/
def maxEvidencePerItem : Nat := 8

/-- `MAX_TITLE_CHARS`. -/
def maxTitleChars : Nat := 160

/-- `EXCERPT_LABEL`. -/
def excerptLabel : String := "evidence excerpt (untrusted, quoted)"

section Render

variable (src : Sources U E R) (candidate : Candidate) (events : String → Option E)

/-- `_excerpt_owner`. -/
def excerptOwner : Option E :=
  candidate.excerpt.bind fun (eventId, contentId) =>
    (events eventId).or
      ((candidate.citations.find? fun c => (events c.eventId).isSome && (contentId = none || c.contentId = contentId)).bind
        fun c => events c.eventId)

/-- The references of the citations whose events are there. -/
def refsOf : List R := candidate.citations.filterMap fun c => (events c.eventId).bind fun e => src.ref e c

/-- `_render`: none where no citation has a reference. -/
def renderItem (excerpt : Option String) : Option (ContextItem R) :=
  let refs := refsOf src candidate events
  if refs.isEmpty then none
  else
    let keys := (sortedSet (refs.map src.refJson)).take maxEvidencePerItem
    let title := cleanText src.blank candidate.title maxTitleChars
    some
      { itemId := candidate.itemId
        kind := candidate.kind
        title := if title = "" then candidate.kind else title
        content := candidate.body ++ excerpt.elim "" fun excerpt => "\n" ++ excerptLabel ++ ": " ++ quote excerpt
        evidence := keys.filterMap fun key => refs.find? fun ref => src.refJson ref = key }

end Render

/-! ## The renderer -/

/-- The candidates of a request, each under its own id, and the events that were loaded for it before. -/
structure Ranked (E : Type) where
  candidates : List Candidate
  loaded : String → Option E
  ids : (candidates.map (·.itemId)).Nodup

/-- `_Renderer`: what it has loaded. -/
structure Renderer (E : Type) where
  events : String → Option E
  seen : String → Bool
  snippets : String × Option String → Option (Option String)
  loadedTo : Nat
  capped : Bool

section Renderer

variable (src : Sources U E R) (ranked : Ranked E)

/-- `_Renderer.__init__`. -/
def Renderer.new : Renderer E where
  events := fun id => (ranked.loaded id).filter src.admits
  seen := fun id => (ranked.loaded id).isSome
  snippets := fun _ => none
  loadedTo := 0
  capped := false

/-- The candidates of a load. -/
def windowAt (position : Nat) : List Candidate := (ranked.candidates.drop position).take loadWindow

def citedIds (candidates : List Candidate) : List String := candidates.flatMap fun c => c.citations.map (·.eventId)

/-- `_load` of the events. -/
def Renderer.loadEvents (st : Renderer E) (window : List Candidate) : Renderer E :=
  let wanted := (citedIds window).filter fun id => !st.seen id
  if wanted.isEmpty then st
  else
    let found := src.events wanted
    { st with
      events := fun id => (found.events id).or (st.events id)
      seen := fun id => st.seen id || wanted.contains id
      capped := st.capped || found.capped }

/-- `_load` of the excerpts. -/
def Renderer.loadSnippets (st : Renderer E) (window : List Candidate) : Renderer E :=
  let requests := window.filterMap fun candidate =>
    candidate.excerpt.bind fun (_, contentId) => (excerptOwner candidate st.events).bind fun owner =>
      if (st.snippets (src.eventId owner, contentId)).isSome then none else some (owner, contentId)
  { st with
    snippets := fun key =>
      match requests.find? fun request => (src.eventId request.1, request.2) = key with
      | some (owner, contentId) => some (src.snippet owner contentId)
      | none => st.snippets key }

/-- `_load`. -/
def Renderer.load (st : Renderer E) (position : Nat) : Renderer E :=
  if position < st.loadedTo then st
  else
    let window := windowAt ranked position
    { ((st.loadEvents src window).loadSnippets src window) with loadedTo := position + window.length }

/-- `citable`, of a loaded position. -/
def Renderer.citable (st : Renderer E) (candidate : Candidate) : Bool :=
  candidate.citations.any fun c => ((st.events c.eventId).bind fun e => src.ref e c).isSome

/-- `render`, of a loaded position. -/
def Renderer.render (st : Renderer E) (candidate : Candidate) (quoted : Bool) : Option (ContextItem R) :=
  let excerpt :=
    if quoted then candidate.excerpt.bind fun (_, contentId) =>
      (excerptOwner candidate st.events).bind fun owner => (st.snippets (src.eventId owner, contentId)).join
    else none
  renderItem src candidate st.events excerpt

end Renderer

end Retrieval
