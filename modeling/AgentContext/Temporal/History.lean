import AgentContext.Temporal.Reads

/-!
# The history of a decision

`decision_history`: the chain around a decision, both ways, read a few versions at a time.

    load          the newest versions of decisions that were not read
    superseders   the decisions that name one of these in a recording, once asked
    earlier       what a current version supersedes, link by link
    later         whose current version supersedes one of the level before, level by level

The states of the links come from the versions that were read, and `truncated` tells of every cap that was hit.  The rows
of a decision come from one load, in one piece, so the dictionary of rows is their list.
-/

namespace Temporal

open Table Keyset
open Knowledge (Moment EventOrder DecisionId DecisionStatus DecisionVersion DecisionState decisionStates supersessionEdges)

/-! ## What is recorded -/

/-- The versions that a scope holds at a record time.  An event records one version, and its order ends with it. -/
structure Recordings where
  rows : List VersionRow
  recordedAt : Moment
  known : ∀ row ∈ rows, row.version.recordedAt ≤ recordedAt
  named : ∀ row ∈ rows, (ofLex row.version.order).2 = row.eventId
  nodup : (rows.map (·.eventId)).Nodup

/-- `MAX_CHAIN`. -/
def maxChain : Nat := 100

/-- `MAX_DEPTH`. -/
def maxDepth : Nat := 50

/-- `MAX_ENTRY_VERSIONS`. -/
def maxEntryVersions : Nat := 100

def versionsOf (rows : List VersionRow) : List DecisionVersion := rows.map (·.version)

def rowsOf (rows : List VersionRow) (d : DecisionId) : List VersionRow := rows.filter (·.version.decisionId = d)

theorem lawfulBEq_decision : LawfulBEq DecisionId := inferInstance

attribute [local instance] lawfulBEq_decision

namespace Recordings

variable (r : Recordings)

/-- The states of the whole scope. -/
def states : Dict DecisionId DecisionState := decisionStates (versionsOf r.rows) r.recordedAt

/-- `ORDER BY v.state_order DESC, v.event_id DESC`. -/
def newestFirst (row : VersionRow) : (EventOrder ×ₗ String)ᵒᵈ := OrderDual.toDual (toLex (row.version.order, row.eventId))

/-- `_DECISION_VERSIONS` of one decision. -/
def decisionVersions (d : DecisionId) : List VersionRow :=
  (sortBy newestFirst (rowsOf r.rows d)).take (maxEntryVersions + 1)

/-- `_SUPERSEDERS`. -/
def superseders (ids : List DecisionId) : List DecisionId :=
  (sortedSet ((r.rows.filter fun row => row.version.target.any (· ∈ ids)).map (·.version.decisionId))).take (maxChain + 1)

end Recordings

/-! ## The chain -/

/-- `_Chain`. -/
structure Chain where
  read : Nat
  asked : List DecisionId
  rows : List VersionRow
  truncated : Bool

namespace Chain

/-- `_Chain.__init__`. -/
def empty : Chain := ⟨0, [], [], false⟩

/-- `in self.rows`. -/
def has (c : Chain) (d : DecisionId) : Bool := c.rows.any (·.version.decisionId = d)

variable (r : Recordings) (c : Chain)

/-- A cap was hit. -/
def cut : Chain := { c with truncated := true }

def load (ids : List DecisionId) : Chain :=
  let wanted := sortedSet (ids.filter fun d => !c.has d)
  if wanted = [] then c
  else if maxVersions ≤ c.read then c.cut
  else
    let budget := maxVersions - c.read
    let records := (wanted.flatMap r.decisionVersions).take (budget + 1)
    let kept := records.take budget
    { c with
      read := c.read + kept.length
      rows := c.rows ++ kept
      truncated := c.truncated || budget < records.length }

def superseders (ids : List DecisionId) : List DecisionId × Chain :=
  let wanted := sortedSet (ids.filter (· ∉ c.asked))
  if wanted = [] then ([], c)
  else
    let records := r.superseders wanted
    let found := records.take maxChain
    let asked := { c with asked := c.asked ++ wanted, truncated := c.truncated || maxChain < records.length }
    let c := asked.load r found
    (found.filter c.has, c)

/-- The decision that the current version of one supersedes. -/
def target (d : DecisionId) : Option DecisionId :=
  (supersessionEdges (decisionStates (versionsOf (rowsOf c.rows d)) r.recordedAt)).head?.map Prod.snd

end Chain

/-! ## The walk -/

section Walk

variable (r : Recordings) (start : DecisionId)

/-- What a decision supersedes, once it is read: a link that was not seen. -/
def nextLink (earlier : List DecisionId) (current : DecisionId) (c : Chain) : Option DecisionId × Chain :=
  match c.target r current with
  | none => (none, c)
  | some target =>
    if target ∈ start :: earlier then (none, c)
    else
      let c := c.load r [target]
      (if c.has target then some target else none, c)

/-- The loop to the earlier links, with the number that may still be listed. -/
def earlierLinks : Nat → List DecisionId → DecisionId → Chain → List DecisionId × Chain
  | 0, earlier, current, c =>
    match nextLink r start earlier current c with
    | (none, c) => (earlier, c)
    | (some _, c) => (earlier, c.cut)
  | room + 1, earlier, current, c =>
    match nextLink r start earlier current c with
    | (none, c) => (earlier, c)
    | (some target, c) => earlierLinks room (earlier ++ [target]) target c

/-- One level of later links: who supersedes one of the level before, and was not seen. -/
def nextLevel (seen frontier : List DecisionId) (c : Chain) : List DecisionId × Chain :=
  let (found, c) := c.superseders r frontier
  (sorted (found.filter fun d => d ∉ seen && (c.target r d).any (· ∈ frontier)), c)

/-- The loop to the later links, with the levels that may still be listed. -/
def laterLinks (earlier : List DecisionId) :
    Nat → List (DecisionId × Nat) → List DecisionId → Nat → Chain → List (DecisionId × Nat) × Chain
  | 0, later, frontier, _, c =>
    if frontier = [] then (later, c)
    else
      let (level, c) := nextLevel r (start :: earlier ++ later.map Prod.fst) frontier c
      (later, if level ≠ [] then c.cut else c)
  | depth + 1, later, frontier, distance, c =>
    if frontier = [] then (later, c)
    else
      let (level, c) := nextLevel r (start :: earlier ++ later.map Prod.fst) frontier c
      let tooMany := level ≠ [] ∧ maxChain < later.length + level.length
      let kept := if tooMany then level.take (maxChain - later.length) else level
      laterLinks earlier depth (later ++ kept.map fun d => (d, distance + 1)) kept (distance + 1) (if tooMany then c.cut else c)

end Walk

/-! ## The answer -/

structure RecordedVersion where
  eventId : String
  status : DecisionStatus
  validFrom : Moment
  validTo : Option Moment
  supersedesId : Option DecisionId
  recordedAt : Moment
deriving DecidableEq

/-- `_recorded`. -/
def VersionRow.recorded (row : VersionRow) : RecordedVersion where
  eventId := row.eventId
  status := row.version.status
  validFrom := row.version.validFrom
  validTo := row.version.validTo
  supersedesId := row.version.supersedesId
  recordedAt := row.version.recordedAt

inductive ChainRelation where
  | self
  | earlier
  | later
deriving DecidableEq, Repr

structure HistoryEntry where
  decisionId : DecisionId
  relation : ChainRelation
  distance : Nat
  status : DecisionStatus
  validFrom : Moment
  validTo : Option Moment
  effectiveValidTo : Option Moment
  supersededAt : Option Moment
  supersedesId : Option DecisionId
  recordedAt : Moment
  versions : List RecordedVersion
  sourceEventIds : List String
deriving DecidableEq

inductive HistoryError where
  /-- `TemporalDecisionNotFound`. -/
  | notFound (d : DecisionId)
  /-- `states[item]` of a decision without a state. -/
  | keyError (d : DecisionId)
deriving DecidableEq, Repr

/-- `entry`, and whether recordings were left out. -/
def historyEntry (c : Chain) (states : Dict DecisionId DecisionState) (link : DecisionId × ChainRelation × Nat) :
    Except HistoryError (HistoryEntry × Bool) :=
  let (item, relation, distance) := link
  match states.lookup item with
  | none => .error (.keyError item)
  | some state =>
    let mine := sortBy (fun row => toLex (row.version.order, row.eventId)) (rowsOf c.rows item)
    let listed := (mine.drop (mine.length - maxEntryVersions)).map VersionRow.recorded
    .ok ({ decisionId := item
           relation := relation
           distance := distance
           status := state.version.status
           validFrom := state.version.validFrom
           validTo := state.version.validTo
           effectiveValidTo := state.stop
           supersededAt := state.closedAt
           supersedesId := state.version.supersedesId
           recordedAt := state.version.recordedAt
           versions := listed
           sourceEventIds := sorted (listed.map (·.eventId)) }, maxEntryVersions < mine.length)

/-- The links in the order they are listed: the earlier ones from the farthest, the decision, the later ones. -/
def links (start : DecisionId) (earlier : List DecisionId) (later : List (DecisionId × Nat)) :
    List (DecisionId × ChainRelation × Nat) :=
  (earlier.zipIdx 1).reverse.map (fun (d, distance) => (d, .earlier, distance)) ++ [(start, .self, 0)] ++
    (sortBy (fun pair : DecisionId × Nat => toLex (pair.2, pair.1)) later).map fun (d, distance) => (d, .later, distance)

/-- The links of a decision that was read, with all that could close them. -/
def walk (r : Recordings) (start : DecisionId) (c : Chain) : List DecisionId × List (DecisionId × Nat) × Chain :=
  let (earlier, c) := earlierLinks r start (min maxDepth maxChain) [] start c
  let (later, c) := laterLinks r start earlier maxDepth [] [start] 0 c
  let (_, c) := c.superseders r (earlier ++ later.map Prod.fst)
  (earlier, later, c)

/-- `_chain_history`. -/
def chainHistory (r : Recordings) (start : DecisionId) : Except HistoryError (List HistoryEntry × Bool) :=
  let c := Chain.empty.load r [start]
  if !c.has start then .error (.notFound start)
  else
    let (earlier, later, c) := walk r start c
    let states := decisionStates (versionsOf c.rows) r.recordedAt
    match (links start earlier later).mapM (historyEntry c states) with
    | .error e => .error e
    | .ok entries => .ok (entries.map Prod.fst, c.truncated || entries.any Prod.snd)

end Temporal
