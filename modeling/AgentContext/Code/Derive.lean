import AgentContext.Code.Facts
import Mathlib.Data.Finset.Card
import Mathlib.Data.Finset.Image

/-!
# The derivation

Pure functions of the facts: a status per run, folded in run order into validity intervals.

    file        present at its member revision; absent only where absence may be inferred
    symbol      present where the claim of an owning file revision holds in the run (`live`)
    assertion   present where a claim holds and, for a relation, its target symbol is present

An interval starts at the run that opened it and ends at the run that closed it.  `isIdentifier` is Python's
`str.isidentifier`.
-/

namespace Code

open Keyset

/-! ## Timelines -/

structure Interval where
  key : String
  /-- A file's path and module. -/
  extra : Option (String × String)
  start : Run
  stop : Option Run
  recordedFrom : Moment
  recordedTo : Option Moment
deriving DecidableEq

inductive Status where
  | present (key : String) (extra : Option (String × String)) (seenAt : Moment)
  | absent (seenAt : Moment)
  | unknown
deriving DecidableEq

/-- `_timeline` from an interval that may be open; `unknown` leaves it untouched. -/
def timelineFrom (status : Run → Status) : Option Interval → List Run → List Interval
  | opened, [] => opened.toList
  | opened, run :: runs =>
    match status run with
    | .unknown => timelineFrom status opened runs
    | .absent seenAt =>
      (opened.map fun i => { i with stop := some run, recordedTo := some seenAt }).toList ++
        timelineFrom status none runs
    | .present key extra seenAt =>
      match opened with
      | none => timelineFrom status (some ⟨key, extra, run, none, seenAt, none⟩) runs
      | some i =>
        if i.key = key ∧ i.extra = extra then
          timelineFrom status (some i) runs
        else
          { i with stop := some run, recordedTo := some seenAt } ::
            timelineFrom status (some ⟨key, extra, run, none, seenAt, none⟩) runs

/-- `_timeline`. -/
def timeline (runs : List Run) (status : Run → Status) : List Interval := timelineFrom status none runs

/-! ## Names derived from a path -/

/-- `str.rpartition`, without the separator. -/
def rpartition (sep : Char) (s : List Char) : List Char × List Char :=
  ((s.reverse.dropWhile (· ≠ sep)).tail.reverse, (s.reverse.takeWhile (· ≠ sep)).reverse)

def stemOf (base : List Char) : List Char := if '.' ∈ base then (rpartition '.' base).1 else base

/-- `[A-Za-z0-9_]`. -/
def wordChar (c : Char) : Bool := c.isAlphanum || c = '_'

/-- `str.isidentifier` on ASCII text. -/
def asciiIdentifier (s : String) : Bool :=
  s.toList.all wordChar && !s.toList.isEmpty && !s.toList.head?.any Char.isDigit

section Derive

variable (isIdentifier : String → Bool)

/-- `module_name`. -/
def moduleName (packageFiles : List (List Char)) (path : List Char) : List Char :=
  let parts := path.splitOn '/'
  let stem := stemOf (parts.getLastD [])
  let parts := if stem ∈ packageFiles then parts.dropLast else parts.dropLast ++ [stem]
  let run := parts.reverse.takeWhile fun part => isIdentifier (String.ofList part)
  ['.'].intercalate run.reverse

/-- `_descriptors`: how an indexer spells the module of a path. -/
def descriptors (path : String) : List (List Char) :=
  let (directory, base) := rpartition '/' path.toList
  let slash := if directory.isEmpty then stemOf base else directory ++ '/' :: stemOf base
  [slash,
   moduleName isIdentifier ["__init__".toList] path.toList,
   moduleName isIdentifier ["__init__".toList, "index".toList] path.toList].filter (!·.isEmpty)

/-- Does `d` occur with no word character on either side?  `before` is the character before the rest. -/
def spelledIn (d : List Char) : Option Char → List Char → Bool
  | before, [] => d.isEmpty && !before.any wordChar
  | before, c :: rest =>
    (!before.any wordChar && d.isPrefixOf (c :: rest) && !((c :: rest).drop d.length).head?.any wordChar) ||
      spelledIn d (some c) rest

/-- `_symbol_path_bound`. -/
def symbolPathBound (F : Facts) (symbolId path : String) : Bool :=
  (F.symbol symbolId).pathBound ||
    decide (∃ scip ∈ (F.symbol symbolId).scips,
      (descriptors isIdentifier path).any fun d => spelledIn d none scip.toList)

/-! ## Membership -/

def pathOf (F : Facts) (fileId revisionId : String) (run : RunKey) : Option String :=
  (((F.file fileId).member run).filter (·.revisionId = revisionId)).map (·.path)

/-- `_path_matches`, for the claim of an item whose identity derives from `symbols`. -/
def pathMatches (F : Facts) (symbols : List String) (claim : Claim) (member : Member) : Bool :=
  let paths := ((F.file claim.fileId).claimed member.revisionId).image (pathOf F claim.fileId member.revisionId)
  match pathOf F claim.fileId member.revisionId claim.run with
  | none => true
  | some claimedAt =>
    (paths.erase none).card ≤ 1 || claimedAt = member.path ||
      !symbols.any fun x => symbolPathBound isIdentifier F x claimedAt

def holds (F : Facts) (run : Run) (symbols : List String) (claim : Claim) : Bool :=
  match (F.file claim.fileId).member run.key with
  | none => false
  | some member =>
    member.revisionId = claim.revisionId && claim.since ≤ run.occurredAt &&
      pathMatches isIdentifier F symbols claim member

/-- `_live`: the claims that hold in a run's membership, in the order of their revisions. -/
def live (F : Facts) (run : Run) (symbols : List String) (claims : List Claim) : List Claim :=
  claims.filter (holds isIdentifier F run symbols)

/-- What one owning file adds to the evidence of an absence; none where it leaves the absence unknown. -/
def fileGone (F : Facts) (run : Run) (evidence : Moment) (fileId : String) : Option Moment :=
  match (F.file fileId).member run.key with
  | some member =>
    match (F.file fileId).report run.key member.revisionId with
    | some report =>
      if report.complete then some (max (max evidence member.observedAt) report.observedAt) else none
    | none => none
  | none => if (F.file fileId).covered run.key then none else some evidence

inductive Presence where
  | present (evidence : Moment)
  | absent (evidence : Moment)
  | unknown
deriving DecidableEq

/-- `_owner_status`. -/
def ownerStatus (F : Facts) (run : Run) (symbols : List String) (claims : List Claim) : Presence :=
  match live isIdentifier F run symbols claims with
  | claim :: _ =>
    .present (max (((F.file claim.fileId).member run.key).elim "" (·.observedAt)) claim.observedAt)
  | [] =>
    if run.permitsAbsence then
      match (sortedSet (claims.map (·.fileId))).foldlM (fileGone F run) run.outcomeObservedAt with
      | some evidence => .absent evidence
      | none => .unknown
    else
      .unknown

/-! ## Files, symbols and assertions -/

/-- The status function of `derive_file`. -/
def fileStatus (F : Facts) (fileId : String) (run : Run) : Status :=
  match (F.file fileId).member run.key with
  | some member => .present member.revisionId (some (member.path, member.moduleId)) member.observedAt
  | none =>
    if (F.file fileId).covered run.key || !run.permitsAbsence then .unknown else .absent run.outcomeObservedAt

def deriveFile (F : Facts) (fileId : String) : List Interval := timeline F.runs (fileStatus F fileId)

/-- `_symbol_present`. -/
def symbolPresent (F : Facts) (symbolId : String) (run : Run) : Status :=
  let claims := (F.symbol symbolId).claims
  match ownerStatus isIdentifier F run [symbolId] claims with
  | .unknown => .unknown
  | .absent evidence => .absent evidence
  | .present evidence =>
    let revisions := (live isIdentifier F run [symbolId] claims).filterMap fun c =>
      (F.symbol symbolId).definition c.revisionId
    .present ((leastBy id revisions).getD "") none evidence

def deriveSymbol (F : Facts) (symbolId : String) : List Interval :=
  timeline F.runs (symbolPresent isIdentifier F symbolId)

/-- The run of a declared end or start. -/
def declaredRun (moment : Moment) : Run := ⟨runKey "" "", moment, true, none, ""⟩

/-- `_clip`, of one interval: nothing is valid before `valid_from`, or at or after `valid_to`. -/
def clipOne (fact : AssertionFact) (i : Interval) : Option Interval :=
  let ended : Option Interval :=
    match fact.validTo with
    | none => some i
    | some validTo =>
      if validTo ≤ i.start.occurredAt then
        none
      else if i.stop.all (validTo < ·.occurredAt) then
        some { i with stop := some (declaredRun validTo), recordedTo := some fact.observedAt }
      else
        some i
  ended.bind fun i =>
    if i.start.occurredAt < fact.validFrom then
      if i.stop.any (·.occurredAt ≤ fact.validFrom) then
        none
      else
        some { i with start := declaredRun fact.validFrom, recordedFrom := max i.recordedFrom fact.observedAt }
    else
      some i

/-- `_clip`. -/
def clip (fact : AssertionFact) (intervals : List Interval) : List Interval := intervals.filterMap (clipOne fact)

/-- The status function of `derive_assertion`. -/
def assertionStatus (F : Facts) (assertionId : String) (fact : AssertionFact) (run : Run) : Status :=
  match ownerStatus isIdentifier F run fact.ends (F.assertion assertionId).claims with
  | .absent evidence => .absent evidence
  | .unknown => .unknown
  | .present evidence =>
    let evidence := max evidence fact.observedAt
    match fact.family, fact.objectId with
    | .relation, some objectId =>
      match symbolPresent isIdentifier F objectId run with
      | .unknown => .unknown
      | .absent targetEvidence => .absent (max evidence targetEvidence)
      | .present _ _ targetEvidence => .present assertionId none (max evidence targetEvidence)
    | _, _ => .present assertionId none evidence

/-- `derive_assertion`.  Supersessions are not file-bound. -/
def deriveAssertion (F : Facts) (assertionId : String) (fact : AssertionFact) : List Interval :=
  if fact.predicate = .possiblySupersedes then
    clip fact [⟨assertionId, none, declaredRun fact.validFrom, none, fact.observedAt, none⟩]
  else
    clip fact (timeline F.runs (assertionStatus isIdentifier F assertionId fact))

/-- Valid at the latest valid time the graph knows. -/
def isCurrent (intervals : List Interval) (horizon : Moment) : Bool :=
  intervals.getLast?.any fun i => i.start.occurredAt ≤ horizon && i.stop.all (horizon < ·.occurredAt)

def intervalAt (intervals : List Interval) (validAt : Moment) : Option Interval :=
  intervals.find? fun i => i.start.occurredAt ≤ validAt && i.stop.all (validAt < ·.occurredAt)

/-! ## As of -/

inductive EntityKind where
  | file
  | symbol
  | assertion
deriving DecidableEq, Repr

/-- The entity alone. -/
def EntityKind.wanted (kind : EntityKind) (entityId : String) : Wanted :=
  match kind with
  | .file => ⟨[entityId], [], []⟩
  | .symbol => ⟨[], [entityId], []⟩
  | .assertion => ⟨[], [], [entityId]⟩

/-- `entity_as_of`. -/
def entityAsOf (s : FactStore) (kind : EntityKind) (entityId : String) (validAt : Moment)
    (recordedAt : Option Moment) : Option String :=
  let F := loadFacts s recordedAt (kind.wanted entityId)
  let intervals :=
    match kind with
    | .file => deriveFile F entityId
    | .symbol => deriveSymbol isIdentifier F entityId
    | .assertion => ((F.assertion entityId).fact.map (deriveAssertion isIdentifier F entityId)).getD []
  (intervalAt intervals validAt).map (·.key)

end Derive

end Code
