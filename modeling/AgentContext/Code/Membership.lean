import AgentContext.Code.Locality
import AgentContext.Code.Rows
import AgentContext.Code.Writes

/-!
# Membership in a run

When the derivation takes an entity for present at an index run, in terms of the events:

    a run occurred at the earliest of its events                                (exists_run)
    a run's member of a file is the smallest revision its file events state     (member_iff)
    a claim dates from the earliest event that makes it                         (exists_claim_le_iff)

Together they say when a claim holds in a run (`live_iff`), and so when an entity is present (`run_membership`).
A claim that is stored later than the run does not hold in it, also where it states the run itself: a retried
ingest stores its remaining events with later times, and they never enter the run they belong to.
-/

namespace Code

open PropertyGraph Keyset

/-! ## Events of a run -/

def StatesMember (es : List Event) (run : RunKey) (fileId revisionId : String) : Prop :=
  ∃ e ∈ es, ∃ p, e.payload = .fileIndexed p ∧ runKey p.indexId p.target = run ∧ p.fileId = fileId ∧
    p.fileRevisionId = revisionId

/-- The smallest revision of a file that the file events of a run state. -/
def MemberRevision (es : List Event) (run : RunKey) (fileId revisionId : String) : Prop :=
  StatesMember es run fileId revisionId ∧ ∀ g, StatesMember es run fileId g → revisionId ≤ g

/-! ## Rows of a history -/

section History

variable {es : List Event} {e : Event}
variable {run : RunKey}
variable {item : Item}

/-- **A run occurred at the earliest of its events.** -/
theorem exists_run (he : e ∈ es) (hrun : e.run = some run) : ∃ r ∈ (allFacts (factsOf es) none).runs, r.key = run ∧
      ∀ t, t ≤ r.occurredAt ↔ ∀ e ∈ es, e.run = some run → t ≤ e.occurredAt := by
  have hkey : Key.indexed run ∈ (factsOf es).keys := mem_keys_factsOf.2 ⟨e, he, _, indexed_written.2 ⟨hrun, rfl⟩⟩
  obtain ⟨⟨e₀, he₀, hrun₀, hoccurred⟩, hle⟩ := momentOf_factsOf (k := .indexed run) (p := "occurred_at")
    (W := fun e => e.run = some run) (f := (·.occurredAt))
    (fun e n hn => ⟨(indexed_written.1 hn).1, by rw [(indexed_written.1 hn).2]; rfl⟩)
    (fun e hw => ⟨_, indexed_written.2 ⟨hw, rfl⟩⟩) ⟨e, he, hrun⟩
  refine ⟨runOf (visibleOutcomes (factsOf es) none) ⟨run, momentOf ((factsOf es).read (.indexed run)) "occurred_at",
    momentOf ((factsOf es).read (.indexed run)) "observed_at"⟩, ?_, by simp, ?_⟩
  · refine mem_sortBy.2 (List.mem_map.2 ⟨_, ?_, rfl⟩)
    exact List.mem_filter.2 ⟨List.mem_filterMap.2 ⟨_, hkey, rfl⟩, rfl⟩
  · intro t
    rw [runOf_occurredAt]
    constructor
    · intro ht e he hrun
      exact le_trans ht (hle e he hrun)
    · intro h
      show t ≤ momentOf _ _
      rw [hoccurred]
      exact h e₀ he₀ hrun₀

theorem mem_visibleMembers {row : MemberRow} : row ∈ visibleMembers (factsOf es) none ↔
      ∃ g run, Key.memberOf g run ∈ (factsOf es).keys ∧ memberRow (factsOf es) (.memberOf g run) = some row := by
  rw [visibleMembers_none, List.mem_filterMap]
  constructor
  · rintro ⟨k, hk, hrow⟩
    obtain rfl := memberRow_key hrow
    exact ⟨_, _, hk, hrow⟩
  · rintro ⟨g, run, hk, hrow⟩
    exact ⟨_, hk, hrow⟩

/-- A file's rows of one run are told apart by their revisions. -/
theorem members_keyed (run : RunKey) (fileId : String) : KeyedBy (·.revisionId)
      (((visibleMembers (factsOf es) none).filter (·.fileId = fileId)).filter (·.run = run)) := by
  intro a ha b hb hab
  obtain ⟨ha, hrun⟩ := List.mem_filter.1 ha
  obtain ⟨hb, hrun'⟩ := List.mem_filter.1 hb
  obtain ⟨g, r, -, hrow⟩ := mem_visibleMembers.1 (List.mem_of_mem_filter ha)
  obtain ⟨g', r', -, hrow'⟩ := mem_visibleMembers.1 (List.mem_of_mem_filter hb)
  obtain rfl := Option.some.inj hrow
  obtain rfl := Option.some.inj hrow'
  have hr : r = run := by simpa using hrun
  have hr' : r' = run := by simpa using hrun'
  have hg : g = g' := hab
  subst hg hr hr'
  rfl

section

variable (agree : Agreeing es)
include agree

theorem exists_row_iff {fileId g : String} :
    (∃ row ∈ ((visibleMembers (factsOf es) none).filter (·.fileId = fileId)).filter (·.run = run),
      row.revisionId = g) ↔ StatesMember es run fileId g := by
  constructor
  · rintro ⟨row, hrow, rfl⟩
    obtain ⟨hrow, hrun⟩ := List.mem_filter.1 hrow
    obtain ⟨hrow, hfile⟩ := List.mem_filter.1 hrow
    obtain ⟨g, r, hk, hr⟩ := mem_visibleMembers.1 hrow
    obtain ⟨e, he, n, hn⟩ := mem_keys_factsOf.1 hk
    obtain ⟨p, hp, hg, hkey, -⟩ := memberOf_written.1 hn
    obtain rfl := Option.some.inj hr
    have hstated : fileOf (factsOf es) p.fileRevisionId = p.fileId :=
      fileOf_factsOf agree he (by rw [Event.fileRevision, hp])
    have hrun : r = run := by simpa using hrun
    have hfile : fileOf (factsOf es) g = fileId := by simpa using hfile
    exact ⟨e, he, p, hp, hkey.trans hrun, by rw [← hstated, hg, hfile], hg⟩
  · rintro ⟨e, he, p, hp, hrun, hfile, rfl⟩
    have hk : Key.memberOf p.fileRevisionId run ∈ (factsOf es).keys :=
      mem_keys_factsOf.2 ⟨e, he, _, memberOf_written.2 ⟨p, hp, rfl, hrun, rfl⟩⟩
    have hstated : fileOf (factsOf es) p.fileRevisionId = fileId := by
      rw [fileOf_factsOf agree he (by rw [Event.fileRevision, hp]), hfile]
    refine ⟨_, List.mem_filter.2 ⟨List.mem_filter.2 ⟨mem_visibleMembers.2 ⟨_, _, hk, rfl⟩, ?_⟩, ?_⟩, rfl⟩
    · simpa using hstated
    · simp

/-- **A run's member of a file is the smallest revision its file events state.** -/
theorem member_iff {fileId g : String} :
    (∃ m, ((allFacts (factsOf es) none).file fileId).member run = some m ∧ m.revisionId = g) ↔
      MemberRevision es run fileId g := by
  have hmember : ((allFacts (factsOf es) none).file fileId).member run =
      (leastBy (·.revisionId)
        (((visibleMembers (factsOf es) none).filter (·.fileId = fileId)).filter (·.run = run))).map (·.toMember) := rfl
  rw [hmember]
  constructor
  · rintro ⟨m, hm, rfl⟩
    obtain ⟨row, hrow, rfl⟩ := Option.map_eq_some_iff.1 hm
    obtain ⟨hmem, hle⟩ := leastBy_spec hrow
    refine ⟨(exists_row_iff agree).1 ⟨row, hmem, rfl⟩, ?_⟩
    intro g hg
    obtain ⟨row', hmem', rfl⟩ := (exists_row_iff agree).2 hg
    exact hle row' hmem'
  · rintro ⟨hstates, hle⟩
    obtain ⟨row, hmem, rfl⟩ := (exists_row_iff agree).2 hstates
    refine ⟨row.toMember, Option.map_eq_some_iff.2 ⟨row, ?_, rfl⟩, rfl⟩
    rw [leastBy_eq_some (members_keyed run fileId)]
    exact ⟨hmem, fun row' hmem' => hle _ ((exists_row_iff agree).1 ⟨row', hmem', rfl⟩)⟩

/-! ## Claims of a history -/

/-- The claims of an item come from the events that claim it, each relationship from the earliest of its own. -/
theorem claim_row_iff {g : String} {t : Moment} :
    (∃ c ∈ claimRows (factsOf es) none item, c.revisionId = g ∧ c.since ≤ t) ↔
      ∃ e ∈ es, e.claim = some (item, g) ∧ e.occurredAt ≤ t := by
  have hsince : ∀ k, ∀ e ∈ es, e.claimKey = some k →
      (∃ e ∈ es, e.claimKey = some k ∧ momentOf ((factsOf es).read k) "occurred_at" = e.occurredAt) ∧
        ∀ e ∈ es, e.claimKey = some k → momentOf ((factsOf es).read k) "occurred_at" ≤ e.occurredAt := by
    intro k e he hk
    obtain ⟨item, g, c, -, hitem, -⟩ := claimKey_of_event agree he hk
    refine momentOf_factsOf (W := fun e => e.claimKey = some k) (f := (·.occurredAt)) ?_ ?_ ⟨e, he, hk⟩
    · intro e n hn
      obtain ⟨hk, rfl⟩ := (claimKey_written hitem).1 hn
      exact ⟨hk, rfl⟩
    · intro e hk
      exact ⟨_, (claimKey_written hitem).2 ⟨hk, rfl⟩⟩
  constructor
  · rintro ⟨c, hc, rfl, ht⟩
    obtain ⟨k, hk, hitem, hc, -⟩ := mem_claimRows.1 hc
    obtain ⟨e, he, n, hn⟩ := mem_keys_factsOf.1 hk
    obtain ⟨hkey, -⟩ := (claimKey_written hitem).1 hn
    obtain ⟨⟨e', he', hkey', hmin⟩, -⟩ := hsince k e he hkey
    obtain ⟨item', g, c', hclaim, hitem', hc', hg, -⟩ := claimKey_of_event agree he' hkey'
    obtain rfl := Option.some.inj (hitem.symm.trans hitem')
    obtain rfl := Option.some.inj (hc.symm.trans hc')
    rw [(claimOf_reads hc).2.1, hmin] at ht
    exact ⟨e', he', hg ▸ hclaim, ht⟩
  · rintro ⟨e, he, hclaim, ht⟩
    have hk : ∃ k, e.claimKey = some k := by
      revert hclaim
      cases hp : e.payload <;> simp [Event.claim, Event.claimKey, hp]
    obtain ⟨k, hk⟩ := hk
    obtain ⟨item', g', c, hclaim', hitem, hc, hg, hkeys⟩ := claimKey_of_event agree he hk
    rw [hclaim] at hclaim'
    obtain ⟨rfl, rfl⟩ := Prod.mk.inj (Option.some.inj hclaim')
    refine ⟨c, mem_claimRows.2 ⟨k, hkeys, hitem, hc, rfl⟩, hg, ?_⟩
    rw [(claimOf_reads hc).2.1]
    exact le_trans ((hsince k e he hk).2 e he hk) ht

/-- **A claim dates from the earliest event that makes it.** -/
theorem exists_claim_le_iff {g : String} {t : Moment} :
    (∃ c ∈ (allFacts (factsOf es) none).claims item, c.revisionId = g ∧ c.since ≤ t) ↔
      ∃ e ∈ es, e.claim = some (item, g) ∧ e.occurredAt ≤ t := by
  rw [← claim_row_iff agree, claims_allFacts]
  constructor
  · rintro ⟨c, hc, hg, ht⟩
    exact ⟨c, (mem_earliestClaims hc).1, hg, ht⟩
  · rintro ⟨c, hc, rfl, ht⟩
    obtain ⟨c', hc', hg, hle⟩ := exists_earliestClaim hc
    exact ⟨c', hc', hg, le_trans hle ht⟩

end

theorem claim_fileId {s : FactStore} {recordedAt : Option Moment} {c : Claim}
    (h : c ∈ (allFacts s recordedAt).claims item) : c.fileId = fileOf s c.revisionId := by
  rw [claims_allFacts] at h
  obtain ⟨k, -, -, hc, -⟩ := mem_claimRows.1 (mem_earliestClaims h).1
  exact (claimOf_reads hc).1

end History

/-! ## Presence -/

section Presence

variable (isIdentifier : String → Bool)

/-- The status of a symbol or of an assertion; one that is not recorded is not derived at all. -/
def statusOf (F : Facts) (item : Item) (run : Run) : Option Status :=
  match item with
  | .symbol x => some (symbolPresent isIdentifier F x run)
  | .assertion a => (F.assertion a).fact.map fun fact => assertionStatus isIdentifier F a fact run

def Status.isPresent : Status → Bool
  | .present _ _ _ => true
  | _ => false

def Item.wanted : Item → Wanted
  | .symbol x => EntityKind.symbol.wanted x
  | .assertion a => EntityKind.assertion.wanted a

/-- A file revision holds an item in a run: the run's membership selects it, an event that occurred no later than
every event of the run claims the item for it, and the claim's path is the run's where the identity derives from it. -/
structure Held (es : List Event) (run : RunKey) (item : Item) (symbols : List String) (g : String) : Prop where
  member : ∃ fileId, MemberRevision es run fileId g
  claimed : ∃ e ∈ es, e.claim = some (item, g) ∧ ∀ e' ∈ es, e'.run = some run → e.occurredAt ≤ e'.occurredAt
  path : ∀ c ∈ (allFacts (factsOf es) none).claims item, c.revisionId = g →
    ∀ m, ((allFacts (factsOf es) none).file c.fileId).member run = some m →
      pathMatches isIdentifier (allFacts (factsOf es) none) symbols c m = true

/-- A symbol is in a run where a revision holds it; an assertion where one holds it, it is recorded, and the target
symbol of a relation is in the run. -/
def InRun (es : List Event) (run : RunKey) : Item → Prop
  | .symbol x => ∃ g, Held isIdentifier es run (.symbol x) [x] g
  | .assertion a => ∃ fact, assertionFact (factsOf es) a = some fact ∧
      (∃ g, Held isIdentifier es run (.assertion a) fact.ends g) ∧
      ∀ x, fact.family = .relation → fact.objectId = some x → ∃ g, Held isIdentifier es run (.symbol x) [x] g

section Status

variable {isIdentifier} {F : Facts} {run : Run}
variable {claims : List Claim} {symbols : List String}

theorem live_ne_nil :
    live isIdentifier F run symbols claims ≠ [] ↔ ∃ c ∈ claims, holds isIdentifier F run symbols c = true := by
  unfold live
  rw [ne_eq, List.filter_eq_nil_iff]
  simp

theorem ownerStatus_present : (∃ evidence, ownerStatus isIdentifier F run symbols claims = .present evidence) ↔
      ∃ c ∈ claims, holds isIdentifier F run symbols c = true := by
  rw [← live_ne_nil]
  unfold ownerStatus
  cases live isIdentifier F run symbols claims with
  | cons c cs => simp
  | nil =>
    simp only [ne_eq, not_true_eq_false, iff_false, not_exists]
    intro evidence
    split
    · split <;> simp
    · simp

theorem symbolPresent_isPresent {x : String} : (symbolPresent isIdentifier F x run).isPresent = true ↔
      ∃ c ∈ (F.symbol x).claims, holds isIdentifier F run [x] c = true := by
  rw [← ownerStatus_present]
  cases h : ownerStatus isIdentifier F run [x] (F.symbol x).claims <;> simp [symbolPresent, Status.isPresent, h]

theorem assertionStatus_isPresent {a : String} {fact : AssertionFact} :
    (assertionStatus isIdentifier F a fact run).isPresent = true ↔
      (∃ c ∈ (F.assertion a).claims, holds isIdentifier F run fact.ends c = true) ∧
        ∀ x, fact.family = .relation → fact.objectId = some x →
          ∃ c ∈ (F.symbol x).claims, holds isIdentifier F run [x] c = true := by
  have hobject : (∀ x, fact.family = .relation → fact.objectId = some x →
      ∃ c ∈ (F.symbol x).claims, holds isIdentifier F run [x] c = true) ↔
      ∀ x, fact.family = .relation → fact.objectId = some x →
        (symbolPresent isIdentifier F x run).isPresent = true := by
    simp only [symbolPresent_isPresent]
  rw [← ownerStatus_present, hobject]
  unfold assertionStatus
  cases ownerStatus isIdentifier F run fact.ends (F.assertion a).claims with
  | absent | unknown => simp [Status.isPresent]
  | present evidence =>
    cases hfamily : fact.family with
    | dependency => simp [Status.isPresent]
    | relation =>
      cases hobject : fact.objectId with
      | none => simp [Status.isPresent]
      | some x => cases hx : symbolPresent isIdentifier F x run <;> simp [Status.isPresent, hx]

end Status

variable {isIdentifier} {es : List Event}

/-- **When a claim holds in a run.** -/
theorem exists_holds_iff (agree : Agreeing es) {r : Run} {item : Item} {symbols : List String}
    (hr : ∀ t, t ≤ r.occurredAt ↔ ∀ e ∈ es, e.run = some r.key → t ≤ e.occurredAt) :
    (∃ c ∈ (allFacts (factsOf es) none).claims item,
        holds isIdentifier (allFacts (factsOf es) none) r symbols c = true) ↔
      ∃ g, Held isIdentifier es r.key item symbols g := by
  constructor
  · rintro ⟨c, hc, hholds⟩
    unfold holds at hholds
    cases hm : ((allFacts (factsOf es) none).file c.fileId).member r.key with
    | none =>
      rw [hm] at hholds
      cases hholds
    | some m =>
      rw [hm] at hholds
      simp only [Bool.and_eq_true, decide_eq_true_eq] at hholds
      obtain ⟨⟨hrev, hsince⟩, hpath⟩ := hholds
      refine ⟨c.revisionId, ⟨c.fileId, (member_iff agree).1 ⟨m, hm, hrev⟩⟩, ?_, ?_⟩
      · obtain ⟨e, he, hclaim, hle⟩ := (exists_claim_le_iff agree).1 ⟨c, hc, rfl, hsince⟩
        exact ⟨e, he, hclaim, (hr _).1 hle⟩
      · intro c' hc' hsame m' hm'
        rw [claims_allFacts] at hc hc'
        obtain rfl := earliestClaims_unique hc' hc hsame
        obtain rfl := Option.some.inj (hm.symm.trans hm')
        exact hpath
  · rintro ⟨g, ⟨fileId, hmember⟩, ⟨e, he, hclaim, hle⟩, hpath⟩
    obtain ⟨c, hc, rfl, hsince⟩ := (exists_claim_le_iff agree).2 ⟨e, he, hclaim, (hr _).2 hle⟩
    obtain ⟨m, hm, hrev⟩ := (member_iff agree).2 hmember
    have hfile : c.fileId = fileId := by
      obtain ⟨e, he, p, hp, -, hfile, hg⟩ := hmember.1
      rw [claim_fileId hc, ← hg, fileOf_factsOf agree he (by rw [Event.fileRevision, hp]), hfile]
    rw [← hfile] at hm
    refine ⟨c, hc, ?_⟩
    have hmatches := hpath c hc rfl m hm
    simp [holds, hm, hrev, hsince, hmatches]

/-- **When an entity is present at a run that states it.** -/
theorem run_membership (agree : Agreeing es) {run : RunKey} {item : Item} {fileId revisionId : String}
    (_hfile : StatesMember es run fileId revisionId)
    (hclaim : ∃ e ∈ es, e.run = some run ∧ e.claim = some (item, revisionId)) :
    ∃ r ∈ (loadFacts (factsOf es) none item.wanted).runs, r.key = run ∧
      ((statusOf isIdentifier (loadFacts (factsOf es) none item.wanted) item r).any Status.isPresent = true ↔
        InRun isIdentifier es run item) := by
  obtain ⟨e, he, hrun, -⟩ := hclaim
  obtain ⟨r, hr, rfl, htime⟩ := exists_run he hrun
  refine ⟨r, hr, rfl, ?_⟩
  cases item with
  | symbol x =>
    have hx : x ∈ (Item.wanted (.symbol x)).symbols := List.mem_singleton_self x
    have hsame : SameSymbol (loadFacts (factsOf es) none (Item.wanted (.symbol x))) (allFacts (factsOf es) none) x :=
      loadFacts_sameSymbol (mem_widen_symbol hx)
    have hheld : (∃ c ∈ (allFacts (factsOf es) none).claims (.symbol x),
        holds isIdentifier (allFacts (factsOf es) none) r [x] c = true) ↔ InRun isIdentifier es r.key (.symbol x) :=
      exists_holds_iff agree htime
    show (symbolPresent isIdentifier _ x r).isPresent = true ↔ _
    rw [symbolPresent_congr hsame, symbolPresent_isPresent]
    exact hheld
  | assertion a =>
    have ha : a ∈ (Item.wanted (.assertion a)).assertions := List.mem_singleton_self a
    have hfact : ((allFacts (factsOf es) none).assertion a).fact = assertionFact (factsOf es) a := by
      show (assertionFact (factsOf es) a).filter _ = _
      cases assertionFact (factsOf es) a <;> simp
    show ((((loadFacts (factsOf es) none _).assertion a).fact.map _).any _) = true ↔ _
    rw [loadFacts_assertion ha, hfact]
    cases hrecorded : assertionFact (factsOf es) a with
    | none => simp [InRun, hrecorded]
    | some fact =>
      have hsame : SameAssertion (loadFacts (factsOf es) none (Item.wanted (.assertion a)))
          (allFacts (factsOf es) none) a fact := loadFacts_sameAssertion ha (hfact.trans hrecorded)
      show (assertionStatus isIdentifier _ a fact r).isPresent = true ↔ _
      rw [assertionStatus_congr hsame, assertionStatus_isPresent]
      have hown : (∃ c ∈ (allFacts (factsOf es) none).claims (.assertion a),
          holds isIdentifier (allFacts (factsOf es) none) r fact.ends c = true) ↔
            ∃ g, Held isIdentifier es r.key (.assertion a) fact.ends g := exists_holds_iff agree htime
      have hend : ∀ x, (∃ c ∈ (allFacts (factsOf es) none).claims (.symbol x),
          holds isIdentifier (allFacts (factsOf es) none) r [x] c = true) ↔
            ∃ g, Held isIdentifier es r.key (.symbol x) [x] g := fun x => exists_holds_iff agree htime
      show (∃ c ∈ (allFacts (factsOf es) none).claims (.assertion a), _) ∧ _ ↔ _
      rw [hown]
      constructor
      · rintro ⟨hheld, htarget⟩
        exact ⟨fact, hrecorded, hheld, fun x hf ho => (hend x).1 (htarget x hf ho)⟩
      · rintro ⟨fact', hfact', hheld, htarget⟩
        obtain rfl := Option.some.inj (hrecorded.symm.trans hfact')
        exact ⟨hheld, fun x hf ho => (hend x).2 (htarget x hf ho)⟩

end Presence

/-! ## A retried ingest -/

/-- An ingest is interrupted after the file; the retry a minute later stores the symbol with its own time. -/
def retried : List Event :=
  [⟨"e1", "2026-03-01T12:01:00", "2026-03-01T12:01:00", .indexStarted ⟨"i", "commit:c"⟩⟩,
   ⟨"e2", "2026-03-01T12:01:00", "2026-03-01T12:01:00",
    .fileIndexed ⟨"i", "commit:c", "f", "r", "pkg/a.py", "m", "sha", "python", "indexer", "1"⟩⟩,
   ⟨"e3", "2026-03-01T12:02:00", "2026-03-01T12:02:00",
    .symbolIndexed ⟨"i", "commit:c", "f", "r", "x", "sr", "pkg.a.g", "function", none, none, "indexer", "1", none⟩⟩,
   ⟨"e4", "2026-03-01T12:02:00", "2026-03-01T12:02:00", .fileCoverageReported ⟨"i", "commit:c", "f", "r", true, []⟩⟩,
   ⟨"e5", "2026-03-01T12:02:00", "2026-03-01T12:02:00", .indexCompleted ⟨"i", "commit:c", true, none⟩⟩]

/-- The symbol is taken for gone at the run that states it. -/
theorem retried_absent :
    Agreeing retried ∧ StatesMember retried (runKey "i" "commit:c") "f" "r" ∧
      (∃ e ∈ retried, e.run = some (runKey "i" "commit:c") ∧ e.claim = some (.symbol "x", "r")) ∧
      ∃ r ∈ (loadFacts (factsOf retried) none (Item.wanted (.symbol "x"))).runs,
        r.key = runKey "i" "commit:c" ∧
          statusOf asciiIdentifier (loadFacts (factsOf retried) none (Item.wanted (.symbol "x"))) (.symbol "x") r =
            some (.absent "2026-03-01T12:02:00") := by
  refine ⟨by decide +kernel, ?_, by decide +kernel, by decide +kernel⟩
  exact ⟨_, List.mem_cons_of_mem _ List.mem_cons_self, _, rfl, rfl, rfl, rfl⟩

theorem run_membership_retried :
    ∃ r ∈ (loadFacts (factsOf retried) none (Item.wanted (.symbol "x"))).runs, r.key = runKey "i" "commit:c" ∧
      ((statusOf asciiIdentifier (loadFacts (factsOf retried) none (Item.wanted (.symbol "x"))) (.symbol "x") r).any
        Status.isPresent = true ↔ InRun asciiIdentifier retried (runKey "i" "commit:c") (.symbol "x")) :=
  run_membership (by decide +kernel) ⟨_, List.mem_cons_of_mem _ List.mem_cons_self, _, rfl, rfl, rfl, rfl⟩
    (by decide +kernel)

end Code
