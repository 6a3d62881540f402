import AgentContext.Code.Facts

/-!
# Facts depend on sets of rows

A query returns its rows in no order that means anything.  Where no two claims on an item for one file revision tie
for the earliest, what is loaded depends on the sets of the visible rows only:

    allFacts_eq      the same rows, keyed as the store keys them, without ties   →  the same facts
-/

namespace Code

open PropertyGraph Keyset List

variable {s : FactStore}
variable {recordedAt : Option Moment}

/-! ## Items and their claims -/

/-- A symbol or an assertion. -/
inductive Item where
  | symbol (symbolId : String)
  | assertion (assertionId : String)
deriving DecidableEq

def Facts.claims (F : Facts) : Item → List Claim
  | .symbol x => (F.symbol x).claims
  | .assertion a => (F.assertion a).claims

def claimRows (s : FactStore) (recordedAt : Option Moment) : Item → List Claim
  | .symbol x => ((visibleDefs s recordedAt).filter (·.symbolId = x)).map (·.toClaim)
  | .assertion a => ((visibleObserved s recordedAt).filter (·.assertionId = a)).map (·.toClaim)

theorem claims_allFacts (s : FactStore) (recordedAt : Option Moment) (item : Item) :
    (allFacts s recordedAt).claims item = earliestClaims (claimRows s recordedAt item) := by
  cases item <;> rfl

/-- The item a claim relationship is about. -/
def itemOf (s : FactStore) : Key → Option Item
  | .definedIn symbolRevisionId _ _ =>
    some (.symbol ((textOf (s.read (.symbolRevision symbolRevisionId)) "symbol_id").getD ""))
  | .observedIn assertionId _ _ => some (.assertion assertionId)
  | _ => none

theorem itemOf_of_claim {k : Key} {c : Claim} (h : claimOf s k = some c) : ∃ item, itemOf s k = some item := by
  cases k with
  | definedIn | observedIn => exact ⟨_, rfl⟩
  | _ => cases h

theorem mem_claimRows {item : Item} {c : Claim} : c ∈ claimRows s recordedAt item ↔
      ∃ k ∈ s.keys, itemOf s k = some item ∧ claimOf s k = some c ∧ seen recordedAt c.observedAt = true := by
  cases item with
  | symbol x =>
    simp only [claimRows, visibleDefs, mem_map, mem_filter, mem_filterMap]
    constructor
    · rintro ⟨row, ⟨⟨⟨k, hk, hrow⟩, hseen⟩, hx⟩, rfl⟩
      cases k with
      | definedIn sr g i =>
        obtain rfl := Option.some.inj hrow
        refine ⟨_, hk, ?_, rfl, hseen⟩
        have hx : (textOf (s.read (.symbolRevision sr)) "symbol_id").getD "" = x := by simpa using hx
        rw [itemOf, hx]
      | _ => cases hrow
    · rintro ⟨k, hk, hitem, hc, hseen⟩
      cases k with
      | definedIn sr g i =>
        obtain rfl := Option.some.inj hc
        refine ⟨_, ⟨⟨⟨_, hk, rfl⟩, hseen⟩, ?_⟩, rfl⟩
        simpa [itemOf] using hitem
      | observedIn a g i => simp [itemOf] at hitem
      | _ => cases hitem
  | assertion a =>
    simp only [claimRows, visibleObserved, mem_map, mem_filter, mem_filterMap]
    constructor
    · rintro ⟨row, ⟨⟨⟨k, hk, hrow⟩, hseen⟩, hx⟩, rfl⟩
      cases k with
      | observedIn a' g i =>
        obtain rfl := Option.some.inj hrow
        refine ⟨_, hk, ?_, rfl, hseen⟩
        have hx : a' = a := by simpa using hx
        rw [itemOf, hx]
      | _ => cases hrow
    · rintro ⟨k, hk, hitem, hc, hseen⟩
      cases k with
      | observedIn a' g i =>
        obtain rfl := Option.some.inj hc
        refine ⟨_, ⟨⟨⟨_, hk, rfl⟩, hseen⟩, ?_⟩, rfl⟩
        simpa [itemOf] using hitem
      | definedIn sr g i => simp [itemOf] at hitem
      | _ => cases hitem

/-! ## Earliest claims -/

section Earliest

variable {rows : List Claim} {c c' : Claim}

theorem mem_earliestClaims (h : c ∈ earliestClaims rows) :
    c ∈ rows ∧ ∀ c' ∈ rows, c'.revisionId = c.revisionId → c.since ≤ c'.since := by
  obtain ⟨g, hg, hc⟩ := mem_filterMap.1 h
  obtain ⟨hmem, hle⟩ := leastBy_spec hc
  obtain ⟨hrow, hrev⟩ := mem_filter.1 hmem
  have hrev : c.revisionId = g := by simpa using hrev
  refine ⟨hrow, ?_⟩
  intro c' hc' hsame
  exact hle c' (mem_filter.2 ⟨hc', by simpa using hsame.trans hrev⟩)

theorem exists_earliestClaim (h : c ∈ rows) :
    ∃ c' ∈ earliestClaims rows, c'.revisionId = c.revisionId ∧ c'.since ≤ c.since := by
  have hfilter : c ∈ rows.filter (·.revisionId = c.revisionId) := mem_filter.2 ⟨h, by simp⟩
  obtain ⟨c', hc'⟩ := exists_leastBy (·.since) hfilter
  obtain ⟨hmem, hle⟩ := leastBy_spec hc'
  refine ⟨c', mem_filterMap.2 ⟨c.revisionId, ?_, hc'⟩, ?_, hle c hfilter⟩
  · exact (mem_sortedSet _).2 (mem_map.2 ⟨c, h, rfl⟩)
  · simpa using (mem_filter.1 hmem).2

theorem earliestClaims_unique (h : c ∈ earliestClaims rows) (h' : c' ∈ earliestClaims rows)
    (hrev : c.revisionId = c'.revisionId) : c = c' := by
  obtain ⟨g, -, hc⟩ := mem_filterMap.1 h
  obtain ⟨g', -, hc'⟩ := mem_filterMap.1 h'
  have hg : c.revisionId = g := by simpa using (mem_filter.1 (leastBy_spec hc).1).2
  have hg' : c'.revisionId = g' := by simpa using (mem_filter.1 (leastBy_spec hc').1).2
  rw [← hg, hrev, hg'] at hc
  exact Option.some.inj (hc.symm.trans hc')

end Earliest

theorem earliestClaims_eq {rows rows' : List Claim} (same : ∀ c, c ∈ rows ↔ c ∈ rows')
    (keyed : ∀ g, KeyedBy (·.since) (rows.filter (·.revisionId = g))) : earliestClaims rows = earliestClaims rows' := by
  have hrevisions : sortedSet (rows.map (·.revisionId)) = sortedSet (rows'.map (·.revisionId)) := by
    apply sortedSet_congr
    intro g
    simp only [mem_map, same]
  unfold earliestClaims
  rw [hrevisions]
  apply filterMap_congr
  intro g _
  refine leastBy_eq (keyed g) ?_
  intro c
  rw [mem_filter, mem_filter, same]

/-! ## The relationship a row comes from -/

section Inversion

variable {s : FactStore} {k : Key}
variable {c : Claim}

theorem runRow_key {row : RunRow} (h : runRow s k = some row) : k = .indexed row.run := by
  cases k with
  | indexed run => obtain rfl := Option.some.inj h; rfl
  | _ => cases h

theorem outcomeRow_key {row : OutcomeRow} (h : outcomeRow s k = some row) :
    ∃ eventId, k = .completed row.run eventId := by
  cases k with
  | completed run eventId => obtain rfl := Option.some.inj h; exact ⟨eventId, rfl⟩
  | _ => cases h

theorem memberRow_key {row : MemberRow} (h : memberRow s k = some row) : k = .memberOf row.revisionId row.run := by
  cases k with
  | memberOf g run => obtain rfl := Option.some.inj h; rfl
  | _ => cases h

theorem coverageRow_key {row : CoverageRow} (h : coverageRow s k = some row) :
    ∃ eventId, k = .coveredIn row.revisionId row.run eventId := by
  cases k with
  | coveredIn g run eventId => obtain rfl := Option.some.inj h; exact ⟨eventId, rfl⟩
  | _ => cases h

theorem claimOf_reads (h : claimOf s k = some c) :
    c.fileId = fileOf s c.revisionId ∧ c.since = momentOf (s.read k) "occurred_at" ∧
      c.observedAt = momentOf (s.read k) "observed_at" := by
  cases k with
  | definedIn | observedIn => obtain rfl := Option.some.inj h; exact ⟨rfl, rfl, rfl⟩
  | _ => cases h

theorem defRow_claim {row : DefRow} (h : defRow s k = some row) : claimOf s k = some row.toClaim := by
  cases k with
  | definedIn sr g i => obtain rfl := Option.some.inj h; rfl
  | _ => cases h

theorem observedRow_claim {row : ObservedRow} (h : observedRow s k = some row) : claimOf s k = some row.toClaim := by
  cases k with
  | observedIn a g i => obtain rfl := Option.some.inj h; rfl
  | _ => cases h

end Inversion

section Read

variable {s s' : FactStore} (h : s.read = s'.read)

include h

theorem runRow_eq : runRow s = runRow s' := by
  funext k
  cases k <;> simp only [runRow, h]

theorem outcomeRow_eq : outcomeRow s = outcomeRow s' := by
  funext k
  cases k <;> simp only [outcomeRow, h]

theorem memberRow_eq : memberRow s = memberRow s' := by
  funext k
  cases k <;> simp only [memberRow, fileOf, h]

theorem coverageRow_eq : coverageRow s = coverageRow s' := by
  funext k
  cases k <;> simp only [coverageRow, fileOf, h]

theorem claimRow_eq : claimRow s = claimRow s' := by
  funext k g i
  simp only [claimRow, fileOf, h]

theorem defRow_eq : defRow s = defRow s' := by
  funext k
  cases k <;> simp only [defRow, claimRow_eq h, h]

theorem observedRow_eq : observedRow s = observedRow s' := by
  funext k
  cases k <;> simp only [observedRow, claimRow_eq h]

theorem claimOf_eq : claimOf s = claimOf s' := by
  funext k
  cases k <;> simp only [claimOf, claimRow_eq h]

end Read

/-! ## Facts of the same rows -/

/-- No two claims on an item for one file revision tie for the earliest. -/
def NoTies (s : FactStore) (recordedAt : Option Moment) : Prop :=
  ∀ item g, KeyedBy (·.since) ((claimRows s recordedAt item).filter (·.revisionId = g))

theorem noTies_iff : NoTies s recordedAt ↔ ∀ k ∈ s.keys, ∀ k' ∈ s.keys, itemOf s k = itemOf s k' →
      ∀ c ∈ (claimOf s k).toList, ∀ c' ∈ (claimOf s k').toList, seen recordedAt c.observedAt = true →
        seen recordedAt c'.observedAt = true → c.revisionId = c'.revisionId → c.since = c'.since → c = c' := by
  constructor
  · intro h k hk k' hk' hitems c hc c' hc' hseen hseen' hrevision hsince
    have hc := Option.mem_toList.1 hc
    have hc' := Option.mem_toList.1 hc'
    obtain ⟨item, hitem⟩ := itemOf_of_claim hc
    have hrow := mem_claimRows.2 ⟨k, hk, hitem, hc, hseen⟩
    have hrow' := mem_claimRows.2 ⟨k', hk', hitems ▸ hitem, hc', hseen'⟩
    exact h item c.revisionId c (mem_filter.2 ⟨hrow, by simp⟩) c' (mem_filter.2 ⟨hrow', by simp [hrevision]⟩)
      hsince
  · intro h item g c hc c' hc' hsince
    obtain ⟨hrow, hg⟩ := mem_filter.1 hc
    obtain ⟨hrow', hg'⟩ := mem_filter.1 hc'
    obtain ⟨k, hk, hitem, hc, hseen⟩ := mem_claimRows.1 hrow
    obtain ⟨k', hk', hitem', hc', hseen'⟩ := mem_claimRows.1 hrow'
    have hg : c.revisionId = g := by simpa using hg
    have hg' : c'.revisionId = g := by simpa using hg'
    exact h k hk k' hk' (hitem.trans hitem'.symm) c (Option.mem_toList.2 hc) c' (Option.mem_toList.2 hc') hseen hseen' (hg.trans hg'.symm) hsince

set_option synthInstance.maxSize 1000 in
instance (s : FactStore) (recordedAt : Option Moment) : Decidable (NoTies s recordedAt) :=
  decidable_of_iff _ noTies_iff.symm

/-- The visible rows are told apart by what the store keys them with. -/
structure KeyedRows (s : FactStore) (recordedAt : Option Moment) : Prop where
  runs : ∀ a ∈ visibleRuns s recordedAt, ∀ b ∈ visibleRuns s recordedAt, a.run = b.run → a = b
  nodup : (visibleRuns s recordedAt).Nodup
  outcomes : ∀ a ∈ visibleOutcomes s recordedAt, ∀ b ∈ visibleOutcomes s recordedAt,
    a.run = b.run → a.eventOrder = b.eventOrder → a = b
  members : ∀ a ∈ visibleMembers s recordedAt, ∀ b ∈ visibleMembers s recordedAt,
    a.run = b.run → a.revisionId = b.revisionId → a = b
  coverage : ∀ a ∈ visibleCoverage s recordedAt, ∀ b ∈ visibleCoverage s recordedAt,
    a.run = b.run → a.revisionId = b.revisionId → a.eventOrder = b.eventOrder → a = b

/-- Two stores show the same rows. -/
structure SameRows (s : FactStore) (recordedAt : Option Moment) (s' : FactStore) (recordedAt' : Option Moment) :
    Prop where
  runs : ∀ r, r ∈ visibleRuns s recordedAt ↔ r ∈ visibleRuns s' recordedAt'
  outcomes : ∀ r, r ∈ visibleOutcomes s recordedAt ↔ r ∈ visibleOutcomes s' recordedAt'
  members : ∀ r, r ∈ visibleMembers s recordedAt ↔ r ∈ visibleMembers s' recordedAt'
  coverage : ∀ r, r ∈ visibleCoverage s recordedAt ↔ r ∈ visibleCoverage s' recordedAt'
  defs : ∀ r, r ∈ visibleDefs s recordedAt ↔ r ∈ visibleDefs s' recordedAt'
  observed : ∀ r, r ∈ visibleObserved s recordedAt ↔ r ∈ visibleObserved s' recordedAt'
  claims : ∀ c, c ∈ visibleClaims s recordedAt ↔ c ∈ visibleClaims s' recordedAt'
  assertions : ∀ a, (assertionFact s a).filter (seen recordedAt ·.observedAt) =
    (assertionFact s' a).filter (seen recordedAt' ·.observedAt)

theorem SameRows.trans {s s' s'' : FactStore} {recordedAt recordedAt' recordedAt'' : Option Moment}
    (h : SameRows s recordedAt s' recordedAt') (h' : SameRows s' recordedAt' s'' recordedAt'') :
    SameRows s recordedAt s'' recordedAt'' where
  runs := fun r => (h.runs r).trans (h'.runs r)
  outcomes := fun r => (h.outcomes r).trans (h'.outcomes r)
  members := fun r => (h.members r).trans (h'.members r)
  coverage := fun r => (h.coverage r).trans (h'.coverage r)
  defs := fun r => (h.defs r).trans (h'.defs r)
  observed := fun r => (h.observed r).trans (h'.observed r)
  claims := fun c => (h.claims c).trans (h'.claims c)
  assertions := fun a => (h.assertions a).trans (h'.assertions a)

section Same

variable {s s' : FactStore} {recordedAt recordedAt' : Option Moment}
variable {outcomes : List OutcomeRow}

theorem runOf_eq (keyed : KeyedRows s recordedAt) (same : SameRows s recordedAt s' recordedAt') (row : RunRow) :
    runOf (visibleOutcomes s recordedAt) row = runOf (visibleOutcomes s' recordedAt') row := by
  have houtcome : leastBy (OrderDual.toDual ·.eventOrder) ((visibleOutcomes s recordedAt).filter (·.run = row.run)) =
      leastBy (OrderDual.toDual ·.eventOrder) ((visibleOutcomes s' recordedAt').filter (·.run = row.run)) := by
    refine leastBy_eq ?_ ?_
    · intro a ha b hb hab
      obtain ⟨ha, hrun⟩ := mem_filter.1 ha
      obtain ⟨hb, hrun'⟩ := mem_filter.1 hb
      have hrun : a.run = row.run := by simpa using hrun
      have hrun' : b.run = row.run := by simpa using hrun'
      exact keyed.outcomes a ha b hb (hrun.trans hrun'.symm) hab
    · intro a
      rw [mem_filter, mem_filter, same.outcomes]
  unfold runOf
  rw [houtcome]

theorem runOf_keyed {rows : List RunRow} (keyed : ∀ a ∈ rows, ∀ b ∈ rows, a.run = b.run → a = b) :
    KeyedBy Run.order (rows.map (runOf outcomes)) := by
  intro a ha b hb hab
  obtain ⟨row, hrow, rfl⟩ := mem_map.1 ha
  obtain ⟨row', hrow', rfl⟩ := mem_map.1 hb
  have hkey : row.run = row'.run := by
    have := congrArg (fun o => (ofLex o).2) hab
    simpa [Run.order] using this
  rw [keyed row hrow row' hrow' hkey]

theorem runOf_nodup {rows : List RunRow} (keyed : ∀ a ∈ rows, ∀ b ∈ rows, a.run = b.run → a = b)
    (nodup : rows.Nodup) : (rows.map (runOf outcomes)).Nodup := by
  refine List.Nodup.map_on ?_ nodup
  intro a ha b hb hab
  have hkey := congrArg Run.key hab
  rw [runOf_key, runOf_key] at hkey
  exact keyed a ha b hb hkey

theorem loadRuns_pairwise (keyed : KeyedRows s recordedAt) :
    (loadRuns s recordedAt).Pairwise (Run.order · < Run.order ·) :=
  sortBy_pairwise (runOf_keyed keyed.runs) (runOf_nodup keyed.runs keyed.nodup)

theorem loadRuns_eq (keyed : KeyedRows s recordedAt) (same : SameRows s recordedAt s' recordedAt')
    (nodup' : (visibleRuns s' recordedAt').Nodup) : loadRuns s recordedAt = loadRuns s' recordedAt' := by
  have hmap : ∀ rows : List RunRow, rows.map (runOf (visibleOutcomes s recordedAt)) =
      rows.map (runOf (visibleOutcomes s' recordedAt')) := fun rows => map_congr_left fun row _ => runOf_eq keyed same row
  have hkeyed : ∀ a ∈ visibleRuns s' recordedAt', ∀ b ∈ visibleRuns s' recordedAt', a.run = b.run → a = b :=
    fun a ha b hb => keyed.runs a ((same.runs a).2 ha) b ((same.runs b).2 hb)
  unfold loadRuns
  rw [← hmap]
  refine sortBy_eq (runOf_keyed keyed.runs) (runOf_nodup keyed.runs keyed.nodup) (runOf_nodup hkeyed nodup') ?_
  intro r
  simp only [mem_map, same.runs]

theorem fileFacts_eq {members members' : List MemberRow} {coverage coverage' : List CoverageRow}
    {claims claims' : List Claim} (hmembers : ∀ r, r ∈ members ↔ r ∈ members')
    (hcoverage : ∀ r, r ∈ coverage ↔ r ∈ coverage') (hclaims : ∀ c, c ∈ claims ↔ c ∈ claims')
    (keyedMembers : ∀ a ∈ members, ∀ b ∈ members, a.run = b.run → a.revisionId = b.revisionId → a = b)
    (keyedCoverage : ∀ a ∈ coverage, ∀ b ∈ coverage,
      a.run = b.run → a.revisionId = b.revisionId → a.eventOrder = b.eventOrder → a = b) :
    fileFacts members coverage claims = fileFacts members' coverage' claims' := by
  have hmember : ∀ run, leastBy (·.revisionId) (members.filter (·.run = run)) =
      leastBy (·.revisionId) (members'.filter (·.run = run)) := by
    intro run
    refine leastBy_eq ?_ fun r => by rw [mem_filter, mem_filter, hmembers]
    intro a ha b hb hab
    obtain ⟨ha, hrun⟩ := mem_filter.1 ha
    obtain ⟨hb, hrun'⟩ := mem_filter.1 hb
    have hrun : a.run = run := by simpa using hrun
    have hrun' : b.run = run := by simpa using hrun'
    exact keyedMembers a ha b hb (hrun.trans hrun'.symm) hab
  have hreport : ∀ run g, leastBy (OrderDual.toDual ·.eventOrder)
      (coverage.filter fun c => c.run = run ∧ c.revisionId = g) =
      leastBy (OrderDual.toDual ·.eventOrder) (coverage'.filter fun c => c.run = run ∧ c.revisionId = g) := by
    intro run g
    refine leastBy_eq ?_ fun r => by rw [mem_filter, mem_filter, hcoverage]
    intro a ha b hb hab
    obtain ⟨ha, hkey⟩ := mem_filter.1 ha
    obtain ⟨hb, hkey'⟩ := mem_filter.1 hb
    have hkey : a.run = run ∧ a.revisionId = g := by simpa using hkey
    have hkey' : b.run = run ∧ b.revisionId = g := by simpa using hkey'
    exact keyedCoverage a ha b hb (hkey.1.trans hkey'.1.symm) (hkey.2.trans hkey'.2.symm) hab
  have hcovered : ∀ run, (coverage.any fun c => decide (c.run = run)) = coverage'.any fun c => decide (c.run = run) := by
    intro run
    rw [Bool.eq_iff_iff, any_eq_true, any_eq_true]
    simp only [hcoverage]
  have hclaimed : ∀ g, ((claims.filter (·.revisionId = g)).map (·.run)).toFinset =
      ((claims'.filter (·.revisionId = g)).map (·.run)).toFinset := by
    intro g
    ext run
    simp only [mem_toFinset, mem_map, mem_filter, hclaims]
  unfold fileFacts
  simp only [hmember, hreport, hcovered, hclaimed]

theorem symbolFacts_eq {rows rows' : List DefRow} (same : ∀ r, r ∈ rows ↔ r ∈ rows')
    (ties : ∀ g, KeyedBy (·.since) ((rows.map (·.toClaim)).filter (·.revisionId = g))) :
    symbolFacts rows = symbolFacts rows' := by
  have hclaims : earliestClaims (rows.map (·.toClaim)) = earliestClaims (rows'.map (·.toClaim)) := by
    refine earliestClaims_eq ?_ ties
    intro c
    simp only [mem_map, same]
  have hdefinition : ∀ g, leastBy id ((rows.filter (·.revisionId = g)).map (·.symbolRevisionId)) =
      leastBy id ((rows'.filter (·.revisionId = g)).map (·.symbolRevisionId)) := by
    intro g
    refine leastBy_eq (fun a _ b _ hab => hab) ?_
    intro sr
    simp only [mem_map, mem_filter, same]
  have hbound : (rows.any fun r => r.scipSymbol.isNone) = rows'.any fun r => r.scipSymbol.isNone := by
    rw [Bool.eq_iff_iff, any_eq_true, any_eq_true]
    simp only [same]
  have hscips : (rows.filterMap (·.scipSymbol)).toFinset = (rows'.filterMap (·.scipSymbol)).toFinset := by
    ext scip
    simp only [mem_toFinset, mem_filterMap, same]
  unfold symbolFacts
  simp only [hclaims, hdefinition, hbound, hscips]

/-- **The same rows give the same facts.** -/
theorem allFacts_eq (keyed : KeyedRows s recordedAt) (ties : NoTies s recordedAt)
    (same : SameRows s recordedAt s' recordedAt') (nodup' : (visibleRuns s' recordedAt').Nodup) :
    allFacts s recordedAt = allFacts s' recordedAt' := by
  have hfile : (allFacts s recordedAt).file = (allFacts s' recordedAt').file := by
    funext fileId
    refine fileFacts_eq ?_ ?_ ?_ ?_ ?_
    · exact fun r => by rw [mem_filter, mem_filter, same.members]
    · exact fun r => by rw [mem_filter, mem_filter, same.coverage]
    · exact fun r => by rw [mem_filter, mem_filter, same.claims]
    · intro a ha b hb
      exact keyed.members a (mem_of_mem_filter ha) b (mem_of_mem_filter hb)
    · intro a ha b hb
      exact keyed.coverage a (mem_of_mem_filter ha) b (mem_of_mem_filter hb)
  have hsymbol : (allFacts s recordedAt).symbol = (allFacts s' recordedAt').symbol := by
    funext x
    exact symbolFacts_eq (fun r => by rw [mem_filter, mem_filter, same.defs]) (ties (.symbol x))
  have hassertion : (allFacts s recordedAt).assertion = (allFacts s' recordedAt').assertion := by
    funext a
    have hclaims : earliestClaims (claimRows s recordedAt (.assertion a)) =
        earliestClaims (claimRows s' recordedAt' (.assertion a)) := by
      refine earliestClaims_eq ?_ (ties (.assertion a))
      intro c
      simp only [claimRows, mem_map, mem_filter, same.observed]
    show AssertionFacts.mk _ _ = AssertionFacts.mk _ _
    rw [same.assertions]
    exact congrArg _ hclaims
  have hruns : (allFacts s recordedAt).runs = (allFacts s' recordedAt').runs := loadRuns_eq keyed same nodup'
  calc allFacts s recordedAt
      = ⟨(allFacts s recordedAt).runs, (allFacts s recordedAt).file, (allFacts s recordedAt).symbol,
          (allFacts s recordedAt).assertion⟩ := rfl
    _ = allFacts s' recordedAt' := by rw [hruns, hfile, hsymbol, hassertion]

end Same

end Code
