import AgentContext.Knowledge.Refinement
import AgentContext.Lib.Chains
import AgentContext.Lib.Fallible
import AgentContext.Temporal.History
import AgentContext.Temporal.Snapshot
import Mathlib

/-!
# A history against the whole scope

What a walk that no cap cut has read, beside all that the scope holds:

    Held      of a decision that was read, the newest version is there
    Asked     of a decision that was asked for, all that could supersede it are there

So the links are those of the whole scope, and so are their states.  The walk takes a decision once: on a cycle through
the start, the decisions that supersede its other members are not found.
-/

namespace Temporal

open Table Keyset Chains Relation List
open Knowledge (Moment EventOrder DecisionId DecisionStatus DecisionVersion DecisionState Candidate candidates closings
  currentVersions decisionStates edges mem_candidates mem_edges supersessionEdges supersessionEdges_decisionStates)

variable {r : Recordings} {c : Chain} {d s : DecisionId} {row row' : VersionRow}
variable {rows : List VersionRow} {a b : DecisionId} {ids : List DecisionId} {c' : Chain}
variable {later : List (DecisionId × Nat)} {states : Dict DecisionId DecisionState}
variable {v : DecisionVersion} {depth distance : Nat} {pairs : List (DecisionId × ChainRelation × Nat)}
variable {results : List (HistoryEntry × Bool)}

/-! ## The whole scope -/

namespace Recordings

def Has (r : Recordings) (d : DecisionId) : Prop := ∃ row ∈ r.rows, row.version.decisionId = d

def current (r : Recordings) : Dict DecisionId DecisionVersion := currentVersions (versionsOf r.rows) r.recordedAt

/-- What the current version of a decision supersedes, of the decisions of the scope. -/
def Edge (r : Recordings) (a b : DecisionId) : Prop := (a, b) ∈ supersessionEdges r.states ∧ b ∈ r.states

theorem row_inj (hrow : row ∈ r.rows) (hrow' : row' ∈ r.rows) (h : row.version.order = row'.version.order) : row = row' :=
  inj_on_of_nodup_map r.nodup hrow hrow' (by rw [← r.named row hrow, ← r.named row' hrow', h])

end Recordings

theorem mem_rowsOf : row ∈ rowsOf rows d ↔ row ∈ rows ∧ row.version.decisionId = d := by
  unfold rowsOf
  rw [mem_filter, decide_eq_true_eq]

theorem mem_versionsOf : v ∈ versionsOf rows ↔ ∃ row ∈ rows, row.version = v := mem_map

theorem lookup_current_argmax (hrows : rows ⊆ r.rows) : (currentVersions (versionsOf rows) r.recordedAt).lookup d =
      ((versionsOf rows).filter (·.decisionId = d)).argmax fun v => toLex (v.order, v.recordedAt) := by
  have hfilter : (versionsOf rows).filter (·.recordedAt ≤ r.recordedAt) = versionsOf rows := by
    refine filter_eq_self.2 fun v hv => ?_
    obtain ⟨row, hrow, rfl⟩ := mem_versionsOf.1 hv
    exact decide_eq_true (r.known row (hrows hrow))
  unfold currentVersions
  rw [lookup_keepBest, hfilter]

theorem lookup_current_eq_none (hrows : rows ⊆ r.rows) :
    (currentVersions (versionsOf rows) r.recordedAt).lookup d = none ↔ ∀ row ∈ rows, row.version.decisionId ≠ d := by
  rw [lookup_current_argmax hrows, argmax_eq_none, filter_eq_nil_iff]
  simp [mem_versionsOf]

theorem lookup_current (hrows : rows ⊆ r.rows) : (currentVersions (versionsOf rows) r.recordedAt).lookup d = some v ↔
      ∃ row ∈ rows, row.version = v ∧ row.version.decisionId = d ∧
        ∀ row' ∈ rows, row'.version.decisionId = d → row'.version.order ≤ row.version.order := by
  have hinj : ∀ a ∈ versionsOf rows, ∀ b ∈ versionsOf rows, a.decisionId = d → b.decisionId = d →
      toLex (a.order, a.recordedAt) = toLex (b.order, b.recordedAt) → a = b := by
    intro a ha b hb _ _ hab
    obtain ⟨row, hrow, rfl⟩ := mem_versionsOf.1 ha
    obtain ⟨row', hrow', rfl⟩ := mem_versionsOf.1 hb
    rw [Recordings.row_inj (hrows hrow) (hrows hrow') (congrArg (fun rank => (ofLex rank).1) hab)]
  rw [lookup_current_argmax hrows, argmax_filter_eq_some hinj, mem_versionsOf]
  constructor
  · rintro ⟨⟨row, hrow, rfl⟩, hd, hmax⟩
    refine ⟨row, hrow, rfl, hd, fun row' hrow' hd' => ?_⟩
    exact Prod.Lex.monotone_fst _ _ (hmax row'.version (mem_versionsOf.2 ⟨row', hrow', rfl⟩) hd')
  · rintro ⟨row, hrow, rfl, hd, hmax⟩
    refine ⟨⟨row, hrow, rfl⟩, hd, fun v hv hd' => ?_⟩
    obtain ⟨row', hrow', rfl⟩ := mem_versionsOf.1 hv
    rcases lt_or_eq_of_le (hmax row' hrow' hd') with hlt | heq
    · exact le_of_lt (Prod.Lex.toLex_lt_toLex.2 (Or.inl hlt))
    · rw [Recordings.row_inj (hrows hrow') (hrows hrow) heq]

theorem lookup_states {state : DecisionState} :
    (decisionStates (versionsOf rows) r.recordedAt).lookup d = some state ↔
      ∃ v, (currentVersions (versionsOf rows) r.recordedAt).lookup d = some v ∧ state =
        { version := v
          supersededBy := ((closings (currentVersions (versionsOf rows) r.recordedAt)).lookup d).map (·.superseder)
          closedAt := ((closings (currentVersions (versionsOf rows) r.recordedAt)).lookup d).map (·.validFrom)
          stop := Knowledge.earliest v.validTo
            (((closings (currentVersions (versionsOf rows) r.recordedAt)).lookup d).map (·.validFrom)) } := by
  unfold decisionStates
  rw [lookup_mapValues, Option.map_eq_some_iff]
  simp only [eq_comm]

theorem mem_states : d ∈ r.states ↔ r.Has d := by
  have hnone : r.states.lookup d = none ↔ r.current.lookup d = none := by
    unfold Recordings.states decisionStates
    rw [lookup_mapValues, Option.map_eq_none_iff]
    rfl
  rw [mem_iff_lookup, ne_eq, hnone, Recordings.current, lookup_current_eq_none (List.Subset.refl _)]
  simp [Recordings.Has]

theorem edge_iff : r.Edge a b ↔ (∃ v, r.current.lookup a = some v ∧ v.target = some b) ∧ r.Has b := by
  unfold Recordings.Edge
  rw [mem_states]
  exact and_congr_left' (supersessionEdges_decisionStates.trans mem_edges)

/-- A decision supersedes one at a time. -/
theorem edge_functional : Relator.RightUnique r.Edge := by
  intro a b b' h h'
  obtain ⟨⟨v, hv, ht⟩, -⟩ := edge_iff.1 h
  obtain ⟨⟨v', hv', ht'⟩, -⟩ := edge_iff.1 h'
  obtain rfl := Option.some_inj.1 (hv.symm.trans hv')
  exact Option.some_inj.1 (ht.symm.trans ht')

theorem Recordings.Edge.superseding (h : r.Edge a b) :
    ∃ row ∈ r.rows, row.version.decisionId = a ∧ row.version.target = some b := by
  obtain ⟨⟨v, hv, ht⟩, -⟩ := edge_iff.1 h
  obtain ⟨row, hrow, rfl, ha, -⟩ := (lookup_current (List.Subset.refl _)).1 hv
  exact ⟨row, hrow, ha, ht⟩

/-! ## What the queries return -/

theorem mem_decisionVersions (h : row ∈ r.decisionVersions d) : row ∈ r.rows ∧ row.version.decisionId = d :=
  mem_rowsOf.1 (mem_sortBy.1 (mem_of_mem_take h))

theorem newest_decisionVersions (hrow : row ∈ r.rows) (hd : row.version.decisionId = d) :
    ∃ newest ∈ r.decisionVersions d, row.version.order ≤ newest.version.order := by
  have hmem : row ∈ sortBy Recordings.newestFirst (rowsOf r.rows d) := mem_sortBy.2 (mem_rowsOf.2 ⟨hrow, hd⟩)
  have hsorted := sortBy_le Recordings.newestFirst (rowsOf r.rows d)
  unfold Recordings.decisionVersions
  cases hrows : sortBy Recordings.newestFirst (rowsOf r.rows d) with
  | nil =>
    rw [hrows] at hmem
    exact absurd hmem not_mem_nil
  | cons first rest =>
    rw [hrows] at hmem hsorted
    refine ⟨first, mem_cons_self, ?_⟩
    rcases mem_cons.1 hmem with rfl | hmem
    · exact le_rfl
    · have hle := (pairwise_cons.1 hsorted).1 row hmem
      exact Prod.Lex.monotone_fst _ _ (OrderDual.toDual_le_toDual.1 hle)

/-! ## What was read -/

theorem has_iff : c.has d ↔ ∃ row ∈ c.rows, row.version.decisionId = d := by simp [Chain.has]

/-- Of each decision that was read, the newest version was. -/
structure Held (r : Recordings) (c : Chain) : Prop where
  sub : c.rows ⊆ r.rows
  newest : ∀ row ∈ r.rows, c.has row.version.decisionId →
    ∃ held ∈ c.rows, held.version.decisionId = row.version.decisionId ∧ row.version.order ≤ held.version.order

theorem held_empty : Held r .empty := ⟨nil_subset _, fun _ _ h => by cases h⟩

theorem Held.lookup (h : Held r c) (hd : c.has d) :
    (currentVersions (versionsOf c.rows) r.recordedAt).lookup d = r.current.lookup d := by
  refine Option.ext fun v => ?_
  rw [Recordings.current, lookup_current h.sub, lookup_current (List.Subset.refl _)]
  constructor
  · rintro ⟨row, hrow, rfl, rfl, hmax⟩
    refine ⟨row, h.sub hrow, rfl, rfl, fun row' hrow' hd' => ?_⟩
    obtain ⟨held, hheld, hid, hle⟩ := h.newest row' hrow' (hd' ▸ hd)
    exact hle.trans (hmax held hheld (hid.trans hd'))
  · rintro ⟨row, hrow, rfl, rfl, hmax⟩
    obtain ⟨held, hheld, hid, hle⟩ := h.newest row hrow hd
    obtain rfl := Recordings.row_inj hrow (h.sub hheld) (le_antisymm hle (hmax held (h.sub hheld) hid))
    exact ⟨row, hheld, rfl, rfl, fun row' hrow' hd' => hmax row' (h.sub hrow') hd'⟩

/-- What a decision that was read supersedes. -/
theorem Held.target (h : Held r c) (hd : c.has d) : c.target r d = (r.current.lookup d).bind (·.target) := by
  have hsub : rowsOf c.rows d ⊆ r.rows := fun row hrow => h.sub (mem_rowsOf.1 hrow).1
  have hsame : (currentVersions (versionsOf (rowsOf c.rows d)) r.recordedAt).lookup d = r.current.lookup d := by
    rw [← h.lookup hd]
    refine Option.ext fun v => ?_
    rw [lookup_current hsub, lookup_current h.sub]
    simp only [mem_rowsOf]
    constructor
    · rintro ⟨row, ⟨hrow, -⟩, rfl, hid, hmax⟩
      exact ⟨row, hrow, rfl, hid, fun row' hrow' hd' => hmax row' ⟨hrow', hd'⟩ hd'⟩
    · rintro ⟨row, hrow, rfl, hid, hmax⟩
      exact ⟨row, ⟨hrow, hid⟩, rfl, hid, fun row' hrow' hd' => hmax row' hrow'.1 hd'⟩
  have hedges : ∀ s t, (s, t) ∈ supersessionEdges (decisionStates (versionsOf (rowsOf c.rows d)) r.recordedAt) ↔
      s = d ∧ (r.current.lookup d).bind (·.target) = some t := by
    intro s t
    rw [supersessionEdges_decisionStates, mem_edges, ← hsame, Option.bind_eq_some_iff]
    constructor
    · rintro ⟨v, hv, ht⟩
      obtain ⟨row, hrow, -, rfl, -⟩ := (lookup_current hsub).1 hv
      obtain rfl := (mem_rowsOf.1 hrow).2
      exact ⟨rfl, v, hv, ht⟩
    · rintro ⟨rfl, v, hv, ht⟩
      exact ⟨v, hv, ht⟩
  unfold Chain.target
  cases hhead : (supersessionEdges (decisionStates (versionsOf (rowsOf c.rows d)) r.recordedAt)).head? with
  | none =>
    rw [List.head?_eq_none_iff] at hhead
    refine (Option.eq_none_iff_forall_ne_some.2 fun t ht => ?_).symm
    have := (hedges d t).2 ⟨rfl, ht⟩
    rw [hhead] at this
    exact absurd this not_mem_nil
  | some edge => exact ((hedges edge.1 edge.2).1 (mem_of_head? hhead)).2.symm

theorem load_uncut (huncut : (c.load r ids).truncated = false) : c.truncated = false := by
  unfold Chain.load at huncut
  dsimp only at huncut
  split at huncut
  · exact huncut
  · split at huncut
    · cases huncut
    · exact (Bool.or_eq_false_iff.1 huncut).1

theorem superseders_uncut (huncut : (c.superseders r ids).2.truncated = false) : c.truncated = false := by
  unfold Chain.superseders at huncut
  dsimp only at huncut
  split at huncut
  · exact huncut
  · exact (Bool.or_eq_false_iff.1 (load_uncut huncut)).1

theorem Held.load (h : Held r c) (huncut : (c.load r ids).truncated = false) :
    Held r (c.load r ids) ∧ (c.load r ids).asked = c.asked ∧
      ∀ d, (c.load r ids).has d ↔ c.has d ∨ d ∈ ids ∧ r.Has d := by
  unfold Chain.load at huncut ⊢
  set wanted := sortedSet (ids.filter fun d => !c.has d) with hwanted
  have hmem : ∀ d, d ∈ wanted ↔ d ∈ ids ∧ c.has d = false := fun d => by simp [hwanted]
  by_cases hnil : wanted = []
  · simp only [hnil, if_true] at huncut ⊢
    refine ⟨h, trivial, fun d => ⟨Or.inl, fun hd => hd.elim id fun hd => ?_⟩⟩
    by_contra hnot
    have := (hmem d).2 ⟨hd.1, Bool.eq_false_iff.2 hnot⟩
    rw [hnil] at this
    exact absurd this not_mem_nil
  · simp only [hnil, if_false] at huncut ⊢
    by_cases hbudget : maxVersions ≤ c.read
    · rw [if_pos hbudget] at huncut
      cases huncut
    · rw [if_neg hbudget] at huncut ⊢
      simp only [Bool.or_eq_false_iff, decide_eq_false_iff_not, not_lt] at huncut
      obtain ⟨-, hlength⟩ := huncut
      -- the budget covers all that the query returns
      set records := wanted.flatMap r.decisionVersions with hrecords
      have hall : (records.take (maxVersions - c.read + 1)).take (maxVersions - c.read) = records := by
        rw [length_take] at hlength
        rw [take_take, take_of_length_le (by omega)]
      simp only [hall]
      have hread : ∀ row, row ∈ records ↔ ∃ d ∈ wanted, row ∈ r.decisionVersions d := fun row => mem_flatMap
      refine ⟨⟨?_, ?_⟩, trivial, fun d => ?_⟩
      · intro row hrow
        rcases mem_append.1 hrow with hrow | hrow
        · exact h.sub hrow
        · obtain ⟨d, -, hrow⟩ := (hread row).1 hrow
          exact (mem_decisionVersions hrow).1
      · intro row hrow hhas
        obtain ⟨row', hrow', hid⟩ := has_iff.1 hhas
        rcases mem_append.1 hrow' with hrow' | hrow'
        · obtain ⟨held, hheld, hsame, hle⟩ := h.newest row hrow (has_iff.2 ⟨row', hrow', hid⟩)
          exact ⟨held, mem_append_left _ hheld, hsame, hle⟩
        · obtain ⟨d, hd, hrow'⟩ := (hread row').1 hrow'
          have hid' : row.version.decisionId = d := hid.symm.trans (mem_decisionVersions hrow').2
          obtain ⟨newest, hnewest, hle⟩ := newest_decisionVersions hrow hid'
          exact ⟨newest, mem_append_right _ ((hread newest).2 ⟨d, hd, hnewest⟩),
            (mem_decisionVersions hnewest).2.trans hid'.symm, hle⟩
      · rw [has_iff, has_iff]
        constructor
        · rintro ⟨row, hrow, hid⟩
          rcases mem_append.1 hrow with hrow | hrow
          · exact .inl ⟨row, hrow, hid⟩
          · obtain ⟨d', hd', hrow⟩ := (hread row).1 hrow
            obtain ⟨hrow, hid'⟩ := mem_decisionVersions hrow
            exact .inr ⟨hid ▸ hid'.symm ▸ ((hmem d').1 hd').1, row, hrow, hid⟩
        · rintro (⟨row, hrow, hid⟩ | ⟨hd, row, hrow, hid⟩)
          · exact ⟨row, mem_append_left _ hrow, hid⟩
          · by_cases hhas : c.has d
            · obtain ⟨row', hrow', hid'⟩ := has_iff.1 hhas
              exact ⟨row', mem_append_left _ hrow', hid'⟩
            · obtain ⟨newest, hnewest, -⟩ := newest_decisionVersions hrow hid
              have hwant : d ∈ wanted := (hmem d).2 ⟨hd, Bool.eq_false_iff.2 hhas⟩
              exact ⟨newest, mem_append_right _ ((hread newest).2 ⟨d, hwant, hnewest⟩), (mem_decisionVersions hnewest).2⟩

/-- Of each decision that was asked for, all that name it in a superseding recording were read. -/
def Asked (r : Recordings) (c : Chain) : Prop :=
  ∀ d ∈ c.asked, ∀ row ∈ r.rows, row.version.target = some d → c.has row.version.decisionId

/-- Who supersedes, asked for without a cap. -/
theorem Held.superseders (h : Held r c) (hasked : Asked r c) {ids found : List DecisionId}
    (hsuperseders : c.superseders r ids = (found, c')) (huncut : c'.truncated = false) :
    Held r c' ∧ Asked r c' ∧ (∀ d, d ∈ c'.asked ↔ d ∈ c.asked ∨ d ∈ ids) ∧
      (∀ d, c.has d → c'.has d) ∧ (∀ d ∈ found, c'.has d) ∧
      ∀ row ∈ r.rows, ∀ d ∈ ids, d ∉ c.asked → row.version.target = some d → row.version.decisionId ∈ found := by
  unfold Chain.superseders at hsuperseders
  set wanted := sortedSet (ids.filter (· ∉ c.asked)) with hwanted
  have hmem : ∀ d, d ∈ wanted ↔ d ∈ ids ∧ d ∉ c.asked := fun d => by simp [hwanted]
  by_cases hnil : wanted = []
  · simp only [hnil, if_true, Prod.mk.injEq] at hsuperseders
    obtain ⟨rfl, rfl⟩ := hsuperseders
    have hall : ∀ d ∈ ids, d ∈ c.asked := fun d hd => by
      by_contra hnot
      have := (hmem d).2 ⟨hd, hnot⟩
      rw [hnil] at this
      exact absurd this not_mem_nil
    exact ⟨h, hasked, fun d => ⟨.inl, fun hd => hd.elim id (hall d)⟩, fun _ => id, nofun,
      fun row _ d hd hnot => absurd (hall d hd) hnot⟩
  · simp only [hnil, if_false, Prod.mk.injEq] at hsuperseders
    obtain ⟨rfl, rfl⟩ := hsuperseders
    set asked : Chain := { c with
      asked := c.asked ++ wanted
      truncated := c.truncated || decide (maxChain < (r.superseders wanted).length) } with hdef
    have hheld : Held r asked := ⟨h.sub, h.newest⟩
    obtain ⟨hheld', hsame, hhas⟩ := hheld.load huncut
    have hbefore : asked.truncated = false := load_uncut huncut
    simp only [hdef, Bool.or_eq_false_iff, decide_eq_false_iff_not, not_lt] at hbefore
    obtain ⟨-, hlength⟩ := hbefore
    -- the cap covers all that the query returns
    have hall : (r.superseders wanted).take maxChain = sortedSet
        ((r.rows.filter fun row => row.version.target.any (· ∈ wanted)).map (·.version.decisionId)) := by
      unfold Recordings.superseders at hlength ⊢
      rw [length_take] at hlength
      rw [take_take, take_of_length_le (by omega)]
    have hfound : ∀ row ∈ r.rows, ∀ d ∈ wanted, row.version.target = some d →
        row.version.decisionId ∈ (r.superseders wanted).take maxChain := fun row hrow d hd ht => by
      rw [hall, mem_sortedSet]
      refine mem_map_of_mem (mem_filter.2 ⟨hrow, ?_⟩)
      rw [ht, Option.any_some]
      exact decide_eq_true hd
    have hread : ∀ row ∈ r.rows, ∀ d ∈ wanted, row.version.target = some d →
        (asked.load r ((r.superseders wanted).take maxChain)).has row.version.decisionId := fun row hrow d hd ht =>
      (hhas _).2 (.inr ⟨hfound row hrow d hd ht, row, hrow, rfl⟩)
    refine ⟨hheld', fun d hd row hrow ht => ?_, fun d => ?_, fun d hd => (hhas d).2 (.inl hd), fun d hd => ?_,
      fun row hrow d hd hnot ht => ?_⟩
    · rw [hsame] at hd
      rcases mem_append.1 hd with hd | hd
      · exact (hhas _).2 (.inl (hasked d hd row hrow ht))
      · exact hread row hrow d hd ht
    · rw [hsame]
      show d ∈ c.asked ++ wanted ↔ _
      rw [mem_append, hmem]
      by_cases hd : d ∈ c.asked <;> simp [hd]
    · exact (mem_filter.1 hd).2
    · have hwant : d ∈ wanted := (hmem d).2 ⟨hd, hnot⟩
      exact mem_filter.2 ⟨hfound row hrow d hwant ht, hread row hrow d hwant ht⟩

/-! ## The links -/

variable {start current : DecisionId} {earlier earlier' frontier : List DecisionId}

/-- Where the walk down stands: the decisions it has listed were read, and nobody was asked for yet. -/
structure GoesDown (r : Recordings) (start : DecisionId) (earlier : List DecisionId) (c : Chain) : Prop where
  held : Held r c
  asked : c.asked = []
  once : (start :: earlier).Nodup
  read : ∀ d ∈ start :: earlier, c.has d

theorem Held.edge (h : Held r c) (ha : c.has a) : r.Edge a b ↔ c.target r a = some b ∧ r.Has b := by
  rw [edge_iff, h.target ha, Option.bind_eq_some_iff]

theorem GoesDown.nextLink {next : Option DecisionId} (h : GoesDown r start earlier c)
    (hcurrent : current ∈ start :: earlier) (hnext : nextLink r start earlier current c = (next, c'))
    (huncut : c'.truncated = false) :
    GoesDown r start earlier c' ∧ (next = none → ∀ b, r.Edge current b → b ∈ start :: earlier) ∧
      ∀ b, next = some b → r.Edge current b ∧ b ∉ start :: earlier ∧ c'.has b := by
  have hedge : ∀ b, r.Edge current b ↔ c.target r current = some b ∧ r.Has b := fun b => h.held.edge (h.read current hcurrent)
  unfold Temporal.nextLink at hnext
  split at hnext
  · next hnone =>
    cases hnext
    refine ⟨h, fun _ b hb => ?_, nofun⟩
    have := ((hedge b).1 hb).1
    rw [hnone] at this
    cases this
  · next target htarget =>
    have honly : ∀ b, r.Edge current b → b = target := fun b hb => Option.some_inj.1 (((hedge b).1 hb).1.symm.trans htarget)
    split at hnext
    · next hseen =>
      cases hnext
      exact ⟨h, fun _ b hb => honly b hb ▸ hseen, nofun⟩
    · next hseen =>
      obtain ⟨rfl, rfl⟩ := Prod.mk.inj hnext
      obtain ⟨hheld, hasked, hhas⟩ := h.held.load huncut
      refine ⟨⟨hheld, hasked.trans h.asked, h.once, fun d hd => (hhas d).2 (.inl (h.read d hd))⟩, fun hmissing b hb => ?_,
        fun b hb => ?_⟩
      · have hread := (hhas b).2 (.inr ⟨mem_singleton.2 (honly b hb), ((hedge b).1 hb).2⟩)
        rw [honly b hb] at hread
        rw [if_pos hread] at hmissing
        cases hmissing
      · split at hb
        · next hread =>
          obtain rfl := Option.some_inj.1 hb
          obtain ⟨row, hrow, hid⟩ := has_iff.1 hread
          exact ⟨(hedge _).2 ⟨htarget, row, hheld.sub hrow, hid⟩, hseen, hread⟩
        · cases hb

/-- The walk down takes a link. -/
theorem GoesDown.step (h : GoesDown r start earlier c) (hnew : d ∉ start :: earlier) (hread : c.has d) :
    GoesDown r start (earlier ++ [d]) c := by
  refine ⟨h.held, h.asked, ?_, fun b hb => ?_⟩
  · rw [← cons_append]
    exact nodup_append.2 ⟨h.once, nodup_singleton _, fun a ha b hb hab =>
      hnew (mem_singleton.1 hb ▸ hab ▸ ha)⟩
  · rw [← cons_append] at hb
    rcases mem_append.1 hb with hb | hb
    · exact h.read b hb
    · exact mem_singleton.1 hb ▸ hread

theorem nextLink_uncut (huncut : (Temporal.nextLink r start earlier current c).2.truncated = false) : c.truncated = false := by
  unfold Temporal.nextLink at huncut
  split at huncut
  · exact huncut
  · split at huncut
    · exact huncut
    · exact load_uncut huncut

theorem earlierLinks_uncut {room : Nat} (huncut : (earlierLinks r start room earlier current c).2.truncated = false) :
    c.truncated = false := by
  induction room generalizing earlier current c with
  | zero =>
    unfold earlierLinks at huncut
    split at huncut
    · next hnext => exact nextLink_uncut (by rw [hnext]; exact huncut)
    · cases huncut
  | succ room ih =>
    unfold earlierLinks at huncut
    split at huncut
    · next hnext => exact nextLink_uncut (by rw [hnext]; exact huncut)
    · next hnext => exact nextLink_uncut (by rw [hnext]; exact ih huncut)

theorem earlierLinks_complete {room : Nat} (h : GoesDown r start earlier c)
    (hdescent : Descent r.Edge start earlier current)
    (hwalk : earlierLinks r start room earlier current c = (earlier', c')) (huncut : c'.truncated = false) :
    GoesDown r start earlier' c' ∧ ∀ d, ReflTransGen r.Edge start d ↔ d ∈ start :: earlier' := by
  induction room generalizing earlier current c with
  | zero =>
    unfold earlierLinks at hwalk
    split at hwalk
    · next hnext =>
      cases hwalk
      obtain ⟨hdown, hstop, -⟩ := h.nextLink hdescent.here hnext huncut
      exact ⟨hdown, fun d => hdescent.complete (hstop rfl)⟩
    · cases hwalk
      cases huncut
  | succ room ih =>
    unfold earlierLinks at hwalk
    split at hwalk
    · next hnext =>
      cases hwalk
      obtain ⟨hdown, hstop, -⟩ := h.nextLink hdescent.here hnext huncut
      exact ⟨hdown, fun d => hdescent.complete (hstop rfl)⟩
    · next target loaded hnext =>
      have hloaded : loaded.truncated = false := earlierLinks_uncut (by rw [hwalk]; exact huncut)
      obtain ⟨hdown, -, hlink⟩ := h.nextLink hdescent.here hnext hloaded
      obtain ⟨hedge, hnew, hread⟩ := hlink target rfl
      exact ih (hdown.step hnew hread) (hdescent.step edge_functional hedge) hwalk

theorem superseders_nodup : (c.superseders r ids).1.Nodup := by
  unfold Chain.superseders
  dsimp only
  split
  · exact nodup_nil
  · refine List.Nodup.filter _ (List.Nodup.sublist (take_sublist _ _) ?_)
    exact List.Nodup.sublist (take_sublist _ _) (sortedSet_nodup _)

theorem mem_sorted {α : Type} [LinearOrder α] {xs : List α} {a : α} : a ∈ sorted xs ↔ a ∈ xs :=
  (perm_insertionSort _ xs).mem_iff

/-- Where the walk up stands: all that it has listed was read, and asked for, but for the last level. -/
structure GoesUp (r : Recordings) (start : DecisionId) (earlier later frontier : List DecisionId) (c : Chain) : Prop where
  held : Held r c
  asked : Asked r c
  once : (start :: earlier ++ later).Nodup
  read : ∀ d ∈ start :: earlier ++ later, c.has d
  done : ∀ d, d ∈ c.asked ↔ d ∈ start :: later ∧ d ∉ frontier
  ascent : Ascent r.Edge start earlier later frontier

theorem GoesDown.turn (h : GoesDown r start earlier c) : GoesUp r start earlier [] [start] c where
  held := h.held
  asked d hd := by
    rw [h.asked] at hd
    exact absurd hd not_mem_nil
  once := by
    rw [append_nil]
    exact h.once
  read := by
    rw [append_nil]
    exact h.read
  done d := by
    rw [h.asked]
    exact ⟨fun hd => absurd hd not_mem_nil, fun hd => absurd hd.1 hd.2⟩
  ascent := .init

theorem GoesUp.level {later level : List DecisionId} (h : GoesUp r start earlier later frontier c)
    (hlevel : nextLevel r (start :: earlier ++ later) frontier c = (level, c')) (huncut : c'.truncated = false) :
    GoesUp r start earlier (later ++ level) level c' := by
  unfold nextLevel at hlevel
  rcases hsuperseders : c.superseders r frontier with ⟨found, asked⟩
  rw [hsuperseders] at hlevel
  obtain ⟨rfl, rfl⟩ := Prod.mk.inj hlevel
  obtain ⟨hheld, hasked, hdone, hkept, hread, hfound⟩ := h.held.superseders h.asked hsuperseders huncut
  have hmem : ∀ d, d ∈ sorted (found.filter fun d =>
      d ∉ start :: earlier ++ later && (asked.target r d).any (· ∈ frontier)) ↔
      (d ∉ start :: earlier ∧ d ∉ later) ∧ ∃ b ∈ frontier, r.Edge d b := by
    intro d
    rw [mem_sorted, mem_filter, Bool.and_eq_true, decide_eq_true_eq, mem_append, not_or]
    constructor
    · rintro ⟨hd, hnew, hany⟩
      obtain ⟨b, hb, hfront⟩ := (Option.any_eq_true _ _).1 hany
      have hfront : b ∈ frontier := of_decide_eq_true hfront
      have hhas : c.has b := h.read b (by
        rcases mem_cons.1 (h.ascent.front b hfront) with rfl | hb
        · simp
        · exact mem_append_right _ hb)
      obtain ⟨row, hrow, hid⟩ := has_iff.1 (hkept b hhas)
      exact ⟨hnew, b, hfront, (hheld.edge (hread d hd)).2 ⟨hb, row, hheld.sub hrow, hid⟩⟩
    · rintro ⟨hnew, b, hfront, hedge⟩
      obtain ⟨row, hrow, rfl, ht⟩ := hedge.superseding
      have hd := hfound row hrow b hfront (fun hb => ((h.done b).1 hb).2 hfront) ht
      refine ⟨hd, hnew, (Option.any_eq_true _ _).2 ⟨b, ?_, decide_eq_true hfront⟩⟩
      exact ((hheld.edge (hread _ hd)).1 hedge).1
  set level := sorted (found.filter fun d =>
    d ∉ start :: earlier ++ later && (asked.target r d).any (· ∈ frontier)) with hlevel'
  refine ⟨hheld, hasked, ?_, ?_, fun d => ?_, h.ascent.next hmem⟩
  · rw [← append_assoc]
    refine nodup_append.2 ⟨h.once, ?_, fun a ha b hb hab => ?_⟩
    · have hnodup : (c.superseders r frontier).1.Nodup := superseders_nodup
      rw [hsuperseders] at hnodup
      exact (perm_insertionSort _ _).nodup_iff.2 (hnodup.filter _)
    · obtain ⟨hnew, -⟩ := (hmem b).1 hb
      rcases mem_append.1 (hab ▸ ha) with h | h
      · exact hnew.1 h
      · exact hnew.2 h
  · intro d hd
    rw [← append_assoc] at hd
    rcases mem_append.1 hd with hd | hd
    · exact hkept d (h.read d hd)
    · exact hread d (mem_filter.1 (mem_sorted.1 hd)).1
  · rw [hdone, h.done]
    constructor
    · intro hd
      have hold : d ∈ start :: later := hd.elim And.left (h.ascent.front d)
      refine ⟨mem_append_left level hold, fun hin => ?_⟩
      obtain ⟨hnew, -⟩ := (hmem d).1 hin
      rcases mem_cons.1 hold with rfl | hold
      · exact hnew.1 mem_cons_self
      · exact hnew.2 hold
    · rintro ⟨hd, hnot⟩
      have hold : d ∈ start :: later := (mem_append.1 hd).resolve_right hnot
      by_cases hfront : d ∈ frontier
      · exact .inr hfront
      · exact .inl ⟨hold, hfront⟩

theorem nextLevel_uncut {seen : List DecisionId} (huncut : (nextLevel r seen frontier c).2.truncated = false) :
    c.truncated = false :=
  superseders_uncut huncut

theorem laterLinks_uncut (huncut : (laterLinks r start earlier depth later frontier distance c).2.truncated = false) :
    c.truncated = false := by
  induction depth generalizing later frontier distance c with
  | zero =>
    unfold laterLinks at huncut
    split at huncut
    · exact huncut
    · dsimp only at huncut
      split at huncut
      · cases huncut
      · exact nextLevel_uncut huncut
  | succ depth ih =>
    unfold laterLinks at huncut
    split at huncut
    · exact huncut
    · rcases hlevel : nextLevel r (start :: earlier ++ later.map Prod.fst) frontier c with ⟨level, asked⟩
      rw [hlevel] at huncut
      have hcut := ih huncut
      split at hcut
      · cases hcut
      · exact nextLevel_uncut (by rw [hlevel]; exact hcut)

theorem laterLinks_complete {later later' : List (DecisionId × Nat)}
    (h : GoesUp r start earlier (later.map Prod.fst) frontier c)
    (hwalk : laterLinks r start earlier depth later frontier distance c = (later', c'))
    (huncut : c'.truncated = false) : GoesUp r start earlier (later'.map Prod.fst) [] c' := by
  induction depth generalizing later frontier distance c with
  | zero =>
    unfold laterLinks at hwalk
    split at hwalk
    · next hnil =>
      cases hwalk
      exact hnil ▸ h
    · rcases hlevel : nextLevel r (start :: earlier ++ later.map Prod.fst) frontier c with ⟨level, asked⟩
      rw [hlevel] at hwalk
      obtain ⟨rfl, rfl⟩ := Prod.mk.inj hwalk
      split at huncut
      · cases huncut
      · next hnil =>
        have hup := h.level hlevel (by simpa [hnil] using huncut)
        rw [not_not.1 hnil, append_nil] at hup
        rwa [if_neg hnil]
  | succ depth ih =>
    unfold laterLinks at hwalk
    split at hwalk
    · next hnil =>
      cases hwalk
      exact hnil ▸ h
    · rcases hlevel : nextLevel r (start :: earlier ++ later.map Prod.fst) frontier c with ⟨level, asked⟩
      rw [hlevel] at hwalk
      dsimp only at hwalk
      have hcut := laterLinks_uncut ((congrArg (·.2.truncated) hwalk).trans huncut)
      split at hcut
      · cases hcut
      · next hover =>
        simp only [if_neg hover] at hwalk
        refine ih ?_ hwalk
        have hids : (later ++ level.map fun d => (d, distance + 1)).map Prod.fst = later.map Prod.fst ++ level := by
          rw [map_append, List.map_map]
          exact congrArg _ (map_id _)
        rw [hids]
        exact h.level hlevel hcut

/-! ## The states -/

/-- A decision that was asked for is closed as in the whole scope. -/
theorem Held.lookup_closings (h : Held r c) (hasked : Asked r c) (hd : d ∈ c.asked) :
    (closings (currentVersions (versionsOf c.rows) r.recordedAt)).lookup d = (closings r.current).lookup d := by
  have hmem : ∀ a : Candidate, a.target = d →
      (a ∈ candidates (currentVersions (versionsOf c.rows) r.recordedAt) ↔ a ∈ candidates r.current) := by
    intro a ha
    rw [mem_candidates, mem_candidates]
    constructor
    · rintro ⟨v, hv, ht, hfrom⟩
      obtain ⟨row, hrow, -, hid, -⟩ := (lookup_current h.sub).1 hv
      exact ⟨v, by rw [← h.lookup (has_iff.2 ⟨row, hrow, hid⟩)]; exact hv, ht, hfrom⟩
    · rintro ⟨v, hv, ht, hfrom⟩
      obtain ⟨row, hrow, rfl, hid, -⟩ := (lookup_current (List.Subset.refl _)).1 hv
      have hhas := hasked d hd row hrow (ha ▸ ht)
      exact ⟨row.version, by rw [h.lookup (hid ▸ hhas)]; exact hv, ht, hfrom⟩
  have hinj : ∀ current : Dict DecisionId DecisionVersion, ∀ a ∈ candidates current, ∀ b ∈ candidates current, a.target = d →
      b.target = d → a.rank = b.rank → a = b := by
    rintro current ⟨t, m, s⟩ - ⟨t', m', s'⟩ - hta htb hab
    have hrank : (m, s) = (m', s') := hab
    cases hrank
    simp only at hta htb
    rw [hta, htb]
  unfold closings
  rw [lookup_keepBest, lookup_keepBest]
  refine Option.ext fun best => ?_
  rw [argmax_filter_eq_some (hinj _), argmax_filter_eq_some (hinj _)]
  constructor
  · rintro ⟨hbest, ht, hmax⟩
    exact ⟨(hmem best ht).1 hbest, ht, fun a ha hat => hmax a ((hmem a hat).2 ha) hat⟩
  · rintro ⟨hbest, ht, hmax⟩
    exact ⟨(hmem best ht).2 hbest, ht, fun a ha hat => hmax a ((hmem a hat).1 ha) hat⟩

theorem Held.lookup_states (h : Held r c) (hasked : Asked r c) (hhas : c.has d) (hd : d ∈ c.asked) :
    (decisionStates (versionsOf c.rows) r.recordedAt).lookup d = r.states.lookup d := by
  refine Option.ext fun state => ?_
  unfold Recordings.states
  rw [Temporal.lookup_states, Temporal.lookup_states, h.lookup hhas, h.lookup_closings hasked hd]
  rfl

/-! ## The answer -/

structure HistoryEntry.Shows (entry : HistoryEntry) (state : DecisionState) : Prop where
  status : entry.status = state.version.status
  validFrom : entry.validFrom = state.version.validFrom
  validTo : entry.validTo = state.version.validTo
  effectiveValidTo : entry.effectiveValidTo = state.stop
  supersededAt : entry.supersededAt = state.closedAt
  supersedesId : entry.supersedesId = state.version.supersedesId
  recordedAt : entry.recordedAt = state.version.recordedAt

theorem historyEntry_ok {link : DecisionId × ChainRelation × Nat} {entry : HistoryEntry} {cut : Bool}
    (h : historyEntry c states link = .ok (entry, cut)) :
    entry.decisionId = link.1 ∧ ∃ state, states.lookup link.1 = some state ∧ entry.Shows state := by
  unfold historyEntry at h
  dsimp only at h
  split at h
  · cases h
  · next state hstate =>
    cases h
    exact ⟨rfl, state, hstate, rfl, rfl, rfl, rfl, rfl, rfl, rfl⟩

theorem ids_of_entries (h : List.Forall₂ (fun link result => historyEntry c states link = .ok result) pairs results) :
    (results.map Prod.fst).map (·.decisionId) = pairs.map Prod.fst := by
  induction h with
  | nil => rfl
  | cons hone _ ih =>
    rw [map_cons, map_cons, map_cons, ih]
    exact congrArg (· :: _) (historyEntry_ok hone).1

theorem entry_of_mem {result : HistoryEntry × Bool}
    (h : List.Forall₂ (fun link result => historyEntry c states link = .ok result) pairs results)
    (hresult : result ∈ results) :
    ∃ state, states.lookup result.1.decisionId = some state ∧ result.1.Shows state := by
  induction h with
  | nil => exact absurd hresult not_mem_nil
  | cons hone _ ih =>
    rcases mem_cons.1 hresult with rfl | hresult
    · obtain ⟨hid, hstate⟩ := historyEntry_ok hone
      rw [hid]
      exact hstate
    · exact ih hresult

theorem links_ids : ((links start earlier later).map Prod.fst).Perm (start :: earlier ++ later.map Prod.fst) := by
  unfold links
  rw [map_append, map_append, List.map_map, List.map_map]
  change ((earlier.zipIdx 1).reverse.map Prod.fst ++ [start] ++ List.map Prod.fst _).Perm _
  rw [map_reverse, zipIdx_map_fst]
  refine List.Perm.append ?_ ((sortBy_perm _ _).map _)
  exact (perm_append_singleton _ _).trans ((reverse_perm _).cons _)

/-- What an answer that no cap cut comes from. -/
structure Walk (r : Recordings) (start : DecisionId) (earlier later : List DecisionId) (c : Chain) : Prop where
  held : Held r c
  asked : Asked r c
  down : ∀ d, ReflTransGen r.Edge start d ↔ d ∈ start :: earlier
  up : Ascent r.Edge start earlier later []
  once : (start :: earlier ++ later).Nodup
  read : ∀ d ∈ start :: earlier ++ later, c.has d ∧ d ∈ c.asked

theorem walk_uncut (huncut : (walk r start c).2.2.truncated = false) : c.truncated = false := by
  unfold walk at huncut
  dsimp only at huncut
  exact earlierLinks_uncut (laterLinks_uncut (superseders_uncut huncut))

theorem walk_complete (h : GoesDown r start [] c) (hwalk : walk r start c = (earlier, later, c'))
    (huncut : c'.truncated = false) : Walk r start earlier (later.map Prod.fst) c' := by
  unfold walk at hwalk
  rcases hdown : earlierLinks r start (min maxDepth maxChain) [] start c with ⟨earlier₁, c₁⟩
  rw [hdown] at hwalk
  dsimp only at hwalk
  rcases hup : laterLinks r start earlier₁ maxDepth [] [start] 0 c₁ with ⟨later₁, c₂⟩
  rw [hup] at hwalk
  dsimp only at hwalk
  rcases hlast : c₂.superseders r (earlier₁ ++ later₁.map Prod.fst) with ⟨found, c₃⟩
  rw [hlast] at hwalk
  cases hwalk
  have huncut₂ : c₂.truncated = false := superseders_uncut (by rw [hlast]; exact huncut)
  have huncut₁ : c₁.truncated = false := laterLinks_uncut ((congrArg (·.2.truncated) hup).trans huncut₂)
  obtain ⟨hgone, hcomplete⟩ := earlierLinks_complete h .init hdown huncut₁
  have hrisen := laterLinks_complete hgone.turn hup huncut₂
  obtain ⟨hheld, hasked, hdone, hkept, -, -⟩ := hrisen.held.superseders hrisen.asked hlast huncut
  refine ⟨hheld, hasked, hcomplete, hrisen.ascent, hrisen.once, fun d hd => ⟨hkept d (hrisen.read d hd), (hdone d).2 ?_⟩⟩
  rcases mem_cons.1 hd with rfl | hd
  · exact .inl ((hrisen.done d).2 ⟨mem_cons_self, not_mem_nil⟩)
  · exact .inr hd

/-- The entries of an answer that no cap cut: the links of a walk, each with its state. -/
theorem chainHistory_walk {entries : List HistoryEntry} (h : chainHistory r start = .ok (entries, false)) :
    ∃ earlier later c, Walk r start earlier later c ∧ (entries.map (·.decisionId)).Perm (start :: earlier ++ later) ∧
      ∀ entry ∈ entries, ∃ state, r.states.lookup entry.decisionId = some state ∧ entry.Shows state := by
  unfold chainHistory at h
  dsimp only at h
  split at h
  · cases h
  · next hstart =>
    rcases hwalk : walk r start (Chain.empty.load r [start]) with ⟨earlier, later, c⟩
    rw [hwalk] at h
    dsimp only at h
    split at h
    · cases h
    · next results hresults =>
      obtain ⟨hentries, hcut⟩ := Prod.mk.inj (Except.ok.inj h)
      subst hentries
      rw [Bool.or_eq_false_iff] at hcut
      have huncut : (Chain.empty.load r [start]).truncated = false :=
        walk_uncut ((congrArg (·.2.2.truncated) hwalk).trans hcut.1)
      obtain ⟨hheld, hasked, -⟩ := held_empty.load huncut
      have hdown : GoesDown r start [] (Chain.empty.load r [start]) :=
        ⟨hheld, hasked, nodup_singleton _, fun d hd => by simpa [mem_singleton.1 hd] using hstart⟩
      have hwalked := walk_complete hdown hwalk hcut.1
      have hall := Fallible.mapM_eq_ok.1 hresults
      have hids := ids_of_entries hall
      have hperm : ((results.map Prod.fst).map (·.decisionId)).Perm (start :: earlier ++ later.map Prod.fst) := by
        rw [hids]
        exact links_ids
      refine ⟨earlier, later.map Prod.fst, c, hwalked, hperm, fun entry hentry => ?_⟩
      obtain ⟨result, hresult, rfl⟩ := mem_map.1 hentry
      obtain ⟨hread, hasked'⟩ := hwalked.read result.1.decisionId (hperm.mem_iff.1 (mem_map_of_mem hentry))
      rw [← hwalked.held.lookup_states hwalked.asked hread hasked']
      exact entry_of_mem hall hresult

/-- What an answer says of the whole scope: all that supersedes the decision or is superseded by it, directly or not, each
once and in its state. -/
structure Faithful (r : Recordings) (start : DecisionId) (entries : List HistoryEntry) : Prop where
  listed : ∀ d, d ∈ entries.map (·.decisionId) ↔ Related r.Edge start d
  once : (entries.map (·.decisionId)).Nodup
  states : ∀ entry ∈ entries, ∃ state, r.states.lookup entry.decisionId = some state ∧ entry.Shows state

/-- **What a history that no cap cut shows.**  Its states are those of the whole scope, and it lists the decisions on a
chain with the start exactly where the start is on no cycle, or on one that is superseded only at the start. -/
theorem history_faithful_iff {entries : List HistoryEntry} (h : chainHistory r start = .ok (entries, false)) :
    Faithful r start entries ↔ Uncrossed r.Edge start := by
  obtain ⟨earlier, later, c, hwalk, hperm, hstates⟩ := chainHistory_walk h
  have hlisted : ∀ d, d ∈ entries.map (·.decisionId) ↔ d ∈ start :: earlier ∨ d ∈ later := fun d => by
    rw [hperm.mem_iff, List.mem_append]
  rw [← Chains.complete_iff edge_functional hwalk.down hwalk.up]
  simp only [← hlisted]
  exact ⟨fun h => h.listed, fun h => ⟨h, hperm.nodup_iff.2 hwalk.once, hstates⟩⟩

/-! ### A cycle, and a fork -/

namespace Linked

def first : DecisionId := ⟨"first", by decide⟩

def second : DecisionId := ⟨"second", by decide⟩

def third : DecisionId := ⟨"third", by decide⟩

def accepted (d : DecisionId) (recordedAt : Moment) (eventId : String) (supersedesId : Option DecisionId) : VersionRow where
  version := ⟨d, ["scope"], .accepted, recordedAt, none, recordedAt, supersedesId, toLex (recordedAt, eventId)⟩
  eventId := eventId
  subjects := []

/-- Two decisions that supersede each other, and one more that supersedes the second. -/
def cycle : Recordings where
  rows := [accepted first 1 "e1" (some second), accepted second 2 "e2" (some first), accepted third 3 "e3" (some second)]
  recordedAt := 9
  known := by decide
  named := by decide
  nodup := by decide

/-- Two decisions that supersede the first. -/
def fork : Recordings where
  rows := [accepted first 1 "e1" none, accepted second 2 "e2" (some first), accepted third 3 "e3" (some first)]
  recordedAt := 9
  known := by decide
  named := by decide
  nodup := by decide

end Linked

/-- The third decision supersedes the second, which supersedes the first: it is not listed, and no cap was hit. -/
theorem cycle_drops_superseder : ¬∀ (r : Recordings) (start : DecisionId) (entries : List HistoryEntry),
    chainHistory r start = .ok (entries, false) → Faithful r start entries := by
  intro hclaim
  have hanswer : (chainHistory Linked.cycle Linked.first).toOption.map (fun answer =>
      (answer.1.map (·.decisionId), answer.2)) = some ([Linked.second, Linked.first], false) := by decide +kernel
  cases hhistory : chainHistory Linked.cycle Linked.first with
  | error e =>
    rw [hhistory] at hanswer
    cases hanswer
  | ok answer =>
    rw [hhistory] at hanswer
    obtain ⟨hids, hcut⟩ := Prod.mk.inj (Option.some_inj.1 hanswer)
    have hfaithful := hclaim _ _ answer.1 (by rw [hhistory, ← hcut])
    have hedge : ∀ a b, (Linked.cycle.current.lookup a).bind (·.target) = some b → Linked.cycle.Has b → Linked.cycle.Edge a b :=
      fun a b ht hb => edge_iff.2 ⟨Option.bind_eq_some_iff.1 ht, hb⟩
    have hchain : ReflTransGen Linked.cycle.Edge Linked.third Linked.first :=
      .head (hedge _ Linked.second (rfl) ⟨_, List.mem_cons_of_mem _ List.mem_cons_self, rfl⟩)
        (.single (hedge _ _ (rfl) ⟨_, List.mem_cons_self, rfl⟩))
    have hin := (hfaithful.listed Linked.third).2 (.inr hchain)
    rw [hids] at hin
    exact absurd hin (by decide)

/-- A fork is listed in full. -/
theorem history_faithful_fork : ∃ entries, chainHistory Linked.fork Linked.first = .ok (entries, false) ∧
    entries.map (·.decisionId) = [Linked.first, Linked.second, Linked.third] ∧ Faithful Linked.fork Linked.first entries := by
  have hanswer : (chainHistory Linked.fork Linked.first).toOption.map (fun answer =>
      (answer.1.map (·.decisionId), answer.2)) = some ([Linked.first, Linked.second, Linked.third], false) := by
    decide +kernel
  cases hhistory : chainHistory Linked.fork Linked.first with
  | error e =>
    rw [hhistory] at hanswer
    cases hanswer
  | ok answer =>
    rw [hhistory] at hanswer
    obtain ⟨hids, hcut⟩ := Prod.mk.inj (Option.some_inj.1 hanswer)
    have hok : chainHistory Linked.fork Linked.first = .ok (answer.1, false) := by rw [hhistory, ← hcut]
    refine ⟨answer.1, by rw [← hcut], hids, (history_faithful_iff hok).2 fun hcycle => ?_⟩
    -- the first decision supersedes none
    obtain ⟨next, hnext, -⟩ := TransGen.head'_iff.1 hcycle
    have hnone : (Linked.fork.current.lookup Linked.first).bind (·.target) = none := rfl
    have hsome := Option.bind_eq_some_iff.2 (edge_iff.1 hnext).1
    rw [hnone] at hsome
    cases hsome

end Temporal
