import AgentContext.Knowledge.Closure
import AgentContext.Knowledge.States

/-!
# The decision graph is the reading of its versions

A delivery of recorded decisions, in any order and with repetitions, ends in one graph, the one `decision_states`
describes:

    decisions   the recorded ones, and the targets of edges that no event has recorded
    edges       what the newest recording of each decision asserts
    closure     superseded_at is the closing time, effective_valid_to the end

`Reflects` says which recordings a graph holds; a sound graph that reflects them is determined by them.
-/

namespace Knowledge

open Table PropertyGraph List

variable {g : Graph} {e : DecisionEvent} {d x s t : DecisionId} {es es' : List DecisionEvent}

/-! ## The newest recording -/

def SameIds (es : List DecisionEvent) : Prop := ∀ a ∈ es, ∀ b ∈ es, a.eventId = b.eventId → a = b

theorem SameIds.of_subset (h : SameIds es) (hsub : ∀ a ∈ es', a ∈ es) : SameIds es' :=
  fun a ha b hb => h a (hsub a ha) b (hsub b hb)

def recordingsOf (es : List DecisionEvent) (d : DecisionId) : List DecisionEvent := es.filter (·.decisionId = d)

def newest (es : List DecisionEvent) (d : DecisionId) : Option DecisionEvent := (recordingsOf es d).argmax (·.order)

theorem mem_recordingsOf : e ∈ recordingsOf es d ↔ e ∈ es ∧ e.decisionId = d := by simp [recordingsOf]

theorem recordingsOf_concat :
    recordingsOf (es ++ [e]) d = if d = e.decisionId then recordingsOf es d ++ [e] else recordingsOf es d := by
  unfold recordingsOf
  rw [filter_append]
  by_cases h : d = e.decisionId
  · simp [h]
  · simp [h, Ne.symm h]

theorem order_inj (h : SameIds es) : ∀ a ∈ es, ∀ b ∈ es, a.order = b.order → a = b := fun a ha b hb hab =>
  h a ha b hb (congrArg (fun o => (ofLex o).2) hab)

theorem newest_eq_some (h : SameIds es) :
    newest es d = some e ↔ e ∈ es ∧ e.decisionId = d ∧ ∀ a ∈ es, a.decisionId = d → a.order ≤ e.order :=
  argmax_filter_eq_some fun a ha b hb _ _ => order_inj h a ha b hb

theorem newest_eq_none : newest es d = none ↔ ∀ e ∈ es, e.decisionId ≠ d := by
  unfold newest
  rw [argmax_eq_none, recordingsOf, filter_eq_nil_iff]
  simp

theorem newest_congr (h : SameIds es) (hmem : ∀ a, a ∈ es ↔ a ∈ es') : newest es d = newest es' d := by
  refine Option.ext fun e => ?_
  rw [newest_eq_some h, newest_eq_some (h.of_subset fun a ha => (hmem a).2 ha)]
  simp only [hmem]

theorem newest_concat : newest (es ++ [e]) d =
    if d = e.decisionId ∧ Graph.newerThan e.order ((newest es d).map Graph.stateAt) then some e else newest es d := by
  unfold newest
  rw [recordingsOf_concat]
  by_cases hd : d = e.decisionId
  · rw [if_pos hd, argmax_concat]
    cases (recordingsOf es d).argmax (·.order) with
    | none => simp [hd, Graph.newerThan]
    | some best =>
      simp only [hd, true_and, Option.map_some, Graph.newerThan, decide_eq_true_eq]
      rfl
  · rw [if_neg hd, if_neg (fun h => hd h.1)]

/-! ## What a graph holds -/

/-- The graph holds the recordings `es`. -/
structure Reflects (es : List DecisionEvent) (g : Graph) : Prop where
  sound : Sound g
  state : ∀ d, g.stateOf d = (newest es d).map Graph.stateAt
  scope : ∀ d, (g.nodeOf d).projectId = leastNonNull (·.projectId) (recordingsOf es d) ∧
    (g.nodeOf d).repositoryId = leastNonNull (·.repositoryId) (recordingsOf es d)
  supersedes : ∀ s t, g.supersedes.lookup (s, t) =
    ((newest es s).filter (·.target = some t)).map fun e => {e.eventId}
  hasVersion : ∀ d v, g.hasVersion.lookup (d, v) = if ∃ e ∈ es, e.decisionId = d ∧ e.eventId = v then some {v} else none
  versions : ∀ v, g.versions.lookup v = (es.find? (·.eventId = v)).map Graph.versionOf

theorem reflects_nil : Reflects [] .empty where
  sound := sound_empty
  state := fun _ => rfl
  scope := fun _ => ⟨rfl, rfl⟩
  supersedes := fun _ _ => rfl
  hasVersion := fun _ _ => (if_neg (by simp)).symm
  versions := fun _ => rfl

theorem lookup_versions_recorded {v : String} : (g.recorded e).versions.lookup v =
    if v = e.eventId then some (((g.versions.lookup v).getD .stub).fillOnce (Graph.versionOf e)) else g.versions.lookup v := by
  show (touch _ _ (modify _ _ (touch _ _ (touch _ _ g.versions)))).lookup v = _
  rw [lookup_touch, lookup_modify, lookup_modify, if_pos rfl, lookup_touch, lookup_touch, if_pos rfl, if_pos rfl]
  by_cases h : v = e.eventId
  · rw [if_pos h, if_pos h, h]
    rfl
  · rw [if_neg h, if_neg h, if_neg h, lookup_touch, if_neg h]
    show (touch _ _ g.versions).lookup v = _
    rw [lookup_touch, if_neg h]

theorem lookup_hasVersion_recorded {link : DecisionId × String} : (g.recorded e).hasVersion.lookup link =
    if link = (e.decisionId, e.eventId) then some (insert e.eventId ((g.hasVersion.lookup link).getD ∅))
    else g.hasVersion.lookup link := by
  show (modify _ _ (touch _ _ g.hasVersion)).lookup link = _
  rw [lookup_modify, lookup_touch, lookup_touch, if_pos rfl]
  by_cases h : link = (e.decisionId, e.eventId)
  · rw [if_pos h, if_pos h, h]
    rfl
  · rw [if_neg h, if_neg h, if_neg h]

theorem Reflects.project (h : Reflects es g) (hids : SameIds (es ++ [e])) : Reflects (es ++ [e]) (g.project e) := by
  obtain ⟨touched, hout⟩ := outcome_project (e := e) h.sound
  have hmem : ∀ a ∈ es, a.eventId = e.eventId → a = e := fun a ha =>
    hids a (mem_append_left _ ha) e (mem_append_right _ (mem_singleton_self e))
  refine ⟨hout.sound h.sound, fun d => ?_, fun d => ?_, fun s t => ?_, fun d v => ?_, fun v => ?_⟩
  · rw [hout.stateOf, newest_concat, h.state]
    split <;> rfl
  · rw [recordingsOf_concat]
    have hbase := hout.base d
    by_cases hd : d = e.decisionId
    · rw [if_pos hd] at hbase ⊢
      rw [leastNonNull_concat, leastNonNull_concat, ← (h.scope d).1, ← (h.scope d).2, hd]
      rw [hd] at hbase
      exact scope_of_base hbase
    · rw [if_neg hd] at hbase ⊢
      rw [← (h.scope d).1, ← (h.scope d).2]
      exact scope_of_base hbase
  · rw [hout.supersedes, newest_concat, h.state, h.supersedes]
    by_cases hs : s = e.decisionId
    · subst hs
      simp only [true_and]
      split
      · by_cases ht : e.target = some t <;> simp [Option.filter, ht]
      · rfl
    · rw [if_neg (fun h => hs h.1), if_neg (fun h => hs h.1)]
  · rw [hout.hasVersion, lookup_hasVersion_recorded, h.hasVersion]
    by_cases hlink : (d, v) = (e.decisionId, e.eventId)
    · obtain ⟨rfl, rfl⟩ := Prod.mk.inj hlink
      have hnow : ∃ a ∈ es ++ [e], a.decisionId = e.decisionId ∧ a.eventId = e.eventId :=
        ⟨e, mem_append_right _ (mem_singleton_self e), rfl, rfl⟩
      rw [if_pos rfl, if_pos hnow]
      split <;> simp
    · rw [if_neg hlink]
      refine if_congr ⟨?_, ?_⟩ rfl rfl
      · rintro ⟨a, ha, hav⟩
        exact ⟨a, mem_append_left _ ha, hav⟩
      · rintro ⟨a, ha, hav⟩
        rcases mem_append.1 ha with ha | ha
        · exact ⟨a, ha, hav⟩
        · obtain rfl := mem_singleton.1 ha
          exact absurd (Prod.ext hav.1.symm hav.2.symm) hlink
  · rw [hout.versions, lookup_versions_recorded, h.versions, List.find?_append]
    by_cases hv : v = e.eventId
    · rw [if_pos hv]
      cases hfind : es.find? (·.eventId = v) with
      | none => simp [hv]
      | some a =>
        have hav : a.eventId = v := by simpa using List.find?_some hfind
        have hae := hmem a (List.mem_of_find?_eq_some hfind) (hav.trans hv)
        simp [hae]
    · rw [if_neg hv]
      cases hfind : es.find? (·.eventId = v) with
      | none => simp [Ne.symm hv]
      | some a => simp

theorem reflects_projected (hids : SameIds es) : Reflects es (projected es) := by
  induction es using List.reverseRecOn with
  | nil => exact reflects_nil
  | append_singleton es e ih =>
    unfold projected at ih ⊢
    rw [foldl_append]
    exact (ih (hids.of_subset fun a ha => mem_append_left _ ha)).project hids

/-! ## One graph for one set of recordings -/

theorem mem_recordingsOf_congr (hmem : ∀ a, a ∈ es ↔ a ∈ es') : ∀ a, a ∈ recordingsOf es d ↔ a ∈ recordingsOf es' d := fun a => by
  rw [mem_recordingsOf, mem_recordingsOf, hmem]

theorem find?_congr (h : SameIds es) (hmem : ∀ a, a ∈ es ↔ a ∈ es') {v : String} :
    es.find? (·.eventId = v) = es'.find? (·.eventId = v) := by
  cases hfind : es.find? (·.eventId = v) with
  | none =>
    refine (List.find?_eq_none.2 fun a ha => ?_).symm
    exact List.find?_eq_none.1 hfind a ((hmem a).2 ha)
  | some a =>
    have ha := List.mem_of_find?_eq_some hfind
    have hav : a.eventId = v := by simpa using List.find?_some hfind
    cases hfind' : es'.find? (·.eventId = v) with
    | none => exact absurd (decide_eq_true hav) (List.find?_eq_none.1 hfind' a ((hmem a).1 ha))
    | some b =>
      have hbv : b.eventId = v := by simpa using List.find?_some hfind'
      exact congrArg some (h a ha b ((hmem b).2 (List.mem_of_find?_eq_some hfind')) (hav.trans hbv.symm))

theorem lookup_decisions : g.decisions.lookup d = if d ∈ g.decisions then some (g.nodeOf d) else none := by
  unfold Graph.nodeOf nodeIn
  by_cases h : d ∈ g.decisions
  · obtain ⟨n, hn⟩ := Finmap.mem_iff.1 h
    rw [if_pos h, hn, Option.getD_some]
  · rw [if_neg h, Finmap.lookup_eq_none.2 h]

theorem Reflects.unique {g' : Graph} (h : Reflects es g) (h' : Reflects es' g') (hids : SameIds es)
    (hmem : ∀ a, a ∈ es ↔ a ∈ es') : g = g' := by
  have hnewest : ∀ d, newest es d = newest es' d := fun d => newest_congr hids hmem
  have hstate : ∀ d, g.stateOf d = g'.stateOf d := fun d => by rw [h.state, h'.state, hnewest]
  have hsupersedes : g.supersedes = g'.supersedes := Finmap.ext_lookup fun (s, t) => by
    rw [h.supersedes, h'.supersedes, hnewest]
  have hleast : ∀ (f : DecisionEvent → Option String) d,
      leastNonNull f (recordingsOf es d) = leastNonNull f (recordingsOf es' d) := fun f d => leastNonNull_congr fun v => by
    simp only [mem_recordingsOf_congr hmem]
  have hclosing : ∀ d, g.closing d = g'.closing d := fun d =>
    closing_congr (fun s => by rw [hsupersedes]) fun s _ => hstate s
  have hnode : ∀ d, g.nodeOf d = g'.nodeOf d := fun d => by
    have hbase : (g.nodeOf d).base = (g'.nodeOf d).base := by
      have hs := hstate d
      have hp := (h.scope d).1.trans ((hleast _ d).trans (h'.scope d).1.symm)
      have hr := (h.scope d).2.trans ((hleast _ d).trans (h'.scope d).2.symm)
      rw [stateOf_eq, stateOf_eq] at hs
      unfold DecisionNode.base
      rw [hs, hp, hr]
    rw [h.sound.closed d, h'.sound.closed d, hclosing, ← closedAt_base, hbase, closedAt_base]
  have hdecisions : g.decisions = g'.decisions := Finmap.ext_lookup fun d => by
    rw [lookup_decisions, lookup_decisions, hnode]
    refine if_congr ?_ rfl rfl
    rw [h.sound.stubs, h'.sound.stubs, hstate, hsupersedes]
  have hversions : g.versions = g'.versions := Finmap.ext_lookup fun v => by
    rw [h.versions, h'.versions, find?_congr hids hmem]
  have hlinks : g.hasVersion = g'.hasVersion := Finmap.ext_lookup fun (d, v) => by
    rw [h.hasVersion, h'.hasVersion]
    simp only [hmem]
  cases g
  cases g'
  rw [Graph.mk.injEq]
  exact ⟨hdecisions, hversions, hlinks, hsupersedes⟩

/-! ## The states -/

section States

variable {recordedAt : Moment}

def DecisionRecord.version (d : DecisionId) (r : DecisionRecord) : DecisionVersion where
  decisionId := d
  subjects := r.subjects
  status := r.status
  validFrom := r.validFrom
  validTo := r.validTo
  recordedAt := r.recordedAt
  supersedesId := r.supersedesId
  order := r.order

theorem lookup_currentVersions (hids : SameIds es) (hall : ∀ e ∈ es, e.observedAt ≤ recordedAt) :
    (currentVersions (es.map decisionVersion) recordedAt).lookup d = (newest es d).map decisionVersion := by
  have hfilter : (es.map decisionVersion).filter (·.recordedAt ≤ recordedAt) = es.map decisionVersion := by
    refine filter_eq_self.2 fun v hv => ?_
    obtain ⟨e, he, rfl⟩ := mem_map.1 hv
    exact decide_eq_true (hall e he)
  have hinj : ∀ a ∈ es.map decisionVersion, ∀ b ∈ es.map decisionVersion, a.decisionId = d → b.decisionId = d →
      toLex (a.order, a.recordedAt) = toLex (b.order, b.recordedAt) → a = b := by
    intro a ha b hb _ _ hab
    obtain ⟨e, he, rfl⟩ := mem_map.1 ha
    obtain ⟨e', he', rfl⟩ := mem_map.1 hb
    rw [order_inj hids e he e' he' (congrArg (fun r => (ofLex r).1) hab)]
  unfold currentVersions
  rw [lookup_keepBest, hfilter]
  cases hnew : newest es d with
  | none =>
    rw [Option.map_none, argmax_eq_none, filter_eq_nil_iff]
    intro v hv
    obtain ⟨e, he, rfl⟩ := mem_map.1 hv
    exact fun hd => newest_eq_none.1 hnew e he (of_decide_eq_true hd)
  | some e =>
    obtain ⟨he, hd, hmax⟩ := (newest_eq_some hids).1 hnew
    refine (argmax_filter_eq_some hinj).2 ⟨mem_map_of_mem he, hd, fun v hv hvd => ?_⟩
    obtain ⟨a, ha, rfl⟩ := mem_map.1 hv
    rcases lt_or_eq_of_le (hmax a ha hvd) with hlt | heq
    · exact le_of_lt (Prod.Lex.toLex_lt_toLex.2 (Or.inl hlt))
    · rw [order_inj hids a ha e he heq]

theorem mem_edges {current : Dict DecisionId DecisionVersion} :
    (s, t) ∈ edges current ↔ ∃ v, current.lookup s = some v ∧ v.target = some t := by
  unfold edges
  rw [mem_filterMap]
  constructor
  · rintro ⟨d, -, hd⟩
    obtain ⟨target, htarget, heq⟩ := Option.map_eq_some_iff.1 hd
    obtain ⟨v, hv, hvt⟩ := Option.bind_eq_some_iff.1 htarget
    cases heq
    exact ⟨v, hv, hvt⟩
  · rintro ⟨v, hv, hvt⟩
    have hs : s ∈ current.keys.sort := (Finset.mem_sort _).2 (Finmap.mem_keys.2 (Finmap.mem_of_lookup_eq_some hv))
    refine ⟨s, hs, ?_⟩
    rw [hv, Option.bind_some, hvt, Option.map_some]

theorem mem_candidates {current : Dict DecisionId DecisionVersion} {c : Candidate} : c ∈ candidates current ↔
      ∃ v, current.lookup c.superseder = some v ∧ v.target = some c.target ∧ v.validFrom = c.validFrom := by
  unfold candidates
  rw [mem_filterMap]
  constructor
  · rintro ⟨⟨s, t⟩, hst, hc⟩
    obtain ⟨v, hv, rfl⟩ := Option.map_eq_some_iff.1 hc
    obtain ⟨v', hv', ht⟩ := mem_edges.1 hst
    obtain rfl := Option.some_inj.1 (hv'.symm.trans hv)
    exact ⟨v', hv', ht, rfl⟩
  · rintro ⟨v, hv, ht, hfrom⟩
    refine ⟨(c.superseder, c.target), mem_edges.2 ⟨v, hv, ht⟩, ?_⟩
    show (current.lookup c.superseder).map _ = some c
    rw [hv, Option.map_some, hfrom]

/-- The earliest superseder begins first. -/
theorem closings_validFrom {current : Dict DecisionId DecisionVersion} :
    ((closings current).lookup d).map (·.validFrom) =
      leastNonNull (fun c => some c.validFrom) ((candidates current).filter (·.target = d)) := by
  unfold closings
  rw [lookup_keepBest]
  cases hbest : ((candidates current).filter (·.target = d)).argmax Candidate.rank with
  | none => rw [argmax_eq_none.1 hbest, Option.map_none, leastNonNull_nil]
  | some best =>
    refine ((leastNonNull_eq_some (f := fun c : Candidate => some c.validFrom)).2 ⟨⟨best, argmax_mem hbest, rfl⟩, ?_⟩).symm
    intro c hc v hv
    obtain rfl := Option.some_inj.1 hv
    have hrank : c.rank ≤ best.rank := le_of_mem_argmax hc hbest
    have hle : toLex (best.validFrom, best.superseder) ≤ toLex (c.validFrom, c.superseder) := OrderDual.toDual_le_toDual.1 hrank
    exact (Prod.Lex.toLex_le_toLex.1 hle).elim le_of_lt fun h => le_of_eq h.1

variable {current : Dict DecisionId DecisionVersion}

theorem Reflects.mem_supersedes (h : Reflects es g) (hcurrent : ∀ d, current.lookup d = (newest es d).map decisionVersion) :
    (s, t) ∈ g.supersedes ↔ (s, t) ∈ edges current := by
  rw [mem_iff_lookup, h.supersedes, mem_edges, hcurrent]
  cases hnew : newest es s with
  | none => simp
  | some e =>
    have htarget : (decisionVersion e).target = e.target := rfl
    by_cases ht : e.target = some t <;> simp [Option.filter, ht, htarget]

/-- The graph closes a decision where the earliest of its superseders begins. -/
theorem Reflects.closing_eq (h : Reflects es g) (hcurrent : ∀ d, current.lookup d = (newest es d).map decisionVersion) :
    g.closing d = ((closings current).lookup d).map (·.validFrom) := by
  rw [closings_validFrom]
  unfold Graph.closing
  refine leastNonNull_congr fun v => ?_
  constructor
  · rintro ⟨s, hs, hv⟩
    have hedge := mem_superseders.1 ((Finset.mem_sort _).1 hs)
    obtain ⟨version, hversion, htarget⟩ := mem_edges.1 ((h.mem_supersedes hcurrent).1 hedge)
    have hstate := h.state s
    have hlookup := (hcurrent s).symm.trans hversion
    obtain ⟨e, he, rfl⟩ := Option.map_eq_some_iff.1 hlookup
    rw [hstate, he] at hv
    refine ⟨⟨d, e.payload.validFrom, s⟩, ?_, hv⟩
    exact mem_filter.2 ⟨mem_candidates.2 ⟨_, hversion, htarget, rfl⟩, decide_eq_true rfl⟩
  · rintro ⟨c, hc, hv⟩
    obtain ⟨hin, htarget⟩ := mem_filter.1 hc
    obtain rfl := of_decide_eq_true htarget
    obtain ⟨version, hversion, ht, hfrom⟩ := mem_candidates.1 hin
    refine ⟨c.superseder, (Finset.mem_sort _).2 (mem_superseders.2 ((h.mem_supersedes hcurrent).2 ?_)), ?_⟩
    · exact mem_edges.2 ⟨version, hversion, ht⟩
    · obtain ⟨e, he, rfl⟩ := Option.map_eq_some_iff.1 ((hcurrent c.superseder).symm.trans hversion)
      rw [h.state, he, ← hv, ← hfrom]
      rfl

/-- The end the graph sets is the earlier of the two the reading takes. -/
theorem effectiveEnd_eq_earliest {closing validTo : Option Moment} : effectiveEnd closing validTo = earliest validTo closing := by
  cases closing with
  | none => cases validTo <;> rfl
  | some c =>
    cases validTo with
    | none => rfl
    | some v =>
      show (if c < v then some c else some v) = some (min v c)
      by_cases h : c < v
      · rw [if_pos h, min_eq_right (le_of_lt h)]
      · rw [if_neg h, min_eq_left (not_lt.1 h)]

/-! ## The graph and the states -/

/-- A graph shows the decisions as `states` has them. -/
structure Shows (g : Graph) (states : Dict DecisionId DecisionState) : Prop where
  /-- A node with a record for each decision known, and a stub for each other target of an edge. -/
  nodes : ∀ d, d ∈ g.decisions ↔ d ∈ states ∨ ∃ s, (s, d) ∈ supersessionEdges states
  recorded : ∀ d, g.stateOf d ≠ none ↔ d ∈ states
  edges : ∀ s t, (s, t) ∈ g.supersedes ↔ (s, t) ∈ supersessionEdges states
  /-- The record, `superseded_at` and `effective_valid_to`. -/
  closed : ∀ d s, states.lookup d = some s → ∃ n r, g.decisions.lookup d = some n ∧ n.state = some r ∧
    r.version d = s.version ∧ n.supersededAt = s.closedAt ∧ n.effectiveValidTo = s.stop

theorem lookup_decisionStates (hids : SameIds es) (hall : ∀ e ∈ es, e.observedAt ≤ recordedAt) {state : DecisionState} :
    (decisionStates (es.map decisionVersion) recordedAt).lookup d = some state ↔ ∃ e, newest es d = some e ∧
      state = ⟨decisionVersion e,
        ((closings (currentVersions (es.map decisionVersion) recordedAt)).lookup d).map (·.superseder),
        ((closings (currentVersions (es.map decisionVersion) recordedAt)).lookup d).map (·.validFrom),
        earliest e.payload.validTo
          (((closings (currentVersions (es.map decisionVersion) recordedAt)).lookup d).map (·.validFrom))⟩ := by
  unfold decisionStates
  rw [lookup_mapValues, lookup_currentVersions hids hall, Option.map_map, Option.map_eq_some_iff]
  simp only [eq_comm]
  rfl

theorem supersessionEdges_decisionStates {versions : List DecisionVersion} :
    (s, t) ∈ supersessionEdges (decisionStates versions recordedAt) ↔ (s, t) ∈ edges (currentVersions versions recordedAt) := by
  unfold supersessionEdges decisionStates
  rw [mem_edges, mem_edges, lookup_mapValues, lookup_mapValues, Option.map_map]
  cases (currentVersions versions recordedAt).lookup s <;> rfl

theorem Reflects.shows (h : Reflects es g) (hids : SameIds es) (hall : ∀ e ∈ es, e.observedAt ≤ recordedAt) :
    Shows g (decisionStates (es.map decisionVersion) recordedAt) := by
  have hcurrent : ∀ d, (currentVersions (es.map decisionVersion) recordedAt).lookup d = (newest es d).map decisionVersion :=
    fun d => lookup_currentVersions hids hall
  have hedges : ∀ s t, (s, t) ∈ g.supersedes ↔ (s, t) ∈ supersessionEdges (decisionStates (es.map decisionVersion) recordedAt) :=
    fun s t => by rw [supersessionEdges_decisionStates, h.mem_supersedes hcurrent]
  have hknown : ∀ d, g.stateOf d ≠ none ↔ d ∈ decisionStates (es.map decisionVersion) recordedAt := fun d => by
    rw [h.state, mem_iff_lookup]
    unfold decisionStates
    rw [lookup_mapValues, hcurrent]
    cases newest es d <;> simp
  refine ⟨fun d => ?_, hknown, hedges, fun d s hs => ?_⟩
  · rw [h.sound.stubs, hknown]
    simp only [hedges]
  · obtain ⟨e, he, rfl⟩ := (lookup_decisionStates hids hall).1 hs
    have hstate : g.stateOf d = some (Graph.stateAt e) := by rw [h.state, he, Option.map_some]
    have hd : d ∈ g.decisions := (h.sound.stubs d).2 (Or.inl (by rw [hstate]; exact Option.some_ne_none _))
    have hnode : (g.nodeOf d).state = some (Graph.stateAt e) := stateOf_eq.symm.trans hstate
    have hclosed := h.sound.closed d
    rw [Closed, h.closing_eq hcurrent] at hclosed
    obtain rfl : e.decisionId = d := ((newest_eq_some hids).1 he).2.1
    refine ⟨g.nodeOf e.decisionId, Graph.stateAt e, ?_, hnode, rfl, ?_, ?_⟩
    · rw [lookup_decisions, if_pos hd]
    · exact congrArg DecisionNode.supersededAt hclosed
    · refine (congrArg DecisionNode.effectiveValidTo hclosed).trans ?_
      show effectiveEnd _ ((g.nodeOf e.decisionId).state.bind _) = _
      rw [hnode, effectiveEnd_eq_earliest]
      rfl

end States

/-- **The decision graph is the reading of the recorded versions, whatever the order of their delivery.** -/
theorem delivery_shows_states (recorded delivered : List DecisionEvent) (recordedAt : Moment) (hids : SameIds recorded)
    (hmem : ∀ e, e ∈ delivered ↔ e ∈ recorded) (hall : ∀ e ∈ recorded, e.observedAt ≤ recordedAt) :
    Shows (projected delivered) (decisionStates (recorded.map decisionVersion) recordedAt) ∧
      projected delivered = projected recorded := by
  have heq : projected delivered = projected recorded :=
    (reflects_projected (hids.of_subset fun e he => (hmem e).1 he)).unique (reflects_projected hids)
      (hids.of_subset fun e he => (hmem e).1 he) hmem
  refine ⟨?_, heq⟩
  rw [heq]
  exact (reflects_projected hids).shows hids hall

/-! ## A superseder delivered first -/

namespace Sample

def planned : DecisionEvent where
  eventId := "e1"
  occurredAt := 13000000
  observedAt := 13000001
  projectId := some "project"
  repositoryId := none
  payload :=
    { decisionId := ⟨"decision_a", by decide⟩
      status := .accepted
      subjects := ["mod_a"]
      contentId := "content_a"
      validFrom := 13000000
      validTo := none
      recordedAt := 13000000
      supersedesId := none }

def replacing : DecisionEvent where
  eventId := "e2"
  occurredAt := 14000000
  observedAt := 14000001
  projectId := some "project"
  repositoryId := none
  payload :=
    { decisionId := ⟨"decision_b", by decide⟩
      status := .accepted
      subjects := ["mod_a"]
      contentId := "content_b"
      validFrom := 13500000
      validTo := none
      recordedAt := 14000000
      supersedesId := some ⟨"decision_a", by decide⟩ }

end Sample

example : ((projected [Sample.replacing, Sample.planned]).nodeOf ⟨"decision_a", by decide⟩).effectiveValidTo =
    some 13500000 := by decide +kernel

theorem delivery_shows_states_sample :
    Shows (projected [Sample.replacing, Sample.planned, Sample.replacing])
        (decisionStates ([Sample.planned, Sample.replacing].map decisionVersion) 15000000) ∧
      projected [Sample.replacing, Sample.planned, Sample.replacing] = projected [Sample.planned, Sample.replacing] :=
  delivery_shows_states [Sample.planned, Sample.replacing] [Sample.replacing, Sample.planned, Sample.replacing] _
    (by unfold SameIds; decide) (fun e => by simp; tauto) (by decide)

end Knowledge
