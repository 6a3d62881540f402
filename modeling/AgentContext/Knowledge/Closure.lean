import AgentContext.Knowledge.Decisions

/-!
# Decisions and their closure

What one recording does to the decision graph: `Outcome`, for a recording that is the newest of its decision and for
one that is not.  A sound graph stays sound:

    stubs     a node without state is the target of an edge
    closed    a node says where the superseders it has now close it

The loop over the changed targets settles each of them: a stub without an edge leaves, any other node is closed anew.
-/

namespace Knowledge

open Table PropertyGraph

variable {g : Graph} {e : DecisionEvent} {d x s t : DecisionId}
variable {n : DecisionNode}

/-! ## Nodes -/

/-- The node of a decision, a stub when there is none. -/
def nodeIn (decisions : Dict DecisionId DecisionNode) (d : DecisionId) : DecisionNode := (decisions.lookup d).getD .stub

def Graph.nodeOf (g : Graph) (d : DecisionId) : DecisionNode := nodeIn g.decisions d

theorem stateOf_eq : g.stateOf d = (g.nodeOf d).state := by
  unfold Graph.stateOf Graph.nodeOf nodeIn
  cases g.decisions.lookup d <;> rfl

section Tables

variable {decisions : Dict DecisionId DecisionNode}

@[simp] theorem nodeIn_touch : nodeIn (touch d .stub decisions) x = nodeIn decisions x := by
  unfold nodeIn
  rw [lookup_touch]
  split
  · next h => rw [h, Option.getD_some]
  · rfl

@[simp] theorem nodeIn_touch_all {ds : List DecisionId} :
    nodeIn (ds.foldl (fun decisions d => touch d .stub decisions) decisions) x = nodeIn decisions x := by
  induction ds generalizing decisions with
  | nil => rfl
  | cons d ds ih => rw [List.foldl_cons, ih, nodeIn_touch]

theorem nodeIn_modify {f : DecisionNode → DecisionNode} (hd : d ∈ decisions) :
    nodeIn (modify d f decisions) x = if x = d then f (nodeIn decisions d) else nodeIn decisions x := by
  unfold nodeIn
  rw [lookup_modify]
  obtain ⟨n, hn⟩ := Finmap.mem_iff.1 hd
  split
  · rw [hn, Option.map_some, Option.getD_some, Option.getD_some]
  · rfl

theorem nodeIn_of_notMem (hd : d ∉ decisions) : nodeIn decisions d = .stub := by
  unfold nodeIn
  rw [Finmap.lookup_eq_none.2 hd, Option.getD_none]

end Tables

/-! ## Edges -/

theorem mem_superseders : s ∈ g.superseders d ↔ (s, d) ∈ g.supersedes := by
  unfold Graph.superseders
  rw [Finset.mem_image]
  constructor
  · rintro ⟨⟨s', d'⟩, h, rfl⟩
    obtain ⟨hk, rfl⟩ := Finset.mem_filter.1 h
    exact Finmap.mem_keys.1 hk
  · exact fun h => ⟨(s, d), Finset.mem_filter.2 ⟨Finmap.mem_keys.2 h, rfl⟩, rfl⟩

theorem mem_oldTargets : t ∈ g.oldTargets d ↔ (d, t) ∈ g.supersedes := by
  unfold Graph.oldTargets
  rw [Finset.mem_image]
  constructor
  · rintro ⟨⟨d', t'⟩, h, rfl⟩
    obtain ⟨hk, rfl⟩ := Finset.mem_filter.1 h
    exact Finmap.mem_keys.1 hk
  · exact fun h => ⟨(d, t), Finset.mem_filter.2 ⟨Finmap.mem_keys.2 h, rfl⟩, rfl⟩

theorem related_iff : g.related d ↔
    (∃ s, (s, d) ∈ g.supersedes) ∨ (∃ t, (d, t) ∈ g.supersedes) ∨ ∃ v, (d, v) ∈ g.hasVersion := by
  unfold Graph.related
  constructor
  · rintro (⟨⟨s, t⟩, hk, rfl | rfl⟩ | ⟨⟨_, v⟩, hk, rfl⟩)
    · exact Or.inr (Or.inl ⟨t, Finmap.mem_keys.1 hk⟩)
    · exact Or.inl ⟨s, Finmap.mem_keys.1 hk⟩
    · exact Or.inr (Or.inr ⟨v, Finmap.mem_keys.1 hk⟩)
  · rintro (⟨s, h⟩ | ⟨t, h⟩ | ⟨v, h⟩)
    · exact Or.inl ⟨_, Finmap.mem_keys.2 h, Or.inr rfl⟩
    · exact Or.inl ⟨_, Finmap.mem_keys.2 h, Or.inl rfl⟩
    · exact Or.inr ⟨_, Finmap.mem_keys.2 h, rfl⟩

/-- The closing time of a decision is read from its superseders only. -/
theorem closing_congr {g' : Graph} (hedge : ∀ s, (s, d) ∈ g.supersedes ↔ (s, d) ∈ g'.supersedes)
    (hstate : ∀ s, (s, d) ∈ g.supersedes → g.stateOf s = g'.stateOf s) : g.closing d = g'.closing d := by
  refine leastNonNull_congr fun v => ?_
  have hmem : ∀ s, s ∈ (g.superseders d).sort ↔ s ∈ (g'.superseders d).sort := fun s => by
    rw [Finset.mem_sort, Finset.mem_sort, mem_superseders, mem_superseders, hedge]
  constructor
  · rintro ⟨s, hs, hv⟩
    refine ⟨s, (hmem s).1 hs, ?_⟩
    rwa [← hstate s (mem_superseders.1 ((Finset.mem_sort _).1 hs))]
  · rintro ⟨s, hs, hv⟩
    have hs' := (hmem s).2 hs
    refine ⟨s, hs', ?_⟩
    rwa [hstate s (mem_superseders.1 ((Finset.mem_sort _).1 hs'))]

theorem closing_eq_none (h : ∀ s, (s, d) ∉ g.supersedes) : g.closing d = none := by
  have hempty : g.superseders d = ∅ := Finset.eq_empty_of_forall_notMem fun s hs => h s (mem_superseders.1 hs)
  unfold Graph.closing
  rw [hempty, Finset.sort_empty, leastNonNull_nil]

/-! ## Closing -/

/-- The part of a node that no closure changes. -/
def DecisionNode.base (n : DecisionNode) : DecisionNode := { n with supersededAt := none, effectiveValidTo := none }

@[simp] theorem base_closedAt {c : Option Moment} : (n.closedAt c).base = n.base := rfl

@[simp] theorem closedAt_closedAt {c c' : Option Moment} : (n.closedAt c).closedAt c' = n.closedAt c' := rfl

@[simp] theorem closedAt_base {c : Option Moment} : n.base.closedAt c = n.closedAt c := rfl

theorem state_of_base {n n' : DecisionNode} (h : n.base = n'.base) : n.state = n'.state := by
  show n.base.state = n'.base.state
  rw [h]

theorem scope_of_base {n n' : DecisionNode} (h : n.base = n'.base) :
    n.projectId = n'.projectId ∧ n.repositoryId = n'.repositoryId := by
  show n.base.projectId = n'.base.projectId ∧ n.base.repositoryId = n'.base.repositoryId
  rw [h]
  exact ⟨rfl, rfl⟩

/-- A node that says nothing but its closure. -/
theorem closedAt_of_blank (h : n.base = .stub) : n.closedAt none = .stub := by
  rw [← closedAt_base, h]
  rfl

/-- A decision without state has nothing else either. -/
def Blank (g : Graph) : Prop := ∀ d, g.stateOf d = none → (g.nodeOf d).base = .stub

theorem nodeOf_close (hd : d ∈ g.decisions) :
    (g.close d).nodeOf x = if x = d then (g.nodeOf d).closedAt (g.closing d) else g.nodeOf x :=
  nodeIn_modify hd

theorem mem_close : x ∈ (g.close d).decisions ↔ x ∈ g.decisions := mem_modify

theorem base_close : ((g.close d).nodeOf x).base = (g.nodeOf x).base := by
  by_cases hd : d ∈ g.decisions
  · rw [nodeOf_close hd]
    split
    · next h => rw [h, base_closedAt]
    · rfl
  · have hnone : g.decisions.lookup d = none := Finmap.lookup_eq_none.2 hd
    unfold Graph.close Table.modify
    rw [hnone]

/-- What settling the decisions `ds` does: each loses its stub, or is closed. -/
structure Settled (g g' : Graph) (ds : List DecisionId) : Prop where
  supersedes : g'.supersedes = g.supersedes
  hasVersion : g'.hasVersion = g.hasVersion
  versions : g'.versions = g.versions
  node : ∀ x, g'.nodeOf x = if x ∈ ds then (g.nodeOf x).closedAt (g.closing x) else g.nodeOf x
  mem : ∀ x, x ∈ g'.decisions ↔ x ∈ g.decisions ∧ (x ∈ ds → g.stateOf x ≠ none ∨ g.related x)

namespace Settled

variable {g' g'' : Graph} {ds ds' : List DecisionId}

section

variable (h : Settled g g' ds)
include h

theorem base : (g'.nodeOf x).base = (g.nodeOf x).base := by
  rw [h.node]
  split <;> rfl

theorem stateOf : g'.stateOf x = g.stateOf x := by
  rw [stateOf_eq, stateOf_eq]
  exact state_of_base h.base

theorem closing : g'.closing x = g.closing x := closing_congr (fun s => by rw [h.supersedes]) fun s _ => h.stateOf

theorem related : g'.related x ↔ g.related x := by rw [related_iff, related_iff, h.supersedes, h.hasVersion]

theorem blank (hb : Blank g) : Blank g' := fun x hx => by
  rw [h.base]
  exact hb x (h.stateOf ▸ hx)

theorem trans (h' : Settled g' g'' ds') : Settled g g'' (ds ++ ds') where
  supersedes := h'.supersedes.trans h.supersedes
  hasVersion := h'.hasVersion.trans h.hasVersion
  versions := h'.versions.trans h.versions
  node := fun x => by
    rw [h'.node, h.closing, h.node]
    by_cases hx : x ∈ ds <;> by_cases hx' : x ∈ ds' <;> simp [hx, hx']
  mem := fun x => by
    rw [h'.mem, h.mem, h.stateOf, h.related, List.mem_append]
    tauto

end

end Settled

/-- A node that `_DROP_STUB` deletes. -/
def Dropped (g : Graph) (d : DecisionId) : Prop := g.stateOf d = none ∧ ¬ g.related d

theorem not_dropped : ¬ Dropped g d ↔ g.stateOf d ≠ none ∨ g.related d := by rw [Dropped, not_and_or, not_not]

theorem dropStub_eq (h : Dropped g d) : g.dropStub d = { g with decisions := g.decisions.erase d } := if_pos h

theorem dropStub_of_not (h : ¬ Dropped g d) : g.dropStub d = g := if_neg h

theorem Dropped.closing (h : Dropped g d) : g.closing d = none :=
  closing_eq_none fun s hs => h.2 (related_iff.2 (Or.inl ⟨s, hs⟩))

theorem Dropped.close (h : Dropped g d) : (g.dropStub d).close d = g.dropStub d := by
  rw [dropStub_eq h]
  have hnone : (g.decisions.erase d).lookup d = none := Finmap.lookup_erase d _
  unfold Graph.close Table.modify
  rw [hnone]

theorem mem_dropStub : x ∈ (g.dropStub d).decisions ↔ x ∈ g.decisions ∧ (x = d → g.stateOf x ≠ none ∨ g.related x) := by
  by_cases h : Dropped g d
  · rw [dropStub_eq h]
    show x ∈ g.decisions.erase d ↔ _
    rw [Finmap.mem_erase, and_comm]
    refine and_congr_right fun _ => ⟨fun hne he => absurd he hne, ?_⟩
    rintro hkept rfl
    exact not_dropped.2 (hkept rfl) h
  · rw [dropStub_of_not h]
    refine ⟨fun hx => ⟨hx, ?_⟩, And.left⟩
    rintro rfl
    exact not_dropped.1 h

theorem nodeOf_dropStub (h : Dropped g d) : (g.dropStub d).nodeOf x = if x = d then .stub else g.nodeOf x := by
  rw [dropStub_eq h]
  show nodeIn (g.decisions.erase d) x = _
  by_cases hx : x = d
  · subst hx
    rw [if_pos rfl]
    exact nodeIn_of_notMem Finmap.notMem_erase_self
  · rw [if_neg hx]
    unfold nodeIn
    rw [Finmap.lookup_erase_ne hx]
    rfl

/-- One turn of the loop over the targets. -/
theorem settled_one (hb : Blank g) (hd : d ∈ g.decisions) : Settled g ((g.dropStub d).close d) [d] := by
  by_cases h : Dropped g d
  · -- a stub without an edge leaves, and there is no node to close
    rw [h.close]
    refine ⟨by rw [dropStub_eq h], by rw [dropStub_eq h], by rw [dropStub_eq h], fun x => ?_, fun x => ?_⟩
    · simp only [nodeOf_dropStub h, List.mem_singleton]
      by_cases hx : x = d
      · rw [if_pos hx, if_pos hx, hx, h.closing, closedAt_of_blank (hb d h.1)]
      · rw [if_neg hx, if_neg hx]
    · rw [mem_dropStub, List.mem_singleton]
  · rw [dropStub_of_not h]
    refine ⟨rfl, rfl, rfl, fun x => ?_, fun x => ?_⟩
    · simp only [nodeOf_close hd, List.mem_singleton]
      by_cases hx : x = d
      · rw [if_pos hx, if_pos hx, hx]
      · rw [if_neg hx, if_neg hx]
    · rw [mem_close, List.mem_singleton]
      refine ⟨fun hx => ⟨hx, ?_⟩, And.left⟩
      rintro rfl
      exact not_dropped.1 h

/-- The loop over the targets. -/
theorem settled_all {ds : List DecisionId} (hnd : ds.Nodup) (hb : Blank g) (hds : ∀ d ∈ ds, d ∈ g.decisions) :
    Settled g (ds.foldl (fun g d => (g.dropStub d).close d) g) ds := by
  induction ds generalizing g with
  | nil => exact ⟨rfl, rfl, rfl, fun x => by simp, fun x => by simp⟩
  | cons d ds ih =>
    have hone := settled_one hb (hds d List.mem_cons_self)
    obtain ⟨hd, hnd⟩ := List.nodup_cons.1 hnd
    have hrest : ∀ d' ∈ ds, d' ∈ ((g.dropStub d).close d).decisions := fun d' hd' => by
      refine (hone.mem d').2 ⟨hds d' (List.mem_cons_of_mem _ hd'), fun hmem => ?_⟩
      exact absurd (List.mem_singleton.1 hmem ▸ hd') hd
    exact hone.trans (ih hnd (hone.blank hb) hrest)

/-! ## The recording -/

theorem stateOf_lock : (g.lockEventNodes e).stateOf x = g.stateOf x := by
  rw [stateOf_eq, stateOf_eq]
  unfold Graph.nodeOf Graph.lockEventNodes
  cases e.target <;> simp

def Graph.recorded (g : Graph) (e : DecisionEvent) : Graph := (g.lockEventNodes e).record e

theorem nodeOf_recorded :
    (g.recorded e).nodeOf x = if x = e.decisionId then Graph.recordIn e (g.nodeOf e.decisionId) else g.nodeOf x := by
  show nodeIn (touch _ _ (modify _ _ (touch _ _ _))) x = _
  rw [nodeIn_touch, nodeIn_modify (mem_touch.2 (Or.inl rfl)), nodeIn_touch, nodeIn_touch]
  have hlock : ∀ y, nodeIn (g.lockEventNodes e).decisions y = g.nodeOf y := fun y => by
    unfold Graph.nodeOf Graph.lockEventNodes
    cases e.target <;> simp
  rw [hlock, hlock]

theorem mem_recorded : x ∈ (g.recorded e).decisions ↔ x = e.decisionId ∨ e.target = some x ∨ x ∈ g.decisions := by
  show x ∈ touch _ _ (modify _ _ (touch _ _ _)) ↔ _
  rw [mem_touch, mem_modify, mem_touch]
  unfold Graph.lockEventNodes
  dsimp only
  cases e.target with
  | none => simp [mem_touch]
  | some target =>
    rw [mem_touch, mem_touch, Option.some_inj]
    tauto

theorem stateOf_recorded : (g.recorded e).stateOf x =
    if x = e.decisionId ∧ Graph.newerThan e.order (g.stateOf x) then some (Graph.stateAt e) else g.stateOf x := by
  rw [stateOf_eq, nodeOf_recorded, stateOf_eq]
  by_cases hx : x = e.decisionId
  · subst hx
    simp [Graph.recordIn]
  · simp [hx]

theorem project_eq : g.project e =
    (if Graph.newerThan e.order (g.stateOf e.decisionId) then (g.recorded e).replaceEdges e
      else match e.target with
        | none => g.recorded e
        | some target => (g.recorded e).dropStub target).close e.decisionId := by
  unfold Graph.project Graph.decisionRecorded
  rw [stateOf_lock]
  rfl

/-! ## The edges -/

theorem nodeOf_reassert : (g.reassert e).nodeOf x = g.nodeOf x := by
  unfold Graph.reassert Graph.nodeOf
  cases e.target with
  | none => exact nodeIn_touch_all
  | some target =>
    show nodeIn (touch _ _ (touch _ _ _)) x = _
    rw [nodeIn_touch, nodeIn_touch]
    exact nodeIn_touch_all

theorem mem_changedTargets : t ∈ g.changedTargets e ↔ (e.decisionId, t) ∈ g.supersedes ∨ e.target = some t := by
  unfold Graph.changedTargets
  rw [Finset.mem_union, mem_oldTargets, Option.mem_toFinset]
  rfl

theorem mem_reassert (hd : e.decisionId ∈ g.decisions) :
    x ∈ (g.reassert e).decisions ↔ x ∈ g.changedTargets e ∨ x ∈ g.decisions := by
  have hlocked : x ∈ (g.lockNodes (g.changedTargets e).sort).decisions ↔ x ∈ g.changedTargets e ∨ x ∈ g.decisions := by
    show x ∈ List.foldl _ _ _ ↔ _
    rw [mem_touch_all, Finset.mem_sort]
  rw [← hlocked]
  unfold Graph.reassert
  cases htarget : e.target with
  | none => rfl
  | some target =>
    show x ∈ touch _ _ (touch _ _ _) ↔ x ∈ _
    rw [mem_touch, mem_touch]
    refine ⟨?_, fun h => Or.inr (Or.inr h)⟩
    rintro (rfl | rfl | h)
    · exact hlocked.2 (Or.inl (mem_changedTargets.2 (Or.inr htarget)))
    · exact hlocked.2 (Or.inr hd)
    · exact h

theorem lookup_reassert : (g.reassert e).supersedes.lookup (s, t) =
    if s = e.decisionId then (if e.target = some t then some {e.eventId} else none) else g.supersedes.lookup (s, t) := by
  have hdropped : ∀ edge, (keep (·.1 ≠ e.decisionId) g.supersedes).lookup edge =
      if edge.1 ≠ e.decisionId then g.supersedes.lookup edge else none := fun edge => lookup_keep
  unfold Graph.reassert
  cases htarget : e.target with
  | none =>
    show (keep (·.1 ≠ e.decisionId) g.supersedes).lookup (s, t) = _
    rw [hdropped]
    by_cases hs : s = e.decisionId <;> simp [hs]
  | some target =>
    show (modify _ _ (touch _ ∅ (keep (·.1 ≠ e.decisionId) g.supersedes))).lookup (s, t) = _
    rw [lookup_modify, lookup_touch, lookup_touch, hdropped, hdropped]
    by_cases hs : s = e.decisionId
    · subst hs
      by_cases ht : t = target
      · subst ht
        simp
      · simp [ht, Ne.symm ht]
    · simp [hs]

/-! ## Sound graphs -/

/-- A node says where its superseders close it. -/
def Closed (g : Graph) (d : DecisionId) : Prop := g.nodeOf d = (g.nodeOf d).closedAt (g.closing d)

structure Sound (g : Graph) : Prop where
  /-- A stub is the target of an edge. -/
  stubs : ∀ d, d ∈ g.decisions ↔ g.stateOf d ≠ none ∨ ∃ s, (s, d) ∈ g.supersedes
  sources : ∀ s t, (s, t) ∈ g.supersedes → g.stateOf s ≠ none
  versioned : ∀ d v, (d, v) ∈ g.hasVersion → g.stateOf d ≠ none
  blank : Blank g
  closed : ∀ d, Closed g d

theorem sound_empty : Sound .empty where
  stubs := fun d => ⟨fun h => absurd h Finmap.notMem_empty, fun h => h.elim (fun hs => absurd rfl hs)
    fun ⟨_, hs⟩ => absurd hs Finmap.notMem_empty⟩
  sources := fun _ _ h => absurd h Finmap.notMem_empty
  versioned := fun _ _ h => absurd h Finmap.notMem_empty
  blank := fun _ _ => rfl
  closed := fun d => by
    have hclosing : Graph.empty.closing d = none := closing_eq_none fun _ => Finmap.notMem_empty
    rw [Closed, hclosing]
    rfl

/-- What one recording does to a graph: `touched` are the decisions whose edges or stubs it looks at. -/
structure Outcome (g g' : Graph) (e : DecisionEvent) (touched : Finset DecisionId) : Prop where
  base : ∀ x, (g'.nodeOf x).base =
    if x = e.decisionId then (Graph.recordIn e (g.nodeOf e.decisionId)).base else (g.nodeOf x).base
  supersedes : ∀ s t, g'.supersedes.lookup (s, t) =
    if s = e.decisionId ∧ Graph.newerThan e.order (g.stateOf e.decisionId) then
      (if e.target = some t then some {e.eventId} else none)
    else g.supersedes.lookup (s, t)
  hasVersion : g'.hasVersion = (g.recorded e).hasVersion
  versions : g'.versions = (g.recorded e).versions
  mem : ∀ x, x ∈ g'.decisions ↔
    (x ∈ touched ∨ x = e.decisionId ∨ x ∈ g.decisions) ∧ (x ∈ touched → g'.stateOf x ≠ none ∨ g'.related x)
  edges : Graph.newerThan e.order (g.stateOf e.decisionId) →
    ∀ x ∉ touched, (e.decisionId, x) ∉ g.supersedes ∧ e.target ≠ some x
  kept : ∀ x ∉ touched, x ≠ e.decisionId → g'.nodeOf x = g.nodeOf x
  closed : ∀ x, x ∈ touched ∨ x = e.decisionId → Closed g' x

theorem closing_of_base {g' : Graph} (hedge : g'.supersedes = g.supersedes)
    (hbase : ∀ x, (g'.nodeOf x).base = (g.nodeOf x).base) : g'.closing d = g.closing d :=
  closing_congr (fun s => by rw [hedge]) fun s _ => by
    rw [stateOf_eq, stateOf_eq]
    exact state_of_base (hbase s)

theorem closing_close : (g.close d).closing x = g.closing x := closing_of_base rfl fun _ => base_close

theorem closed_close (hd : d ∈ g.decisions) (hx : x = d ∨ Closed g x) : Closed (g.close d) x := by
  rw [Closed, closing_close, nodeOf_close hd]
  by_cases h : x = d
  · rw [if_pos h, closedAt_closedAt, h]
  · rw [if_neg h]
    exact hx.resolve_left h

theorem newerThan_of_none {order : EventOrder} {state : Option DecisionRecord} (h : ¬ Graph.newerThan order state) :
    state ≠ none := by
  rintro rfl
  exact h rfl

theorem blank_recorded (hb : Blank g) : Blank (g.recorded e) := fun x hx => by
  rw [stateOf_recorded] at hx
  split at hx
  · exact nomatch hx
  · next hnot =>
    have hne : x ≠ e.decisionId := by
      rintro rfl
      exact newerThan_of_none (fun h => hnot ⟨rfl, h⟩) hx
    rw [nodeOf_recorded, if_neg hne]
    exact hb x hx

theorem outcome_newer (hs : Sound g) (hnew : Graph.newerThan e.order (g.stateOf e.decisionId)) :
    Outcome g (g.project e) e ((g.recorded e).changedTargets e) := by
  have hproject : g.project e = ((g.recorded e).replaceEdges e).close e.decisionId := by rw [project_eq, if_pos hnew]
  have hrec : e.decisionId ∈ (g.recorded e).decisions := mem_recorded.2 (Or.inl rfl)
  have hmem : ∀ x, x ∈ ((g.recorded e).reassert e).decisions ↔
      x ∈ (g.recorded e).changedTargets e ∨ x = e.decisionId ∨ x ∈ g.decisions := fun x => by
    rw [mem_reassert hrec, mem_recorded]
    refine or_congr_right' fun hx => or_congr_right ⟨fun h => h.resolve_left fun ht => ?_, Or.inr⟩
    exact hx (mem_changedTargets.2 (Or.inr ht))
  have hblank : Blank ((g.recorded e).reassert e) := fun x hx => by
    rw [nodeOf_reassert]
    rw [stateOf_eq, nodeOf_reassert, ← stateOf_eq] at hx
    exact blank_recorded hs.blank x hx
  have hset : Settled ((g.recorded e).reassert e) ((g.recorded e).replaceEdges e) ((g.recorded e).changedTargets e).sort :=
    settled_all (Finset.sort_nodup _ _) hblank fun d hd => (hmem d).2 (Or.inl ((Finset.mem_sort _).1 hd))
  have hstate : ∀ x, (g.project e).stateOf x = ((g.recorded e).reassert e).stateOf x := fun x => by
    rw [hproject, stateOf_eq, state_of_base base_close, ← stateOf_eq, hset.stateOf]
  have hown : ((g.recorded e).reassert e).stateOf e.decisionId ≠ none := by
    rw [stateOf_eq, nodeOf_reassert, ← stateOf_eq, stateOf_recorded, if_pos ⟨rfl, hnew⟩]
    exact Option.some_ne_none _
  have hd : e.decisionId ∈ ((g.recorded e).replaceEdges e).decisions :=
    (hset.mem _).2 ⟨(hmem _).2 (Or.inr (Or.inl rfl)), fun _ => Or.inl hown⟩
  have hlookup : (g.project e).supersedes = ((g.recorded e).reassert e).supersedes := by
    rw [hproject]
    exact hset.supersedes
  have hlinks : (g.project e).hasVersion = ((g.recorded e).reassert e).hasVersion := by
    rw [hproject]
    exact hset.hasVersion
  have hfields : ((g.recorded e).reassert e).hasVersion = (g.recorded e).hasVersion ∧
      ((g.recorded e).reassert e).versions = (g.recorded e).versions := by
    unfold Graph.reassert
    cases e.target <;> exact ⟨rfl, rfl⟩
  refine ⟨fun x => ?_, fun s t => ?_, hlinks.trans hfields.1, ?_, fun x => ?_, fun _ x hx => ?_, fun x hx hne => ?_, fun x hx => ?_⟩
  · rw [hproject, base_close, hset.base, nodeOf_reassert, nodeOf_recorded]
    split <;> rfl
  · rw [hlookup, lookup_reassert]
    simp only [hnew, and_true]
    rfl
  · rw [hproject]
    exact hset.versions.trans hfields.2
  · have hrelated : (g.project e).related x ↔ ((g.recorded e).reassert e).related x := by
      rw [related_iff, related_iff, hlookup, hlinks]
    rw [hstate, hrelated, hproject, mem_close, hset.mem, hmem, Finset.mem_sort]
  · rw [mem_changedTargets, not_or] at hx
    exact hx
  · rw [hproject, nodeOf_close hd, if_neg hne, hset.node, if_neg (fun h => hx ((Finset.mem_sort _).1 h)), nodeOf_reassert,
      nodeOf_recorded, if_neg hne]
  · rw [hproject]
    refine closed_close hd (or_iff_not_imp_left.2 fun hne => ?_)
    rw [Closed, hset.closing, hset.node, if_pos ((Finset.mem_sort _).2 (hx.resolve_right hne)), closedAt_closedAt]

theorem nodeOf_dropStub_of_closed (hb : Blank g) (hc : g.stateOf d = none → Closed g d) :
    (g.dropStub d).nodeOf x = g.nodeOf x := by
  by_cases h : Dropped g d
  · rw [nodeOf_dropStub h]
    split
    · next hx => rw [hx, hc h.1, h.closing, closedAt_of_blank (hb d h.1)]
    · rfl
  · rw [dropStub_of_not h]

/-- What an older recording leaves before it closes its decision. -/
def Graph.olderBranch (g : Graph) (e : DecisionEvent) : Graph :=
  match e.target with
  | none => g.recorded e
  | some target => (g.recorded e).dropStub target

/-- A recording that came after a newer one. -/
theorem outcome_older (hs : Sound g) (hold : ¬ Graph.newerThan e.order (g.stateOf e.decisionId)) :
    Outcome g (g.project e) e e.target.toFinset := by
  have hproject : g.project e = (g.olderBranch e).close e.decisionId := by
    rw [project_eq, if_neg hold]
    rfl
  have hstate : ∀ x, (g.recorded e).stateOf x = g.stateOf x := fun x => by
    rw [stateOf_recorded]
    split
    · next h => exact absurd (h.1 ▸ h.2) hold
    · rfl
  have hown : (g.recorded e).stateOf e.decisionId ≠ none := hstate _ ▸ newerThan_of_none hold
  have hclosing : ∀ x, (g.recorded e).closing x = g.closing x := fun x => closing_congr (fun _ => Iff.rfl) fun s _ => hstate s
  have hclosed : ∀ x, x ≠ e.decisionId → Closed (g.recorded e) x := fun x hx => by
    rw [Closed, hclosing, nodeOf_recorded, if_neg hx]
    exact hs.closed x
  have hdrop : ∀ target, e.target = some target → ∀ x, ((g.recorded e).dropStub target).nodeOf x = (g.recorded e).nodeOf x := by
    refine fun target _ x => nodeOf_dropStub_of_closed (blank_recorded hs.blank) fun hnone => hclosed target ?_
    rintro rfl
    exact hown hnone
  have hnode : ∀ x, (g.olderBranch e).nodeOf x = (g.recorded e).nodeOf x := fun x => by
    unfold Graph.olderBranch
    split
    · rfl
    · next target htarget => exact hdrop target htarget x
  have hfields : (g.olderBranch e).supersedes = g.supersedes ∧ (g.olderBranch e).hasVersion = (g.recorded e).hasVersion ∧
      (g.olderBranch e).versions = (g.recorded e).versions := by
    unfold Graph.olderBranch Graph.dropStub
    split
    · exact ⟨rfl, rfl, rfl⟩
    · split <;> exact ⟨rfl, rfl, rfl⟩
  have hrelated : ∀ x, (g.project e).related x ↔ (g.recorded e).related x := fun x => by
    rw [hproject, related_iff, related_iff]
    show (∃ s, (s, x) ∈ (g.olderBranch e).supersedes) ∨ (∃ t, (x, t) ∈ (g.olderBranch e).supersedes) ∨
      (∃ v, (x, v) ∈ (g.olderBranch e).hasVersion) ↔ _
    rw [hfields.1, hfields.2.1]
    rfl
  have hstate' : ∀ x, (g.project e).stateOf x = (g.recorded e).stateOf x := fun x => by
    rw [hproject, stateOf_eq, state_of_base base_close, hnode, ← stateOf_eq]
  have hmem : ∀ x, x ∈ (g.olderBranch e).decisions ↔ x ∈ (g.recorded e).decisions ∧
      (x ∈ e.target.toFinset → (g.recorded e).stateOf x ≠ none ∨ (g.recorded e).related x) := fun x => by
    unfold Graph.olderBranch
    cases e.target with
    | none => simp
    | some target => rw [mem_dropStub, Option.toFinset_some, Finset.mem_singleton]
  have hd : e.decisionId ∈ (g.olderBranch e).decisions := (hmem _).2 ⟨mem_recorded.2 (Or.inl rfl), fun _ => Or.inl hown⟩
  have hbranch : ∀ x, x = e.decisionId ∨ Closed (g.olderBranch e) x := fun x => or_iff_not_imp_left.2 fun hx => by
    have hsame : (g.olderBranch e).closing x = (g.recorded e).closing x := closing_of_base hfields.1 fun y => by rw [hnode]
    rw [Closed, hnode, hsame]
    exact hclosed x hx
  refine ⟨fun x => ?_, fun s t => ?_, ?_, ?_, fun x => ?_, fun hnew => absurd hnew hold, fun x _ hne => ?_, fun x _ => ?_⟩
  · rw [hproject, base_close, hnode, nodeOf_recorded]
    split <;> rfl
  · rw [if_neg (fun h => hold h.2), hproject]
    exact congrArg (Finmap.lookup (s, t)) hfields.1
  · rw [hproject]
    exact hfields.2.1
  · rw [hproject]
    exact hfields.2.2
  · rw [hstate', hrelated, hproject, mem_close, hmem, mem_recorded, Option.mem_toFinset, Option.mem_def]
    tauto
  · rw [hproject, nodeOf_close hd, if_neg hne, hnode, nodeOf_recorded, if_neg hne]
  · rw [hproject]
    exact closed_close hd (hbranch x)

theorem outcome_project (hs : Sound g) : ∃ touched, Outcome g (g.project e) e touched := by
  by_cases h : Graph.newerThan e.order (g.stateOf e.decisionId)
  · exact ⟨_, outcome_newer hs h⟩
  · exact ⟨_, outcome_older hs h⟩

namespace Outcome

variable {g' : Graph} {touched : Finset DecisionId}

section

variable (h : Outcome g g' e touched)
include h

theorem stateOf : g'.stateOf x =
    if x = e.decisionId ∧ Graph.newerThan e.order (g.stateOf x) then some (Graph.stateAt e) else g.stateOf x := by
  rw [stateOf_eq, stateOf_eq]
  by_cases hx : x = e.decisionId
  · have hbase := h.base x
    rw [if_pos hx] at hbase
    rw [state_of_base hbase, ← hx]
    simp [Graph.recordIn, hx]
  · have hbase := h.base x
    rw [if_neg hx] at hbase
    rw [state_of_base hbase, if_neg (fun h => hx h.1)]

theorem own : g'.stateOf e.decisionId ≠ none := by
  rw [h.stateOf]
  split
  · exact Option.some_ne_none _
  · next hnot => exact newerThan_of_none fun hnew => hnot ⟨rfl, hnew⟩

theorem held (hx : g.stateOf x ≠ none) : g'.stateOf x ≠ none := by
  rw [h.stateOf]
  split
  · exact Option.some_ne_none _
  · exact hx

theorem mem_supersedes : (s, t) ∈ g'.supersedes ↔
    if s = e.decisionId ∧ Graph.newerThan e.order (g.stateOf e.decisionId) then e.target = some t
    else (s, t) ∈ g.supersedes := by
  rw [mem_iff_lookup, h.supersedes]
  split
  · split <;> simp [*]
  · exact mem_iff_lookup.symm

theorem untouched (hx : x ∉ touched) : (s, x) ∈ g'.supersedes ↔ (s, x) ∈ g.supersedes := by
  rw [h.mem_supersedes]
  split
  · next hs =>
    have hnot := h.edges hs.2 x hx
    rw [hs.1]
    exact ⟨fun ht => absurd ht hnot.2, fun hm => absurd hm hnot.1⟩
  · rfl

theorem hasVersion_mem {v : String} (hv : (x, v) ∈ g'.hasVersion) : x = e.decisionId ∨ (x, v) ∈ g.hasVersion := by
  rw [h.hasVersion] at hv
  have hv' : (x, v) ∈ modify _ _ (touch (e.decisionId, e.eventId) (∅ : Finset String) g.hasVersion) := hv
  rw [mem_modify, mem_touch] at hv'
  exact hv'.imp_left fun heq => congrArg Prod.fst heq

theorem sound (hs : Sound g) : Sound g' := by
  have hsources : ∀ s t, (s, t) ∈ g'.supersedes → g'.stateOf s ≠ none := fun s t hst => by
    rw [h.mem_supersedes] at hst
    split at hst
    · next hown => exact hown.1 ▸ h.own
    · exact h.held (hs.sources s t hst)
  have hversioned : ∀ d v, (d, v) ∈ g'.hasVersion → g'.stateOf d ≠ none := fun d v hdv => by
    rcases h.hasVersion_mem hdv with rfl | hold
    · exact h.own
    · exact h.held (hs.versioned d v hold)
  have hrelated : ∀ d, g'.related d → g'.stateOf d ≠ none ∨ ∃ s, (s, d) ∈ g'.supersedes := fun d hd => by
    rcases related_iff.1 hd with hin | ⟨t, hout⟩ | ⟨v, hlink⟩
    · exact Or.inr hin
    · exact Or.inl (hsources d t hout)
    · exact Or.inl (hversioned d v hlink)
  refine ⟨fun d => ?_, hsources, hversioned, fun d hd => ?_, fun d => ?_⟩
  · rw [h.mem]
    constructor
    · rintro ⟨hin, hkept⟩
      by_cases hd : d ∈ touched
      · exact (hkept hd).elim Or.inl (hrelated d)
      · rcases hin with hin | rfl | hin
        · exact absurd hin hd
        · exact Or.inl h.own
        · rcases (hs.stubs d).1 hin with hstate | ⟨s, hsd⟩
          · exact Or.inl (h.held hstate)
          · exact Or.inr ⟨s, (h.untouched hd).2 hsd⟩
    · intro hd
      refine ⟨?_, fun _ => hd.imp_right fun hin => related_iff.2 (Or.inl hin)⟩
      by_cases htouched : d ∈ touched
      · exact Or.inl htouched
      refine Or.inr (or_iff_not_imp_left.2 fun hne => (hs.stubs d).2 ?_)
      rcases hd with hstate | ⟨s, hsd⟩
      · rw [h.stateOf, if_neg (fun h => hne h.1)] at hstate
        exact Or.inl hstate
      · exact Or.inr ⟨s, (h.untouched htouched).1 hsd⟩
  · have hne : d ≠ e.decisionId := by
      rintro rfl
      exact h.own hd
    rw [h.stateOf, if_neg (fun h => hne h.1)] at hd
    rw [h.base, if_neg hne]
    exact hs.blank d hd
  · by_cases htouched : d ∈ touched ∨ d = e.decisionId
    · exact h.closed d htouched
    · rw [not_or] at htouched
      have hclosing : g'.closing d = g.closing d := by
        refine closing_congr (fun s => h.untouched htouched.1) fun s hsd => ?_
        rw [h.stateOf]
        refine if_neg ?_
        rintro ⟨rfl, hnew⟩
        -- a newer recording of a superseder looks at every decision it superseded
        exact (h.edges hnew d htouched.1).1 ((h.untouched htouched.1).1 hsd)
      rw [Closed, hclosing, h.kept d htouched.1 htouched.2]
      exact hs.closed d

end

end Outcome

end Knowledge
