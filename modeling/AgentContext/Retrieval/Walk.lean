import AgentContext.Retrieval.Graph

/-!
# What a walk places

    Adjacent     one hop of the mode, between nodes of the repository
    Explored     every level up to `d` is placed, and nothing else
    Walked       what the loop ends with, cut or not

Only the last level is ever cut.
-/

namespace Retrieval.Graph

open Levels Capped List

namespace Request

variable (q : Request)

def Adjacent (a n : Node) : Prop :=
  a ∈ q.graph.nodes ∧ a.repositoryId = q.repositoryId ∧ n ∈ q.graph.nodes ∧
    ∃ joins, q.step a.kind = some joins ∧ joins a n = true

/-- The shortest walk of the mode from the anchor has `k` hops. -/
def At (a : Node) (k : Nat) (n : Node) : Prop := Distance q.Adjacent a k n

/-- Every level up to `d` is placed, and nothing else. -/
structure Explored (a : Node) (d : Nat) (w : Walk) : Prop where
  placed : ∀ p, p ∈ w.placed ↔ p.distance ≤ d ∧ q.At a p.distance p.node
  nodup : (w.placed.map (·.node)).Nodup
  seen : w.seen = w.placed.map (·.node.nodeId)
  frontier : ∀ n, n ∈ w.frontier ↔ q.At a d n
  room : w.placed.length ≤ maxNodes
  whole : w.truncated = false

/-- What the loop over the distances ends with. -/
structure Walked (a : Node) (depth : Nat) (placed : List Placed) (truncated : Bool) : Prop where
  sound : ∀ p ∈ placed, p.distance ≤ depth ∧ q.At a p.distance p.node
  nodup : (placed.map (·.node)).Nodup
  room : placed.length ≤ maxNodes
  complete : truncated = false → ∀ k ≤ depth, ∀ n, q.At a k n → ⟨n, k⟩ ∈ placed
  /-- A cut fills the answer and is in the last level. -/
  cut : truncated = true → placed.length = maxNodes ∧ ∃ last ≤ depth, (∃ n, q.At a last n ∧ ⟨n, last⟩ ∉ placed) ∧
    (∀ k < last, ∀ n, q.At a k n → ⟨n, k⟩ ∈ placed) ∧ ∀ p ∈ placed, p.distance ≤ last

/-- The rows of the queries of a level, without the bound. -/
def rowsOf (w : Walk) (level : List Node) (kind : NodeKind) : List Node :=
  ((q.step kind).map fun joins =>
    q.levelRows joins kind (w.ids kind) (w.seen ++ level.map (·.nodeId))).getD []

def next (w : Walk) : List Node := readAll (q.rowsOf w) kindOrder

variable {q} {a n m : Node} {k d : Nat} {w : Walk} {kind : NodeKind} {joins : Node → Node → Bool}
variable {ids visited : List String}

theorem eq_of_id (hm : m ∈ q.graph.nodes) (hn : n ∈ q.graph.nodes) (h : m.nodeId = n.nodeId) : m = n :=
  inj_on_of_nodup_map q.graph.ids hm hn h

/-- What a step joins is in the repository, its code is current, and the walk can go on from it. -/
theorem step_joins (h : q.step kind = some joins) (hjoins : joins a n = true) :
    n.repositoryId = q.repositoryId ∧ (n.kind = .file ∨ n.kind = .symbol → n.current = true) ∧
      (q.step n.kind).isSome := by
  unfold step at h ⊢
  cases hmode : q.mode <;> rw [hmode] at h <;> cases kind <;> cases h <;> cases hkind : n.kind <;>
    simp_all [currentCode]

theorem At.mem (ha : a ∈ q.graph.nodes) (h : q.At a k n) : n ∈ q.graph.nodes := by
  cases k with
  | zero => exact distance_zero.1 h ▸ ha
  | succ k =>
    obtain ⟨⟨x, -, hadj⟩, -⟩ := distance_succ.1 h
    exact hadj.2.2.1

theorem At.joined (h : q.At a k n) : n = a ∨ n.repositoryId = q.repositoryId ∧
    (n.kind = .file ∨ n.kind = .symbol → n.current = true) ∧ (q.step n.kind).isSome := by
  cases k with
  | zero => exact .inl (distance_zero.1 h)
  | succ k =>
    obtain ⟨⟨x, -, -, -, -, joins, hstep, hjoins⟩, -⟩ := distance_succ.1 h
    exact .inr (step_joins hstep hjoins)

/-! ## One level -/

theorem mem_levelRows : n ∈ q.levelRows joins kind ids visited ↔ n ∈ q.graph.nodes ∧
    (∃ x ∈ q.graph.nodes, x.kind = kind ∧ x.nodeId ∈ ids ∧ x.repositoryId = q.repositoryId ∧ joins x n = true) ∧
      n.nodeId ∉ visited := by
  simp [levelRows, mem_insertionSort, and_assoc]

theorem nodup_levelRows : (q.levelRows joins kind ids visited).Nodup :=
  (perm_insertionSort _ _).nodup_iff.2 (q.graph.ids.of_map.filter _)

theorem mem_ids {id : String} : id ∈ w.ids kind ↔ ∃ n ∈ w.frontier, n.kind = kind ∧ n.nodeId = id := by
  simp [Walk.ids, and_assoc]

theorem walkKind_eq {acc : Rows Node} (h : w.ids kind ≠ [] → (q.step kind).isSome) :
    q.walkKind w acc kind = .ok (acc.add (maxNodes - w.placed.length) (q.rowsOf w acc.rows kind)) := by
  unfold walkKind
  split
  · next hnone =>
    have hrows : q.rowsOf w acc.rows kind = [] := by
      refine eq_nil_iff_forall_not_mem.2 fun n hn => ?_
      unfold rowsOf at hn
      cases hstep : q.step kind with
      | none => simp [hstep] at hn
      | some joins =>
        rw [hstep, hnone] at hn
        obtain ⟨-, ⟨x, -, -, hid, -⟩, -⟩ := mem_levelRows.1 hn
        cases hid
    rw [hrows]
    simp [Rows.add]
  · next hsome =>
    obtain ⟨joins, hjoins⟩ := Option.isSome_iff_exists.1 (h hsome)
    simp [rowsOf, hjoins]

theorem walkLevel_eq (hwhole : w.truncated = false) (h : ∀ kind, w.ids kind ≠ [] → (q.step kind).isSome) :
    q.walkLevel w = .ok ⟨(q.next w).take (maxNodes - w.placed.length),
      decide (maxNodes - w.placed.length < (q.next w).length)⟩ := by
  have hkind : q.walkKind w = fun acc kind =>
      pure (acc.add (maxNodes - w.placed.length) (q.rowsOf w acc.rows kind)) := by
    funext acc kind
    exact walkKind_eq (h kind)
  rw [walkLevel, hkind, foldlM_pure, hwhole]
  exact congrArg Except.ok (capped _ _ _)

theorem levels_succ {left : Nat} {level : Rows Node} (h : q.walkLevel w = .ok level) :
    q.levels (left + 1) k w = if level.rows = [] then .ok { w with truncated := level.cut }
      else if level.cut then .ok (w.enter k level) else q.levels left (k + 1) (w.enter k level) := by
  rw [levels, h]
  rfl

section Level

variable (ha : a ∈ q.graph.nodes) (inv : q.Explored a d w)
include ha inv

theorem Explored.mem_seen (hn : n ∈ q.graph.nodes) : n.nodeId ∈ w.seen ↔ ∃ k ≤ d, q.At a k n := by
  rw [inv.seen, mem_map]
  constructor
  · rintro ⟨p, hp, hid⟩
    obtain ⟨hle, hat⟩ := (inv.placed p).1 hp
    exact ⟨p.distance, hle, eq_of_id (hat.mem ha) hn hid ▸ hat⟩
  · rintro ⟨k, hk, hat⟩
    exact ⟨⟨n, k⟩, (inv.placed _).2 ⟨hk, hat⟩, rfl⟩

theorem mem_rowsOf {level : List Node} : n ∈ q.rowsOf w level kind ↔
    (∃ x, q.At a d x ∧ x.kind = kind ∧ q.Adjacent x n) ∧ (∀ k ≤ d, ¬ q.At a k n) ∧ n.nodeId ∉ level.map (·.nodeId) := by
  have hids : ∀ x ∈ q.graph.nodes, x.kind = kind → (x.nodeId ∈ w.ids kind ↔ q.At a d x) := by
    intro x hx hkind
    rw [mem_ids]
    constructor
    · rintro ⟨m, hm, -, hid⟩
      have hat := (inv.frontier m).1 hm
      exact eq_of_id (hat.mem ha) hx hid ▸ hat
    · exact fun hat => ⟨x, (inv.frontier x).2 hat, hkind, rfl⟩
  have hseen : n ∈ q.graph.nodes → (n.nodeId ∉ w.seen ↔ ∀ k ≤ d, ¬ q.At a k n) := by
    intro hn
    rw [inv.mem_seen ha hn]
    simp only [not_exists, not_and]
  unfold rowsOf
  constructor
  · intro hrow
    cases hstep : q.step kind with
    | none => simp [hstep] at hrow
    | some joins =>
      rw [hstep] at hrow
      obtain ⟨hn, ⟨x, hx, rfl, hid, hscope, hjoins⟩, hnew⟩ := mem_levelRows.1 hrow
      rw [mem_append, not_or] at hnew
      exact ⟨⟨x, (hids x hx rfl).1 hid, rfl, hx, hscope, hn, joins, hstep, hjoins⟩, (hseen hn).1 hnew.1, hnew.2⟩
  · rintro ⟨⟨x, hat, rfl, hx, hscope, hn, joins, hstep, hjoins⟩, hold, hnew⟩
    rw [hstep]
    refine mem_levelRows.2 ⟨hn, ⟨x, hx, rfl, (hids x hx rfl).2 hat, hscope, hjoins⟩, ?_⟩
    rw [mem_append, not_or]
    exact ⟨(hseen hn).2 hold, hnew⟩

theorem mem_readAll {kinds : List NodeKind} : n ∈ readAll (q.rowsOf w) kinds ↔
    (∃ x, q.At a d x ∧ x.kind ∈ kinds ∧ q.Adjacent x n) ∧ ∀ k ≤ d, ¬ q.At a k n := by
  induction kinds using reverseRecOn generalizing n with
  | nil => simp [readAll]
  | append_singleton kinds kind ih =>
    rw [readAll_snoc, mem_append, ih, mem_rowsOf ha inv]
    constructor
    · rintro (⟨⟨x, hat, hkind, hadj⟩, hold⟩ | ⟨⟨x, hat, hkind, hadj⟩, hold, -⟩)
      · exact ⟨⟨x, hat, mem_append_left _ hkind, hadj⟩, hold⟩
      · exact ⟨⟨x, hat, hkind ▸ mem_concat_self, hadj⟩, hold⟩
    · rintro ⟨⟨x, hat, hkind, hadj⟩, hold⟩
      by_cases hnew : n.nodeId ∈ (readAll (q.rowsOf w) kinds).map (·.nodeId)
      · -- a node of an earlier kind joins it too
        obtain ⟨m, hm, hid⟩ := mem_map.1 hnew
        have hfirst := ih.1 hm
        have hmem : m ∈ q.graph.nodes := hfirst.1.elim fun y hy => hy.2.2.2.2.1
        exact .inl (eq_of_id hmem hadj.2.2.1 hid ▸ hfirst)
      · rcases mem_append.1 hkind with hkind | hkind
        · exact .inl ⟨⟨x, hat, hkind, hadj⟩, hold⟩
        · exact .inr ⟨⟨x, hat, mem_singleton.1 hkind, hadj⟩, hold, hnew⟩

theorem mem_next : n ∈ q.next w ↔ q.At a (d + 1) n := by
  have hall : ∀ kind, kind ∈ kindOrder := by
    intro kind
    cases kind <;> simp [kindOrder]
  unfold next At
  rw [mem_readAll ha inv, distance_succ]
  constructor
  · rintro ⟨⟨x, hat, -, hadj⟩, hold⟩
    exact ⟨⟨x, hat, hadj⟩, hold⟩
  · rintro ⟨⟨x, hat, hadj⟩, hold⟩
    exact ⟨⟨x, hat, hall _, hadj⟩, hold⟩

theorem nodup_readAll {kinds : List NodeKind} : (readAll (q.rowsOf w) kinds).Nodup := by
  induction kinds using reverseRecOn with
  | nil => exact nodup_nil
  | append_singleton kinds kind ih =>
    rw [readAll_snoc, nodup_append]
    refine ⟨ih, ?_, ?_⟩
    · unfold rowsOf
      cases q.step kind with
      | none => exact nodup_nil
      | some joins => exact nodup_levelRows
    · rintro n hn _ hrow rfl
      obtain ⟨-, -, hnew⟩ := (mem_rowsOf ha inv).1 hrow
      exact hnew (mem_map_of_mem hn)

/-- The nodes that are placed, and those of the next level. -/
theorem nodup_append_next : (w.placed.map (·.node) ++ q.next w).Nodup := by
  rw [nodup_append]
  refine ⟨inv.nodup, nodup_readAll ha inv, ?_⟩
  rintro n hold _ hnew rfl
  obtain ⟨p, hp, rfl⟩ := mem_map.1 hold
  obtain ⟨hle, hat⟩ := (inv.placed p).1 hp
  have hdist := hat.unique ((mem_next ha inv).1 hnew)
  omega

end Level

/-! ## The loop -/

theorem Explored.walked (inv : q.Explored a d w) : q.Walked a d w.placed w.truncated where
  sound := fun p hp => (inv.placed p).1 hp
  nodup := inv.nodup
  room := inv.room
  complete := fun _ k hk n hat => (inv.placed ⟨n, k⟩).2 ⟨hk, hat⟩
  cut := fun h => by rw [inv.whole] at h; cases h

theorem Explored.isSome_step (inv : q.Explored a d w) (hstep : (q.step a.kind).isSome) (hids : w.ids kind ≠ []) :
    (q.step kind).isSome := by
  obtain ⟨id, hid⟩ := exists_mem_of_ne_nil _ hids
  obtain ⟨n, hn, rfl, -⟩ := mem_ids.1 hid
  rcases ((inv.frontier n).1 hn).joined with rfl | ⟨-, -, hgo⟩
  · exact hstep
  · exact hgo

section Loop

variable (ha : a ∈ q.graph.nodes)
include ha

theorem Explored.enter (inv : q.Explored a d w) (hfit : (q.next w).length ≤ maxNodes - w.placed.length) :
    q.Explored a (d + 1) (w.enter (d + 1) ⟨q.next w, false⟩) where
  placed := by
    rintro ⟨n, k⟩
    simp only [Walk.enter, mem_append, inv.placed, mem_map, mem_next ha inv]
    constructor
    · rintro (⟨hle, hat⟩ | ⟨m, hat, heq⟩)
      · exact ⟨by omega, hat⟩
      · cases heq
        exact ⟨Nat.le_refl _, hat⟩
    · rintro ⟨hle, hat⟩
      rcases Nat.le_succ_iff.1 hle with hle | rfl
      · exact .inl ⟨hle, hat⟩
      · exact .inr ⟨n, hat, rfl⟩
  nodup := by simpa [Walk.enter, Function.comp_def] using nodup_append_next ha inv
  seen := by simp [Walk.enter, inv.seen, Function.comp_def]
  frontier := fun n => mem_next ha inv
  room := by
    have := inv.room
    simp only [Walk.enter, length_append, length_map]
    omega
  whole := rfl

/-- More nodes in the next level than there is room for. -/
theorem Explored.cut (inv : q.Explored a d w) (left : Nat) (hmore : maxNodes - w.placed.length < (q.next w).length) :
    q.Walked a (d + (left + 1)) (w.placed ++
      ((q.next w).take (maxNodes - w.placed.length)).map fun n => ⟨n, d + 1⟩) true := by
  have hnodup := nodup_append_next ha inv
  have hnext := fun n => mem_next ha inv (n := n)
  have hroom := inv.room
  generalize q.next w = next at *
  have hmem : ∀ p, p ∈ w.placed ++ (next.take (maxNodes - w.placed.length)).map (fun n => ⟨n, d + 1⟩) →
      p.distance ≤ d + 1 ∧ q.At a p.distance p.node := by
    intro p hp
    rcases mem_append.1 hp with hp | hp
    · obtain ⟨hle, hat⟩ := (inv.placed p).1 hp
      exact ⟨by omega, hat⟩
    · obtain ⟨n, hn, rfl⟩ := mem_map.1 hp
      exact ⟨Nat.le_refl _, (hnext n).1 (mem_of_mem_take hn)⟩
  constructor
  · intro p hp
    exact ⟨by have := (hmem p hp).1; omega, (hmem p hp).2⟩
  · simp only [map_append, map_map, Function.comp_def, map_id']
    exact (Sublist.append_left (take_sublist _ _) _).nodup hnodup
  · simp only [length_append, length_map, length_take]
    omega
  · intro h
    cases h
  · intro _
    refine ⟨?_, d + 1, by omega, ?_, ?_, fun p hp => (hmem p hp).1⟩
    · simp only [length_append, length_map, length_take]
      omega
    · -- the first node past the room
      refine ⟨next[maxNodes - w.placed.length], (hnext _).1 (getElem_mem hmore), fun hp => ?_⟩
      apply getElem_notMem_take hnodup hmore
      simpa [Function.comp_def] using mem_map_of_mem hp (f := (·.node))
    · exact fun k hk n hat => mem_append_left _ ((inv.placed ⟨n, k⟩).2 ⟨Nat.lt_succ_iff.1 hk, hat⟩)

/-- An empty level ends the walk: no later level has a node. -/
theorem Explored.last (inv : q.Explored a d w) (left : Nat) (hnone : q.next w = []) :
    q.Walked a (d + left) w.placed false where
  sound := fun p hp => by
    obtain ⟨hle, hat⟩ := (inv.placed p).1 hp
    exact ⟨by omega, hat⟩
  nodup := inv.nodup
  room := inv.room
  complete := fun _ k _ n hat => by
    by_cases hk : k ≤ d
    · exact (inv.placed ⟨n, k⟩).2 ⟨hk, hat⟩
    · obtain ⟨x, hx⟩ := hat.earlier (Nat.not_le.1 hk)
      have hmem := (mem_next ha inv).2 hx
      rw [hnone] at hmem
      cases hmem
  cut := fun h => by cases h

theorem levels_walked (hstep : (q.step a.kind).isSome) (left : Nat) : ∀ d w, q.Explored a d w →
    ∃ w', q.levels left (d + 1) w = .ok w' ∧ q.Walked a (d + left) w'.placed w'.truncated := by
  induction left with
  | zero => exact fun d w inv => ⟨w, rfl, inv.walked⟩
  | succ left ih =>
    intro d w inv
    have hcut := inv.cut ha left
    have hfit := inv.enter ha
    have hlast := inv.last ha (left + 1)
    rw [levels_succ (walkLevel_eq inv.whole fun _ => inv.isSome_step hstep)]
    generalize q.next w = next at *
    by_cases hmore : maxNodes - w.placed.length < next.length
    · specialize hcut hmore
      simp only [hmore, decide_true, if_true]
      split
      · next hnone =>
        rw [hnone, map_nil, append_nil] at hcut
        exact ⟨_, rfl, hcut⟩
      · exact ⟨_, rfl, hcut⟩
    · simp only [take_of_length_le (Nat.not_lt.1 hmore), hmore, decide_false, Bool.false_eq_true, if_false]
      split
      · next hnone => exact ⟨_, rfl, hlast hnone⟩
      · rw [show d + (left + 1) = d + 1 + left by omega]
        exact ih (d + 1) _ (hfit (Nat.not_lt.1 hmore))

end Loop

/-! ## The request -/

variable {anchorId : String} {depth : Int} {e : GraphError}

theorem resolves_id (h : q.resolves anchorId n = true) : n.nodeId = anchorId ∧ n.repositoryId = q.repositoryId ∧
    (n.kind = .file ∨ n.kind = .symbol → n.current = true) := by
  unfold resolves at h
  cases hkind : n.kind <;> simp_all

theorem resolve_cases (q : Request) (anchorId : String) :
    (∃ n ∈ q.graph.nodes, q.resolves anchorId n = true ∧ q.resolve anchorId = .ok n) ∨
      (∀ n ∈ q.graph.nodes, q.resolves anchorId n = false) ∧ q.resolve anchorId = .error .anchorNotFound := by
  unfold resolve
  split
  · next n hsome =>
    obtain ⟨kind, -, hfind⟩ := exists_of_findSome?_eq_some hsome
    have hn := find?_some hfind
    exact .inl ⟨n, mem_of_find?_eq_some hfind, (Bool.and_eq_true _ _ ▸ hn).2, rfl⟩
  · next hnone =>
    refine .inr ⟨fun n hn => ?_, rfl⟩
    have hkind : n.kind ∈ kindOrder := by cases n.kind <;> simp [kindOrder]
    have hfind := find?_eq_none.1 (findSome?_eq_none_iff.1 hnone n.kind hkind) n hn
    simpa using hfind

theorem explored_anchor : q.Explored a 0 ⟨[⟨a, 0⟩], [a.nodeId], [a], false⟩ where
  placed := by
    rintro ⟨n, k⟩
    rw [mem_singleton]
    constructor
    · intro h
      cases h
      exact ⟨Nat.le_refl 0, distance_zero.2 rfl⟩
    · rintro ⟨hle, hat⟩
      obtain rfl : k = 0 := Nat.le_zero.1 hle
      obtain rfl : n = a := distance_zero.1 hat
      rfl
  nodup := nodup_singleton _
  seen := rfl
  frontier := fun n => by rw [mem_singleton, At, distance_zero]
  room := by simp [maxNodes]
  whole := rfl

theorem walk_eq {depth : Nat} (ha : a ∈ q.graph.nodes) (hres : q.resolves anchorId a = true)
    (hok : q.resolve anchorId = .ok a) (hstep : (q.step a.kind).isSome) :
    ∃ w, q.walk anchorId depth = .ok w ∧ q.Walked a depth w.placed w.truncated := by
  obtain ⟨w, hw, hwalked⟩ := levels_walked ha hstep depth 0 _ explored_anchor
  rw [Nat.zero_add] at hwalked
  refine ⟨w, ?_, hwalked⟩
  rw [(resolves_id hres).1] at hw
  simpa [walk, hok, Option.isSome_iff_ne_none.1 hstep, bind, Except.bind] using hw

/-- **A traversal is an exact search by levels**, and no lookup in `_LEVEL` fails. -/
theorem traverse_exact (q : Request) (anchorId : String) (depth : Int) :
    (¬(1 ≤ depth ∧ depth ≤ maxDepth) → q.traverse anchorId depth = .error .depthOutOfBounds) ∧
    (1 ≤ depth ∧ depth ≤ maxDepth →
      ((∀ n ∈ q.graph.nodes, q.resolves anchorId n = false) → q.traverse anchorId depth = .error .anchorNotFound) ∧
      ∀ a ∈ q.graph.nodes, q.resolves anchorId a = true →
        (q.mode ≠ .neighborhood ∧ (a.kind = .repository ∨ a.kind = .module) →
          q.traverse anchorId depth = .error (.needsSymbolOrFile a.kind)) ∧
        (q.mode = .neighborhood ∨ a.kind = .file ∨ a.kind = .symbol →
          ∃ w, q.traverse anchorId depth = .ok w ∧ q.Walked a depth.toNat w.placed w.truncated ∧
            ∀ p ∈ w.placed, p.node.repositoryId = q.repositoryId ∧
              (p.node.kind = .file ∨ p.node.kind = .symbol → p.node.current = true))) := by
  refine ⟨fun h => if_neg h, fun h => ?_⟩
  unfold traverse
  rw [if_pos h]
  rcases resolve_cases q anchorId with ⟨a, ha, hres, hok⟩ | ⟨hnone, herror⟩
  · refine ⟨fun hnone => absurd (hres.symm.trans (hnone a ha)) Bool.noConfusion, fun b hb hres' => ?_⟩
    obtain rfl := eq_of_id hb ha ((resolves_id hres').1.trans (resolves_id hres).1.symm)
    constructor
    · rintro ⟨hmode, hkind⟩
      have hstep : q.step b.kind = none := by
        unfold step
        rcases hkind with hkind | hkind <;> rw [hkind] <;> cases hm : q.mode <;> simp_all
      simp [walk, hok, hstep, bind, Except.bind]
    · intro hkind
      have hstep : (q.step b.kind).isSome := by
        unfold step
        rcases hkind with hkind | hkind | hkind <;> rw [hkind] <;> cases b.kind <;> cases q.mode <;> rfl
      obtain ⟨w, hw, hwalked⟩ := walk_eq ha hres hok hstep
      refine ⟨w, hw, hwalked, fun p hp => ?_⟩
      rcases (hwalked.sound p hp).2.joined with heq | ⟨hscope, hcurrent, -⟩
      · exact heq ▸ (resolves_id hres).2
      · exact ⟨hscope, hcurrent⟩
  · refine ⟨fun _ => ?_, fun b hb hres => absurd (hres.symm.trans (hnone b hb)) Bool.noConfusion⟩
    simp [walk, herror, bind, Except.bind]

end Request

end Retrieval.Graph
