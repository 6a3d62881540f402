import AgentContext.Lib.Keyset
import AgentContext.Lib.Properties

/-!
# A graph whose relationships keep their sources

A statement merges a node and runs clauses on its properties, or merges a relationship between two nodes and adds a source
to the sorted set it keeps.

    nodes_writeAll    a node holds what the clauses for it leave, and is there if it was written or linked
    links_writeAll    a relationship holds the sorted set of its sources

so the graph depends on the set of the statements  (`writeAll_eq`).
-/

namespace Provenance

open Keyset Properties

variable {κ ρ π ν σ : Type}

structure Link (κ ρ : Type) where
  source : κ
  type : ρ
  target : κ
deriving DecidableEq, Repr

inductive Write (κ ρ π ν σ : Type) where
  | node (k : κ) (clauses : List (Clause π ν))
  | link (l : Link κ ρ) (source : σ)
deriving DecidableEq, Repr

@[ext] structure Graph (κ ρ π ν σ : Type) where
  nodes : κ → Option (Props π ν)
  links : Link κ ρ → Option (List σ)

def Graph.empty : Graph κ ρ π ν σ := ⟨fun _ => none, fun _ => none⟩

section Run

variable [DecidableEq κ] [DecidableEq ρ] [DecidableEq π] [LinearOrder σ] (lt : ν → ν → Bool) (rank : Option ν → Int)

/-- The properties of a node, none of them where it is not there yet. -/
def Graph.props (g : Graph κ ρ π ν σ) (k : κ) : Props π ν := (g.nodes k).getD fun _ => none

def Graph.merge (g : Graph κ ρ π ν σ) (k : κ) : Graph κ ρ π ν σ :=
  { g with nodes := Function.update g.nodes k (some (g.props k)) }

def Graph.write (g : Graph κ ρ π ν σ) : Write κ ρ π ν σ → Graph κ ρ π ν σ
  | .node k clauses => { g with nodes := Function.update g.nodes k (some (runAll lt rank (g.props k) clauses)) }
  | .link l source =>
    { (g.merge l.source).merge l.target with
      links := Function.update g.links l (some (sortedSet ((g.links l).getD [] ++ [source]))) }

def Graph.writeAll (g : Graph κ ρ π ν σ) (writes : List (Write κ ρ π ν σ)) : Graph κ ρ π ν σ :=
  writes.foldl (Graph.write lt rank) g

/-! ## What writes say -/

def Write.touches (k : κ) : Write κ ρ π ν σ → Prop
  | .node k' _ => k = k'
  | .link l _ => k = l.source ∨ k = l.target

instance (k : κ) : (w : Write κ ρ π ν σ) → Decidable (w.touches k)
  | .node k' _ => inferInstanceAs (Decidable (k = k'))
  | .link l _ => inferInstanceAs (Decidable (k = l.source ∨ k = l.target))

/-- The clauses of a write that are for a node. -/
def Write.clauses (k : κ) : Write κ ρ π ν σ → List (Clause π ν)
  | .node k' clauses => if k = k' then clauses else []
  | .link _ _ => []

def Write.source? (l : Link κ ρ) : Write κ ρ π ν σ → Option σ
  | .node _ _ => none
  | .link l' source => if l = l' then some source else none

def clausesOf (k : κ) (writes : List (Write κ ρ π ν σ)) : List (Clause π ν) := writes.flatMap (·.clauses k)

def sourcesOf (l : Link κ ρ) (writes : List (Write κ ρ π ν σ)) : List σ := writes.filterMap (·.source? l)

variable {lt rank} {g : Graph κ ρ π ν σ} {writes writes' : List (Write κ ρ π ν σ)} {w : Write κ ρ π ν σ} {k : κ} {l : Link κ ρ}

theorem writeAll_append : g.writeAll lt rank (writes ++ writes') = (g.writeAll lt rank writes).writeAll lt rank writes' :=
  List.foldl_append

section

omit [DecidableEq ρ] [DecidableEq π] [LinearOrder σ]

theorem nodes_merge (g : Graph κ ρ π ν σ) (k j : κ) :
    (g.merge j).nodes k = if k = j then some (g.props k) else g.nodes k := by
  unfold Graph.merge
  by_cases hk : k = j
  · rw [if_pos hk, hk]
    exact Function.update_self ..
  · rw [if_neg hk]
    exact Function.update_of_ne hk ..

theorem props_merge (g : Graph κ ρ π ν σ) (k j : κ) : (g.merge j).props k = g.props k := by
  rw [Graph.props, nodes_merge]
  split <;> rfl

end

theorem nodes_write : (g.write lt rank w).nodes k =
    if w.touches k then some (runAll lt rank (g.props k) (w.clauses k)) else g.nodes k := by
  cases w with
  | node k' clauses =>
    by_cases hk : k = k'
    · subst hk
      rw [if_pos (show Write.touches k (Write.node k clauses) from rfl), Write.clauses, if_pos rfl]
      exact Function.update_self ..
    · rw [if_neg (show ¬ Write.touches k (Write.node k' clauses) from hk)]
      exact Function.update_of_ne hk ..
  | link l source =>
    show ((g.merge l.source).merge l.target).nodes k = _
    have hrun : runAll lt rank (g.props k) ((Write.link l source : Write κ ρ π ν σ).clauses k) = g.props k := rfl
    rw [nodes_merge, props_merge, nodes_merge, hrun]
    by_cases ht : k = l.target
    · have htouched : Write.touches k (Write.link l source : Write κ ρ π ν σ) := Or.inr ht
      rw [if_pos ht, if_pos htouched]
    · by_cases hs : k = l.source
      · have htouched : Write.touches k (Write.link l source : Write κ ρ π ν σ) := Or.inl hs
        rw [if_neg ht, if_pos hs, if_pos htouched]
      · have huntouched : ¬ Write.touches k (Write.link l source : Write κ ρ π ν σ) := fun h => h.elim hs ht
        rw [if_neg ht, if_neg hs, if_neg huntouched]

theorem links_write : (g.write lt rank w).links l =
    match w.source? l with
    | none => g.links l
    | some source => some (sortedSet ((g.links l).getD [] ++ [source])) := by
  cases w with
  | node k clauses => rfl
  | link l' source =>
    show Function.update g.links l' _ l = _
    by_cases hl : l = l'
    · subst hl
      rw [Function.update_self, Write.source?, if_pos rfl]
    · rw [Function.update_of_ne hl, Write.source?, if_neg hl]

/-! ## What writes leave -/

section

omit [DecidableEq ρ] [DecidableEq π] [LinearOrder σ]

theorem clauses_of_untouched (h : ¬ w.touches k) : w.clauses k = [] := by
  cases w with
  | node k' clauses => exact if_neg h
  | link _ _ => rfl

theorem clausesOf_of_untouched (h : ∀ w ∈ writes, ¬ w.touches k) : clausesOf k writes = [] :=
  List.flatMap_eq_nil_iff.2 fun w hw => clauses_of_untouched (h w hw)

end

/-- **Nodes.** -/
theorem nodes_writeAll : ((Graph.empty : Graph κ ρ π ν σ).writeAll lt rank writes).nodes k =
    if ∃ w ∈ writes, w.touches k then some (runAll lt rank (fun _ => none) (clausesOf k writes)) else none := by
  induction writes using List.reverseRecOn with
  | nil => simp [Graph.writeAll, Graph.empty]
  | append_singleton writes w ih =>
    have hprops : ((Graph.empty : Graph κ ρ π ν σ).writeAll lt rank writes).props k =
        runAll lt rank (fun _ => none) (clausesOf k writes) := by
      rw [Graph.props, ih]
      split
      · rfl
      · rename_i huntouched
        rw [clausesOf_of_untouched fun w hw htouched => huntouched ⟨w, hw, htouched⟩]
        rfl
    have hrun : runAll lt rank (fun _ => none) (clausesOf k (writes ++ [w])) =
        runAll lt rank (runAll lt rank (fun _ => none) (clausesOf k writes)) (w.clauses k) := by
      simp [clausesOf, runAll, List.foldl_append]
    rw [writeAll_append]
    show (Graph.write lt rank _ w).nodes k = _
    rw [nodes_write, hprops, ih, hrun]
    by_cases hw : w.touches k
    · rw [if_pos hw, if_pos ⟨w, List.mem_append_right _ (List.mem_singleton_self _), hw⟩]
    · have hiff : (∃ w' ∈ writes ++ [w], w'.touches k) ↔ ∃ w' ∈ writes, w'.touches k := by
        simp [or_and_right, exists_or, hw]
      rw [if_neg hw, clauses_of_untouched hw, if_congr hiff rfl rfl]
      rfl

theorem props_writeAll : ((Graph.empty : Graph κ ρ π ν σ).writeAll lt rank writes).props k =
    runAll lt rank (fun _ => none) (clausesOf k writes) := by
  rw [Graph.props, nodes_writeAll]
  split
  · rfl
  · rename_i huntouched
    rw [clausesOf_of_untouched fun w hw htouched => huntouched ⟨w, hw, htouched⟩]
    rfl

/-- **Relationships.** -/
theorem links_writeAll : ((Graph.empty : Graph κ ρ π ν σ).writeAll lt rank writes).links l =
    if sourcesOf l writes = [] then none else some (sortedSet (sourcesOf l writes)) := by
  induction writes using List.reverseRecOn with
  | nil => simp [Graph.writeAll, Graph.empty, sourcesOf]
  | append_singleton writes w ih =>
    rw [writeAll_append]
    show (Graph.write lt rank _ w).links l = _
    rw [links_write, ih]
    cases hsource : w.source? l with
    | none =>
      have hsame : sourcesOf l (writes ++ [w]) = sourcesOf l writes := by simp [sourcesOf, hsource]
      rw [hsame]
    | some source =>
      have hmore : sourcesOf l (writes ++ [w]) = sourcesOf l writes ++ [source] := by simp [sourcesOf, hsource]
      have hne : sourcesOf l writes ++ [source] ≠ [] := by simp
      rw [hmore, if_neg hne]
      refine congrArg some (sortedSet_congr fun a => ?_)
      by_cases hnil : sourcesOf l writes = [] <;> simp [hnil]

/-- The writes of a node keep to its layout and agree. -/
structure Coherent (layout : κ → Layout π ν) (writes : List (Write κ ρ π ν σ)) : Prop where
  fits : ∀ k, ∀ c ∈ clausesOf k writes, (layout k).Fits c
  agree : ∀ k, Agree (clausesOf k writes)

/-- **The set of the writes decides.** -/
theorem writeAll_eq {layout : κ → Layout π ν} (hlawful : ∀ k, (layout k).Lawful lt rank) (h : Coherent layout writes)
    (hmem : ∀ w, w ∈ writes ↔ w ∈ writes') :
    (Graph.empty : Graph κ ρ π ν σ).writeAll lt rank writes = Graph.empty.writeAll lt rank writes' := by
  have hclauses : ∀ k c, c ∈ clausesOf k writes ↔ c ∈ clausesOf k writes' := fun k c => by
    simp only [clausesOf, List.mem_flatMap, hmem]
  have hsources : ∀ l s, s ∈ sourcesOf l writes ↔ s ∈ sourcesOf l writes' := fun l s => by
    simp only [sourcesOf, List.mem_filterMap, hmem]
  refine Graph.ext (funext fun k => ?_) (funext fun l => ?_)
  · have hfits' : ∀ c ∈ clausesOf k writes', (layout k).Fits c := fun c hc => h.fits k c ((hclauses k c).2 hc)
    rw [nodes_writeAll, nodes_writeAll, if_congr (exists_congr fun w => and_congr_left' (hmem w)) rfl rfl,
      (shows_run (hlawful k) (h.fits k)).unique (hlawful k) (shows_run (hlawful k) hfits') (h.fits k) (h.agree k)
        (hclauses k)]
  · have hnil : sourcesOf l writes = [] ↔ sourcesOf l writes' = [] := by
      simp only [List.eq_nil_iff_forall_not_mem, hsources]
    rw [links_writeAll, links_writeAll, if_congr hnil rfl rfl, sortedSet_congr (hsources l)]

end Run

end Provenance
