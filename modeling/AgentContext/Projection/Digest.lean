import AgentContext.Lib.Keyset
import AgentContext.Lib.Text
import Mathlib.Data.List.Lex
import Mathlib.Data.Multiset.Bind
import Mathlib.Data.String.Basic
import Mathlib.Data.Prod.Lex

/-!
# The graph digest

`compute_graph_digest` scans a graph label by label in keyset pages, hashes each node under its primary label and
each relationship with its first node, and digests the sorted hashes:

    scan_perm            the scan   =   every node but the history markers, with its relationships, each once
    graph_digest_exact   equal digests  ↔  the same nodes and relationships, by identity

The store answers a page in any order but for its last node, which is the one with the greatest cursor.  SHA-256 of
canonical JSON is a parameter.
-/

namespace GraphDigest

open Keyset List

/-! ## Graphs -/

/-- A property value: a text, or any other value by its canonical JSON. -/
inductive Value where
  | text (s : String)
  | other (json : String)
deriving DecidableEq, Repr

/-- As an f-string shows it. -/
def Value.display : Value → String
  | .text s => s
  | .other json => json

def Value.isText : Value → Bool
  | .text _ => true
  | .other _ => false

abbrev Props := List (String × Value)

structure Node where
  elementId : String
  labels : List String
  props : Props
deriving DecidableEq, Repr

structure Relationship where
  source : Node
  target : Node
  type : String
  props : Props
deriving DecidableEq, Repr

/-- `NODE_KEYS`: the labels with a uniqueness constraint, and the property it is on. -/
def nodeKeys : List (String × String) :=
  [("Workspace", "workspace_id"), ("Project", "project_id"), ("Repository", "repository_id"),
   ("Branch", "branch_id"), ("Commit", "commit_id"), ("Checkout", "checkout_id"), ("Worktree", "worktree_id"),
   ("WorkspaceSnapshot", "snapshot_id"), ("ChangeSet", "change_set_id"), ("Module", "module_id"),
   ("File", "file_id"), ("FileRevision", "file_revision_id"), ("Symbol", "symbol_id"),
   ("SymbolRevision", "symbol_revision_id"), ("Dependency", "dependency_id"),
   ("AgentRuntime", "agent_runtime_id"), ("Session", "session_id"), ("Turn", "turn_id"),
   ("ToolCall", "tool_call_id"), ("TestRun", "test_run_id"), ("CIRun", "ci_run_id"), ("Artifact", "artifact_id"),
   ("Finding", "finding_id"), ("Decision", "decision_id"), ("DecisionVersion", "event_id"),
   ("Constraint", "constraint_id"), ("Failure", "failure_id"), ("FailureObservation", "event_id"),
   ("Summary", "summary_id"), ("Assertion", "assertion_id"), ("ContentEmbedding", "content_id")]

/-- `HISTORY_LABEL`. -/
def historyLabel : String := "ProjectionHistory"

/-- `VOLATILE_PROPERTIES`. -/
def volatileProperties : List String := ["_lock", "embedding"]

/-- The identity that a node has under a registered label: `n[keys[label]]`. -/
def Node.key (n : Node) (label : String) : Option Value := (nodeKeys.lookup label).bind fun key => n.props.lookup key

/-- A graph that meets the schema: identities are texts, and unique under each label. -/
structure Graph where
  nodes : List Node
  relationships : List Relationship
  ids : (nodes.map (·.elementId)).Nodup
  ends : ∀ r ∈ relationships, r.source ∈ nodes ∧ r.target ∈ nodes
  texts : ∀ n ∈ nodes, ∀ label ∈ n.labels, ∀ v ∈ n.key label, v.isText = true
  unique : ∀ n ∈ nodes, ∀ m ∈ nodes, ∀ label ∈ n.labels, label ∈ m.labels → (n.key label).isSome = true →
    n.key label = m.key label → n = m

/-! ## Identities -/

/-- `_stable_props`, with its names in order. -/
def stableProps (props : Props) : Props := sortBy (·.1) (props.filter (·.1 ∉ volatileProperties))

/-- `primary_label`. -/
def primaryLabel (n : Node) : Option String := (sortedSet n.labels).find? fun label => (n.key label).isSome

/-- What `_canonical` is given. -/
inductive Parts where
  | content (labels : List String) (props : Props)
  | node (identity : String) (labels : List String) (props : Props)
  | rel (type source target : String) (props : Props)
deriving DecidableEq, Repr

/-- SHA-256 of canonical JSON, its hexadecimal text, and SHA-256 of the domain and the joined hashes, which all have
one length. -/
structure Hashing (D T : Type) where
  itemHash : Parts → D
  hexdigest : D → String
  total : List (Char ×ₗ D) → T

variable {D T : Type} [LinearOrder D] (H : Hashing D T)

/-- `node_identity`. -/
def nodeIdentity (n : Node) : String :=
  match primaryLabel n with
  | some label => label ++ ":" ++ ((n.key label).map Value.display).getD ""
  | none =>
    "~" ++ ":".intercalate (sortedSet n.labels) ++ ":" ++
      H.hexdigest (H.itemHash (.content (sortedSet n.labels) (stableProps n.props)))

/-! ## The scan -/

/-- `_Pass`: the nodes of a label that have its key, or every other node. -/
inductive Pass where
  | keyed (label : String)
  | rest
deriving DecidableEq, Repr

/-- The passes of a scan, in order. -/
def passes : List Pass := (sortedSet (nodeKeys.map (·.1))).map .keyed ++ [.rest]

/-- The nodes of the page query. -/
def Pass.selects : Pass → Node → Bool
  | .keyed label, n => n.labels.contains label && (n.key label).isSome
  | .rest, n => !n.labels.contains historyLabel && !n.labels.any fun label => (n.key label).isSome

def Pass.cursor : Pass → Node → String
  | .keyed label, n => ((n.key label).map Value.display).getD ""
  | .rest, n => n.elementId

/-- The first nodes of the relationship query. -/
def Pass.starts (pass : Pass) (cursors : List String) (n : Node) : Bool :=
  match pass with
  | .keyed label => n.labels.contains label && (n.key label).any fun v => cursors.contains v.display
  | .rest => cursors.contains n.elementId

/-- A node of several labels counts under its primary label only. -/
def Pass.counts : Pass → Node → Bool
  | .keyed label, n => primaryLabel n = some label
  | .rest, _ => true

/-- What a store answers to the queries of a scan. -/
structure Store (g : Graph) (limit : Nat) where
  nodes : Pass → Option String → List Node
  relationships : Pass → List String → List Relationship
  pages : ∀ pass, Pages pass.cursor (g.nodes.filter pass.selects) limit (nodes pass)
  rows : ∀ pass cursors, (relationships pass cursors).Perm (g.relationships.filter fun r => pass.starts cursors r.source)

/-- What a scan hashes. -/
inductive Item where
  | node (n : Node)
  | rel (r : Relationship)
deriving DecidableEq, Repr

/-- What is hashed of a page and of its relationships. -/
def pageItems (pass : Pass) (page : List Node) (rels : List Relationship) : List Item :=
  (page.filter pass.counts).map .node ++ (rels.filter fun r => pass.counts r.source).map .rel

section Scan

variable {g : Graph} {limit : Nat} (store : Store g limit)

/-- The loop of one pass; none if it runs out of pages to try. -/
def passItems (pass : Pass) : Option (List Item) :=
  (walkRows pass.cursor limit (store.nodes pass) (g.nodes.length + 1) none).map fun pages =>
    pages.flatMap fun page => pageItems pass page (store.relationships pass (page.map pass.cursor))

def scan : Option (List Item) := (passes.mapM (passItems store)).map List.flatten

end Scan

/-! ## The digest -/

def Item.hash : Item → Char ×ₗ D
  | .node n => toLex ('n', H.itemHash (.node (nodeIdentity H n) (sortedSet n.labels) (stableProps n.props)))
  | .rel r =>
    toLex ('r', H.itemHash (.rel r.type (nodeIdentity H r.source) (nodeIdentity H r.target) (stableProps r.props)))

structure Digest (T : Type) where
  digest : T
  nodeCount : Nat
  relationshipCount : Nat
  /-- How many nodes have these labels. -/
  nodes : List String → Nat
  relationships : String → Nat
  missingIdentity : Nat

def Item.node? : Item → Option Node
  | .node n => some n
  | .rel _ => none

def Item.rel? : Item → Option Relationship
  | .node _ => none
  | .rel r => some r

/-- A node of a registered label without its identity. -/
def Node.missing (n : Node) : Bool := (primaryLabel n).isNone && n.labels.any fun label => (nodeKeys.lookup label).isSome

/-- `compute_graph_digest`. -/
def computeGraphDigest {g : Graph} {limit : Nat} (store : Store g limit) : Except String (Digest T) :=
  if limit < 1 then
    .error "batch_size must be at least 1"
  else
    match scan store with
    | none => .error "the scan does not end"
    | some items =>
      let nodes := items.filterMap Item.node?
      let rels := items.filterMap Item.rel?
      .ok
        { digest := H.total (sortBy id (items.map (Item.hash H)))
          nodeCount := nodes.length
          relationshipCount := rels.length
          nodes := fun labels => nodes.countP fun n => sortedSet n.labels = labels
          relationships := fun type => rels.countP fun r => r.type = type
          missingIdentity := nodes.countP Node.missing }

/-! ## What a pass reads -/

section Passes

variable {g : Graph}
variable {label : String} {n : Node}

theorem nodes_nodup (g : Graph) : g.nodes.Nodup := g.ids.of_map _

theorem elementId_keyed (g : Graph) : KeyedBy Node.elementId g.nodes :=
  fun _ hn _ hm h => inj_on_of_nodup_map g.ids hn hm h

theorem selects_keyed : (Pass.keyed label).selects n = true ↔ label ∈ n.labels ∧ ∃ v, n.key label = some v := by
  simp [Pass.selects, Option.isSome_iff_exists]

/-- Identities of one label that are shown alike are alike. -/
theorem key_eq {n m : Node} {v w : Value} (hn : n ∈ g.nodes) (hm : m ∈ g.nodes) (hnl : label ∈ n.labels)
    (hml : label ∈ m.labels) (hv : n.key label = some v) (hw : m.key label = some w) (h : v.display = w.display) :
    n = m := by
  have hvText := g.texts n hn label hnl v hv
  have hwText := g.texts m hm label hml w hw
  cases v with
  | other _ => cases hvText
  | text s =>
    cases w with
    | other _ => cases hwText
    | text t =>
      obtain rfl : s = t := h
      exact g.unique n hn m hm label hnl hml (by rw [hv]; rfl) (hv.trans hw.symm)

theorem cursor_keyed (g : Graph) (pass : Pass) : KeyedBy pass.cursor (g.nodes.filter pass.selects) := by
  intro n hn m hm h
  obtain ⟨hng, hns⟩ := mem_filter.1 hn
  obtain ⟨hmg, hms⟩ := mem_filter.1 hm
  cases pass with
  | rest => exact elementId_keyed g n hng m hmg h
  | keyed label =>
    obtain ⟨hnl, v, hv⟩ := selects_keyed.1 hns
    obtain ⟨hml, w, hw⟩ := selects_keyed.1 hms
    refine key_eq hng hmg hnl hml hv hw ?_
    simpa [Pass.cursor, hv, hw] using h

theorem starts_iff {pass : Pass} {page : List Node} (hpage : ∀ n ∈ page, n ∈ g.nodes.filter pass.selects)
    (hn : n ∈ g.nodes) : pass.starts (page.map pass.cursor) n = true ↔ n ∈ page := by
  cases pass with
  | rest =>
    have hstarts : Pass.rest.starts (page.map Pass.rest.cursor) n = true ↔ ∃ m ∈ page, m.elementId = n.elementId := by
      simp [Pass.starts, Pass.cursor]
    rw [hstarts]
    constructor
    · rintro ⟨m, hm, h⟩
      rw [← elementId_keyed g m (mem_of_mem_filter (hpage m hm)) n hn h]
      exact hm
    · exact fun h => ⟨n, h, rfl⟩
  | keyed label =>
    have hstarts : (Pass.keyed label).starts (page.map (Pass.keyed label).cursor) n = true ↔
        label ∈ n.labels ∧ ∃ v, n.key label = some v ∧ ∃ m ∈ page, (Pass.keyed label).cursor m = v.display := by
      simp [Pass.starts, Option.any_eq_true]
    rw [hstarts]
    constructor
    · rintro ⟨hnl, v, hv, m, hm, h⟩
      obtain ⟨hmg, hms⟩ := mem_filter.1 (hpage m hm)
      obtain ⟨hml, w, hw⟩ := selects_keyed.1 hms
      have hshown : w.display = v.display := by simpa [Pass.cursor, hw] using h
      rw [← key_eq hmg hn hml hnl hw hv hshown]
      exact hm
    · intro h
      obtain ⟨hnl, v, hv⟩ := selects_keyed.1 (mem_filter.1 (hpage n h)).2
      exact ⟨hnl, v, hv, n, h, by simp [Pass.cursor, hv]⟩

def withRelationships (g : Graph) (n : Node) : List Item :=
  .node n :: (g.relationships.filter (·.source = n)).map .rel

/-- What a pass hashes of the nodes it selects. -/
def counted (g : Graph) (pass : Pass) (n : Node) : List Item := if pass.counts n then withRelationships g n else []

theorem filter_or_perm {ρ : Type} (xs : List ρ) {P Q : ρ → Bool} (h : ∀ x ∈ xs, P x = true → Q x = false) :
    (xs.filter fun x => P x || Q x).Perm (xs.filter P ++ xs.filter Q) := by
  induction xs with
  | nil => rfl
  | cons x xs ih =>
    have ih := ih fun y hy => h y (mem_cons_of_mem _ hy)
    cases hP : P x with
    | true =>
      have hQ := h x mem_cons_self hP
      rw [filter_cons_of_pos (by simp [hP]), filter_cons_of_pos hP, filter_cons_of_neg (by simp [hQ])]
      exact ih.cons x
    | false =>
      cases hQ : Q x with
      | true =>
        rw [filter_cons_of_pos (by simp [hQ]), filter_cons_of_neg (by simp [hP]), filter_cons_of_pos hQ]
        exact (ih.cons x).trans perm_middle.symm
      | false =>
        rw [filter_cons_of_neg (by simp [hP, hQ]), filter_cons_of_neg (by simp [hP]),
          filter_cons_of_neg (by simp [hQ])]
        exact ih

theorem page_perm (pass : Pass) {page : List Node} (hnodup : page.Nodup) :
    (pageItems pass page (g.relationships.filter fun r => page.contains r.source)).Perm
      (page.flatMap (counted g pass)) := by
  unfold pageItems
  induction page with
  | nil => simp
  | cons n page ih =>
    obtain ⟨hn, hnodup⟩ := nodup_cons.1 hnodup
    have hsplit : (g.relationships.filter fun r => (n :: page).contains r.source).Perm
        (g.relationships.filter (·.source = n) ++ g.relationships.filter fun r => page.contains r.source) := by
      have hcontains : ∀ r : Relationship, (n :: page).contains r.source =
          (decide (r.source = n) || page.contains r.source) := by
        intro r
        exact contains_cons
      simp only [hcontains]
      refine filter_or_perm _ fun r _ hr => ?_
      rw [of_decide_eq_true hr]
      simpa using hn
    have hrels := ((hsplit.filter fun r => pass.counts r.source).map Item.rel)
    rw [filter_append, map_append] at hrels
    have hown : (g.relationships.filter (·.source = n)).filter (fun r => pass.counts r.source) =
        if pass.counts n then g.relationships.filter (·.source = n) else [] := by
      split_ifs with hc
      · refine filter_eq_self.2 fun r hr => ?_
        rw [of_decide_eq_true (mem_filter.1 hr).2]
        exact hc
      · refine filter_eq_nil_iff.2 fun r hr => ?_
        rw [of_decide_eq_true (mem_filter.1 hr).2]
        exact hc
    rw [hown] at hrels
    rw [flatMap_cons]
    refine (List.Perm.append_left _ hrels).trans ?_
    cases hc : pass.counts n with
    | true =>
      have hcounted : counted g pass n = withRelationships g n := if_pos hc
      rw [filter_cons_of_pos hc, map_cons, if_pos rfl, hcounted, withRelationships]
      refine List.Perm.cons _ ?_
      exact (perm_append_comm_assoc _ _ _).trans (List.Perm.append_left _ (ih hnodup))
    | false =>
      have hcounted : counted g pass n = [] := if_neg (by simp [hc])
      rw [filter_cons_of_neg (by simp [hc]), hcounted]
      simpa using ih hnodup

/-- **A pass hashes what it selects and counts, once.** -/
theorem pass_perm {limit : Nat} (hlimit : 0 < limit) (store : Store g limit) (pass : Pass) :
    ∃ items, passItems store pass = some items ∧
      items.Perm ((g.nodes.filter pass.selects).flatMap (counted g pass)) := by
  have hnodup : (g.nodes.filter pass.selects).Nodup := (nodes_nodup g).filter _
  have hall : rowsAfter pass.cursor (g.nodes.filter pass.selects) none = g.nodes.filter pass.selects :=
    filter_eq_self.2 fun _ _ => rfl
  have hfuel : (rowsAfter pass.cursor (g.nodes.filter pass.selects) none).length < g.nodes.length + 1 := by
    rw [hall]
    exact Nat.lt_succ_of_le (length_filter_le _ _)
  obtain ⟨pages, hread, hperm⟩ := walkRows_perm (cursor_keyed g pass) hnodup hlimit (store.pages pass) hfuel
  rw [hall] at hperm
  refine ⟨_, congrArg (Option.map _) hread, ?_⟩
  refine List.Perm.trans ?_ (hperm.flatMap_right _)
  rw [← flatMap_id, flatMap_assoc]
  refine List.Perm.flatMap_left pages fun page hpage => ?_
  have hselected : ∀ n ∈ page, n ∈ g.nodes.filter pass.selects :=
    fun n hn => hperm.mem_iff.1 (mem_flatten.2 ⟨page, hpage, hn⟩)
  have hpageNodup : page.Nodup := (nodup_flatten.1 (hperm.nodup_iff.2 hnodup)).1 page hpage
  have hrows := store.rows pass (page.map pass.cursor)
  have hstarts : (g.relationships.filter fun r => pass.starts (page.map pass.cursor) r.source) =
      g.relationships.filter fun r => page.contains r.source := by
    refine filter_congr fun r hr => ?_
    rw [Bool.eq_iff_iff, starts_iff hselected (g.ends r hr).1]
    simp
  rw [hstarts] at hrows
  exact (List.Perm.append_left _ ((hrows.filter _).map _)).trans (page_perm pass hpageNodup)

/-! ## The passes together -/

/-- A history marker: labelled so, and without a registered identity. -/
def isMarker (n : Node) : Bool := n.labels.contains historyLabel && (primaryLabel n).isNone

theorem primaryLabel_none : primaryLabel n = none ↔ ∀ label ∈ n.labels, n.key label = none := by
  simp [primaryLabel, List.find?_eq_none]

theorem primaryLabel_some (h : primaryLabel n = some label) : label ∈ n.labels ∧ ∃ v, n.key label = some v := by
  have hmem := List.mem_of_find?_eq_some h
  have hkey := List.find?_some h
  exact ⟨(mem_sortedSet _).1 hmem, Option.isSome_iff_exists.1 hkey⟩

theorem registered {v : Value} (h : n.key label = some v) : label ∈ sortedSet (nodeKeys.map (·.1)) := by
  obtain ⟨key, hkey, -⟩ := Option.bind_eq_some_iff.1 h
  rw [mem_sortedSet]
  obtain ⟨l₁, l₂, hsplit, -⟩ := lookup_eq_some_iff.1 hkey
  rw [hsplit]
  simp

/-- **A node is counted in one pass, its relationships with it; a history marker in none.** -/
theorem passes_counted (n : Node) :
    (passes.flatMap fun pass => if pass.selects n then counted g pass n else []) =
      if isMarker n then [] else withRelationships g n := by
  unfold passes
  rw [flatMap_append, flatMap_singleton, flatMap_map]
  cases hprimary : primaryLabel n with
  | none =>
    have hkeyed : ((sortedSet (nodeKeys.map (·.1))).flatMap fun label =>
        if (Pass.keyed label).selects n then counted g (.keyed label) n else []) = [] := by
      refine flatMap_eq_nil_iff.2 fun label _ => ?_
      have : counted g (.keyed label) n = [] := if_neg (by simp [Pass.counts, hprimary])
      rw [this, ite_self]
    have hnone : (n.labels.any fun label => (n.key label).isSome) = false := by
      rw [any_eq_false]
      intro label hlabel
      rw [primaryLabel_none.1 hprimary label hlabel]
      simp
    rw [hkeyed, nil_append]
    simp only [Pass.selects, hnone, isMarker, hprimary, Option.isNone_none, Bool.and_true, Bool.not_false]
    cases n.labels.contains historyLabel <;> rfl
  | some label =>
    obtain ⟨hlabel, v, hv⟩ := primaryLabel_some hprimary
    have hrest : Pass.rest.selects n = false := by
      have : (n.labels.any fun label => (n.key label).isSome) = true :=
        any_eq_true.2 ⟨label, hlabel, by rw [hv]; rfl⟩
      simp [Pass.selects, this]
    have hmarker : isMarker n = false := by simp [isMarker, hprimary]
    have hone : ∀ label', (if (Pass.keyed label').selects n then counted g (.keyed label') n else []) =
        if label' = label then withRelationships g n else [] := by
      intro label'
      by_cases h : label' = label
      · subst h
        have hcounts : (Pass.keyed label').counts n = true := by simp [Pass.counts, hprimary]
        rw [if_pos (selects_keyed.2 ⟨hlabel, v, hv⟩), if_pos rfl]
        exact if_pos hcounts
      · have : counted g (.keyed label') n = [] :=
          if_neg (by simpa [Pass.counts, hprimary] using fun hl : label = label' => h hl.symm)
        rw [this, ite_self, if_neg h]
    rw [hrest, hmarker]
    simp only [hone]
    have hflat : ∀ labels : List String, labels.Nodup → label ∈ labels →
        (labels.flatMap fun label' => if label' = label then withRelationships g n else []) = withRelationships g n := by
      intro labels hnodup hmem
      induction labels with
      | nil => cases hmem
      | cons l labels ih =>
        obtain ⟨hl, hnodup⟩ := nodup_cons.1 hnodup
        rw [flatMap_cons]
        by_cases h : l = label
        · subst h
          have hnil : (labels.flatMap fun label' => if label' = l then withRelationships g n else []) = [] :=
            flatMap_eq_nil_iff.2 fun l' hl' => if_neg fun (heq : l' = l) => hl (heq ▸ hl')
          rw [if_pos rfl, hnil, append_nil]
        · rw [if_neg h, nil_append]
          exact ih hnodup ((mem_cons.1 hmem).resolve_left fun heq => h heq.symm)
    rw [hflat _ (sortedSet_nodup _) (registered hv), if_neg Bool.false_ne_true, if_neg Bool.false_ne_true,
      append_nil]

/-- Every node but the history markers, and every relationship that does not start at one. -/
def digested (g : Graph) : List Item :=
  (g.nodes.filter (!isMarker ·)).map .node ++ (g.relationships.filter fun r => !isMarker r.source).map .rel

theorem flatMap_filter {α β : Type} (xs : List α) (P : α → Bool) (f : α → List β) :
    (xs.filter P).flatMap f = xs.flatMap fun x => if P x then f x else [] := by
  induction xs with
  | nil => rfl
  | cons x xs ih =>
    rw [flatMap_cons, ← ih]
    cases hP : P x with
    | true => rw [filter_cons_of_pos hP, flatMap_cons, if_pos rfl]
    | false => rw [filter_cons_of_neg (by simp [hP]), if_neg Bool.false_ne_true, nil_append]

theorem flatMap_comm_perm {α β γ : Type} (xs : List α) (ys : List β) (f : α → β → List γ) :
    (xs.flatMap fun x => ys.flatMap fun y => f x y).Perm (ys.flatMap fun y => xs.flatMap fun x => f x y) := by
  rw [← Multiset.coe_eq_coe]
  simp only [← Multiset.coe_bind]
  exact Multiset.bind_bind _ _

theorem mapM_perm {α β : Type} {f : α → Option (List β)} {whole : α → List β} {xs : List α}
    (h : ∀ x ∈ xs, ∃ ys, f x = some ys ∧ ys.Perm (whole x)) :
    ∃ all, xs.mapM f = some all ∧ all.flatten.Perm (xs.flatMap whole) := by
  induction xs with
  | nil => exact ⟨[], rfl, List.Perm.nil⟩
  | cons x xs ih =>
    obtain ⟨ys, hys, hperm⟩ := h x mem_cons_self
    obtain ⟨all, hall, hperms⟩ := ih fun y hy => h y (mem_cons_of_mem _ hy)
    refine ⟨ys :: all, ?_, ?_⟩
    · rw [mapM_cons, hys, hall]
      rfl
    · rw [flatten_cons, flatMap_cons]
      exact hperm.append hperms

/-- **The scan ends, and reads every node but the history markers, with its relationships, once.** -/
theorem scan_perm {limit : Nat} (hlimit : 0 < limit) (store : Store g limit) :
    ∃ items, scan store = some items ∧ items.Perm (digested g) := by
  obtain ⟨all, hall, hperm⟩ := mapM_perm fun pass (_ : pass ∈ passes) => pass_perm hlimit store pass
  refine ⟨all.flatten, congrArg (Option.map List.flatten) hall, hperm.trans ?_⟩
  have hpasses : (passes.flatMap fun pass => (g.nodes.filter pass.selects).flatMap (counted g pass)).Perm
      (g.nodes.flatMap fun n => if isMarker n then [] else withRelationships g n) := by
    simp only [flatMap_filter, ← passes_counted]
    exact flatMap_comm_perm _ _ _
  refine hpasses.trans ?_
  -- a page of all of them, counted as the last pass does
  have hpage := page_perm (g := g) .rest ((nodes_nodup g).filter (!isMarker ·))
  have hrels : (g.relationships.filter fun r => (g.nodes.filter (!isMarker ·)).contains r.source) =
      g.relationships.filter fun r => !isMarker r.source := by
    refine filter_congr fun r hr => ?_
    rw [Bool.eq_iff_iff]
    simp [(g.ends r hr).1]
  have hitems : pageItems .rest (g.nodes.filter (!isMarker ·)) (g.relationships.filter fun r => !isMarker r.source) =
      digested g := by
    rw [pageItems, digested]
    simp [Pass.counts]
  have hnodes : (g.nodes.filter (!isMarker ·)).flatMap (counted g .rest) =
      g.nodes.flatMap fun n => if isMarker n then [] else withRelationships g n := by
    rw [flatMap_filter]
    congr 1
    funext n
    cases isMarker n <;> rfl
  rw [hrels, hitems, hnodes] at hpage
  exact hpage.symm

end Passes

/-! ## What equal digests say -/

section Equal

/-- A node by its identity, with its labels and its properties but the volatile ones. -/
def nodeFact (n : Node) : String × List String × Props := (nodeIdentity H n, sortedSet n.labels, stableProps n.props)

/-- A relationship by its type and the identities of its ends. -/
def relFact (r : Relationship) : String × String × String × Props :=
  (r.type, nodeIdentity H r.source, nodeIdentity H r.target, stableProps r.props)

def nodeFacts (g : Graph) : List (String × List String × Props) := (g.nodes.filter (!isMarker ·)).map (nodeFact H)

def relFacts (g : Graph) : List (String × String × String × Props) :=
  (g.relationships.filter fun r => !isMarker r.source).map (relFact H)

/-- The same nodes and the same relationships, by identity; what has no registered identity counts as often as it is
there. -/
structure SameGraph (g g' : Graph) : Prop where
  nodes : (nodeFacts H g).Perm (nodeFacts H g')
  relationships : (relFacts H g).Perm (relFacts H g')

def hashNode (fact : String × List String × Props) : Char ×ₗ D :=
  toLex ('n', H.itemHash (.node fact.1 fact.2.1 fact.2.2))

def hashRel (fact : String × String × String × Props) : Char ×ₗ D :=
  toLex ('r', H.itemHash (.rel fact.1 fact.2.1 fact.2.2.1 fact.2.2.2))

variable {H} {g g' : Graph}

section

omit [LinearOrder D]

theorem hashNode_injective (hitem : Function.Injective H.itemHash) : Function.Injective (hashNode H) := by
  rintro ⟨i, ls, ps⟩ ⟨i', ls', ps'⟩ h
  have hparts := hitem (congrArg Prod.snd (toLex.injective h))
  simpa using hparts

theorem hashRel_injective (hitem : Function.Injective H.itemHash) : Function.Injective (hashRel H) := by
  rintro ⟨t, a, b, ps⟩ ⟨t', a', b', ps'⟩ h
  have hparts := hitem (congrArg Prod.snd (toLex.injective h))
  simpa using hparts

theorem hashes_eq (g : Graph) :
    (digested g).map (Item.hash H) = (nodeFacts H g).map (hashNode H) ++ (relFacts H g).map (hashRel H) := by
  rw [digested, nodeFacts, relFacts, map_append, map_map, map_map, map_map, map_map]
  rfl

end

/-- Lists of two kinds are the same up to order just when the parts of each kind are. -/
theorem append_perm_iff {α : Type} (P : α → Bool) {xs xs' ys ys' : List α} (hx : ∀ a ∈ xs, P a = true)
    (hx' : ∀ a ∈ xs', P a = true) (hy : ∀ a ∈ ys, P a = false) (hy' : ∀ a ∈ ys', P a = false) :
    (xs ++ ys).Perm (xs' ++ ys') ↔ xs.Perm xs' ∧ ys.Perm ys' := by
  have hfirst : ∀ {as bs : List α}, (∀ a ∈ as, P a = true) → (∀ a ∈ bs, P a = false) → (as ++ bs).filter P = as := by
    intro as bs ha hb
    rw [filter_append, filter_eq_self.2 ha, filter_eq_nil_iff.2 fun b hbs => by simp [hb b hbs],
      append_nil]
  have hsecond : ∀ {as bs : List α}, (∀ a ∈ as, P a = true) → (∀ a ∈ bs, P a = false) →
      (as ++ bs).filter (!P ·) = bs := by
    intro as bs ha hb
    rw [filter_append, filter_eq_nil_iff.2 fun a has => by simp [ha a has],
      filter_eq_self.2 fun b hbs => by simp [hb b hbs], nil_append]
  constructor
  · intro h
    have hP := h.filter P
    have hnotP := h.filter (!P ·)
    rw [hfirst hx hy, hfirst hx' hy'] at hP
    rw [hsecond hx hy, hsecond hx' hy'] at hnotP
    exact ⟨hP, hnotP⟩
  · exact fun h => h.1.append h.2

omit [LinearOrder D] in
theorem hashes_perm_iff (hitem : Function.Injective H.itemHash) :
    ((digested g).map (Item.hash H)).Perm ((digested g').map (Item.hash H)) ↔ SameGraph H g g' := by
  have hnode : ∀ facts, ∀ a ∈ List.map (hashNode H) facts, decide ((ofLex a).1 = 'n') = true := by
    intro facts a ha
    obtain ⟨fact, -, rfl⟩ := mem_map.1 ha
    rfl
  have hrel : ∀ facts, ∀ a ∈ List.map (hashRel H) facts, decide ((ofLex a).1 = 'n') = false := by
    intro facts a ha
    obtain ⟨fact, -, rfl⟩ := mem_map.1 ha
    rfl
  rw [hashes_eq, hashes_eq,
    append_perm_iff (fun a => decide ((ofLex a).1 = 'n')) (hnode _) (hnode _) (hrel _) (hrel _),
    map_perm_map_iff (hashNode_injective hitem), map_perm_map_iff (hashRel_injective hitem)]
  exact ⟨fun h => ⟨h.1, h.2⟩, fun h => ⟨h.nodes, h.relationships⟩⟩

theorem sortBy_eq_iff_perm {α : Type} [LinearOrder α] {xs ys : List α} :
    sortBy id xs = sortBy id ys ↔ xs.Perm ys := by
  constructor
  · intro h
    exact (sortBy_perm id xs).symm.trans (h ▸ sortBy_perm id ys)
  · intro h
    refine (((sortBy_perm id xs).trans h).trans (sortBy_perm id ys).symm).eq_of_pairwise ?_ (sortBy_le id xs)
      (sortBy_le id ys)
    exact fun a b _ _ hab hba => le_antisymm hab hba

structure DigestOf (H : Hashing D T) (g : Graph) (d : Digest T) : Prop where
  digest : ∃ items : List Item, items.Perm (digested g) ∧ d.digest = H.total (sortBy id (items.map (Item.hash H)))
  nodeCount : d.nodeCount = (nodeFacts H g).length
  relationshipCount : d.relationshipCount = (relFacts H g).length

theorem computeGraphDigest_ok {limit : Nat} (hlimit : 0 < limit) (store : Store g limit) :
    ∃ d, computeGraphDigest H store = .ok d ∧ DigestOf H g d := by
  obtain ⟨items, hscan, hperm⟩ := scan_perm hlimit store
  refine ⟨_, by rw [computeGraphDigest, if_neg (by omega), hscan], ⟨items, hperm, rfl⟩, ?_, ?_⟩
  · have hnodes := (hperm.filterMap Item.node?).length_eq
    rw [digested, filterMap_append] at hnodes
    simpa [nodeFacts, filterMap_map, Function.comp_def, Item.node?] using hnodes
  · have hrels := (hperm.filterMap Item.rel?).length_eq
    rw [digested, filterMap_append] at hrels
    simpa [relFacts, filterMap_map, Function.comp_def, Item.rel?] using hrels

/-- **Equal digests are those of the same graph.** -/
theorem DigestOf.eq_iff (hitem : Function.Injective H.itemHash) (htotal : Function.Injective H.total) {d d' : Digest T}
    (h : DigestOf H g d) (h' : DigestOf H g' d') : d.digest = d'.digest ↔ SameGraph H g g' := by
  obtain ⟨items, hperm, hdigest⟩ := h.digest
  obtain ⟨items', hperm', hdigest'⟩ := h'.digest
  rw [hdigest, hdigest', htotal.eq_iff, sortBy_eq_iff_perm, ← hashes_perm_iff hitem]
  have hmap := hperm.map (Item.hash H)
  have hmap' := hperm'.map (Item.hash H)
  exact ⟨fun h => (hmap.symm.trans h).trans hmap', fun h => (hmap.trans h).trans hmap'.symm⟩

/-- **The graph digest is exact.**  Whatever the labels of a node, the page size and the order of the rows, the scan
hashes every node and every relationship but the history markers and theirs once, and equal digests are those of
graphs that are the same by identity, labels and stable properties. -/
theorem graph_digest_exact (hitem : Function.Injective H.itemHash) (htotal : Function.Injective H.total)
    {limit limit' : Nat} (hlimit : 0 < limit) (hlimit' : 0 < limit') (store : Store g limit)
    (store' : Store g' limit') :
    (∃ items, scan store = some items ∧ items.Perm (digested g)) ∧
      ∃ d d', computeGraphDigest H store = .ok d ∧ computeGraphDigest H store' = .ok d' ∧
        d.nodeCount = (g.nodes.filter (!isMarker ·)).length ∧
        d.relationshipCount = (g.relationships.filter fun r => !isMarker r.source).length ∧
        (d.digest = d'.digest ↔ SameGraph H g g') := by
  refine ⟨scan_perm hlimit store, ?_⟩
  obtain ⟨d, hd, hof⟩ := computeGraphDigest_ok (H := H) hlimit store
  obtain ⟨d', hd', hof'⟩ := computeGraphDigest_ok (H := H) hlimit' store'
  refine ⟨d, d', hd, hd', ?_, ?_, hof.eq_iff hitem htotal hof'⟩
  · rw [hof.nodeCount, nodeFacts, List.length_map]
  · rw [hof.relationshipCount, relFacts, List.length_map]

end Equal

/-! ## Samples -/

/-- A store that answers in order. -/
def Store.sorted (g : Graph) (limit : Nat) : Store g limit where
  nodes := fun pass after => (sortBy pass.cursor (rowsAfter pass.cursor (g.nodes.filter pass.selects) after)).take limit
  relationships := fun pass cursors => g.relationships.filter fun r => pass.starts cursors r.source
  pages := fun pass => Pages.sorted pass.cursor (g.nodes.filter pass.selects) limit
  rows := fun _ _ => List.Perm.refl _

/-- Parts as they are, instead of hashes. -/
abbrev Plain := ℕ ×ₗ List String ×ₗ List String ×ₗ List (String ×ₗ Bool ×ₗ String)

def plainProps (props : Props) : List (String ×ₗ Bool ×ₗ String) :=
  props.map fun p => toLex (p.1, toLex (p.2.isText, p.2.display))

def plainParts : Parts → Plain
  | .content labels props => toLex (0, toLex ([], toLex (labels, plainProps props)))
  | .node identity labels props => toLex (1, toLex ([identity], toLex (labels, plainProps props)))
  | .rel type source target props => toLex (2, toLex ([type, source, target], toLex ([], plainProps props)))

theorem plainParts_injective : Function.Injective plainParts := by
  have hprops : Function.Injective plainProps := by
    refine map_injective_iff.2 ?_
    rintro ⟨k, v⟩ ⟨k', v'⟩ h
    have hk := congrArg Prod.fst (toLex.injective h)
    have hv := toLex.injective (congrArg Prod.snd (toLex.injective h))
    cases v <;> cases v' <;> simp_all [Value.isText, Value.display]
  rintro p q h
  cases p <;> cases q <;> simp [plainParts, hprops.eq_iff, and_assoc] at h ⊢ <;> exact h

def plainHashing : Hashing Plain (List (Char ×ₗ Plain)) := ⟨plainParts, fun _ => "00", id⟩

/-- An embedding of one content. -/
def embedded (vector : String) : Node :=
  ⟨"4:0", ["ContentEmbedding"], [("content_id", .text "c"), ("embedding", .other vector)]⟩

def embeddedGraph (vector : String) : Graph where
  nodes := [embedded vector]
  relationships := []
  ids := List.nodup_singleton _
  ends := fun _ h => nomatch h
  texts := by
    intro n hn label hlabel v hv
    obtain rfl := List.mem_singleton.1 hn
    obtain rfl := List.mem_singleton.1 hlabel
    obtain rfl : Value.text "c" = v := Option.some.inj hv
    rfl
  unique := by
    intro n hn m hm _ _ _ _ _
    rw [List.mem_singleton.1 hn, List.mem_singleton.1 hm]

/-- **Graphs that differ in a volatile property have equal digests.** -/
theorem embedding_undigested :
    (embedded "[0.1]").props ≠ (embedded "[0.2]").props ∧
      ∃ d d', computeGraphDigest plainHashing (Store.sorted (embeddedGraph "[0.1]") 1000) = .ok d ∧
        computeGraphDigest plainHashing (Store.sorted (embeddedGraph "[0.2]") 1000) = .ok d' ∧ d.digest = d'.digest := by
  refine ⟨by decide, ?_⟩
  obtain ⟨d, hd, hof⟩ := computeGraphDigest_ok (H := plainHashing) (by decide) (Store.sorted (embeddedGraph "[0.1]") 1000)
  obtain ⟨d', hd', hof'⟩ := computeGraphDigest_ok (H := plainHashing) (by decide) (Store.sorted (embeddedGraph "[0.2]") 1000)
  refine ⟨d, d', hd, hd', (hof.eq_iff plainParts_injective (fun _ _ h => h) hof').2 ⟨?_, List.Perm.refl _⟩⟩
  exact List.Perm.of_eq (rfl)

def workspace : Node := ⟨"4:1", ["Workspace"], [("workspace_id", .text "w")]⟩

/-- A commit that is a checkout as well, a workspace, a node without an identity, and a history marker. -/
def several : List Node :=
  [⟨"4:0", ["Commit", "Checkout"], [("commit_id", .text "c"), ("checkout_id", .text "o"), ("_lock", .other "true")]⟩,
   workspace, ⟨"4:2", ["Scratch"], [("note", .text "x")]⟩, ⟨"4:3", ["ProjectionHistory"], [("marker_id", .text "ledger")]⟩]

def severalGraph : Graph where
  nodes := several
  relationships := several.map fun n => ⟨n, workspace, "NEAR", []⟩
  ids := by decide
  ends := by decide
  texts := by decide +kernel
  unique := by decide +kernel

/-- Pages of one node and of three. -/
theorem graph_digest_exact_several :
    ∃ d d', computeGraphDigest plainHashing (Store.sorted severalGraph 1) = .ok d ∧
      computeGraphDigest plainHashing (Store.sorted severalGraph 3) = .ok d' ∧ d.nodeCount = 3 ∧
      d.relationshipCount = 3 ∧ d.digest = d'.digest := by
  obtain ⟨-, d, d', hd, hd', hnodes, hrels, hiff⟩ :=
    graph_digest_exact (H := plainHashing) plainParts_injective (fun _ _ h => h) (by decide) (by decide)
      (Store.sorted severalGraph 1) (Store.sorted severalGraph 3)
  exact ⟨d, d', hd, hd', hnodes.trans (rfl), hrels.trans (rfl),
    hiff.2 ⟨List.Perm.refl _, List.Perm.refl _⟩⟩

end GraphDigest
