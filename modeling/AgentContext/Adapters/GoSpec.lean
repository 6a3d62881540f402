import AgentContext.Adapters.GoWalk

/-!
# The Go adapter: a constant spec by the grammar

    const_spec       identifier {"," identifier} [[type] "=" expression_list]
    expression_list  expression {"," expression}

with comments anywhere between. The walk opens one entry for a spec, with one owner for each name it emits, and closes
it over the tokens of the whole spec (`walkNode_spec`).
-/

namespace Go

open Bracketed List

def unskipped (nodes : List Node) : List Node := nodes.filter fun c => !skipped c.label.kind

theorem mem_unskipped {nodes : List Node} {c : Node} : c ∈ unskipped nodes ↔ c ∈ nodes ∧ skipped c.label.kind = false := by
  simp [unskipped]

/-! ## The grammar -/

/-- The part of an explicit spec after its names. -/
structure Init where
  typ : Option Node
  eq : Node
  list : Node
  elements : List Node
  typ_ok : ∀ t ∈ typ, t.label.field = some "type" ∧ t.label.named = true
  eq_ok : eq.label.field = none ∧ eq.label.kind = "=" ∧ eq.label.named = false ∧ eq.children = []
  list_ok : list.label.field = some "value" ∧ list.label.kind = "expression_list"
  list_children : unskipped list.children = elements
  elements_ne : elements ≠ []
  elements_named : ∀ c ∈ elements, c.label.named = true
  separators : ∀ c ∈ list.children, c.label.kind = "," ∨ c.label.kind = ";" → c.label.named = false

def Init.nodes (init : Init) : List Node := init.typ.toList ++ [init.eq, init.list]

/-- A constant spec that is free of syntax errors. -/
structure ConstSpec where
  node : Node
  names : List Node
  init : Option Init
  kind : node.label.kind = "const_spec"
  children : unskipped node.children = names ++ (init.map Init.nodes).getD []
  names_ne : names ≠ []
  names_ok : ∀ n ∈ names, n.label.field = some "name" ∧ n.label.kind = "identifier" ∧ n.children = []
  names_named : ∀ n ∈ names, n.label.named = true
  skipped_ok : ∀ c ∈ node.children, skipped c.label.kind = true →
    c.label.field ≠ some "value" ∧ c.label.field ≠ some "type"
  sound : hasError node = false
  distinct : (node.labels.map Info.id).Nodup

/-- A group of constants, in the order of its specs. -/
structure ConstDecl where
  node : Node
  specs : List ConstSpec
  kind : node.label.kind = "const_declaration"
  children : (node.children.filter fun c => c.label.kind == "const_spec") = specs.map ConstSpec.node
  others : ∀ c ∈ node.children, c.label.kind ≠ "const_spec" → c.label.kind ≠ "var_spec" ∧ c.children = []

namespace ConstSpec

variable (spec : ConstSpec)

theorem value_eq : childByFieldName spec.node "value" = spec.init.map Init.list := by
  have hfilter : childByFieldName spec.node "value" =
      (unskipped spec.node.children).find? fun c => c.label.field == some "value" := by
    unfold childByFieldName unskipped
    rw [← List.head?_filter, ← List.head?_filter, filter_filter]
    congr 1
    refine filter_congr fun c hc => ?_
    cases hskip : skipped c.label.kind with
    | true => simp [(spec.skipped_ok c hc hskip).1]
    | false => simp
  have hnames : spec.names.find? (fun c => c.label.field == some "value") = none := by
    rw [List.find?_eq_none]
    intro c hc
    simp [(spec.names_ok c hc).1]
  rw [hfilter, spec.children, List.find?_append, hnames, Option.none_or]
  cases hinit : spec.init with
  | none => rfl
  | some init =>
    have htyp : init.typ.toList.find? (fun c => c.label.field == some "value") = none := by
      rw [List.find?_eq_none]
      intro c hc
      simp [(init.typ_ok c (by simpa using hc)).1]
    simp [Init.nodes, List.find?_append, htyp, init.eq_ok.1, init.list_ok.1]

theorem type_eq_none (h : spec.init = none) : childByFieldName spec.node "type" = none := by
  unfold childByFieldName
  rw [List.find?_eq_none]
  intro c hc
  cases hskip : skipped c.label.kind with
  | true => simp [(spec.skipped_ok c hc hskip).2]
  | false =>
    have hmem := mem_unskipped.mpr ⟨hc, hskip⟩
    rw [spec.children, h] at hmem
    simp only [Option.map_none, Option.getD_none, append_nil] at hmem
    simp [(spec.names_ok c hmem).1]

theorem names_filter :
    (childrenByFieldName spec.node "name").filter (fun c => c.label.kind == "identifier") = spec.names := by
  have hfilter : (childrenByFieldName spec.node "name").filter (fun c => c.label.kind == "identifier") =
      (unskipped spec.node.children).filter fun c => c.label.field == some "name" && c.label.kind == "identifier" := by
    unfold childrenByFieldName unskipped
    rw [filter_filter, filter_filter]
    refine filter_congr fun c _ => ?_
    cases hkind : c.label.kind == "identifier" with
    | true => simp [eq_of_beq hkind, skipped]
    | false => simp
  have hnames : spec.names.filter (fun c => c.label.field == some "name" && c.label.kind == "identifier") = spec.names := by
    rw [filter_eq_self]
    intro c hc
    simp [spec.names_ok c hc]
  rw [hfilter, spec.children, filter_append, hnames]
  cases hinit : spec.init with
  | none => simp
  | some init =>
    have htyp : init.typ.toList.filter (fun c => c.label.field == some "name" && c.label.kind == "identifier") = [] := by
      rw [filter_eq_nil_iff]
      intro c hc
      simp [(init.typ_ok c (by simpa using hc)).1]
    simp [Init.nodes, filter_append, htyp, init.eq_ok.1, init.list_ok.1]

theorem mem_children {c : Node} (h : c ∈ spec.names ++ (spec.init.map Init.nodes).getD []) : c ∈ spec.node.children :=
  (mem_unskipped.mp (spec.children ▸ h)).1

theorem name_mem {n : Node} (h : n ∈ spec.names) : n ∈ spec.node.children :=
  spec.mem_children (mem_append_left _ h)

theorem list_mem {init : Init} (h : spec.init = some init) : init.list ∈ spec.node.children :=
  spec.mem_children (mem_append_right _ (by simp [h, Init.nodes]))

theorem element_id_mem {init : Init} {c : Node} (hc : c ∈ init.elements) : c.label.id ∈ ids init.list.children := by
  rw [← init.list_children] at hc
  exact label_id_mem (mem_unskipped.mp hc).1

theorem id_notMem : spec.node.label.id ∉ ids spec.node.children := by
  have := spec.distinct
  rw [labels_ids] at this
  exact (nodup_cons.mp this).1

end ConstSpec

theorem Init.values_eq (init : Init) :
    (init.list.children.filter fun c => c.label.named && c.label.kind != "comment") = init.elements := by
  rw [← init.list_children]
  unfold unskipped
  refine filter_congr fun c hc => ?_
  cases hskip : skipped c.label.kind with
  | false =>
    have hmem : c ∈ init.elements := init.list_children ▸ mem_unskipped.mpr ⟨hc, hskip⟩
    have hcomment : c.label.kind ≠ "comment" := fun h => by simp [h, skipped] at hskip
    simp [init.elements_named c hmem, hcomment]
  | true =>
    by_cases hcomment : c.label.kind = "comment"
    · simp [hcomment]
    · have hsep : c.label.kind = "," ∨ c.label.kind = ";" := by simpa [skipped, hcomment] using hskip
      simp [init.separators c hc hsep]

/-! ## Opening a spec -/

section

variable {D β : Type} (take : β → Sym → Option β)

/-- Symbols of a spec with the index of their name. -/
structure Owned (content : Bytes) (names : List Node) (owners : List (Sym × Nat)) : Prop where
  named : ∀ o ∈ owners, ∃ n, names[o.2]? = some n ∧ name content n.label = some o.1.simple ∧ o.1.simple ≠ underscore
  count : owners.length ≤ names.length

theorem add_shape (w : Walk D β) (sym : Sym) :
    ∃ budget syms dropped, (w.add take sym).1 = { w with budget := budget, syms := syms, dropped := dropped } := by
  unfold Walk.add
  split
  · exact ⟨_, _, _, rfl⟩
  · split
    · exact ⟨_, _, _, rfl⟩
    · cases take w.budget sym <;> exact ⟨_, _, _, rfl⟩

/-- What one name of a spec adds: its id, and itself as an owner unless it is blank, cannot be named or is refused. -/
theorem declareName_identifier (spec : Info) (kind : String) (w : Walk D β) (owners : List (Sym × Nat)) (nameIds : List Nat)
    {child : Node} (h : child.label.kind = "identifier") :
    ∃ budget syms dropped own, declareName take spec kind (w, owners, nameIds) child =
        ({ w with budget := budget, syms := syms, dropped := dropped }, owners ++ own, nameIds ++ [child.label.id]) ∧
      own.length ≤ 1 ∧ ∀ o ∈ own, o.2 = nameIds.length ∧ name w.content child.label = some o.1.simple ∧ o.1.simple ≠ underscore := by
  simp only [declareName, h, ne_eq, not_true_eq_false, if_false]
  cases hname : name w.content child.label with
  | none => exact ⟨w.budget, w.syms, w.dropped + 1, [], by simp, by simp, by simp⟩
  | some simple =>
    simp only
    split
    · exact ⟨w.budget, w.syms, w.dropped, [], by simp, by simp, by simp⟩
    · rename_i hblank
      generalize hsym : (⟨simple, join [w.moduleQ, simple], kind, spec.startByte, spec.endByte⟩ : Sym) = candidate
      obtain ⟨budget, syms, dropped, hshape⟩ := add_shape take w candidate
      cases hadd : w.add take candidate with
      | mk w' added =>
        rw [hadd] at hshape
        subst hshape
        cases added with
        | false => exact ⟨budget, syms, dropped, [], by simp, by simp, by simp⟩
        | true =>
          refine ⟨budget, syms, dropped, [(candidate, nameIds.length)], rfl, by simp, ?_⟩
          simp [← hsym, hblank]

theorem declareNames (spec : Info) (kind : String) (names : List Node) (hnames : ∀ n ∈ names, n.label.kind = "identifier") :
    ∀ (w : Walk D β) (owners : List (Sym × Nat)) (nameIds : List Nat),
    ∃ budget syms dropped own, names.foldl (declareName take spec kind) (w, owners, nameIds) =
        ({ w with budget := budget, syms := syms, dropped := dropped }, owners ++ own, nameIds ++ names.map (·.label.id)) ∧
      own.length ≤ names.length ∧ ∀ o ∈ own, nameIds.length ≤ o.2 ∧ ∃ n, names[o.2 - nameIds.length]? = some n ∧
        name w.content n.label = some o.1.simple ∧ o.1.simple ≠ underscore := by
  induction names with
  | nil => exact fun w owners nameIds => ⟨w.budget, w.syms, w.dropped, [], by simp, by simp, by simp⟩
  | cons n ns ih =>
    intro w owners nameIds
    obtain ⟨budget, syms, dropped, own, hstep, hone, hown⟩ :=
      declareName_identifier take spec kind w owners nameIds (hnames n mem_cons_self)
    obtain ⟨budget', syms', dropped', own', hrest, hcount, hown'⟩ :=
      ih (fun m hm => hnames m (mem_cons_of_mem _ hm)) { w with budget := budget, syms := syms, dropped := dropped }
        (owners ++ own) (nameIds ++ [n.label.id])
    refine ⟨budget', syms', dropped', own ++ own', ?_, ?_, ?_⟩
    · rw [foldl_cons, hstep, hrest]
      simp
    · rw [length_append, length_cons]
      omega
    · intro o ho
      rcases mem_append.mp ho with ho | ho
      · obtain ⟨hindex, hname⟩ := hown o ho
        exact ⟨Nat.le_of_eq hindex.symm, n, by simp [hindex], hname⟩
      · obtain ⟨hle, m, hm, hname⟩ := hown' o ho
        simp only [length_append, length_singleton] at hle hm
        refine ⟨by omega, m, ?_, hname⟩
        rw [show o.2 - nameIds.length = (o.2 - (nameIds.length + 1)) + 1 by omega, List.getElem?_cons_succ]
        exact hm

theorem foldl_declareName_filter (spec : Info) (kind : String) (nodes : List Node)
    (acc : Walk D β × List (Sym × Nat) × List Nat) :
    nodes.foldl (declareName take spec kind) acc =
      (nodes.filter fun c => c.label.kind == "identifier").foldl (declareName take spec kind) acc := by
  induction nodes generalizing acc with
  | nil => rfl
  | cons n ns ih =>
    cases h : n.label.kind == "identifier" with
    | true => rw [filter_cons, h, if_pos rfl, foldl_cons, foldl_cons, ih]
    | false =>
      have hskip : declareName take spec kind acc n = acc := by simp [declareName, ne_of_beq_false h]
      rw [filter_cons, h, if_neg (by simp), foldl_cons, hskip, ih]

/-- The entry that a spec opens. -/
def ConstSpec.entry (spec : ConstSpec) (tokStart ordinal : Nat) (owners : List (Sym × Nat)) : Open :=
  let names := spec.names.map (·.label.id)
  let elements := (spec.init.map Init.elements).getD []
  let multi := 1 < spec.names.length
  { nodeId := spec.node.label.id
    tokStart := tokStart
    syms := owners.map Prod.fst
    bodyId := spec.init.map (·.list.label.id)
    marks := fun id => if id ∈ names ++ (if multi then elements.map (·.label.id) else []) then some (-1) else none
    names := if multi then names else []
    values := if multi then elements.map (·.label.id) else []
    owners := if multi then owners else []
    constMark := names.getLast?
    implicit := spec.init.isNone
    ordinal := ordinal }

theorem foldl_update_marks (marked : List Nat) (m : Nat → Option Int) :
    marked.foldl (fun m id => Function.update m id (some (-1))) m = fun id => if id ∈ marked then some (-1) else m id := by
  induction marked generalizing m with
  | nil => simp
  | cons x xs ih =>
    rw [foldl_cons, ih]
    funext id
    by_cases hx : id = x <;> by_cases hxs : id ∈ xs <;> simp [hx, hxs]

theorem enterValueSpec_eq (spec : ConstSpec) (w : Walk D β) :
    ∃ budget syms dropped owners, enterValueSpec take w spec.node =
        { w with
            budget := budget
            syms := syms
            dropped := dropped
            constOrdinal := w.constOrdinal + 1
            opens := spec.entry w.tokens.length w.constOrdinal owners :: w.opens } ∧
      Owned w.content spec.names owners := by
  obtain ⟨budget, syms, dropped, owners, hfold, hcount, howned⟩ :=
    declareNames take spec.node.label "constant" spec.names (fun n hn => (spec.names_ok n hn).2.1) w [] []
  refine ⟨budget, syms, dropped, owners, ?_, ⟨fun o ho => by simpa using (howned o ho).2, hcount⟩⟩
  have hlast : ∃ last, spec.names.getLast? = some last := by
    cases h : spec.names.getLast? with
    | none => exact absurd (List.getLast?_eq_none_iff.mp h) spec.names_ne
    | some last => exact ⟨last, rfl⟩
  obtain ⟨last, hlast⟩ := hlast
  have hmem : last.label.id ∈ spec.names.map (·.label.id) := mem_map_of_mem (mem_of_getLast? hlast)
  have htype : spec.init.isNone = true → childByFieldName spec.node "type" = none := fun h =>
    spec.type_eq_none (Option.isNone_iff_eq_none.mp h)
  simp only [enterValueSpec, spec.sound, spec.kind, spec.value_eq, foldl_declareName_filter take _ _ (childrenByFieldName _ _),
    spec.names_filter, beq_self_eq_true, if_true, Bool.false_eq_true, if_false, hfold, nil_append, List.getLast?_map,
    hlast, Option.map_some, length_map]
  have hbody : (spec.init.map Init.list).map (·.label.id) = spec.init.map (·.list.label.id) := Option.map_map ..
  have himplicit : ((spec.init.map Init.list).isNone && (childByFieldName spec.node "type").isNone) = spec.init.isNone := by
    cases hinit : spec.init with
    | none => simp [htype (by simp [hinit])]
    | some init => simp
  have hvalues : valueIds (spec.init.map Init.list) = ((spec.init.map Init.elements).getD []).map (·.label.id) := by
    cases spec.init with
    | none => rfl
    | some init => exact congrArg _ init.values_eq
  congr 2
  unfold ConstSpec.entry
  by_cases hmulti : 1 < spec.names.length
  · simp only [hmulti, if_true, Open.mk.injEq, true_and]
    refine ⟨hbody, ?_, hvalues, ?_, himplicit, trivial⟩
    · rw [foldl_update_marks]
      funext id
      rw [hvalues]
      by_cases h : id ∈ spec.names.map (·.label.id) ++ ((spec.init.map Init.elements).getD []).map (·.label.id)
      · rw [if_pos h, if_pos h]
      · rw [if_neg h, if_neg h]
        refine Function.update_of_ne (fun heq => h ?_) _ _
        rw [heq]
        exact mem_append_left _ hmem
    · rw [List.getLast?_map, hlast]
      rfl
  · obtain ⟨n, hn⟩ : ∃ n, spec.names = [n] := by
      have := length_pos_of_ne_nil spec.names_ne
      exact length_eq_one_iff.mp (by omega)
    obtain rfl : n = last := by
      rw [hn] at hlast
      exact Option.some.inj hlast
    simp only [hmulti, if_false, Open.mk.injEq, true_and]
    refine ⟨hbody, ?_, ?_, himplicit, trivial⟩
    · funext id
      by_cases h : id = n.label.id <;> simp [h, hn]
    · rw [List.getLast?_map, hlast]
      rfl

/-! ## The walk of a spec -/

variable (digest : String → List (Token D) → D)

theorem finishDigests_skipNode (w : Walk D β) (e : Open) (stop : Nat) :
    (finishDigests digest w e stop).skipNode = w.skipNode := by
  unfold finishDigests
  split <;> rfl

theorem finishOpen_skipNode (w : Walk D β) (e : Open) : (finishOpen digest w e).skipNode = w.skipNode := by
  unfold finishOpen
  cases e.constMark with
  | none => exact finishDigests_skipNode digest w e _
  | some last =>
    simp only
    split
    · unfold finishImplicitConst
      cases e.syms <;> rfl
    · exact finishDigests_skipNode digest _ e _

theorem exit_closes {w : Walk D β} (hskipNode : w.skipNode = none) {e : Open} {a : Info} (hid : e.nodeId = a.id)
    (rest : List Open) (ts : List (Token D)) (path : List String) :
    exit digest { w with tokens := ts, opens := e :: rest, ancestors := path } a true =
      finishOpen digest { w with tokens := ts ++ [.closing], opens := rest, ancestors := path.dropLast } e := by
  simp [exit, hid, finishOpen_skipNode, hskipNode]

/-- Directly inside a group, with nothing open. -/
structure Walk.InGroup (w : Walk D β) : Prop where
  opens : w.opens = []
  skipNode : w.skipNode = none
  ancestors : w.ancestors = ["source_file", "const_declaration"]

theorem ConstSpec.children_ne (spec : ConstSpec) : spec.node.children ≠ [] := by
  intro h
  have := spec.children
  rw [h] at this
  exact spec.names_ne (append_eq_nil_iff.mp this.symm).1

theorem ConstSpec.unskipped_kind (spec : ConstSpec) : skipped spec.node.label.kind = false := by
  rw [spec.kind]
  rfl

theorem ConstSpec.entry_touch (spec : ConstSpec) (tokStart ordinal position : Nat) (owners : List (Sym × Nat)) :
    (spec.entry tokStart ordinal owners).touch spec.node.label.id position = spec.entry tokStart ordinal owners := by
  have hnot : ∀ {c : Node}, c ∈ spec.node.children → spec.node.label.id ≠ c.label.id := fun hc h =>
    spec.id_notMem (h ▸ label_id_mem hc)
  have hbody : (spec.entry tokStart ordinal owners).bodyId ≠ some spec.node.label.id := by
    cases hinit : spec.init with
    | none => simp [ConstSpec.entry, hinit]
    | some init => simpa [ConstSpec.entry, hinit] using (hnot (spec.list_mem hinit)).symm
  have hmarks : (spec.entry tokStart ordinal owners).marks spec.node.label.id = none := by
    refine if_neg fun hmem => ?_
    rcases mem_append.mp hmem with h | h
    · obtain ⟨n, hn, heq⟩ := mem_map.mp h
      exact hnot (spec.name_mem hn) heq.symm
    · split at h
      · obtain ⟨c, hc, heq⟩ := mem_map.mp h
        cases hinit : spec.init with
        | none => simp [hinit] at hc
        | some init =>
          simp only [hinit, Option.map_some, Option.getD_some] at hc
          exact spec.id_notMem (heq ▸ ids_children_subset (spec.list_mem hinit) (element_id_mem hc))
      · simp at h
  simp [Open.touch, hbody, hmarks]

/-- A spec is entered, its children leave their tokens and positions, and its entry is closed over all of it. -/
theorem walkNode_spec (spec : ConstSpec) (w : Walk D β) (hw : w.InGroup) :
    ∃ budget syms dropped owners, Owned w.content spec.names owners ∧ walkNode digest take w spec.node =
        finishOpen digest
          { w with
              budget := budget
              syms := syms
              dropped := dropped
              constOrdinal := w.constOrdinal + 1
              tokens := w.tokens ++ stream (vocabulary D w.content) spec.node }
          (touchRow (vocabulary D w.content) (spec.entry w.tokens.length w.constOrdinal owners) (w.tokens.length + 1)
            spec.node.children) := by
  obtain ⟨budget, syms, dropped, owners, henter, howned⟩ := enterValueSpec_eq take spec w
  refine ⟨budget, syms, dropped, owners, howned, ?_⟩
  have hnested : enterNested take w spec.node = enterValueSpec take w spec.node := by
    simp [enterNested, hw.skipNode, hw.ancestors, spec.kind]
  have hchildren : spec.node.children.isEmpty = false := by simpa using spec.children_ne
  have hbelow : Walk.Below (β := β) { w with
      budget := budget
      syms := syms
      dropped := dropped
      constOrdinal := w.constOrdinal + 1
      opens := spec.entry w.tokens.length w.constOrdinal owners :: w.opens
      tokens := w.tokens ++ [.opening spec.node.label.kind]
      ancestors := w.ancestors ++ [spec.node.label.kind] } :=
    ⟨hw.skipNode, spec.node.label.kind, [], by simp [hw.ancestors]⟩
  have henter' : enter take w spec.node =
      ({ w with
          budget := budget
          syms := syms
          dropped := dropped
          constOrdinal := w.constOrdinal + 1
          opens := spec.entry w.tokens.length w.constOrdinal owners :: w.opens
          tokens := w.tokens ++ [.opening spec.node.label.kind] }, true) := by
    simp [enter, spec.unskipped_kind, hw.ancestors, hnested, henter, Walk.touch, spec.entry_touch, hchildren]
  rw [walkNode_eq, henter']
  have hrow := walkNodes_below digest take spec.node.children _ _ w.opens hbelow rfl
    (fun a ha => by
      show spec.node.label.id ≠ a.id
      exact fun h => spec.id_notMem (h ▸ mem_map_of_mem ha))
  have hid : (touchRow (vocabulary D w.content) (spec.entry w.tokens.length w.constOrdinal owners) (w.tokens.length + 1)
      spec.node.children).nodeId = spec.node.label.id := touchRow_nodeId ..
  have hstream : stream (vocabulary D w.content) spec.node = _ := stream_inner _ spec.unskipped_kind spec.children_ne
  have hexit := exit_closes digest (w := { w with
    budget := budget, syms := syms, dropped := dropped, constOrdinal := w.constOrdinal + 1 }) hw.skipNode hid w.opens
    (w.tokens ++ [.opening spec.node.label.kind] ++ streams (vocabulary D w.content) spec.node.children)
    (w.ancestors ++ [spec.node.label.kind])
  simp only [length_append, length_singleton] at hrow
  simp only [hrow]
  rw [hexit, hstream, dropLast_concat]
  simp only [append_assoc, singleton_append]
  rfl

end

end Go
