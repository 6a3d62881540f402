import AgentContext.Adapters.GoConst
import Mathlib.Data.List.Nodup

/-!
# The Go adapter: what the walk leaves of a spec

Below an open spec the walk writes the token stream of each node and notes where the marked nodes are
(`walkNode_below`); the tokens of the earlier declarations stay as they are.
-/

namespace Go

open Bracketed

section

variable {D β : Type}

/-- The tokens of the adapter as the stream of the syntax tree. -/
def vocabulary (D : Type) (content : Bytes) : Vocabulary Info (Token D) where
  skip a := skipped a.kind
  leaf a := leafToken content a
  opening a := .opening a.kind
  closing := .closing
  weight
    | .opening _ => 1
    | .closing => -1
    | _ => 0
  weight_leaf a := by
    cases h : a.named <;> simp [leafToken, h]
  weight_opening _ := rfl
  weight_closing := rfl

theorem weight_eq (content content' : Bytes) : (vocabulary D content).weight = (vocabulary D content').weight := rfl

@[simp] theorem weight_opening (content : Bytes) (kind : String) : (vocabulary D content).weight (.opening kind) = 1 := rfl

@[simp] theorem weight_closing (content : Bytes) : (vocabulary D content).weight .closing = -1 := rfl

/-! ## Noting positions -/

mutual
/-- The open entry after the walk of a node whose first token has the given position. -/
def touchNode (V : Vocabulary Info (Token D)) (e : Open) (position : Nat) : Node → Open
  | .node a cs => if V.skip a then e else touchRow V (e.touch a.id position) (position + 1) cs
def touchRow (V : Vocabulary Info (Token D)) (e : Open) (position : Nat) : List Node → Open
  | [] => e
  | t :: ts => touchRow V (touchNode V e position t) (position + (stream V t).length) ts
end

theorem touch_isSome (e : Open) (id position x : Nat) : ((e.touch id position).marks x).isSome = (e.marks x).isSome := by
  simp only [Open.touch]
  split
  · rename_i h
    rcases eq_or_ne x id with rfl | hne
    · rw [Function.update_self, h]
      rfl
    · rw [Function.update_of_ne hne]
  · rfl

variable (V : Vocabulary Info (Token D))
variable {t : Node} {e : Open} {position : Nat}
variable {before after : List Node}

mutual
theorem touchNode_shape : ∀ (e : Open) (position : Nat) (t : Node),
    ∃ headerEnd marks, touchNode V e position t = { e with headerEnd := headerEnd, marks := marks }
  | e, position, .node a cs => by
    rw [touchNode]
    split
    · exact ⟨e.headerEnd, e.marks, rfl⟩
    · obtain ⟨headerEnd, marks, h⟩ := touchRow_shape (e.touch a.id position) (position + 1) cs
      exact ⟨headerEnd, marks, h⟩
theorem touchRow_shape : ∀ (e : Open) (position : Nat) (ts : List Node),
    ∃ headerEnd marks, touchRow V e position ts = { e with headerEnd := headerEnd, marks := marks }
  | e, position, [] => ⟨e.headerEnd, e.marks, by rw [touchRow]⟩
  | e, position, t :: ts => by
    obtain ⟨headerEnd, marks, h⟩ := touchNode_shape e position t
    obtain ⟨headerEnd', marks', h'⟩ := touchRow_shape (touchNode V e position t) (position + (stream V t).length) ts
    refine ⟨headerEnd', marks', ?_⟩
    rw [touchRow, h', h]
end

theorem touchNode_nodeId (e : Open) (position : Nat) (t : Node) : (touchNode V e position t).nodeId = e.nodeId := by
  obtain ⟨_, _, h⟩ := touchNode_shape V e position t
  rw [h]

theorem touchRow_nodeId (e : Open) (position : Nat) (ts : List Node) : (touchRow V e position ts).nodeId = e.nodeId := by
  obtain ⟨_, _, h⟩ := touchRow_shape V e position ts
  rw [h]

theorem touchRow_bodyId (e : Open) (position : Nat) (ts : List Node) : (touchRow V e position ts).bodyId = e.bodyId := by
  obtain ⟨_, _, h⟩ := touchRow_shape V e position ts
  rw [h]

theorem touchRow_append (e : Open) (position : Nat) (ts us : List Node) :
    touchRow V e position (ts ++ us) = touchRow V (touchRow V e position ts) (position + (streams V ts).length) us := by
  induction ts generalizing e position with
  | nil => simp [touchRow, streams]
  | cons t ts ih => rw [List.cons_append, touchRow, ih, touchRow, streams, List.length_append, Nat.add_assoc]

theorem touchNode_skip (h : V.skip t.label = true) : touchNode V e position t = e := by
  cases t with
  | node a cs =>
    rw [touchNode]
    exact if_pos h

theorem touchRow_filter (e : Open) (position : Nat) (ts : List Node) :
    touchRow V e position (ts.filter fun t => !V.skip t.label) = touchRow V e position ts := by
  induction ts generalizing e position with
  | nil => rfl
  | cons t ts ih =>
    cases h : V.skip t.label with
    | true => simp [h, touchRow, touchNode_skip V h, stream_skip V h, ih]
    | false => simp [h, touchRow, ih]

/-- The ids of the nodes in a row of trees. -/
def ids (ts : List Node) : List Nat := (Tree.labelsOf ts).map Info.id

@[simp] theorem ids_nil : ids [] = [] := rfl

theorem ids_cons (t : Node) (ts : List Node) : ids (t :: ts) = t.labels.map Info.id ++ ids ts := by
  simp [ids, Tree.labelsOf]

theorem labels_ids (t : Node) : t.labels.map Info.id = t.label.id :: ids t.children := by
  cases t with
  | node a cs => simp [Tree.labels, ids, Tree.label, Tree.children]

theorem ids_append (ts us : List Node) : ids (ts ++ us) = ids ts ++ ids us := by
  induction ts with
  | nil => rfl
  | cons t ts ih => rw [List.cons_append, ids_cons, ids_cons, ih, List.append_assoc]

theorem label_id_mem {ts : List Node} (h : t ∈ ts) : t.label.id ∈ ids ts :=
  List.mem_map_of_mem (Tree.labels_subset_labelsOf h (Tree.label_mem_labels t))

theorem ids_children_subset {ts : List Node} (h : t ∈ ts) : ids t.children ⊆ ids ts := by
  intro id hid
  have hlabels : id ∈ t.labels.map Info.id := by
    rw [labels_ids]
    exact List.mem_cons_of_mem _ hid
  obtain ⟨a, ha, rfl⟩ := List.mem_map.mp hlabels
  exact List.mem_map_of_mem (Tree.labels_subset_labelsOf h ha)

theorem ids_filter_sublist (f : Node → Bool) (ts : List Node) : (ids (ts.filter f)).Sublist (ids ts) := by
  induction ts with
  | nil => exact .slnil
  | cons t ts ih =>
    rw [ids_cons, List.filter_cons]
    split
    · rw [ids_cons]
      exact (List.Sublist.refl _).append ih
    · exact ih.trans (List.sublist_append_right _ _)

mutual
theorem touchNode_far : ∀ (e : Open) (position : Nat) (t : Node) (id : Nat), id ∉ t.labels.map Info.id →
    (touchNode V e position t).marks id = e.marks id
  | e, position, .node a cs, id, h => by
    simp only [Tree.labels, List.map_cons, List.mem_cons, not_or] at h
    rw [touchNode]
    split
    · rfl
    · rw [touchRow_far (e.touch a.id position) (position + 1) cs id h.2]
      simp only [Open.touch]
      split
      · exact Function.update_of_ne h.1 _ _
      · rfl
theorem touchRow_far : ∀ (e : Open) (position : Nat) (ts : List Node) (id : Nat), id ∉ ids ts →
    (touchRow V e position ts).marks id = e.marks id
  | e, position, [], id, _ => by rw [touchRow]
  | e, position, t :: ts, id, h => by
    rw [ids_cons, List.mem_append, not_or] at h
    rw [touchRow, touchRow_far _ _ ts id h.2, touchNode_far e position t id h.1]
end

mutual
theorem touchNode_headless : ∀ (e : Open) (position : Nat) (t : Node), (∀ id ∈ t.labels.map Info.id, e.bodyId ≠ some id) →
    (touchNode V e position t).headerEnd = e.headerEnd
  | e, position, .node a cs, h => by
    simp only [Tree.labels, List.map_cons, List.forall_mem_cons] at h
    rw [touchNode]
    split
    · rfl
    · rw [touchRow_headless (e.touch a.id position) (position + 1) cs h.2]
      exact if_neg h.1
theorem touchRow_headless : ∀ (e : Open) (position : Nat) (ts : List Node), (∀ id ∈ ids ts, e.bodyId ≠ some id) →
    (touchRow V e position ts).headerEnd = e.headerEnd
  | e, position, [], _ => by rw [touchRow]
  | e, position, t :: ts, h => by
    rw [ids_cons, List.forall_mem_append] at h
    obtain ⟨headerEnd, marks, hshape⟩ := touchNode_shape V e position t
    rw [touchRow, touchRow_headless _ _ ts (by rw [hshape]; exact h.2), touchNode_headless e position t h.1]
end

theorem marks_row (hskip : V.skip t.label = false)
    (hid : t.label.id ∉ ids before ∧ t.label.id ∉ ids t.children ∧ t.label.id ∉ ids after)
    (hmark : (e.marks t.label.id).isSome = true) :
    (touchRow V e position (before ++ t :: after)).marks t.label.id =
      some (position + (streams V before).length : Int) := by
  rw [touchRow_append, touchRow, touchRow_far V _ _ after _ hid.2.2]
  have hbefore := touchRow_far V e position before _ hid.1
  cases t with
  | node a cs =>
    simp only [Tree.label_node, Tree.children_node] at hskip hid hmark hbefore ⊢
    rw [touchNode, if_neg (by simp [hskip]), touchRow_far V _ _ cs _ hid.2.1]
    simp [Open.touch, hbefore, hmark]

theorem header_row (hskip : V.skip t.label = false) (hid : t.label.id ∉ ids t.children ∧ t.label.id ∉ ids after)
    (hbody : e.bodyId = some t.label.id) :
    (touchRow V e position (before ++ t :: after)).headerEnd = some (position + (streams V before).length) := by
  have hbody' := touchRow_bodyId V e position before
  obtain ⟨headerEnd, marks, hshape⟩ :=
    touchNode_shape V (touchRow V e position before) (position + (streams V before).length) t
  have hfar : ∀ {ts : List Node}, t.label.id ∉ ids ts → ∀ id ∈ ids ts, e.bodyId ≠ some id := by
    intro ts hnot id hmem heq
    rw [hbody] at heq
    exact hnot (Option.some.inj heq ▸ hmem)
  rw [touchRow_append, touchRow, touchRow_headless V _ _ after]
  · cases t with
    | node a cs =>
      simp only [Tree.label_node, Tree.children_node] at hskip hid hbody hfar ⊢
      rw [touchNode, if_neg (by simp [hskip]), touchRow_headless V _ _ cs]
      · simp [Open.touch, hbody', hbody]
      · simpa [Open.touch, hbody'] using hfar hid.1
  · rw [hshape]
    simpa [hbody'] using hfar hid.2

/-! ## The walk below an open spec -/

variable (digest : String → List (Token D) → D) (take : β → Sym → Option β)

theorem walkNode_eq (w : Walk D β) (t : Node) : walkNode digest take w t =
      match enter take w t with
      | (w, true) => exit digest (walkNodes digest take { w with ancestors := w.ancestors ++ [t.label.kind] } t.children) t.label true
      | (w, false) => exit digest w t.label false := by
  cases t with
  | node a cs =>
    rw [walkNode]
    rfl

/-- Inside a spec of a `const_declaration`. -/
def Walk.Below (w : Walk D β) : Prop :=
  w.skipNode = none ∧ ∃ holder rest, w.ancestors = "source_file" :: "const_declaration" :: holder :: rest

theorem enter_below {w : Walk D β} (hw : w.Below) {rest : List Open} (hopens : w.opens = e :: rest)
    (hskip : skipped t.label.kind = false) :
    enter take w t =
      ({ w with
          opens := e.touch t.label.id w.tokens.length :: rest
          tokens := w.tokens ++ [if t.children.isEmpty then leafToken w.content t.label else .opening t.label.kind] },
        !t.children.isEmpty) := by
  obtain ⟨hskipNode, holder, path, hpath⟩ := hw
  have hnested : enterNested take w t = w := by simp [enterNested, hskipNode, hpath]
  have hlen : w.ancestors.length ≠ 1 ∧ 1 < w.ancestors.length := by simp [hpath]
  simp only [enter, hskip, hlen.1, hlen.2, hnested, Walk.touch, hopens, if_true, if_false, Bool.false_eq_true]
  cases t.children.isEmpty <;> rfl

theorem exit_below {w : Walk D β} (hskipNode : w.skipNode = none) {a : Info} (hid : e.nodeId ≠ a.id)
    (rest : List Open) (ts : List (Token D)) (path : List String) (opened : Bool) :
    exit digest { w with tokens := ts, opens := e :: rest, ancestors := path } a opened =
      { w with
          tokens := if opened then ts ++ [.closing] else ts
          opens := e :: rest
          ancestors := if opened then path.dropLast else path } := by
  cases opened <;> simp [exit, hid, hskipNode]

mutual
/-- Below an open spec, a node leaves its token stream and the positions of its marked nodes. -/
theorem walkNode_below : ∀ (t : Node) (w : Walk D β) (e : Open) (rest : List Open), w.Below → w.opens = e :: rest →
    (∀ a ∈ t.labels, e.nodeId ≠ a.id) →
    walkNode digest take w t =
      { w with
          tokens := w.tokens ++ stream (vocabulary D w.content) t
          opens := touchNode (vocabulary D w.content) e w.tokens.length t :: rest }
  | .node a cs, w, e, rest, hw, hopens, hids => by
    have hid : e.nodeId ≠ a.id := hids a (Tree.label_mem_labels (.node a cs))
    rw [walkNode]
    cases hskip : skipped a.kind with
    | true =>
      have henter : enter take w (.node a cs) = (w, false) := by simp [enter, Tree.label, hskip]
      have hstream : stream (vocabulary D w.content) (.node a cs) = [] := stream_skip _ hskip
      have hexit := exit_below digest hw.1 hid rest w.tokens w.ancestors false
      rw [← hopens] at hexit
      rw [henter, touchNode, if_pos (show (vocabulary D w.content).skip a = true from hskip), hstream, List.append_nil,
        ← hopens]
      exact hexit
    | false =>
      have hskip' : skipped (Tree.label (.node a cs)).kind = false := hskip
      rw [enter_below take hw hopens hskip', touchNode,
        if_neg (show ¬(vocabulary D w.content).skip a = true by simpa [vocabulary] using hskip)]
      cases cs with
      | nil =>
        simp only [Tree.children, List.isEmpty_nil, Bool.not_true, if_true, Tree.label]
        rw [stream_leaf _ hskip rfl, touchRow]
        exact exit_below digest hw.1 (show (e.touch a.id w.tokens.length).nodeId ≠ a.id from hid) rest _ w.ancestors false
      | cons c cs =>
        simp only [Tree.children, List.isEmpty_cons, Bool.not_false, Bool.false_eq_true, if_false, Tree.label]
        obtain ⟨hskipNode, holder, path, hpath⟩ := hw
        have hbelow : ({ w with
            opens := e.touch a.id w.tokens.length :: rest, tokens := w.tokens ++ [Token.opening a.kind],
            ancestors := w.ancestors ++ [a.kind] } : Walk D β).Below :=
          ⟨hskipNode, holder, path ++ [a.kind], by simp [hpath]⟩
        have hrow := walkNodes_below (c :: cs) _ _ rest hbelow rfl
          (fun b hb => by exact hids b (List.mem_cons_of_mem _ hb))
        have hid' : (touchRow (vocabulary D w.content) (e.touch a.id w.tokens.length) (w.tokens.length + 1) (c :: cs)).nodeId ≠
            a.id := by
          rw [touchRow_nodeId]
          exact hid
        have hexit := exit_below digest hskipNode hid' rest
          (w.tokens ++ [Token.opening a.kind] ++ streams (vocabulary D w.content) (c :: cs)) (w.ancestors ++ [a.kind]) true
        have hstream : stream (vocabulary D w.content) (.node a (c :: cs)) =
            .opening a.kind :: (streams (vocabulary D w.content) (c :: cs) ++ [.closing]) :=
          stream_inner _ hskip' (List.cons_ne_nil c cs)
        rw [hrow, hstream]
        simp only [List.length_append, List.length_singleton]
        rw [hexit]
        simp
theorem walkNodes_below : ∀ (ts : List Node) (w : Walk D β) (e : Open) (rest : List Open), w.Below → w.opens = e :: rest →
    (∀ a ∈ Tree.labelsOf ts, e.nodeId ≠ a.id) →
    walkNodes digest take w ts =
      { w with
          tokens := w.tokens ++ streams (vocabulary D w.content) ts
          opens := touchRow (vocabulary D w.content) e w.tokens.length ts :: rest }
  | [], w, e, rest, _, hopens, _ => by rw [walkNodes, streams, touchRow, List.append_nil, ← hopens]
  | t :: ts, w, e, rest, hw, hopens, hids => by
    simp only [Tree.labelsOf, List.mem_append] at hids
    rw [walkNodes, walkNode_below t w e rest hw hopens fun a ha => hids a (.inl ha)]
    have hrow := walkNodes_below ts { w with
        tokens := w.tokens ++ stream (vocabulary D w.content) t
        opens := touchNode (vocabulary D w.content) e w.tokens.length t :: rest } _ rest hw rfl
      (fun a ha => by
        rw [touchNode_nodeId]
        exact hids a (.inr ha))
    rw [hrow, streams, touchRow]
    simp
end

end

end Go
