import AgentContext.Adapters.GoSpec

/-!
# The Go adapter: what is digested for a constant

    one name, own value      the tokens of the whole spec
    several names            the name, the type and its own value, or the whole list when the counts differ
    no value                 the name, and the type and the value of the spec before

The slices of the last value of a list run over the end of the list and of its spec (`closeLast`). The walk of a spec
digests each of its names so (`finish_spec`).
-/

namespace Go

open Bracketed List

section

variable {D β : Type}

/-! ## The tokens of a constant -/

/-- An explicit spec: how many names share its type and its values. -/
structure Source (D : Type) where
  names : Nat
  typ : List (Token D)
  elements : List (List (Token D))

/-- A constant of a group: its name among the names of its spec, the position of the spec, and the spec whose type and
value it has, its own one or the nearest before. -/
structure Reading (D : Type) where
  name : Token D
  names : Nat
  index : Nat
  ordinal : Nat
  own : Bool
  source : Option (Source D)

def closers : List (Token D) := [.closing, .closing]

/-- The last slice runs to the end. -/
def closeLast {α : Type} : List (List α) → List α → List (List α)
  | [], _ => []
  | [e], z => [e ++ z]
  | e :: e' :: es, z => e :: closeLast (e' :: es) z

namespace Source

variable (s : Source D)

def head : List (Token D) := s.typ ++ [.anon "="]

/-- From the start of the expression list to the end of the spec. -/
def listed : List (Token D) := .opening "expression_list" :: (s.elements.flatten ++ closers)

/-- What bare specs repeat of it. -/
def tail : List (List (Token D)) := if s.names = 1 then [s.listed] else closeLast s.elements closers

/-- The tokens of one of its own names. -/
def declared (name : Token D) (index : Nat) : List (Token D) :=
  if s.names = 1 then .opening "const_spec" :: name :: (s.head ++ s.listed)
  else name :: (s.head ++ if s.elements.length = s.names then ((closeLast s.elements closers)[index]?).getD [] else s.listed)

end Source

def tailOf : Option (Source D) → List (Token D) × List (List (Token D))
  | none => ([], [])
  | some s => (s.head, s.tail)

variable (digest : String → List (Token D) → D)
variable {α : Type}

namespace Reading

variable (r : Reading D)

/-- The tokens of a bare name: the position comes in between when the repeated list has an `iota`. -/
def repeated : List (Token D) :=
  let (typ, elements) := tailOf r.source
  let position : List (Token D) := if elements.flatten.any Token.isIota then [.ordinal r.ordinal] else []
  [r.name] ++ typ ++ position ++ if elements.length = r.names then (elements[r.index]?).getD [] else elements.flatten

def semantic : D :=
  match r.own, r.source with
  | true, some s =>
    let plain := digest "semantic" (s.declared r.name r.index)
    if s.listed.any Token.isIota then digest "semantic" [.hex plain, .ordinal r.ordinal] else plain
  | _, _ => digest "semantic" r.repeated

def signature : D :=
  match r.own, r.source with
  | true, some s => digest "signature" (if s.names = 1 then .opening "const_spec" :: r.name :: s.head else r.name :: s.head)
  | _, _ => digest "signature" (r.name :: (tailOf r.source).1)

end Reading

/-! ## Slices -/

theorem slice_nat (xs : List α) (m n : Nat) : slice xs (m : Int) (n : Int) = (xs.take n).drop m := rfl

theorem slice_mid {xs : List α} (a b c : List α) (hxs : xs = a ++ (b ++ c)) {m n : Nat} (hm : m = a.length)
    (hn : n = a.length + b.length) : slice xs (m : Int) (n : Int) = b := by
  subst hxs hm hn
  rw [slice_nat, take_append, take_of_length_le (by omega), Nat.add_sub_cancel_left, take_left',
    drop_left]
  rfl

theorem foldl_max_eq {xs : List Int} {m : Int} (hle : ∀ x ∈ xs, x ≤ m) :
    ∀ {a : Int}, a ≤ m → m ∈ xs ∨ a = m → xs.foldl max a = m := by
  induction xs with
  | nil => exact fun _ h => h.resolve_left (by simp)
  | cons x xs ih =>
    intro a ha h
    have hx := hle x mem_cons_self
    refine ih (fun y hy => hle y (mem_cons_of_mem _ hy)) (by omega) ?_
    rcases h with h | rfl
    · rcases mem_cons.mp h with rfl | h
      · exact .inr (by omega)
      · exact .inl h
    · exact .inr (by omega)

/-- Where the parts of a row start. -/
def starts {α : Type} : Nat → List (List α) → List Int
  | _, [] => []
  | n, e :: es => (n : Int) :: starts (n + e.length) es

theorem length_closeLast (es : List (List α)) (z : List α) : (closeLast es z).length = es.length := by
  induction es with
  | nil => rfl
  | cons e es ih =>
    cases es with
    | nil => rfl
    | cons e' es => rw [closeLast, length_cons, ih, ← length_cons]

theorem flatten_closeLast {es : List (List α)} (hne : es ≠ []) (z : List α) :
    (closeLast es z).flatten = es.flatten ++ z := by
  induction es with
  | nil => exact absurd rfl hne
  | cons e es ih =>
    cases es with
    | nil => simp [closeLast]
    | cons e' es =>
      rw [closeLast, flatten_cons, ih (cons_ne_nil _ _)]
      simp

/-- Cutting at the starts gives the parts back, the last one with all that follows. -/
theorem slices_starts (es : List (List α)) (z : List α) : ∀ (a xs : List α), xs = a ++ (es.flatten ++ z) →
      List.zipWith (slice xs) (starts a.length es) ((starts a.length es).tail ++ [(xs.length : Int)]) = closeLast es z := by
  induction es with
  | nil => exact fun _ _ _ => rfl
  | cons e es ih =>
    intro a xs hxs
    cases es with
    | nil =>
      have hcut : slice xs (a.length : Int) (xs.length : Int) = e ++ z :=
        slice_mid a (e ++ z) [] (by simpa using hxs) rfl (by simp [hxs])
      simp [starts, closeLast, hcut]
    | cons e' es =>
      have hcut : slice xs (a.length : Int) ((a.length + e.length : Nat) : Int) = e :=
        slice_mid a e ((e' :: es).flatten ++ z) (by simpa using hxs) rfl rfl
      have hrest := ih (a ++ e) xs (by simpa using hxs)
      rw [length_append] at hrest
      rw [closeLast, ← hrest, starts, starts]
      simpa using hcut

/-- The cut at one start goes to the next one, or to the end. -/
theorem cut_at {xs : List α} {as : List Int} {z : Int} {cs : List (List α)}
    (h : List.zipWith (slice xs) as (as.tail ++ [z]) = cs) {i : Nat} (hi : i < as.length) :
    slice xs ((as[i]?).getD 0) (if i + 1 = as.length then z else (as[i + 1]?).getD 0) = (cs[i]?).getD [] := by
  subst h
  rw [List.getElem?_zipWith, List.getElem?_eq_getElem hi, List.getElem?_append, length_tail, List.getElem?_tail]
  by_cases hlast : i + 1 = as.length
  · rw [if_pos hlast, if_neg (by omega), show i - (as.length - 1) = 0 by omega]
    rfl
  · rw [if_neg hlast, if_pos (by omega), List.getElem?_eq_getElem (by omega)]
    rfl

/-! ## The entry when its spec closes -/

section

variable (spec : ConstSpec) (content : Bytes)

/-- The tokens of an explicit spec. -/
def ConstSpec.source : Option (Source D) :=
  spec.init.map fun init =>
    { names := spec.names.length
      typ := streams (vocabulary D content) init.typ.toList
      elements := init.elements.map (stream (vocabulary D content)) }

theorem names_stream {names : List Node} (h : ∀ n ∈ names, n.label.kind = "identifier" ∧ n.children = []) :
    streams (vocabulary D content) names = names.map fun n => leafToken content n.label := by
  induction names with
  | nil => rfl
  | cons n ns ih =>
    obtain ⟨hkind, hleaf⟩ := h n mem_cons_self
    have hskip : (vocabulary D content).skip n.label = false := by simp [vocabulary, hkind, skipped]
    rw [streams, stream_leaf _ hskip hleaf, ih fun m hm => h m (mem_cons_of_mem _ hm)]
    rfl

theorem ConstSpec.names_stream : streams (vocabulary D content) spec.names = spec.names.map fun n => leafToken content n.label :=
  Go.names_stream content fun n hn => (spec.names_ok n hn).2

theorem touchRow_unskipped (e : Open) (position : Nat) (ts : List Node) :
    touchRow (vocabulary D content) e position (unskipped ts) = touchRow (vocabulary D content) e position ts :=
  touchRow_filter ..

theorem streams_unskipped (ts : List Node) :
    streams (vocabulary D content) (unskipped ts) = streams (vocabulary D content) ts :=
  streams_filter ..

theorem ConstSpec.ids_nodup : (ids (spec.names ++ (spec.init.map Init.nodes).getD [])).Nodup := by
  rw [← spec.children]
  have := spec.distinct
  rw [labels_ids] at this
  exact (nodup_cons.mp this).2.sublist (ids_filter_sublist _ _)

/-- The entry of the spec after its children. -/
def ConstSpec.entryEnd (p ordinal : Nat) (owners : List (Sym × Nat)) : Open :=
  touchRow (vocabulary D content) (spec.entry p ordinal owners) (p + 1) spec.node.children

variable {p ordinal : Nat} {owners : List (Sym × Nat)}

theorem ConstSpec.entryEnd_eq : spec.entryEnd (D := D) content p ordinal owners =
    touchRow (vocabulary D content) (spec.entry p ordinal owners) (p + 1)
      (spec.names ++ (spec.init.map Init.nodes).getD []) := by
  rw [← spec.children, touchRow_unskipped]
  rfl

theorem ConstSpec.mark_name {i : Nat} {n : Node} (h : spec.names[i]? = some n) :
    (spec.entryEnd (D := D) content p ordinal owners).mark n.label.id = (p + 1 + i : Nat) := by
  obtain ⟨hi, rfl⟩ := List.getElem?_eq_some_iff.mp h
  have hsplit : spec.names ++ (spec.init.map Init.nodes).getD [] =
      spec.names.take i ++ spec.names[i] :: (spec.names.drop (i + 1) ++ (spec.init.map Init.nodes).getD []) := by
    rw [← cons_append, ← drop_eq_getElem_cons, ← append_assoc, take_append_drop]
  have hnodup := spec.ids_nodup
  rw [hsplit, ids_append, ids_cons, labels_ids, nodup_append, cons_append, nodup_cons, mem_append,
    not_or] at hnodup
  obtain ⟨-, ⟨⟨hchildren, hafter⟩, -⟩, hbefore⟩ := hnodup
  have hskip : (vocabulary D content).skip spec.names[i].label = false := by
    have := (spec.names_ok _ (getElem_mem hi)).2.1
    simp [vocabulary, this, skipped]
  have hmark : ((spec.entry p ordinal owners).marks spec.names[i].label.id).isSome = true := by
    have hmem : spec.names[i].label.id ∈ spec.names.map (·.label.id) := mem_map_of_mem (getElem_mem hi)
    simp only [ConstSpec.entry, mem_append, hmem, true_or, if_true, Option.isSome_some]
  have hlength : (streams (vocabulary D content) (spec.names.take i)).length = i := by
    rw [Go.names_stream content fun n hn => (spec.names_ok n (mem_of_mem_take hn)).2, length_map,
      length_take, Nat.min_eq_left (Nat.le_of_lt hi)]
  rw [Open.mark, entryEnd_eq, hsplit, marks_row (vocabulary D content) hskip
    ⟨fun hmem => hbefore _ hmem _ mem_cons_self rfl, hchildren, hafter⟩ hmark, hlength]
  rfl

/-- The header of an explicit spec ends where its expression list starts. -/
theorem ConstSpec.header {init : Init} (h : spec.init = some init) :
    (spec.entryEnd (D := D) content p ordinal owners).headerEnd =
      some (p + 1 + (streams (vocabulary D content) (spec.names ++ (init.typ.toList ++ [init.eq]))).length) := by
  have hsplit : spec.names ++ (spec.init.map Init.nodes).getD [] =
      spec.names ++ (init.typ.toList ++ [init.eq]) ++ init.list :: [] := by
    simp [h, Init.nodes]
  have hnodup := spec.ids_nodup
  rw [hsplit, ids_append, ids_cons, labels_ids, nodup_append, cons_append, nodup_cons, mem_append,
    not_or] at hnodup
  have hskip : (vocabulary D content).skip init.list.label = false := by simp [vocabulary, init.list_ok.2, skipped]
  have hbody : (spec.entry p ordinal owners).bodyId = some init.list.label.id := by simp [ConstSpec.entry, h]
  rw [entryEnd_eq, hsplit]
  exact header_row (vocabulary D content) hskip ⟨hnodup.2.1.1.1, by simp⟩ hbody

theorem marks_starts {e : Open} {position : Nat} (elements : List Node) (hskip : ∀ c ∈ elements, skipped c.label.kind = false)
    (hnodup : (ids elements).Nodup) (hmarks : ∀ c ∈ elements, (e.marks c.label.id).isSome = true) :
    ∀ before after, elements = before ++ after →
      after.map (fun c => (touchRow (vocabulary D content) e position elements).mark c.label.id) =
        starts (position + (streams (vocabulary D content) before).length) (after.map (stream (vocabulary D content))) := by
  intro before after
  induction after generalizing before with
  | nil => exact fun _ => rfl
  | cons c after ih =>
    intro hsplit
    have hmem : c ∈ elements := by simp [hsplit]
    have hc := hnodup
    rw [hsplit, ids_append, ids_cons, labels_ids, nodup_append, cons_append, nodup_cons, mem_append,
      not_or] at hc
    obtain ⟨-, ⟨⟨hchildren, hafter⟩, -⟩, hbefore⟩ := hc
    have hmark : (touchRow (vocabulary D content) e position elements).mark c.label.id =
        (position + (streams (vocabulary D content) before).length : Nat) := by
      rw [Open.mark, hsplit, marks_row (vocabulary D content) (hskip c hmem)
        ⟨fun hmem => hbefore _ hmem _ mem_cons_self rfl, hchildren, hafter⟩ (hmarks c hmem)]
      rfl
    have hrest := ih (before ++ [c]) (by simp [hsplit])
    rw [map_cons, map_cons, starts, hmark, hrest]
    simp [streams, Nat.add_assoc]

/-- The values of several names are noted where they start in the expression list. -/
theorem ConstSpec.mark_values {init : Init} (h : spec.init = some init) (hmulti : 1 < spec.names.length) {stop : Nat}
    (hstop : (spec.entryEnd (D := D) content p ordinal owners).headerEnd = some stop) :
    init.elements.map (fun c => (spec.entryEnd (D := D) content p ordinal owners).mark c.label.id) =
      starts (stop + 1) (init.elements.map (stream (vocabulary D content))) := by
  have hsplit : spec.names ++ (spec.init.map Init.nodes).getD [] =
      spec.names ++ (init.typ.toList ++ [init.eq]) ++ [init.list] := by
    simp [h, Init.nodes]
  have hnodup := spec.ids_nodup
  rw [hsplit, ids_append, ids_cons, labels_ids, ids_nil, append_nil, nodup_append, nodup_cons] at hnodup
  obtain ⟨-, ⟨-, hinner⟩, hfar⟩ := hnodup
  rw [spec.header content h, Option.some.injEq] at hstop
  generalize hbefore : spec.names ++ (init.typ.toList ++ [init.eq]) = before at hsplit hstop hfar
  -- the entry when the walk comes to the list
  generalize hentry : touchRow (vocabulary D content) (spec.entry p ordinal owners) (p + 1) before = e
  have hend : spec.entryEnd (D := D) content p ordinal owners =
      touchRow (vocabulary D content) (e.touch init.list.label.id stop) (stop + 1) init.elements := by
    have hlist : touchNode (vocabulary D content) e stop init.list =
        touchRow (vocabulary D content) (e.touch init.list.label.id stop) (stop + 1) init.list.children := by
      cases hnode : init.list with
      | node a cs =>
        have hskip : (vocabulary D content).skip a = false := by
          have := init.list_ok.2
          rw [hnode] at this
          simp [vocabulary, show a.kind = "expression_list" from this, skipped]
        rw [touchNode, if_neg (by simp [hskip])]
        rfl
    rw [entryEnd_eq, hsplit, touchRow_append, hentry, hstop, touchRow, touchRow, hlist, ← touchRow_unskipped,
      init.list_children]
  rw [hend]
  have hids : (ids init.elements).Nodup := init.list_children ▸ hinner.sublist (ids_filter_sublist _ _)
  have hmarks : ∀ c ∈ init.elements, ((e.touch init.list.label.id stop).marks c.label.id).isSome = true := by
    intro c hc
    have hmem : c.label.id ∈ init.elements.map (·.label.id) := mem_map_of_mem hc
    have hnot : c.label.id ∉ ids before := fun hmem =>
      hfar _ hmem _ (mem_cons_of_mem _ (ConstSpec.element_id_mem hc)) rfl
    rw [touch_isSome, ← hentry, touchRow_far _ _ _ _ _ hnot]
    simp only [ConstSpec.entry, h, hmulti, Option.map_some, Option.getD_some, if_true, mem_append, hmem, or_true,
      Option.isSome_some]
  have hskip : ∀ c ∈ init.elements, skipped c.label.kind = false := fun c hc =>
    (mem_unskipped.mp (init.list_children ▸ hc)).2
  simpa [streams] using marks_starts content init.elements hskip hids hmarks [] init.elements rfl

/-- What the entry of a spec holds when the spec closes. -/
structure Closing (D : Type) (spec : ConstSpec) (content : Bytes) (p ordinal : Nat) (owners : List (Sym × Nat)) (e : Open) :
    Prop where
  tokStart : e.tokStart = p
  syms : e.syms = owners.map Prod.fst
  names : e.names = if 1 < spec.names.length then spec.names.map (·.label.id) else []
  values : e.values = if 1 < spec.names.length then ((spec.init.map Init.elements).getD []).map (·.label.id) else []
  owned : e.owners = if 1 < spec.names.length then owners else []
  constMark : e.constMark = (spec.names.map (·.label.id)).getLast?
  implicit : e.implicit = spec.init.isNone
  ordinal_eq : e.ordinal = ordinal
  header : ∀ init, spec.init = some init → e.headerEnd =
    some (p + 1 + (streams (vocabulary D content) (spec.names ++ (init.typ.toList ++ [init.eq]))).length)
  mark_name : ∀ i n, spec.names[i]? = some n → e.mark n.label.id = (p + 1 + i : Nat)
  mark_values : ∀ init stop, spec.init = some init → 1 < spec.names.length → e.headerEnd = some stop →
    init.elements.map (fun c => e.mark c.label.id) = starts (stop + 1) (init.elements.map (stream (vocabulary D content)))

theorem ConstSpec.entryEnd_closing :
    Closing D spec content p ordinal owners (spec.entryEnd (D := D) content p ordinal owners) := by
  obtain ⟨headerEnd, marks, hshape⟩ :=
    touchRow_shape (vocabulary D content) (spec.entry p ordinal owners) (p + 1) spec.node.children
  have hshape : spec.entryEnd (D := D) content p ordinal owners =
    { spec.entry p ordinal owners with headerEnd := headerEnd, marks := marks } := hshape
  exact {
    tokStart := by rw [hshape]; rfl
    syms := by rw [hshape]; rfl
    names := by rw [hshape]; rfl
    values := by rw [hshape]; rfl
    owned := by rw [hshape]; rfl
    constMark := by rw [hshape]; rfl
    implicit := by rw [hshape]; rfl
    ordinal_eq := by rw [hshape]; rfl
    header := fun _ h => spec.header content h
    mark_name := fun _ _ h => spec.mark_name content h
    mark_values := fun _ _ h hmulti hstop => spec.mark_values content h hmulti hstop }

end

/-! ## Closing a spec -/

section

variable (spec : ConstSpec) (content : Bytes)

/-- The reading of a name of a spec, after the explicit spec that comes before it. -/
def ConstSpec.reading (ordinal : Nat) (before : Option (Source D)) (index : Nat) (n : Node) : Reading D where
  name := leafToken content n.label
  names := spec.names.length
  index := index
  ordinal := ordinal
  own := spec.init.isSome
  source := spec.source content <|> before

/-- What a spec digests for one of its owners. -/
def ConstSpec.digested (ordinal : Nat) (before : Option (Source D)) (o : Sym × Nat) : Digested D :=
  let n := (spec.names[o.2]?).getD spec.node
  { sym := o.1
    ordinal := ordinal
    index := o.2
    signatureDigest := (spec.reading content ordinal before o.2 n).signature digest
    semantic := (spec.reading content ordinal before o.2 n).semantic digest }

variable {spec content} {ordinal : Nat} {owners : List (Sym × Nat)} {pre : List (Token D)}

theorem ConstSpec.stream_eq : stream (vocabulary D content) spec.node =
    .opening "const_spec" :: (spec.names.map (fun n => leafToken content n.label) ++
      streams (vocabulary D content) ((spec.init.map Init.nodes).getD []) ++ [.closing]) := by
  rw [stream_inner _ spec.unskipped_kind spec.children_ne, ← streams_unskipped, spec.children, streams_append,
    spec.names_stream]
  simp [vocabulary, spec.kind]

theorem Init.stream_eq (init : Init) : stream (vocabulary D content) init.eq = [.anon "="] := by
  obtain ⟨-, hkind, hnamed, hleaf⟩ := init.eq_ok
  rw [stream_leaf _ (by simp [vocabulary, hkind, skipped]) hleaf]
  simp [vocabulary, leafToken, hkind, hnamed]

theorem Init.streams_nodes (init : Init) : streams (vocabulary D content) init.nodes =
    streams (vocabulary D content) init.typ.toList ++ [.anon "="] ++
      .opening "expression_list" :: ((init.elements.map (stream (vocabulary D content))).flatten ++ [.closing]) := by
  have hlist : stream (vocabulary D content) init.list =
      .opening "expression_list" :: ((init.elements.map (stream (vocabulary D content))).flatten ++ [.closing]) := by
    have hne : init.list.children ≠ [] := fun h => init.elements_ne (by rw [← init.list_children, h]; rfl)
    rw [stream_inner _ (by simp [vocabulary, init.list_ok.2, skipped]) hne, ← streams_unskipped, init.list_children,
      streams_eq_flatMap, flatMap_def]
    simp [vocabulary, init.list_ok.2]
  simp [Init.nodes, streams, init.stream_eq, hlist]

variable {e : Open}

theorem ConstSpec.single_name (h : ¬1 < spec.names.length) : spec.names.length = 1 := by
  have := length_pos_of_ne_nil spec.names_ne
  omega

namespace Closing

variable (hc : Closing D spec content pre.length ordinal owners e)

include hc

theorem slice_name {i : Nat} {n : Node} (h : spec.names[i]? = some n) :
    slice (pre ++ stream (vocabulary D content) spec.node) (e.mark n.label.id) (e.mark n.label.id + 1) =
      [leafToken content n.label] := by
  rw [hc.mark_name i n h]
  obtain ⟨hi, hn⟩ := List.getElem?_eq_some_iff.mp h
  have hnames : spec.names.map (fun n => (leafToken content n.label : Token D)) =
      (spec.names.take i).map (fun n => leafToken content n.label) ++
        ([leafToken content n.label] ++ (spec.names.drop (i + 1)).map fun n => leafToken content n.label) := by
    conv_lhs => rw [← take_append_drop i spec.names, drop_eq_getElem_cons hi, hn]
    simp
  refine slice_mid (pre ++ .opening "const_spec" :: (spec.names.take i).map fun n => leafToken content n.label) _
    ((spec.names.drop (i + 1)).map (fun n => leafToken content n.label) ++
      streams (vocabulary D content) ((spec.init.map Init.nodes).getD []) ++ [.closing]) ?_ ?_ ?_
  · rw [spec.stream_eq, hnames]
    simp
  · simp only [length_append, length_cons, length_map, length_take]
    omega
  · simp only [length_append, length_cons, length_map, length_take, length_nil]
    omega

theorem owner_id {index : Nat} {n : Node} (h : spec.names[index]? = some n) :
    (if e.names = [] then e.constMark else e.names[index]?) = some n.label.id := by
  by_cases hmulti : 1 < spec.names.length
  · have hne : spec.names.map (·.label.id) ≠ [] := by simp [spec.names_ne]
    rw [hc.names, if_pos hmulti, if_neg hne, List.getElem?_map, h]
    rfl
  · obtain ⟨m, hm⟩ := length_eq_one_iff.mp (spec.single_name hmulti)
    have hindex : index = 0 := by
      have := (List.getElem?_eq_some_iff.mp h).1
      rw [hm, length_singleton] at this
      omega
    subst hindex
    rw [hm] at h
    obtain rfl : m = n := Option.some.inj h
    rw [hc.names, if_neg hmulti, if_pos rfl, hc.constMark, hm]
    rfl

theorem owners_eq (howned : Owned content spec.names owners) {o : Sym × Nat} {os : List (Sym × Nat)}
    (hcons : owners = o :: os) : (if e.owners = [] then [(o.1, 0)] else e.owners) = owners := by
  by_cases hmulti : 1 < spec.names.length
  · rw [hc.owned, if_pos hmulti, if_neg (by rw [hcons]; exact cons_ne_nil _ _)]
  · have hone := spec.single_name hmulti
    obtain ⟨n, hn, -⟩ := howned.named o (by simp [hcons])
    have hindex := (List.getElem?_eq_some_iff.mp hn).1
    have hcount := howned.count
    rw [hcons, length_cons] at hcount
    have hos : os = [] := eq_nil_of_length_eq_zero (by omega)
    have hzero : o.2 = 0 := by omega
    rw [hc.owned, if_neg hmulti, if_pos rfl, hcons, hos, ← hzero]

theorem constMark_some : ∃ last, e.constMark = some last := by
  rw [hc.constMark, List.getLast?_map]
  cases h : spec.names.getLast? with
  | none => exact absurd (List.getLast?_eq_none_iff.mp h) spec.names_ne
  | some last => exact ⟨_, rfl⟩

theorem finish_implicit (hinit : spec.init = none) {w : Walk D β} (howned : Owned content spec.names owners)
    {before : Option (Source D)} (htail : w.constTail = tailOf before)
    (htokens : w.tokens = pre ++ stream (vocabulary D content) spec.node) :
    finishOpen digest w e =
      { w with digested := w.digested ++ owners.map (spec.digested digest content ordinal before) } := by
  have hnames : (if e.names.length = 0 then 1 else e.names.length) = spec.names.length := by
    by_cases hmulti : 1 < spec.names.length
    · rw [hc.names, if_pos hmulti, length_map, if_neg (by omega)]
    · rw [hc.names, if_neg hmulti, length_nil, if_pos rfl, spec.single_name hmulti]
  have hsource : (spec.source content <|> before) = before := by
    rw [ConstSpec.source, hinit]
    rfl
  obtain ⟨last, hlast⟩ := hc.constMark_some
  simp only [finishOpen, hlast, hc.implicit, hinit, Option.isNone_none, if_true]
  unfold finishImplicitConst
  cases howners : owners with
  | nil =>
    rw [hc.syms, howners]
    simp
  | cons o os =>
    have hsyms : e.syms = o.1 :: os.map Prod.fst := by rw [hc.syms, howners]; rfl
    rw [hsyms]
    simp only [hc.owners_eq howned howners, htail, hnames, hc.ordinal_eq]
    rw [← howners]
    congr 2
    refine map_congr_left fun o' ho' => ?_
    obtain ⟨n, hn, -⟩ := howned.named o' ho'
    rw [hc.owner_id hn, Option.getD_some, htokens, hc.slice_name hn]
    simp [ConstSpec.digested, ConstSpec.reading, Reading.semantic, Reading.signature, Reading.repeated, hn, hinit, hsource]

/-! An explicit spec. -/

omit hc in
theorem stream_explicit {src : Source D} (hsrc : spec.source content = some src) :
    stream (vocabulary D content) spec.node =
      .opening "const_spec" :: (spec.names.map (fun n => leafToken content n.label) ++ (src.head ++ src.listed)) := by
  rw [ConstSpec.source, Option.map_eq_some_iff] at hsrc
  obtain ⟨init, hinit, rfl⟩ := hsrc
  rw [spec.stream_eq, hinit, Option.map_some, Option.getD_some, init.streams_nodes]
  simp [Source.head, Source.listed, closers]

theorem stop_eq {src : Source D} (hsrc : spec.source content = some src) :
    e.headerEnd = some (pre.length + 1 + spec.names.length + src.head.length) := by
  rw [ConstSpec.source, Option.map_eq_some_iff] at hsrc
  obtain ⟨init, hinit, rfl⟩ := hsrc
  rw [hc.header init hinit, streams_append, streams_append, spec.names_stream]
  simp [Source.head, streams, init.stream_eq, Nat.add_assoc]

variable {w : Walk D β} {src : Source D}
variable {stop : Nat}

theorem slice_listed (hsrc : spec.source content = some src)
    (htokens : w.tokens = pre ++ stream (vocabulary D content) spec.node) (hstop : e.headerEnd = some stop) :
    slice w.tokens (stop : Int) (w.tokens.length : Int) = src.listed := by
  rw [hc.stop_eq hsrc, Option.some.injEq] at hstop
  refine slice_mid (pre ++ .opening "const_spec" :: (spec.names.map (fun n => leafToken content n.label) ++ src.head)) _ []
    ?_ ?_ ?_
  · simp [htokens, stream_explicit hsrc]
  · simp only [length_append, length_cons, length_map]
    omega
  · simp only [htokens, stream_explicit hsrc, length_append, length_cons, length_map]
    omega

theorem slice_head (hsrc : spec.source content = some src)
    (htokens : w.tokens = pre ++ stream (vocabulary D content) spec.node) (hstop : e.headerEnd = some stop) :
    slice w.tokens ((pre.length + spec.names.length + 1 : Nat) : Int) (stop : Int) = src.head := by
  rw [hc.stop_eq hsrc, Option.some.injEq] at hstop
  refine slice_mid (pre ++ .opening "const_spec" :: spec.names.map fun n => leafToken content n.label) _ src.listed ?_ ?_ ?_
  · simp [htokens, stream_explicit hsrc]
  · simp only [length_append, length_cons, length_map]
    omega
  · simp only [length_append, length_cons, length_map]
    omega

theorem mark_last {last : Nat} (hlast : e.constMark = some last) : e.mark last = (pre.length + spec.names.length : Nat) := by
  rw [hc.constMark, List.getLast?_map, Option.map_eq_some_iff] at hlast
  obtain ⟨n, hn, rfl⟩ := hlast
  rw [List.getLast?_eq_getElem?] at hn
  rw [hc.mark_name _ _ hn]
  have := length_pos_of_ne_nil spec.names_ne
  congr 1
  omega

/-- The values of several names are cut at their starts. -/
theorem slices_values (hsrc : spec.source content = some src) (hmulti : 1 < spec.names.length)
    (htokens : w.tokens = pre ++ stream (vocabulary D content) spec.node) (hstop : e.headerEnd = some stop) :
    e.values ≠ [] ∧ e.values.length = src.elements.length ∧
      List.zipWith (slice w.tokens) (e.values.map e.mark) ((e.values.map e.mark).tail ++ [(w.tokens.length : Int)]) =
        closeLast src.elements closers := by
  have hstream := stream_explicit hsrc
  have hend := hc.stop_eq hsrc
  rw [ConstSpec.source, Option.map_eq_some_iff] at hsrc
  obtain ⟨init, hinit, rfl⟩ := hsrc
  have hvalues : e.values = init.elements.map (·.label.id) := by
    rw [hc.values, if_pos hmulti, hinit]
    rfl
  have hstarts : e.values.map e.mark = starts (stop + 1) (init.elements.map (stream (vocabulary D content))) := by
    rw [hvalues, map_map, ← hc.mark_values init stop hinit hmulti hstop]
    rfl
  rw [hend, Option.some.injEq] at hstop
  refine ⟨by simp [hvalues, init.elements_ne], by simp [hvalues], ?_⟩
  generalize hs : (⟨spec.names.length, streams (vocabulary D content) init.typ.toList,
    init.elements.map (stream (vocabulary D content))⟩ : Source D) = src at hstream hstop
  have helements : init.elements.map (stream (vocabulary D content)) = src.elements := by rw [← hs]
  have hcut := slices_starts src.elements closers
    (pre ++ Token.opening "const_spec" :: (spec.names.map (fun n : Node => leafToken content n.label) ++ src.head ++
      [Token.opening "expression_list"])) w.tokens (by simp [htokens, hstream, Source.listed])
  have hlen : (pre ++ Token.opening "const_spec" :: (spec.names.map (fun n : Node => leafToken content n.label) ++
      src.head ++ [Token.opening "expression_list"])).length = stop + 1 := by
    simp only [length_append, length_cons, length_map, length_nil]
    omega
  rw [hlen] at hcut
  rw [hstarts, helements, hcut]

omit hc in
theorem source_names (hsrc : spec.source content = some src) : src.names = spec.names.length := by
  rw [ConstSpec.source, Option.map_eq_some_iff] at hsrc
  obtain ⟨init, -, rfl⟩ := hsrc
  rfl

theorem tail_eq (hsrc : spec.source content = some src)
    (htokens : w.tokens = pre ++ stream (vocabulary D content) spec.node) (hstop : e.headerEnd = some stop) :
    tailElements w e stop = src.tail := by
  by_cases hmulti : 1 < spec.names.length
  · obtain ⟨hne, -, hcut⟩ := hc.slices_values hsrc hmulti htokens hstop
    rw [tailElements, if_pos hne, hcut, Source.tail, if_neg (by rw [source_names hsrc]; omega)]
  · have hvalues : e.values = [] := by rw [hc.values, if_neg hmulti]
    rw [tailElements, if_neg (by simp [hvalues]), hc.slice_listed hsrc htokens hstop, Source.tail,
      if_pos ((source_names hsrc).trans (spec.single_name hmulti))]

/-- The names of a spec are noted one after the other, so the tokens after them start after the last. -/
theorem afterNames_eq (hmulti : 1 < spec.names.length) :
    (e.names.map e.mark).foldl max 0 + 1 = (pre.length + spec.names.length + 1 : Nat) := by
  have hpositions : e.names.map e.mark = spec.names.map fun n => e.mark n.label.id := by
    rw [hc.names, if_pos hmulti, map_map]
    rfl
  have hlast : ∃ n, spec.names[spec.names.length - 1]? = some n := ⟨_, List.getElem?_eq_getElem (by omega)⟩
  obtain ⟨last, hlast⟩ := hlast
  have hmark := hc.mark_name _ last hlast
  have hmax : (e.names.map e.mark).foldl max 0 = ((pre.length + spec.names.length : Nat) : Int) := by
    refine foldl_max_eq (fun x hx => ?_) (by omega) (.inl ?_)
    · rw [hpositions] at hx
      obtain ⟨n, hn, rfl⟩ := mem_map.mp hx
      obtain ⟨i, hi, rfl⟩ := getElem_of_mem hn
      rw [hc.mark_name i _ (List.getElem?_eq_getElem hi)]
      omega
    · rw [hpositions]
      refine mem_map.mpr ⟨last, mem_of_getElem? hlast, ?_⟩
      rw [hmark]
      congr 1
      omega
  rw [hmax]
  rfl

/-- One declarator of several: its name, the shared type, and its value or the whole list. -/
theorem declarators_eq (howned : Owned content spec.names owners) (hsrc : spec.source content = some src)
    (hmulti : 1 < spec.names.length) (htokens : w.tokens = pre ++ stream (vocabulary D content) spec.node)
    (hstop : e.headerEnd = some stop) :
    finishDeclarators digest w e stop = owners.map fun o =>
      { sym := o.1, ordinal := ordinal, index := o.2
        signatureDigest := digest "signature" (leafToken content ((spec.names[o.2]?).getD spec.node).label :: src.head)
        semantic := digest "semantic" (src.declared (leafToken content ((spec.names[o.2]?).getD spec.node).label) o.2) } := by
  obtain ⟨hne, hlength, hcut⟩ := hc.slices_values hsrc hmulti htokens hstop
  have hnames : e.names = spec.names.map (·.label.id) := by rw [hc.names, if_pos hmulti]
  have hpaired : e.values.length = e.names.length ↔ src.elements.length = src.names := by
    rw [hlength, hnames, length_map, source_names hsrc]
  unfold finishDeclarators
  simp only [hc.afterNames_eq hmulti, hc.owned, if_pos hmulti, hc.ordinal_eq]
  refine map_congr_left fun o ho => ?_
  obtain ⟨n, hn, -⟩ := howned.named o ho
  have hindex := (List.getElem?_eq_some_iff.mp hn).1
  have hat : ((e.names.map e.mark)[o.2]?).getD 0 = e.mark n.label.id := by
    rw [hnames, map_map, List.getElem?_map, hn]
    rfl
  have hhead : slice w.tokens (e.mark n.label.id) (e.mark n.label.id + 1) ++
      slice w.tokens ((pre.length + spec.names.length + 1 : Nat) : Int) (stop : Int) = leafToken content n.label :: src.head := by
    rw [hc.slice_head hsrc htokens hstop, htokens, hc.slice_name hn]
    rfl
  have hvalue : (if e.values.length = e.names.length then
      slice w.tokens (((e.values.map e.mark)[o.2]?).getD 0)
        (if o.2 + 1 = (e.values.map e.mark).length then (w.tokens.length : Int)
          else ((e.values.map e.mark)[o.2 + 1]?).getD 0)
      else slice w.tokens (stop : Int) (w.tokens.length : Int)) =
      if src.elements.length = src.names then ((closeLast src.elements closers)[o.2]?).getD [] else src.listed := by
    by_cases hp : src.elements.length = src.names
    · rw [if_pos (hpaired.mpr hp), if_pos hp]
      refine cut_at hcut ?_
      rw [length_map, hlength, hp, source_names hsrc]
      exact hindex
    · rw [if_neg (fun h => hp (hpaired.mp h)), if_neg hp, hc.slice_listed hsrc htokens hstop]
  have hdeclared : src.declared (leafToken content n.label) o.2 = leafToken content n.label :: src.head ++
      if src.elements.length = src.names then ((closeLast src.elements closers)[o.2]?).getD [] else src.listed := by
    rw [Source.declared, if_neg (by rw [source_names hsrc]; omega), cons_append]
  rw [hat, hhead, hn, Option.getD_some, hdeclared, hvalue]

theorem finish_explicit (howned : Owned content spec.names owners) (hsrc : spec.source content = some src)
    (htokens : w.tokens = pre ++ stream (vocabulary D content) spec.node) (before : Option (Source D)) :
    finishOpen digest w e =
      { w with
          constTail := tailOf (some src)
          digested := w.digested ++ owners.map (spec.digested digest content ordinal before) } := by
  have hstop := hc.stop_eq hsrc
  generalize pre.length + 1 + spec.names.length + src.head.length = stop at hstop
  have hlisted := hc.slice_listed hsrc htokens hstop
  have hown : spec.init.isSome = true := by
    rw [ConstSpec.source, Option.map_eq_some_iff] at hsrc
    obtain ⟨init, hinit, -⟩ := hsrc
    rw [hinit]
    rfl
  have hsource : (spec.source content <|> before) = some src := by rw [hsrc]; rfl
  obtain ⟨last, hlast⟩ := hc.constMark_some
  have hmark : e.mark last + 1 = ((pre.length + spec.names.length + 1 : Nat) : Int) := by
    rw [hc.mark_last hlast]
    rfl
  have himplicit : e.implicit = false := by
    rw [hc.implicit]
    simpa using hown
  have htail : (slice w.tokens (e.mark last + 1) (stop : Int), tailElements w e stop) = tailOf (some src) := by
    rw [hmark, hc.slice_head hsrc htokens hstop, hc.tail_eq hsrc htokens hstop]
    rfl
  simp only [finishOpen, hlast, himplicit, hstop, Option.getD_some, Bool.false_eq_true, if_false, htail]
  unfold finishDigests
  simp only [hlisted, hlast, Option.isSome_some, Bool.true_and]
  by_cases hnone : owners = []
  · rw [if_pos (by rw [hc.syms, hnone]; rfl), hnone]
    simp
  · rw [if_neg (by rw [hc.syms]; simpa using hnone)]
    congr 2
    have hmade : (if e.names ≠ [] then finishDeclarators digest { w with constTail := tailOf (some src) } e stop
        else e.syms.map fun sym =>
          { sym := sym, ordinal := e.ordinal, index := 0
            signatureDigest := digest "signature" (slice w.tokens e.tokStart stop)
            semantic := digest "semantic" (slice w.tokens e.tokStart w.tokens.length) }) =
        owners.map fun o =>
          { sym := o.1, ordinal := ordinal, index := o.2
            signatureDigest := (spec.digested digest content ordinal before o).signatureDigest
            semantic := digest "semantic" (src.declared (leafToken content ((spec.names[o.2]?).getD spec.node).label) o.2) } := by
      by_cases hmulti : 1 < spec.names.length
      · have hne : e.names ≠ [] := by
          rw [hc.names, if_pos hmulti]
          simp [spec.names_ne]
        have hsingle : src.names ≠ 1 := by rw [source_names hsrc]; omega
        rw [if_pos hne, hc.declarators_eq digest (w := { w with constTail := tailOf (some src) }) howned hsrc hmulti htokens
          hstop]
        refine map_congr_left fun o _ => ?_
        simp [ConstSpec.digested, ConstSpec.reading, Reading.signature, hown, hsource, hsingle]
      · obtain ⟨n, hn⟩ := length_eq_one_iff.mp (spec.single_name hmulti)
        have hsingle : src.names = 1 := by rw [source_names hsrc, hn]; rfl
        have hwhole : slice w.tokens (e.tokStart : Int) (w.tokens.length : Int) =
            stream (vocabulary D content) spec.node := by
          rw [hc.tokStart]
          exact slice_mid pre _ [] (by simp [htokens]) rfl (by rw [htokens, length_append])
        have hheader : slice w.tokens (e.tokStart : Int) (stop : Int) =
            .opening "const_spec" :: leafToken content n.label :: src.head := by
          rw [hc.tokStart]
          refine slice_mid pre _ src.listed (by simp [htokens, stream_explicit hsrc, hn]) rfl ?_
          rw [hc.stop_eq hsrc, Option.some.injEq] at hstop
          rw [← hstop, hn]
          simp only [length_cons, length_nil]
          omega
        rw [if_neg (by rw [hc.names, if_neg hmulti]; simp), hwhole, hheader, hc.syms, map_map]
        refine map_congr_left fun o ho => ?_
        obtain ⟨m, hm, -⟩ := howned.named o ho
        have hzero : o.2 = 0 := by
          have := (List.getElem?_eq_some_iff.mp hm).1
          rw [hn, length_singleton] at this
          omega
        simp [ConstSpec.digested, ConstSpec.reading, Reading.signature, hown, hsource, hsingle, hn, hzero, hc.ordinal_eq,
          Source.declared, stream_explicit hsrc]
    rw [hmade, hc.ordinal_eq]
    cases hiota : src.listed.any Token.isIota with
    | true =>
      rw [if_pos rfl, map_map]
      refine map_congr_left fun o _ => ?_
      simp [ConstSpec.digested, ConstSpec.reading, Reading.semantic, hown, hsource, hiota]
    | false =>
      rw [if_neg (by simp)]
      refine map_congr_left fun o _ => ?_
      simp [ConstSpec.digested, ConstSpec.reading, Reading.semantic, hown, hsource, hiota]

end Closing

end

end

end Go
