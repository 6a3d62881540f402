import AgentContext.Adapters.GoGroup

/-!
# The Go adapter: which constants share a fingerprint

A constant's own meaning is its name, its type, its own value and, when an `iota` is in that value, the position of its
spec (`Reading.key`). The digest reads the same and, with it, how the constant is written: by a spec of its own or among
others, at the end of its list or not, after an `iota` that is another constant's (`Reading.form`).

    same fingerprint  ↔  same name, type, value read and form          (semantic_eq_iff)
    the fingerprint follows the meaning  ↔  constants of one meaning are written in one form, and no two that read
      the whole list of one name for several are mistaken                (follows_iff)
-/

namespace Go

open Bracketed List

section

variable {D : Type}
variable {s : Source D}

/-- What a constant means. -/
structure Key (D : Type) where
  name : Token D
  typ : List (Token D)
  value : List (Token D)
  position : Option Nat

/-- The brackets that come with the value: none at all, those of the list, none, or those that end the list. -/
inductive Wrap where
  | nothing
  | list
  | bare
  | closed
deriving DecidableEq

/-- How a constant is written: whether its whole spec is digested, which brackets come with the value, and the position
that is mixed in over the digest or within it. -/
structure Form where
  whole : Bool
  wrap : Wrap
  outer : Option Nat
  within : Option Nat
deriving DecidableEq

namespace Reading

variable (r : Reading D)

/-- The value of the constant: its own of a list as long as the names of its spec, the whole list otherwise. -/
def value : List (Token D) :=
  match r.source with
  | none => []
  | some s => if s.elements.length = r.names then (s.elements[r.index]?).getD [] else s.elements.flatten

def key : Key D where
  name := r.name
  typ := (r.source.map Source.typ).getD []
  value := r.value
  position := if r.value.any Token.isIota then some r.ordinal else none

/-- Whether the list that the constant reads its value from has an `iota`. -/
def counted : Bool := r.source.any fun s => s.elements.flatten.any Token.isIota

def position : Option Nat := if r.counted then some r.ordinal else none

/-- Several bare names that repeat the values of a one-name spec. -/
def Spread : Prop := r.own = false ∧ ∃ s, r.source = some s ∧ s.names = 1 ∧ s.elements.length = r.names ∧ 1 < r.names

/-- The brackets and the value that are digested. -/
def written : Wrap × List (Token D) :=
  match r.source with
  | none => (.nothing, [])
  | some s =>
    if s.names = 1 then (.list, s.elements.flatten)
    else if s.elements.length = r.names then
      (if r.index + 1 = r.names then .closed else .bare, (s.elements[r.index]?).getD [])
    else (if r.own then .list else .closed, s.elements.flatten)

def form : Form where
  whole := r.own && r.source.any fun s => s.names == 1
  wrap := r.written.1
  outer := if r.own then r.position else none
  within := if r.own then none else r.position

def read : List (Token D) := r.written.2

end Reading

/-! ## Readings of a parse -/

structure Source.Ok (content : Bytes) (s : Source D) : Prop where
  typ : s.typ = [] ∨ ∃ t : Node, skipped t.label.kind = false ∧ t.label.named = true ∧
    s.typ = stream (vocabulary D content) t
  elements_ne : s.elements ≠ []
  element : ∀ x ∈ s.elements, ∃ t : Node, skipped t.label.kind = false ∧ x = stream (vocabulary D content) t

structure Reading.Ok (content : Bytes) (r : Reading D) : Prop where
  name : ∃ kind text, r.name = .leaf kind text
  index : r.index < r.names
  source : ∀ s, r.source = some s → s.Ok content
  own : r.own = true → ∃ s, r.source = some s ∧ s.names = r.names

theorem ConstSpec.source_ok (spec : ConstSpec) (content : Bytes) (h : spec.source content = some s) :
    s.Ok content := by
  rw [ConstSpec.source, Option.map_eq_some_iff] at h
  obtain ⟨init, hinit, rfl⟩ := h
  refine ⟨?_, by simp [init.elements_ne], ?_⟩
  · cases htyp : init.typ with
    | none => exact .inl (by simp [streams])
    | some t =>
      have hmem : t ∈ unskipped spec.node.children := by
        rw [spec.children, hinit]
        simp [Init.nodes, htyp]
      exact .inr ⟨t, (mem_unskipped.mp hmem).2, (init.typ_ok t htyp).2, by simp [streams]⟩
  · intro x hx
    obtain ⟨t, ht, rfl⟩ := mem_map.mp hx
    exact ⟨t, (mem_unskipped.mp (init.list_children ▸ ht)).2, rfl⟩

theorem ConstSpec.before_ok (spec : ConstSpec) (content : Bytes) {before : Option (Source D)}
    (h : ∀ s, before = some s → s.Ok content) : ∀ s, (spec.source content <|> before) = some s → s.Ok content := by
  intro s hs
  cases hsrc : spec.source (D := D) content with
  | none =>
    rw [hsrc] at hs
    exact h s hs
  | some src =>
    rw [hsrc] at hs
    obtain rfl : src = s := Option.some.inj hs
    exact spec.source_ok content hsrc

theorem sourceAfter_ok (content : Bytes) (specs : List ConstSpec) :
    ∀ {before : Option (Source D)}, (∀ s, before = some s → s.Ok content) →
      ∀ s, sourceAfter content before specs = some s → s.Ok content := by
  induction specs with
  | nil => exact fun h s hs => h s hs
  | cons spec specs ih =>
    intro before h s hs
    exact ih (spec.before_ok content h) s hs

theorem ConstDecl.reading_ok (d : ConstDecl) (content : Bytes) {ordinal index : Nat} {r : Reading D}
    (h : d.reading content ordinal index = some r) : r.Ok content := by
  simp only [ConstDecl.reading, Option.bind_eq_bind, Option.bind_eq_some_iff, Option.some.injEq] at h
  obtain ⟨spec, -, n, hn, rfl⟩ := h
  refine ⟨?_, (List.getElem?_eq_some_iff.mp hn).1, ?_, ?_⟩
  · have hnamed := spec.names_named n (mem_of_getElem? hn)
    exact ⟨_, _, if_pos hnamed⟩
  · exact spec.before_ok content (sourceAfter_ok content _ (by simp))
  · intro hown
    obtain ⟨init, hinit⟩ := Option.isSome_iff_exists.mp hown
    exact ⟨_, by rw [ConstSpec.reading, ConstSpec.source, hinit]; rfl, rfl⟩

/-! ## The digest of a form -/

def Wrap.around : Wrap → List (Token D) → List (Token D)
  | .nothing, _ => []
  | .list, value => .opening "expression_list" :: (value ++ closers)
  | .bare, value => value
  | .closed, value => value ++ closers

namespace Reading

variable (r : Reading D)

/-- The tokens that are digested first, in the words of the form. -/
def tokens : List (Token D) :=
  (if r.form.whole then [.opening "const_spec"] else []) ++
    r.name :: ((r.source.map Source.head).getD [] ++ ((r.form.within.map Token.ordinal).toList ++ r.form.wrap.around r.read))

end Reading

theorem closeLast_getElem? {α : Type} (es : List (List α)) (z : List α) {i : Nat} (hi : i < es.length) :
    ((closeLast es z)[i]?).getD [] = (es[i]?).getD [] ++ if i + 1 = es.length then z else [] := by
  induction es generalizing i with
  | nil => simp at hi
  | cons e es ih =>
    cases es with
    | nil =>
      obtain rfl : i = 0 := by simpa using hi
      simp [closeLast]
    | cons e' es =>
      cases i with
      | zero => simp [closeLast]
      | succ i =>
        have := ih (i := i) (by simpa using hi)
        simpa [closeLast] using this

@[simp] theorem closers_iota : (closers (D := D)).any Token.isIota = false := rfl

theorem listed_iota (s : Source D) : s.listed.any Token.isIota = s.elements.flatten.any Token.isIota := by
  rw [Source.listed, any_cons, any_append, closers_iota, Bool.or_false]
  rfl

theorem tail_iota {content : Bytes} (h : s.Ok content) :
    s.tail.flatten.any Token.isIota = s.elements.flatten.any Token.isIota := by
  unfold Source.tail
  split
  · rw [flatten_singleton, listed_iota]
  · rw [flatten_closeLast h.elements_ne, any_append, closers_iota, Bool.or_false]

variable (digest : String → List (Token D) → D) {content : Bytes} {r : Reading D}

section

variable (hok : r.Ok content)
include hok

theorem declared_tokens (hown : r.own = true) (hs : r.source = some s) :
    s.declared r.name r.index = r.tokens := by
  obtain ⟨s', hs', hnames⟩ := hok.own hown
  obtain rfl : s' = s := Option.some.inj (hs'.symm.trans hs)
  have hindex := hok.index
  unfold Source.declared Reading.tokens Reading.form Reading.read Reading.written
  simp only [hs, hown, Option.any_some, Bool.true_and, if_true, Option.map_some, Option.getD_some, Option.map_none,
    Option.toList_none, nil_append]
  by_cases hone : s'.names = 1
  · simp [hone, Wrap.around, Source.listed]
  · have hone' : r.names ≠ 1 := hnames ▸ hone
    by_cases hpaired : s'.elements.length = r.names
    · have hcut := closeLast_getElem? s'.elements (closers (D := D)) (i := r.index) (by omega)
      by_cases hlast : r.index + 1 = r.names <;> simp [hone', hpaired, hnames, hlast, hcut, Wrap.around]
    · simp [hone', hpaired, hnames, Wrap.around, Source.listed]

theorem repeated_value (hown : r.own = false) (hs : r.source = some s) :
    (if s.tail.length = r.names then (s.tail[r.index]?).getD [] else s.tail.flatten) = r.written.1.around r.written.2 := by
  have hindex := hok.index
  unfold Reading.written
  simp only [hs, hown]
  by_cases hone : s.names = 1
  · have htail : s.tail = [s.listed] := if_pos hone
    rw [htail, if_pos hone, length_singleton, flatten_singleton]
    by_cases hsingle : 1 = r.names
    · have hzero : r.index = 0 := by omega
      rw [if_pos hsingle, hzero]
      rfl
    · rw [if_neg hsingle]
      rfl
  · have htail : s.tail = closeLast s.elements closers := if_neg hone
    rw [htail, length_closeLast, if_neg hone]
    by_cases hpaired : s.elements.length = r.names
    · rw [if_pos hpaired, if_pos hpaired, closeLast_getElem? _ _ (by omega), hpaired]
      split
      · rfl
      · rw [append_nil]
        rfl
    · rw [if_neg hpaired, if_neg hpaired, flatten_closeLast (hok.source s hs).elements_ne]
      rfl

theorem repeated_tokens (hown : r.own = false) : r.repeated = r.tokens := by
  have hindex := hok.index
  cases hs : r.source with
  | none =>
    have hnames : ¬0 = r.names := by omega
    simp [Reading.repeated, Reading.tokens, Reading.form, Reading.read, Reading.written, Reading.position, Reading.counted,
      hs, hown, tailOf, hnames, Wrap.around]
  | some s =>
    have hvalue := repeated_value hok hown hs
    have hposition : (if s.tail.flatten.any Token.isIota then [Token.ordinal r.ordinal] else []) =
        (r.position.map (Token.ordinal (D := D))).toList := by
      simp only [tail_iota (hok.source s hs), Reading.position, Reading.counted, hs, Option.any_some]
      split <;> rfl
    simp only [Reading.repeated, hs, tailOf, hvalue, hposition]
    simp [Reading.tokens, Reading.form, Reading.read, hs, hown]

theorem semantic_eq : r.semantic digest =
      match r.form.outer with
      | none => digest "semantic" r.tokens
      | some n => digest "semantic" [.hex (digest "semantic" r.tokens), .ordinal n] := by
  cases hown : r.own with
  | false =>
    have hover : r.form.outer = none := by simp [Reading.form, hown]
    rw [hover, ← repeated_tokens hok hown]
    simp [Reading.semantic, hown]
  | true =>
    obtain ⟨s, hs, -⟩ := hok.own hown
    have hover : r.form.outer = if s.listed.any Token.isIota then some r.ordinal else none := by
      simp [Reading.form, hown, Reading.position, Reading.counted, hs, listed_iota]
    rw [hover, ← declared_tokens hok hown hs]
    simp only [Reading.semantic, hown, hs]
    cases s.listed.any Token.isIota <;> rfl

end

/-! ## Telling the forms apart -/

def Token.isOrdinal : Token D → Bool
  | .ordinal _ => true
  | _ => false

theorem stream_head (content : Bytes) {t : Node} (h : skipped t.label.kind = false) :
    ∃ x xs, stream (vocabulary D content) t = x :: xs ∧ x.isOrdinal = false ∧ (t.label.named = true → x ≠ .anon "=") := by
  rcases eq_or_ne t.children [] with hleaf | hinner
  · refine ⟨_, _, stream_leaf _ h hleaf, ?_, ?_⟩
    · show (leafToken content t.label : Token D).isOrdinal = false
      unfold leafToken
      split <;> rfl
    · intro hnamed
      show (leafToken content t.label : Token D) ≠ .anon "="
      rw [leafToken, if_pos hnamed]
      exact fun h => by cases h
  · exact ⟨_, _, stream_inner _ h hinner, rfl, fun _ h => by cases h⟩

/-- What is read of a source: at least one token, no position, and as many closings as openings. -/
theorem read_some (hok : r.Ok content) (hs : r.source = some s) :
    (∃ x xs, r.read = x :: xs ∧ x.isOrdinal = false) ∧ net (vocabulary D content) r.read = 0 ∧ r.form.wrap ≠ .nothing := by
  have hsok := hok.source s hs
  have hindex := hok.index
  have helement : ∀ x ∈ s.elements, (∃ y ys, x = y :: ys ∧ y.isOrdinal = false) ∧ net (vocabulary D content) x = 0 := by
    intro x hx
    obtain ⟨t, ht, rfl⟩ := hsok.element x hx
    obtain ⟨y, ys, hy, hordinal, -⟩ := stream_head (D := D) content ht
    exact ⟨⟨y, ys, hy, hordinal⟩, net_stream _ t⟩
  have hflat : (∃ y ys, s.elements.flatten = y :: ys ∧ y.isOrdinal = false) ∧
      net (vocabulary D content) s.elements.flatten = 0 := by
    constructor
    · obtain ⟨x, xs, hxs⟩ := exists_cons_of_ne_nil hsok.elements_ne
      obtain ⟨⟨y, ys, hy, hordinal⟩, -⟩ := helement x (by simp [hxs])
      exact ⟨y, ys ++ xs.flatten, by simp [hxs, hy], hordinal⟩
    · have hnet : ∀ xs : List (List (Token D)), (∀ x ∈ xs, net (vocabulary D content) x = 0) →
          net (vocabulary D content) xs.flatten = 0 := by
        intro xs
        induction xs with
        | nil => exact fun _ => rfl
        | cons x xs ih =>
          intro h
          rw [flatten_cons, net_append, h x mem_cons_self, ih fun y hy => h y (mem_cons_of_mem _ hy)]
          rfl
      exact hnet _ fun x hx => (helement x hx).2
  unfold Reading.form Reading.read Reading.written
  simp only [hs]
  by_cases hone : s.names = 1
  · rw [if_pos hone]
    exact ⟨hflat.1, hflat.2, by simp⟩
  · rw [if_neg hone]
    by_cases hpaired : s.elements.length = r.names
    · rw [if_pos hpaired]
      have hlt : r.index < s.elements.length := by omega
      rw [getElem?_eq_getElem hlt, Option.getD_some]
      obtain ⟨hhead, hnet⟩ := helement _ (getElem_mem hlt)
      refine ⟨hhead, hnet, ?_⟩
      simp only
      split <;> simp
    · rw [if_neg hpaired]
      refine ⟨hflat.1, hflat.2, ?_⟩
      simp only
      split <;> simp

theorem written_none (hs : r.source = none) : r.form.wrap = .nothing ∧ r.read = [] ∧ r.form.within = none := by
  simp [Reading.form, Reading.read, Reading.written, Reading.position, Reading.counted, hs]

variable {content' : Bytes} {r' : Reading D}
variable {xs ys : List (Token D)}

/-- The type ends at the equals sign. -/
theorem head_inj {s s' : Source D} (h : s.Ok content) (h' : s'.Ok content') (heq : s.head ++ xs = s'.head ++ ys) :
    s.typ = s'.typ ∧ xs = ys := by
  have hne : ∀ {content : Bytes} {t : Node} {xs ys : List (Token D)}, skipped t.label.kind = false → t.label.named = true →
      Token.anon "=" :: xs ≠ stream (vocabulary D content) t ++ ys := by
    intro content t xs ys hskip hnamed h
    obtain ⟨x, zs, hstream, -, hx⟩ := stream_head (D := D) content hskip
    rw [hstream, cons_append, cons.injEq] at h
    exact hx hnamed h.1.symm
  simp only [Source.head, append_assoc, singleton_append] at heq
  rcases h.typ with htyp | ⟨t, hskip, hnamed, htyp⟩ <;> rcases h'.typ with htyp' | ⟨t', hskip', hnamed', htyp'⟩ <;>
    rw [htyp, htyp'] at heq ⊢
  · exact ⟨rfl, (cons.inj heq).2⟩
  · exact absurd heq (hne hskip' hnamed')
  · exact absurd heq.symm (hne hskip hnamed)
  · obtain ⟨hstream, hrest⟩ := stream_append_inj (weight_eq content content') hskip hskip' heq
    exact ⟨hstream, (cons.inj hrest).2⟩

/-- The brackets of a value show in how many of its tokens are openings and closings. -/
theorem around_inj {wrap wrap' : Wrap} {value value' : List (Token D)} (hwrap : wrap ≠ .nothing) (hwrap' : wrap' ≠ .nothing)
    (hnet : net (vocabulary D content) value = 0) (hnet' : net (vocabulary D content') value' = 0)
    (h : wrap.around value = wrap'.around value') : wrap = wrap' ∧ value = value' := by
  have hweigh : ∀ {content : Bytes} {wrap : Wrap} {value : List (Token D)}, wrap ≠ .nothing →
      net (vocabulary D content) value = 0 → net (vocabulary D content) (wrap.around value) =
        match wrap with | .nothing => 0 | .list => -1 | .bare => 0 | .closed => -2 := by
    intro content wrap value hwrap hnet
    cases wrap <;> simp [Wrap.around, closers, hnet] at hwrap ⊢
  have hsame := hweigh hwrap hnet
  rw [h, net_congr (weight_eq content content'), hweigh hwrap' hnet'] at hsame
  cases wrap <;> cases wrap' <;> simp at hsame hwrap hwrap' <;> simp [Wrap.around] at h <;> exact ⟨rfl, h⟩

theorem around_head {wrap : Wrap} {value : List (Token D)} (hwrap : wrap ≠ .nothing)
    (h : ∃ x xs, value = x :: xs ∧ x.isOrdinal = false) : ∃ x xs, wrap.around value = x :: xs ∧ x.isOrdinal = false := by
  obtain ⟨x, xs, rfl, hx⟩ := h
  cases wrap with
  | nothing => exact absurd rfl hwrap
  | list => exact ⟨_, _, rfl, rfl⟩
  | bare | closed => exact ⟨_, _, rfl, hx⟩

/-- A position before a value is not taken for a part of it. -/
theorem within_inj {n n' : Option Nat} (hxs : ∃ x zs, xs = x :: zs ∧ x.isOrdinal = false)
    (hys : ∃ y zs, ys = y :: zs ∧ y.isOrdinal = false)
    (h : (n.map Token.ordinal).toList ++ xs = (n'.map Token.ordinal).toList ++ ys) : n = n' ∧ xs = ys := by
  obtain ⟨x, xs, rfl, hx⟩ := hxs
  obtain ⟨y, ys, rfl, hy⟩ := hys
  cases n with
  | none =>
    cases n' with
    | none => exact ⟨rfl, h⟩
    | some k =>
      obtain rfl : x = .ordinal k := (cons.inj h).1
      cases hx
  | some k =>
    cases n' with
    | none =>
      obtain rfl : .ordinal k = y := (cons.inj h).1
      cases hy
    | some k' =>
      obtain ⟨hk, hrest⟩ := cons.inj h
      cases hk
      exact ⟨rfl, hrest⟩

/-- What is digested first tells the name, the type, the value and their form. -/
theorem tokens_inj (hok : r.Ok content) (hok' : r'.Ok content') (h : r.tokens = r'.tokens) :
    r.name = r'.name ∧ r.source.map Source.typ = r'.source.map Source.typ ∧ r.read = r'.read ∧
      r.form.whole = r'.form.whole ∧ r.form.wrap = r'.form.wrap ∧ r.form.within = r'.form.within := by
  obtain ⟨kind, text, hname⟩ := hok.name
  obtain ⟨kind', text', hname'⟩ := hok'.name
  have hwhole : r.form.whole = r'.form.whole := by
    cases hw : r.form.whole <;> cases hw' : r'.form.whole <;> simp [Reading.tokens, hw, hw', hname, hname'] at h ⊢
  simp only [Reading.tokens, hwhole, append_cancel_left_eq, cons.injEq] at h
  obtain ⟨hnames, h⟩ := h
  refine ⟨hnames, ?_⟩
  cases hs : r.source with
  | none =>
    obtain ⟨hwrap, hread, hwithin⟩ := written_none hs
    cases hs' : r'.source with
    | none =>
      obtain ⟨hwrap', hread', hwithin'⟩ := written_none hs'
      simp [hread, hread', hwhole, hwrap, hwrap', hwithin, hwithin']
    | some s' => simp [hs, hs', hwrap, hread, hwithin, Wrap.around, Source.head] at h
  | some s =>
    cases hs' : r'.source with
    | none =>
      obtain ⟨hwrap', hread', hwithin'⟩ := written_none hs'
      simp [hs, hs', hwrap', hread', hwithin', Wrap.around, Source.head] at h
    | some s' =>
      rw [hs, hs'] at h
      obtain ⟨htyp, h⟩ := head_inj (hok.source s hs) (hok'.source s' hs') h
      obtain ⟨hhead, hnet, hwrap⟩ := read_some hok hs
      obtain ⟨hhead', hnet', hwrap'⟩ := read_some hok' hs'
      obtain ⟨hwithin, h⟩ := within_inj (around_head hwrap hhead) (around_head hwrap' hhead') h
      obtain ⟨hwraps, hread⟩ := around_inj hwrap hwrap' hnet hnet' h
      exact ⟨congrArg some htyp, hread, hwhole, hwraps, hwithin⟩

/-- Two constants have one fingerprint exactly when they have one name, type and form and the same value is read. -/
theorem semantic_eq_iff (hdigest : Function.Injective (digest "semantic")) (hok : r.Ok content) (hok' : r'.Ok content') :
    r.semantic digest = r'.semantic digest ↔
      r.name = r'.name ∧ r.source.map Source.typ = r'.source.map Source.typ ∧ r.read = r'.read ∧ r.form = r'.form := by
  constructor
  · intro h
    have hplain : r.tokens = r'.tokens ∧ r.form.outer = r'.form.outer := by
      obtain ⟨kind, text, hname⟩ := hok.name
      obtain ⟨kind', text', hname'⟩ := hok'.name
      rw [semantic_eq digest hok, semantic_eq digest hok'] at h
      cases hover : r.form.outer with
      | none =>
        cases hover' : r'.form.outer with
        | none =>
          rw [hover, hover'] at h
          exact ⟨hdigest h, rfl⟩
        | some n =>
          rw [hover, hover'] at h
          have := hdigest h
          cases hw : r.form.whole <;> simp [Reading.tokens, hw, hname] at this
      | some n =>
        cases hover' : r'.form.outer with
        | none =>
          rw [hover, hover'] at h
          have := hdigest h
          cases hw : r'.form.whole <;> simp [Reading.tokens, hw, hname'] at this
        | some n' =>
          rw [hover, hover'] at h
          obtain ⟨hhex, hrest⟩ := cons.inj (hdigest h)
          injection hhex with hhex
          cases hrest
          exact ⟨hdigest hhex, rfl⟩
    obtain ⟨hname, htyp, hread, hwhole, hwrap, hwithin⟩ := tokens_inj hok hok' hplain.1
    refine ⟨hname, htyp, hread, ?_⟩
    cases hf : r.form
    cases hf' : r'.form
    simp_all
  · rintro ⟨hname, htyp, hread, hform⟩
    have hhead : r.source.map Source.head = r'.source.map Source.head := by
      have := congrArg (Option.map fun t : List (Token D) => t ++ [Token.anon "="]) htyp
      rwa [Option.map_map, Option.map_map] at this
    have htokens : r.tokens = r'.tokens := by simp only [Reading.tokens, hform, hname, hhead, hread]
    rw [semantic_eq digest hok, semantic_eq digest hok', hform, htokens]

/-! ## When the fingerprint follows the meaning -/

/-- Written in one form; bare names that share a list of one name also with the same list. -/
def Reading.Alike (r r' : Reading D) : Prop := r.form = r'.form ∧ (r.Spread ∨ r'.Spread → r.read = r'.read)

/-- Written alike with a list that is shared by bare names, so that nothing tells which of its values is meant. -/
def Reading.Mistaken (r r' : Reading D) : Prop :=
  (r.Spread ∨ r'.Spread) ∧ r.name = r'.name ∧ r.source.map Source.typ = r'.source.map Source.typ ∧
    r.form = r'.form ∧ r.read = r'.read

/-- Only bare names that repeat the values of one name read more than their own value. -/
theorem read_eq_value (hok : r.Ok content) (h : ¬r.Spread) : r.read = r.value := by
  unfold Reading.read Reading.value Reading.written
  cases hs : r.source with
  | none => rfl
  | some s =>
    simp only
    by_cases hone : s.names = 1
    · rw [if_pos hone]
      by_cases hpaired : s.elements.length = r.names
      · have hindex := hok.index
        have hnames : r.names = 1 := by
          cases hown : r.own with
          | true =>
            obtain ⟨s', hs', hnames⟩ := hok.own hown
            obtain rfl : s' = s := Option.some.inj (hs'.symm.trans hs)
            exact hnames.symm.trans hone
          | false =>
            by_contra hne
            exact h ⟨hown, s, hs, hone, hpaired, by omega⟩
        obtain ⟨x, hx⟩ := length_eq_one_iff.mp (hpaired.trans hnames)
        have hzero : r.index = 0 := by omega
        rw [if_pos hpaired, hx, hzero]
        simp
      · rw [if_neg hpaired]
    · rw [if_neg hone]
      split <;> rfl

theorem value_counted (h : r.value.any Token.isIota = true) : r.counted = true := by
  unfold Reading.value at h
  unfold Reading.counted
  cases hs : r.source with
  | none =>
    rw [hs] at h
    cases h
  | some s =>
    rw [hs] at h
    simp only [Option.any_some] at h ⊢
    split at h
    · rw [any_flatten, any_eq_true]
      cases hx : s.elements[r.index]? with
      | none =>
        rw [hx] at h
        cases h
      | some x =>
        rw [hx] at h
        exact ⟨x, mem_of_getElem? hx, h⟩
    · exact h

/-- Constants of one form with an `iota` in their values are at one position. -/
theorem ordinal_eq (hform : r.form = r'.form) (hcounted : r.counted = true) (hcounted' : r'.counted = true) :
    r.ordinal = r'.ordinal := by
  have hover := congrArg Form.outer hform
  have hwithin := congrArg Form.within hform
  simp only [Reading.form, Reading.position, hcounted, hcounted', if_true] at hover hwithin
  cases hown : r.own <;> cases hown' : r'.own <;> simp_all

theorem value_ne_nil (hok : r.Ok content) (hs : r.source = some s) : r.value ≠ [] := by
  have hne : ∀ x ∈ s.elements, x ≠ [] := by
    intro x hx
    obtain ⟨t, ht, rfl⟩ := (hok.source s hs).element x hx
    exact stream_ne_nil _ ht
  have hindex := hok.index
  simp only [Reading.value, hs]
  split
  · have hlt : r.index < s.elements.length := by omega
    rw [getElem?_eq_getElem hlt]
    exact hne _ (getElem_mem hlt)
  · obtain ⟨x, xs, hxs⟩ := exists_cons_of_ne_nil (hok.source s hs).elements_ne
    have := hne x (by simp [hxs])
    simp [hxs, this]

/-- Constants of one meaning both have a type and a value, or both have none. -/
theorem typ_eq (hok : r.Ok content) (hok' : r'.Ok content') (h : r.key = r'.key) :
    r.source.map Source.typ = r'.source.map Source.typ := by
  have htyp := congrArg Key.typ h
  have hvalue : r.value = r'.value := congrArg Key.value h
  cases hs : r.source with
  | none =>
    cases hs' : r'.source with
    | none => rfl
    | some s' =>
      refine absurd ?_ (value_ne_nil hok' hs')
      rw [← hvalue]
      simp [Reading.value, hs]
  | some s =>
    cases hs' : r'.source with
    | none =>
      refine absurd ?_ (value_ne_nil hok hs)
      rw [hvalue]
      simp [Reading.value, hs']
    | some s' => simpa [Reading.key, hs, hs'] using htyp

/-- **Fingerprints and meanings.** A fingerprint follows the meaning between two constants exactly when the two, if they
mean the same, are written alike, and, if they do not, are not mistaken. -/
theorem follows_iff (hdigest : Function.Injective (digest "semantic")) (hok : r.Ok content) (hok' : r'.Ok content') :
    (r.semantic digest = r'.semantic digest ↔ r.key = r'.key) ↔
      (r.key = r'.key → r.Alike r') ∧ (r.key ≠ r'.key → ¬r.Mistaken r') := by
  rw [semantic_eq_iff digest hdigest hok hok']
  constructor
  · intro h
    refine ⟨fun hkey => ?_, fun hkey ⟨_, hname, htyp, hform, hread⟩ => hkey (h.mp ⟨hname, htyp, hread, hform⟩)⟩
    obtain ⟨-, -, hread, hform⟩ := h.mpr hkey
    exact ⟨hform, fun _ => hread⟩
  · rintro ⟨halike, hmistaken⟩
    constructor
    · rintro ⟨hname, htyp, hread, hform⟩
      by_contra hkey
      have hspread : ¬(r.Spread ∨ r'.Spread) := fun hspread => hmistaken hkey ⟨hspread, hname, htyp, hform, hread⟩
      rw [not_or] at hspread
      have hvalue : r.value = r'.value := by rw [← read_eq_value hok hspread.1, hread, read_eq_value hok' hspread.2]
      refine hkey ?_
      have hposition : r.key.position = r'.key.position := by
        simp only [Reading.key, hvalue]
        split
        · rename_i hiota
          rw [ordinal_eq hform (value_counted (hvalue ▸ hiota)) (value_counted hiota)]
        · rfl
      simp only [Reading.key, Key.mk.injEq] at hposition ⊢
      exact ⟨hname, by rw [htyp], hvalue, hposition⟩
    · intro hkey
      obtain ⟨hform, hspread⟩ := halike hkey
      refine ⟨congrArg Key.name hkey, typ_eq hok hok' hkey, ?_, hform⟩
      by_cases h : r.Spread ∨ r'.Spread
      · exact hspread h
      · rw [not_or] at h
        rw [read_eq_value hok h.1, read_eq_value hok' h.2]
        exact congrArg Key.value hkey

end

end Go
