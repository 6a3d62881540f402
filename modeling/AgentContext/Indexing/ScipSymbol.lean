import Mathlib

/-!
# The grammar of SCIP symbols

`is_valid_symbol` of `scip.py`, and the grammar it reads, from the vendored `scip.proto`.  A space ends a field and two
spaces are a space of it, so one text may be read in more than one way; the recogniser reads it once, from left to right.

    isValidSymbol       the recogniser
    Symbol              the grammar, over what a field after the scheme may be
    nameEnd_name        an identifier is read to its end
    takeField_doubled   of two fields, the spaces between them go to the first
    isValidSymbol_iff   accepted are the symbols that have a reading in which no field is blank
-/

namespace AgentContext.Scip

open List

/-! ## The recogniser -/

/-- `_IDENT_CHARS`. -/
def isIdentChar (c : Char) : Bool := c.isAlphanum || c = '_' || c = '+' || c = '-' || c = '$'

/-- `_SUFFIXES`. -/
def suffixes : List Char := ['/', '#', '.', ':', '!']

def backtick : Char := Char.ofNat 96

def isControl (c : Char) : Bool := c.toNat < 32 || c.toNat = 127

/-- The loop over an escaped name; `special` once a character needed the escape. -/
def escapedEnd : Bool → List Char → Option (List Char)
  | _, [] => none
  | special, c :: rest =>
    if c ≠ backtick then escapedEnd (special || !isIdentChar c) rest
    else
      match rest with
      | [] => if special then some [] else none
      | d :: after => if d = backtick then escapedEnd true after else if special then some (d :: after) else none

/-- `_name_end`: the text after the identifier. -/
def nameEnd (text : List Char) : Option (List Char) :=
  if text.head? = some backtick then escapedEnd false text.tail
  else if text.takeWhile isIdentChar = [] then none
  else some (text.dropWhile isIdentChar)

/-- The text after some characters that must come next. -/
def expect (symbols text : List Char) : Option (List Char) :=
  if symbols.isPrefixOf text then some (text.drop symbols.length) else none

/-- What comes after a name: a suffix, or the parentheses of a method. -/
def suffixEnd (text : List Char) : Option (List Char) :=
  match text with
  | [] => none
  | c :: rest =>
    if c ∈ suffixes then some rest
    else if c = '(' then expect [')', '.'] (rest.dropWhile isIdentChar)
    else none

/-- One turn of `_valid_descriptors`: the text after the descriptor. -/
def descriptorEnd (text : List Char) : Option (List Char) :=
  match text with
  | [] => none
  | opener :: inner =>
    if opener = '(' then (nameEnd inner).bind (expect [')'])
    else if opener = '[' then (nameEnd inner).bind (expect [']'])
    else (nameEnd text).bind suffixEnd

/-- The scan of a field: up to a space that stands alone. -/
def fieldEnd : List Char → List Char
  | [] => []
  | c :: rest =>
    if c ≠ ' ' then fieldEnd rest
    else
      match rest with
      | [] => [c]
      | d :: after => if d = ' ' then fieldEnd after else c :: d :: after

/-- One turn of the loop over scheme, manager, package name and version. -/
def takeField (text : List Char) (field : Nat) : Option (List Char) :=
  if (fieldEnd text).length = text.length ∨ fieldEnd text = [] then none
  else if field = 0 ∧ "local".toList.isPrefixOf text then none
  else some (fieldEnd text).tail

/-! ## The grammar -/

/-- An escape: the character is written twice. -/
def doubled (q : Char) (text : List Char) : List Char := text.flatMap fun c => if c = q then [q, q] else [c]

/-- `<simple-identifier>`. -/
def Simple (text : List Char) : Prop := text ≠ [] ∧ ∀ c ∈ text, isIdentChar c = true

/-- `<identifier>`. -/
inductive Name : List Char → Prop where
  | simple {text : List Char} : Simple text → Name text
  | escaped {content : List Char} : (∃ c ∈ content, isIdentChar c = false) →
      Name (backtick :: (doubled backtick content ++ [backtick]))

/-- `<descriptor>`. -/
inductive Descriptor : List Char → Prop where
  | suffixed {name : List Char} {suffix : Char} : Name name → suffix ∈ suffixes → Descriptor (name ++ [suffix])
  | method {name disambiguator : List Char} : Name name → disambiguator = [] ∨ Simple disambiguator →
      Descriptor (name ++ '(' :: (disambiguator ++ [')', '.']))
  | typeParameter {name : List Char} : Name name → Descriptor ('[' :: (name ++ [']']))
  | parameter {name : List Char} : Name name → Descriptor ('(' :: (name ++ [')']))

/-- `<symbol>`; `Field` says what may be said of manager, package name and version. -/
inductive Symbol (Field : List Char → Prop) : List Char → Prop where
  | localId {name : List Char} : Simple name → Symbol Field ("local ".toList ++ name)
  | globalId {scheme manager name version : List Char} {descriptors : List (List Char)} :
      scheme ≠ [] → ¬ "local".toList <+: scheme →
      (∀ field ∈ [manager, name, version], field ≠ [] ∧ Field field) →
      descriptors ≠ [] → (∀ descriptor ∈ descriptors, Descriptor descriptor) →
      Symbol Field (doubled ' ' scheme ++ ' ' :: (doubled ' ' manager ++ ' ' :: (doubled ' ' name ++
        ' ' :: (doubled ' ' version ++ ' ' :: descriptors.flatten))))

/-- A field that is not made of spaces. -/
def Inked (field : List Char) : Prop := ∃ c ∈ field, c ≠ ' '

/-! ## Names -/

variable {text rest name content : List Char} {q c : Char} {special : Bool}
variable {descriptor : List Char} {n : Nat}

theorem doubled_cons : doubled q (c :: text) = (if c = q then [q, q] else [c]) ++ doubled q text := rfl

theorem doubled_append : doubled q (text ++ rest) = doubled q text ++ doubled q rest := flatMap_append

theorem length_le_doubled : text.length ≤ (doubled q text).length := by
  induction text with
  | nil => exact Nat.le_refl _
  | cons c text ih =>
    rw [doubled_cons, length_append, length_cons]
    split <;> simp only [length_cons, length_nil] <;> omega

theorem escapedEnd_plain (h : c ≠ backtick) :
    escapedEnd special (c :: text) = escapedEnd (special || !isIdentChar c) text := by
  cases text <;> exact if_pos h

theorem escapedEnd_twice : escapedEnd special (backtick :: backtick :: text) = escapedEnd true text := rfl

theorem escapedEnd_close (h : rest.head? ≠ some backtick) :
    escapedEnd special (backtick :: rest) = if special then some rest else none := by
  cases rest with
  | nil => rfl
  | cons d rest =>
    show (if d = backtick then escapedEnd true rest else _) = _
    exact if_neg fun heq => h (by rw [heq]; rfl)

/-- An escaped name is read to the backtick that closes it. -/
theorem escapedEnd_doubled (h : rest.head? ≠ some backtick) :
    escapedEnd special (doubled backtick content ++ backtick :: rest) =
      if special = true ∨ ∃ c ∈ content, isIdentChar c = false then some rest else none := by
  induction content generalizing special with
  | nil =>
    show escapedEnd special (backtick :: rest) = _
    rw [escapedEnd_close h]
    simp
  | cons c content ih =>
    rw [doubled_cons]
    by_cases hc : c = backtick
    · have hspecial : isIdentChar backtick = false := by decide
      rw [if_pos hc, append_assoc]
      show escapedEnd special (backtick :: backtick :: (doubled backtick content ++ backtick :: rest)) = _
      rw [escapedEnd_twice, ih, if_pos (.inl rfl), if_pos (.inr ⟨c, mem_cons_self, hc ▸ hspecial⟩)]
    · rw [if_neg hc, append_assoc, singleton_append, escapedEnd_plain hc, ih]
      refine if_congr ?_ rfl rfl
      cases hident : isIdentChar c <;> simp [hident]

theorem escapedEnd_sound (h : escapedEnd special text = some rest) :
    ∃ content, text = doubled backtick content ++ backtick :: rest ∧
      (special = true ∨ ∃ c ∈ content, isIdentChar c = false) := by
  fun_induction escapedEnd special text with
  | case1 | case4 | case7 => cases h
  | case2 special c text hc ih =>
    obtain ⟨content, rfl, hspecial⟩ := ih h
    refine ⟨c :: content, by rw [doubled_cons, if_neg hc]; rfl, ?_⟩
    rcases hspecial with hspecial | ⟨d, hd, hident⟩
    · rcases Bool.or_eq_true_iff.1 hspecial with hspecial | hident
      · exact .inl hspecial
      · exact .inr ⟨c, mem_cons_self, by simpa using hident⟩
    · exact .inr ⟨d, mem_cons_of_mem _ hd, hident⟩
  | case3 _ hc | case6 _ hc =>
    cases h
    exact ⟨[], by rw [not_not.1 hc]; rfl, .inl rfl⟩
  | case5 special c hc after ih =>
    obtain ⟨content, rfl, -⟩ := ih h
    exact ⟨backtick :: content, by rw [doubled_cons, if_pos rfl, not_not.1 hc]; rfl,
      .inr ⟨backtick, mem_cons_self, by decide⟩⟩

theorem isIdentChar_ne (h : isIdentChar c = true) : c ≠ backtick ∧ c ≠ '(' ∧ c ≠ '[' ∧ c ≠ ' ' := by
  refine ⟨?_, ?_, ?_, ?_⟩ <;> rintro rfl <;> exact absurd h (by decide)

theorem nameEnd_sound (h : nameEnd text = some rest) : ∃ name, Name name ∧ text = name ++ rest := by
  unfold nameEnd at h
  split at h
  · next htick =>
    obtain ⟨content, htail, hspecial⟩ := escapedEnd_sound h
    refine ⟨_, .escaped (hspecial.resolve_left (by decide)), ?_⟩
    obtain ⟨tail, rfl⟩ := List.head?_eq_some_iff.1 htick
    rw [tail_cons] at htail
    rw [htail, cons_append, append_assoc]
    rfl
  · split at h
    · cases h
    · next hne =>
      cases h
      exact ⟨text.takeWhile isIdentChar, .simple ⟨hne, fun c hc => mem_takeWhile_imp hc⟩,
        takeWhile_append_dropWhile.symm⟩

/-- An identifier is read to its end, where what follows is no part of one. -/
theorem nameEnd_name (hname : Name name) (h : ∀ c ∈ rest.head?, isIdentChar c = false ∧ c ≠ backtick) :
    nameEnd (name ++ rest) = some rest := by
  cases hname with
  | simple hsimple =>
    obtain ⟨hne, hall⟩ := hsimple
    have hstop : rest.takeWhile isIdentChar = [] ∧ rest.dropWhile isIdentChar = rest := by
      cases rest with
      | nil => exact ⟨rfl, rfl⟩
      | cons c rest =>
        have hc : ¬ isIdentChar c = true := by rw [(h c rfl).1]; decide
        exact ⟨takeWhile_cons_of_neg hc, dropWhile_cons_of_neg hc⟩
    have hfirst : (name ++ rest).head? ≠ some backtick := by
      obtain ⟨c, name, rfl⟩ := exists_cons_of_ne_nil hne
      rw [cons_append, List.head?_cons, ne_eq, Option.some.injEq]
      exact (isIdentChar_ne (hall c mem_cons_self)).1
    unfold nameEnd
    rw [if_neg hfirst, takeWhile_append_of_pos hall, dropWhile_append_of_pos hall, hstop.1, hstop.2,
      append_nil, if_neg hne]
  | escaped hspecial =>
    unfold nameEnd
    rw [cons_append, List.head?_cons, if_pos rfl, tail_cons, append_assoc, singleton_append,
      escapedEnd_doubled fun hhead => (h backtick hhead).2 rfl, if_pos (.inr hspecial)]

theorem Name.first (hname : Name name) : ∃ c after, name = c :: after ∧ c ≠ '(' ∧ c ≠ '[' ∧ c ≠ ' ' := by
  cases hname with
  | simple hsimple =>
    obtain ⟨c, after, rfl⟩ := exists_cons_of_ne_nil hsimple.1
    exact ⟨c, after, rfl, (isIdentChar_ne (hsimple.2 c mem_cons_self)).2⟩
  | escaped => exact ⟨_, _, rfl, by decide, by decide, by decide⟩

/-! ## Descriptors -/

theorem expect_append (symbols : List Char) : expect symbols (symbols ++ rest) = some rest := by
  unfold expect
  rw [if_pos (List.isPrefixOf_iff_prefix.2 (prefix_append _ _)), drop_left]

theorem expect_sound {symbols : List Char} (h : expect symbols text = some rest) : text = symbols ++ rest := by
  unfold expect at h
  split at h
  · next hprefix =>
    obtain ⟨after, rfl⟩ := List.isPrefixOf_iff_prefix.1 hprefix
    rw [drop_left] at h
    rw [Option.some.inj h]
  · cases h

theorem suffixEnd_sound (hname : Name name) (h : suffixEnd text = some rest) :
    ∃ descriptor, Descriptor descriptor ∧ name ++ text = descriptor ++ rest := by
  unfold suffixEnd at h
  split at h
  · cases h
  · next c after =>
    split at h
    · next hsuffix =>
      cases h
      exact ⟨_, .suffixed hname hsuffix, by rw [append_assoc]; rfl⟩
    · split at h
      · next hmethod =>
        have hafter := takeWhile_append_dropWhile (p := isIdentChar) (l := after)
        rw [expect_sound h] at hafter
        refine ⟨_, @Descriptor.method _ (after.takeWhile isIdentChar) hname ?_, ?_⟩
        · by_cases hnil : after.takeWhile isIdentChar = []
          · exact .inl hnil
          · exact .inr ⟨hnil, fun d hd => mem_takeWhile_imp hd⟩
        · rw [hmethod]
          conv_lhs => rw [← hafter]
          simp only [append_assoc, cons_append, nil_append]
      · cases h

theorem descriptorEnd_sound (h : descriptorEnd text = some rest) :
    ∃ descriptor, Descriptor descriptor ∧ text = descriptor ++ rest := by
  unfold descriptorEnd at h
  split at h
  · cases h
  · next opener inner =>
    split at h
    · next hopener =>
      obtain ⟨after, hafter, hclose⟩ := Option.bind_eq_some_iff.1 h
      obtain ⟨name, hname, rfl⟩ := nameEnd_sound hafter
      exact ⟨_, .parameter hname, by rw [hopener, expect_sound hclose]; simp⟩
    · split at h
      · next hopener =>
        obtain ⟨after, hafter, hclose⟩ := Option.bind_eq_some_iff.1 h
        obtain ⟨name, hname, rfl⟩ := nameEnd_sound hafter
        exact ⟨_, .typeParameter hname, by rw [hopener, expect_sound hclose]; simp⟩
      · obtain ⟨after, hafter, hsuffix⟩ := Option.bind_eq_some_iff.1 h
        obtain ⟨name, hname, heq⟩ := nameEnd_sound hafter
        rw [heq]
        exact suffixEnd_sound hname hsuffix

theorem descriptorEnd_name {after : List Char} (hname : Name name)
    (h : ∀ c ∈ after.head?, isIdentChar c = false ∧ c ≠ backtick) : descriptorEnd (name ++ after) = suffixEnd after := by
  obtain ⟨c, tail, heq, hparen, hbracket, -⟩ := hname.first
  have hend := nameEnd_name hname h
  rw [heq, cons_append] at hend ⊢
  unfold descriptorEnd
  dsimp only
  rw [if_neg hparen, if_neg hbracket, hend, Option.bind_some]

/-- A descriptor is read to its end, whatever follows. -/
theorem descriptorEnd_descriptor (h : Descriptor descriptor) : descriptorEnd (descriptor ++ rest) = some rest := by
  cases h with
  | @suffixed name suffix hname hsuffix =>
    have hall : ∀ c ∈ suffixes, isIdentChar c = false ∧ c ≠ backtick := by
      simp only [suffixes, forall_mem_cons]
      exact ⟨by decide, by decide, by decide, by decide, by decide, forall_mem_nil _⟩
    rw [append_assoc, descriptorEnd_name hname (by rintro c ⟨⟩; exact hall _ hsuffix)]
    exact if_pos hsuffix
  | @method name disambiguator hname hdisambiguator =>
    have hall : ∀ c ∈ disambiguator, isIdentChar c = true := by
      rcases hdisambiguator with rfl | hsimple
      · exact forall_mem_nil _
      · exact hsimple.2
    have hdrop : (disambiguator ++ [')', '.'] ++ rest).dropWhile isIdentChar = [')', '.'] ++ rest := by
      rw [append_assoc, dropWhile_append_of_pos hall]
      exact dropWhile_cons_of_neg (by decide)
    rw [append_assoc, cons_append, descriptorEnd_name hname (by rintro c ⟨⟩; exact ⟨by decide, by decide⟩)]
    unfold suffixEnd
    dsimp only
    rw [if_neg (by decide), if_pos rfl, hdrop, expect_append]
  | @typeParameter name hname =>
    have hend : nameEnd (name ++ ([']'] ++ rest)) = some ([']'] ++ rest) :=
      nameEnd_name hname (by rintro c ⟨⟩; exact ⟨by decide, by decide⟩)
    rw [cons_append, append_assoc]
    unfold descriptorEnd
    dsimp only
    rw [if_neg (by decide), if_pos rfl, hend, Option.bind_some, expect_append]
  | @parameter name hname =>
    have hend : nameEnd (name ++ ([')'] ++ rest)) = some ([')'] ++ rest) :=
      nameEnd_name hname (by rintro c ⟨⟩; exact ⟨by decide, by decide⟩)
    rw [cons_append, append_assoc]
    unfold descriptorEnd
    dsimp only
    rw [if_pos rfl, hend, Option.bind_some, expect_append]

theorem Descriptor.ne_nil (h : Descriptor descriptor) : descriptor ≠ [] := by cases h <;> simp

theorem descriptorEnd_lt (h : descriptorEnd text = some rest) : rest.length < text.length := by
  obtain ⟨descriptor, hdescriptor, rfl⟩ := descriptorEnd_sound h
  have := length_pos_iff.2 hdescriptor.ne_nil
  rw [length_append]
  omega

/-- The loop of `_valid_descriptors`; every turn reads a character at least. -/
def descriptorsEnd (text : List Char) : Bool :=
  if text = [] then true
  else
    match _h : descriptorEnd text with
    | none => false
    | some rest => descriptorsEnd rest
termination_by text.length
decreasing_by exact descriptorEnd_lt _h

/-- `_valid_descriptors`. -/
def validDescriptors (text : List Char) : Bool := text ≠ [] && descriptorsEnd text

theorem descriptorsEnd_iff : descriptorsEnd text = true ↔
    ∃ descriptors : List (List Char), (∀ descriptor ∈ descriptors, Descriptor descriptor) ∧ text = descriptors.flatten := by
  constructor
  · intro h
    fun_induction descriptorsEnd text with
    | case1 => exact ⟨[], forall_mem_nil _, rfl⟩
    | case2 => cases h
    | case3 text hne rest hend ih =>
      obtain ⟨descriptors, hall, rfl⟩ := ih h
      obtain ⟨descriptor, hdescriptor, rfl⟩ := descriptorEnd_sound hend
      exact ⟨descriptor :: descriptors, forall_mem_cons.2 ⟨hdescriptor, hall⟩, rfl⟩
  · rintro ⟨descriptors, hall, rfl⟩
    induction descriptors with
    | nil =>
      unfold descriptorsEnd
      exact if_pos rfl
    | cons descriptor descriptors ih =>
      obtain ⟨hdescriptor, htail⟩ := forall_mem_cons.1 hall
      have hend := @descriptorEnd_descriptor descriptors.flatten _ hdescriptor
      rw [flatten_cons]
      unfold descriptorsEnd
      rw [if_neg (by simp [hdescriptor.ne_nil])]
      split
      · next h => rw [hend] at h; cases h
      · next rest h =>
        rw [hend] at h
        cases h
        exact ih htail

/-! ## Fields -/

/-- `is_valid_symbol`. -/
def isValidSymbol (symbol : String) : Bool :=
  let text := symbol.toList
  if text = [] ∨ text.any isControl then false
  else if "local ".toList.isPrefixOf text then text.drop 6 ≠ [] && (text.drop 6).all isIdentChar
  else
    match (List.range 4).foldlM takeField text with
    | none => false
    | some rest => validDescriptors rest

variable {scheme field : List Char}

theorem fieldEnd_plain (h : c ≠ ' ') : fieldEnd (c :: text) = fieldEnd text := by cases text <;> exact if_pos h

theorem fieldEnd_twice : fieldEnd (' ' :: ' ' :: text) = fieldEnd text := rfl

theorem fieldEnd_alone (h : text.head? ≠ some ' ') : fieldEnd (' ' :: text) = ' ' :: text := by
  cases text with
  | nil => rfl
  | cons d text =>
    show (if d = ' ' then fieldEnd text else _) = _
    exact if_neg fun heq => h (by rw [heq]; rfl)

theorem fieldEnd_doubled : fieldEnd (doubled ' ' field ++ text) = fieldEnd text := by
  induction field with
  | nil => rfl
  | cons c field ih =>
    rw [doubled_cons, append_assoc]
    split
    · exact fieldEnd_twice.trans ih
    · next hc => exact (fieldEnd_plain hc).trans ih

/-- The scan passes over a field, and stops at the end or at a space that no space follows. -/
theorem fieldEnd_sound (text : List Char) : ∃ field, text = doubled ' ' field ++ fieldEnd text ∧
    (fieldEnd text = [] ∨ ∃ after, fieldEnd text = ' ' :: after ∧ after.head? ≠ some ' ') := by
  fun_induction fieldEnd text with
  | case1 => exact ⟨[], rfl, .inl rfl⟩
  | case2 c text hc ih =>
    obtain ⟨field, heq, hstop⟩ := ih
    exact ⟨c :: field, by rw [doubled_cons, if_neg hc, append_assoc, ← heq]; rfl, hstop⟩
  | case3 c hc => exact ⟨[], rfl, .inr ⟨[], by rw [not_not.1 hc], nofun⟩⟩
  | case4 c hc after ih =>
    obtain ⟨field, heq, hstop⟩ := ih
    exact ⟨' ' :: field, by rw [doubled_cons, if_pos rfl, append_assoc, ← heq, not_not.1 hc]; rfl, hstop⟩
  | case5 c hc d after hd => exact ⟨[], rfl, .inr ⟨d :: after, by rw [not_not.1 hc], fun h => hd (Option.some.inj h)⟩⟩

/-- A word without spaces is at the front of the text where it is at the front of the field. -/
theorem prefix_doubled {word : List Char} (hword : ' ' ∉ word) :
    word <+: doubled ' ' field ++ ' ' :: text ↔ word <+: field := by
  induction word generalizing field with
  | nil => exact ⟨fun _ => List.nil_prefix, fun _ => List.nil_prefix⟩
  | cons w word ih =>
    obtain ⟨hw, hword⟩ := not_or.1 (mt mem_cons.2 hword)
    cases field with
    | nil =>
      refine ⟨fun h => ?_, fun h => ?_⟩
      · exact absurd (cons_prefix_cons.1 h).1.symm hw
      · exact absurd (prefix_nil.1 h) (cons_ne_nil _ _)
    | cons c field =>
      rw [doubled_cons, append_assoc]
      split
      · next hc =>
        refine ⟨fun h => ?_, fun h => ?_⟩
        · exact absurd (cons_prefix_cons.1 h).1.symm hw
        · exact absurd ((cons_prefix_cons.1 h).1.trans hc).symm hw
      · rw [singleton_append, cons_prefix_cons, cons_prefix_cons, ih hword]

theorem takeField_sound (h : takeField text n = some rest) : ∃ field, field ≠ [] ∧
    text = doubled ' ' field ++ ' ' :: rest ∧ rest.head? ≠ some ' ' ∧ (n = 0 → ¬ "local".toList <+: field) := by
  unfold takeField at h
  split at h
  · cases h
  · next hmoved =>
    split at h
    · cases h
    · next hlocal =>
      obtain ⟨hlength, hend⟩ := not_or.1 hmoved
      obtain ⟨field, heq, hstop⟩ := fieldEnd_sound text
      obtain ⟨after, hafter, hhead⟩ := hstop.resolve_left hend
      rw [hafter, tail_cons] at h
      cases h
      rw [hafter] at heq hlength
      refine ⟨field, ?_, heq, hhead, fun hn hprefix => hlocal ⟨hn, ?_⟩⟩
      · rintro rfl
        exact hlength (by rw [heq]; rfl)
      · rw [heq, List.isPrefixOf_iff_prefix]
        exact (prefix_doubled (by decide)).2 hprefix

/-! ## Readings -/

/-- A field without the spaces before it. -/
def trimmed (field : List Char) : List Char := field.dropWhile (· = ' ')

theorem doubled_trimmed (field : List Char) : (doubled ' ' (trimmed field)).length ≤ (doubled ' ' field).length := by
  conv_rhs => rw [← takeWhile_append_dropWhile (p := (· = ' ')) (l := field), doubled_append, length_append]
  exact Nat.le_add_left _ _

theorem trimmed_ne_nil (h : Inked field) : trimmed field ≠ [] := by
  obtain ⟨c, hc, hne⟩ := h
  intro hnil
  exact hne (of_decide_eq_true (dropWhile_eq_nil_iff.1 hnil c hc))

/-- The spaces between two fields go to the first. -/
theorem fieldEnd_between (h : Inked field) : fieldEnd (' ' :: (doubled ' ' field ++ rest)) =
    ' ' :: (doubled ' ' (trimmed field) ++ rest) := by
  induction field with
  | nil =>
    obtain ⟨c, hc, -⟩ := h
    cases hc
  | cons c field ih =>
    by_cases hc : c = ' '
    · subst hc
      have hrest : Inked field := by
        obtain ⟨d, hd, hne⟩ := h
        exact ⟨d, (mem_cons.1 hd).resolve_left hne, hne⟩
      exact fieldEnd_twice.trans (ih hrest)
    · have htrimmed : trimmed (c :: field) = c :: field := dropWhile_cons_of_neg (by simpa using hc)
      rw [htrimmed]
      refine fieldEnd_alone ?_
      rw [doubled_cons, if_neg hc]
      exact fun heq => hc (Option.some.inj heq)

section

variable (hscheme : scheme ≠ []) (hlocal : n = 0 → ¬ "local".toList <+: scheme)
include hscheme hlocal

theorem takeField_of_end {after : List Char}
    (hend : fieldEnd (' ' :: rest) = ' ' :: after) (hlength : after.length ≤ rest.length) :
    takeField (doubled ' ' scheme ++ ' ' :: rest) n = some after := by
  have hpos := length_pos_iff.2 hscheme
  have hle := @length_le_doubled scheme ' '
  unfold takeField
  rw [fieldEnd_doubled, hend, if_neg, if_neg, tail_cons]
  · rw [List.isPrefixOf_iff_prefix, prefix_doubled (by decide)]
    exact fun h => hlocal h.1 h.2
  · rw [length_append, length_cons, length_cons]
    rintro (h | h)
    · omega
    · cases h

/-- Of two fields the first is read with the spaces that are between them. -/
theorem takeField_doubled
    (hfield : Inked field) : takeField (doubled ' ' scheme ++ ' ' :: (doubled ' ' field ++ rest)) n =
      some (doubled ' ' (trimmed field) ++ rest) := by
  refine takeField_of_end hscheme hlocal (fieldEnd_between hfield) ?_
  have := doubled_trimmed field
  rw [length_append, length_append]
  omega

theorem takeField_last
    (hrest : rest.head? ≠ some ' ') : takeField (doubled ' ' scheme ++ ' ' :: rest) n = some rest :=
  takeField_of_end hscheme hlocal (fieldEnd_alone hrest) (Nat.le_refl _)

end

theorem Descriptor.first (h : Descriptor descriptor) : ∃ c after, descriptor = c :: after ∧ c ≠ ' ' := by
  cases h with
  | suffixed hname | method hname =>
    obtain ⟨c, after, rfl, -, -, hc⟩ := hname.first
    exact ⟨c, _, rfl, hc⟩
  | typeParameter | parameter => exact ⟨_, _, rfl, by decide⟩

theorem inked_of_first (hfield : field ≠ []) (h : (doubled ' ' field ++ rest).head? ≠ some ' ') : Inked field := by
  obtain ⟨c, tail, rfl⟩ := exists_cons_of_ne_nil hfield
  refine ⟨c, mem_cons_self, fun hc => h ?_⟩
  rw [doubled_cons, if_pos hc]
  rfl

theorem takeFields_eq (text : List Char) : (List.range 4).foldlM takeField text =
    (takeField text 0).bind fun text => (takeField text 1).bind fun text => (takeField text 2).bind fun text =>
      takeField text 3 := by
  show ((takeField text 0).bind fun text => (takeField text 1).bind fun text => (takeField text 2).bind fun text =>
    (takeField text 3).bind some) = _
  simp only [Option.bind_fun_some]

/-- What the recogniser reads is a symbol, no field of it blank. -/
theorem symbol_of_valid {symbol : String} (h : isValidSymbol symbol = true) : Symbol Inked symbol.toList := by
  unfold isValidSymbol at h
  dsimp only at h
  split at h
  · cases h
  · split at h
    · next hlocal =>
      obtain ⟨name, hname⟩ := List.isPrefixOf_iff_prefix.1 hlocal
      rw [← hname] at h ⊢
      obtain ⟨hne, hall⟩ := Bool.and_eq_true_iff.1 h
      rw [drop_left' (by decide)] at hne hall
      exact .localId ⟨of_decide_eq_true hne, all_eq_true.1 hall⟩
    · split at h
      · cases h
      · next rest hfields =>
        rw [takeFields_eq] at hfields
        obtain ⟨first, hfirst, hfields⟩ := Option.bind_eq_some_iff.1 hfields
        obtain ⟨second, hsecond, hfields⟩ := Option.bind_eq_some_iff.1 hfields
        obtain ⟨third, hthird, hfourth⟩ := Option.bind_eq_some_iff.1 hfields
        obtain ⟨scheme, hscheme, heq, hhead, hlocal⟩ := takeField_sound hfirst
        obtain ⟨manager, hmanager, rfl, hhead', -⟩ := takeField_sound hsecond
        obtain ⟨name, hname, rfl, hhead'', -⟩ := takeField_sound hthird
        obtain ⟨version, hversion, rfl, -, -⟩ := takeField_sound hfourth
        obtain ⟨hne, hdescriptors⟩ := Bool.and_eq_true_iff.1 h
        obtain ⟨descriptors, hall, rfl⟩ := descriptorsEnd_iff.1 hdescriptors
        rw [heq]
        refine .globalId hscheme (hlocal rfl) ?_ ?_ hall
        · simp only [forall_mem_cons, not_mem_nil, false_implies, implies_true, and_true]
          exact ⟨⟨hmanager, inked_of_first hmanager hhead⟩, ⟨hname, inked_of_first hname hhead'⟩,
            ⟨hversion, inked_of_first hversion hhead''⟩⟩
        · rintro rfl
          exact of_decide_eq_true hne rfl

/-- A reading in which no field is blank is found. -/
theorem valid_of_symbol {symbol : String} (hcontrol : ∀ c ∈ symbol.toList, isControl c = false)
    (h : Symbol Inked symbol.toList) : isValidSymbol symbol = true := by
  generalize htext : symbol.toList = text at h hcontrol
  have hnone : ¬ text.any isControl = true := by
    rw [any_eq_true]
    rintro ⟨c, hc, htrue⟩
    exact absurd htrue (by rw [hcontrol c hc]; decide)
  unfold isValidSymbol
  rw [htext]
  dsimp only
  cases h with
  | @localId name hname =>
    rw [if_neg (by rintro (h | h); exacts [absurd (congrArg List.length h) (by simp), hnone h]),
      if_pos (List.isPrefixOf_iff_prefix.2 (prefix_append _ _)), drop_left' (by decide)]
    exact Bool.and_eq_true_iff.2 ⟨decide_eq_true hname.1, all_eq_true.2 hname.2⟩
  | @globalId scheme manager name version descriptors hscheme hlocal hfields hne hall =>
    simp only [forall_mem_cons, not_mem_nil, false_implies, implies_true, and_true] at hfields
    obtain ⟨⟨-, hmanager⟩, ⟨-, hname⟩, -, hversion⟩ := hfields
    have hfirst : descriptors.flatten.head? ≠ some ' ' := by
      obtain ⟨descriptor, tail, rfl⟩ := exists_cons_of_ne_nil hne
      obtain ⟨c, after, rfl, hc⟩ := (hall _ mem_cons_self).first
      exact fun heq => hc (Option.some.inj heq)
    have hnolocal : ¬ "local ".toList.isPrefixOf (doubled ' ' scheme ++ ' ' :: (doubled ' ' manager ++ ' ' ::
        (doubled ' ' name ++ ' ' :: (doubled ' ' version ++ ' ' :: descriptors.flatten)))) = true := by
      rw [List.isPrefixOf_iff_prefix]
      intro hprefix
      have hword : "local".toList <+: "local ".toList := ⟨[' '], rfl⟩
      exact hlocal ((prefix_doubled (by decide)).1 (hword.trans hprefix))
    rw [if_neg (by rintro (h | h); exacts [absurd (congrArg List.length h) (by simp), hnone h]), if_neg hnolocal,
      takeFields_eq, takeField_doubled hscheme (fun _ => hlocal) hmanager, Option.bind_some,
      takeField_doubled (trimmed_ne_nil hmanager) (fun h => absurd h (by decide)) hname, Option.bind_some,
      takeField_doubled (trimmed_ne_nil hname) (fun h => absurd h (by decide)) hversion, Option.bind_some,
      takeField_last (trimmed_ne_nil hversion) (fun h => absurd h (by decide)) hfirst]
    refine Bool.and_eq_true_iff.2 ⟨decide_eq_true fun hnil => ?_, descriptorsEnd_iff.2 ⟨descriptors, hall, rfl⟩⟩
    obtain ⟨descriptor, tail, rfl⟩ := exists_cons_of_ne_nil hne
    exact (hall _ mem_cons_self).ne_nil (append_eq_nil_iff.1 hnil).1

/-- **The recogniser accepts the symbols that have a reading in which manager, package name and version are not made of
spaces.** Between two fields a run of spaces is then read in one way that loses nothing, and the descriptors in one way at
all; that there is no reading at all is found without going back. -/
theorem isValidSymbol_iff {symbol : String} (hcontrol : ∀ c ∈ symbol.toList, isControl c = false) :
    isValidSymbol symbol = true ↔ Symbol Inked symbol.toList :=
  ⟨symbol_of_valid, valid_of_symbol hcontrol⟩

theorem plain_of_all {text : List Char} (h : text.all (!isControl ·) = true) : ∀ c ∈ text, isControl c = false := by
  intro c hc
  simpa using all_eq_true.1 h c hc

theorem isValidSymbol_iff_local : isValidSymbol "local 12" = true ↔ Symbol Inked "local 12".toList :=
  isValidSymbol_iff (plain_of_all (rfl))

/-- A manager that is one space: its two spaces, between those of the separators, are read as part of the scheme. -/
theorem isValidSymbol_blank : ¬ ∀ symbol : String, (∀ c ∈ symbol.toList, isControl c = false) →
    (isValidSymbol symbol = true ↔ Symbol (fun _ => True) symbol.toList) := by
  intro h
  have htext : "s    n v d/".toList = doubled ' ' ['s'] ++ ' ' :: (doubled ' ' [' '] ++ ' ' :: (doubled ' ' ['n'] ++
      ' ' :: (doubled ' ' ['v'] ++ ' ' :: [['d', '/']].flatten))) := rfl
  have hdescriptor : Descriptor ['d', '/'] :=
    @Descriptor.suffixed ['d'] '/' (.simple ⟨List.cons_ne_nil _ _, List.forall_mem_singleton.2 (by decide)⟩) (by decide)
  have hsymbol : Symbol (fun _ => True) "s    n v d/".toList := by
    rw [htext]
    exact .globalId (by decide) (by decide +kernel) (by simp) (by decide) (by simpa using hdescriptor)
  exact absurd ((h "s    n v d/" (plain_of_all (by decide +kernel))).2 hsymbol) (by decide +kernel)

end AgentContext.Scip
