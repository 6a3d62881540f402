import AgentContext.Indexing.Tokens
import AgentContext.Lib.Text

/-!
# What an adapter may say of a text

The helpers of `indexing/tree_sitter/_common.py` that turn source text into names and signatures, and the checks of the
parent that read them again:

    identifier_bytes   one token as a name, or nothing
    dotted_name_at     names with dots between them, or nothing
    cut_signature      the start of a text with its white space collapsed

    helpers_accepted   whatever the text is, the parent accepts what the three return
-/

namespace Indexing.Structural

open List

/-! ## Helpers -/

/-- `_CONTROLS`. -/
def isControl (b : UInt8) : Bool := b ≤ 8 || (14 ≤ b && b ≤ 31) || b = 127

/-- `identifier_bytes`. -/
def identifierBytes (raw content : List UInt8) (start stop : Nat) : Option String :=
  if !isIdent raw then none
  else if 0 < start && (content[start - 1]?).any isIdentRest then none
  else if (content[stop]?).any isIdentRest then none
  else (Utf8.decode raw).map String.ofList

/-- `UnicodeDecodeError.start`: the bytes before it decode. -/
def errorStart (bytes : List UInt8) : Nat :=
  ((List.range bytes.length).reverse.find? fun k => (Utf8.decode (bytes.take k)).isSome).getD 0

theorem errorStart_lt {bytes : List UInt8} (h : bytes ≠ []) : errorStart bytes < bytes.length := by
  unfold errorStart
  cases hfind : (List.range bytes.length).reverse.find? fun k => (Utf8.decode (bytes.take k)).isSome with
  | none => exact length_pos_iff.2 h
  | some k => exact mem_range.1 (mem_reverse.1 (List.mem_of_find?_eq_some hfind))

/-- The loop of `cut_signature`. -/
def decodeCut (bytes : List UInt8) : List Char :=
  match _h : Utf8.decode bytes with
  | some text => text
  | none => decodeCut (bytes.take (errorStart bytes))
termination_by bytes.length
decreasing_by
  have hne : bytes ≠ [] := by
    rintro rfl
    exact Option.some_ne_none _ (@Utf8.decode_encode [] ▸ _h)
  have := errorStart_lt hne
  rw [List.length_take]
  omega

/-- `str.rstrip`. -/
def rstrip (text : List Char) : List Char := (text.reverse.dropWhile Text.isSpace).reverse

/-- `SIGNATURE_CUT`. -/
def signatureCut : Nat := 256

/-- `cut_signature`. -/
def cutSignature (raw : List UInt8) : String :=
  let collapsed := stripSpace ((collapse 0 false raw).map (·.2))
  let collapsed := collapsed.takeWhile (!isControl ·)
  String.ofList (rstrip (decodeCut (collapsed.take signatureCut)))

/-- `_DOTTED.fullmatch`: white space may stand around a dot, and nowhere else. -/
def isDotted (bytes : List UInt8) : Bool :=
  stripSpace bytes = bytes && (bytes.splitOn 46).all fun piece => isIdent (stripSpace piece)

/-- `dotted_name_at`. -/
def dottedNameAt (content : List UInt8) (start stop : Nat) : Option String :=
  if ¬(start < stop ∧ stop ≤ content.length) ∨ stop - start > maxNameBytes then none
  else if !isDotted (slice content start stop) then none
  else if 0 < start && (content[start - 1]?).any isIdentRest then none
  else if (content[stop]?).any isIdentRest then none
  else (Utf8.decode ((slice content start stop).filter (!isWhitespace ·))).map String.ofList

/-! ## Signatures -/

variable {content raw : List UInt8} {start stop first last : Nat} {name : String}
variable {pieces : List (List UInt8)}

theorem decodeCut_starts (bytes : List UInt8) : Utf8.encode (decodeCut bytes) <+: bytes := by
  fun_induction decodeCut bytes with
  | case1 bytes text h => exact Utf8.encode_of_decode h ▸ prefix_rfl
  | case2 bytes h ih => exact ih.trans (List.take_prefix _ _)

theorem rstrip_starts (text : List Char) : rstrip text <+: text := by
  have hsuffix := dropWhile_suffix Text.isSpace (l := text.reverse)
  rw [← List.reverse_prefix, reverse_reverse] at hsuffix
  exact hsuffix

theorem encode_starts {text text' : List Char} (h : text <+: text') : Utf8.encode text <+: Utf8.encode text' := by
  obtain ⟨rest, rfl⟩ := h
  rw [Utf8.encode_append]
  exact prefix_append _ _

theorem cutSignature_starts (raw : List UInt8) : Utf8.encode (cutSignature raw).toList <+:
    ((stripSpace ((collapse 0 false raw).map (·.2))).takeWhile (!isControl ·)).take signatureCut := by
  unfold cutSignature
  rw [String.toList_ofList]
  exact (encode_starts (rstrip_starts _)).trans (decodeCut_starts _)

theorem isSpace_of_byte {c : Char} (hlow : c.toNat < 128) (h : isWhitespace (UInt8.ofNat c.toNat) = true) :
    Text.isSpace c = true := by
  have := isWhitespace_iff.1 h
  rw [UInt8.toNat_ofNat', Nat.mod_eq_of_lt (by omega)] at this
  unfold Text.isSpace
  dsimp only
  simp only [Bool.or_eq_true, Bool.and_eq_true, decide_eq_true_eq]
  omega

theorem rstrip_last (text : List Char) : ∀ b ∈ (Utf8.encode (rstrip text)).getLast?, isWhitespace b = false := by
  intro b hb
  cases hspace : isWhitespace b with
  | false => rfl
  | true =>
    have hlow : b.toNat < 128 := by
      have := isWhitespace_iff.1 hspace
      omega
    rw [List.getLast?_eq_getElem?, Utf8.length_encode] at hb
    obtain ⟨c, hc, hnat⟩ := Utf8.getLast_of_byte hb hlow
    have hkept := List.head?_dropWhile_not Text.isSpace text.reverse
    have hhead : (text.reverse.dropWhile Text.isSpace).head? = some c := by
      rw [← List.getLast?_reverse]
      exact hc
    rw [hhead] at hkept
    have hbyte : UInt8.ofNat c.toNat = b := by rw [hnat, UInt8.ofNat_toNat]
    have hchar := isSpace_of_byte (c := c) (by omega) (hbyte ▸ hspace)
    simp [hchar] at hkept

theorem isText_of_bytes {text : String} {limit : Nat} (hsize : (Utf8.encode text.toList).length ≤ limit)
    (hbytes : ∀ b ∈ Utf8.encode text.toList, 32 ≤ b.toNat ∧ b.toNat ≠ 127) : isText limit text = true := by
  rw [Utf8.length_encode] at hsize
  refine Bool.and_eq_true_iff.2 ⟨all_eq_true.2 fun c hc => ?_, decide_eq_true hsize⟩
  rcases Nat.lt_or_ge c.toNat 128 with hlow | hhigh
  · have hbyte := hbytes _ (Utf8.mem_encode_of_lt hc hlow)
    rw [UInt8.toNat_ofNat', Nat.mod_eq_of_lt (by omega)] at hbyte
    simpa using hbyte
  · simp only [Bool.and_eq_true, decide_eq_true_eq]
    omega

/-- A cut signature has no control characters, and is within its bound. -/
theorem cutSignature_isText (raw : List UInt8) : isText maxSignatureBytes (cutSignature raw) = true := by
  have hstarts := cutSignature_starts raw
  refine isText_of_bytes ?_ fun b hb => ?_
  · have := hstarts.length_le
    rw [length_take] at this
    exact Nat.le_trans this (Nat.le_trans (Nat.min_le_left _ _) (by decide))
  · have hmem := (List.take_prefix _ _).subset (hstarts.subset hb)
    have hcontrol : (!isControl b) = true := mem_takeWhile_imp (p := (!isControl ·)) hmem
    have htight := (@tight_collapse raw 0 false).1.1 b
      ((dropWhile_suffix _).subset (stripSpace_starts.subset ((List.takeWhile_prefix _).subset hmem)))
    simp only [isWhitespace_iff, ← UInt8.toNat_inj, UInt8.reduceToNat] at htight
    simp only [isControl, Bool.not_eq_true', Bool.or_eq_false_iff, Bool.and_eq_false_iff, decide_eq_false_iff_not,
      UInt8.le_iff_toNat_le, ← UInt8.toNat_inj, UInt8.reduceToNat] at hcontrol
    omega

/-! ## Names -/

/-- No token runs over the start of a range. -/
theorem start_apart (hstart : start ≤ content.length) (h : ¬(0 < start && (content[start - 1]?).any isIdentRest) = true) :
    ∀ b ∈ (content.take start).getLast?, isIdentRest b = false := by
  intro b hb
  rw [List.getLast?_eq_getElem?, length_take_of_le hstart] at hb
  rcases Nat.eq_zero_or_pos start with rfl | hpos
  · exact nomatch hb
  · rw [List.getElem?_take_of_lt (by omega)] at hb
    rw [hb, decide_eq_true hpos, Bool.true_and, Option.any_some] at h
    exact Bool.eq_false_iff.2 h

/-- No token runs over its end. -/
theorem stop_apart (h : ¬(content[stop]?).any isIdentRest = true) :
    ∀ b ∈ (content.drop stop).head?, isIdentRest b = false := by
  intro b hb
  rw [List.head?_drop] at hb
  rw [hb, Option.any_some] at h
  exact Bool.eq_false_iff.2 h

theorem identifierBytes_some (h : identifierBytes (slice content first last) content first last = some name) :
    ∃ before after, content = before ++ Utf8.encode name.toList ++ after ∧ before.length = first ∧
      first + (Utf8.encode name.toList).length ≤ last ∧ isIdent (Utf8.encode name.toList) = true ∧
      (∀ b ∈ before.getLast?, isIdentRest b = false) ∧ ∀ b ∈ after.head?, isIdentRest b = false := by
  unfold identifierBytes at h
  split at h
  · exact nomatch h
  · next hident =>
    split at h
    · exact nomatch h
    · next hstart =>
      split at h
      · exact nomatch h
      · next hstop =>
        obtain ⟨text, htext, rfl⟩ := Option.map_eq_some_iff.1 h
        rw [String.toList_ofList, Utf8.encode_of_decode htext]
        have hident : isIdent (slice content first last) = true := by simpa using hident
        have hlen : (slice content first last).length = min (last - first) (content.length - first) := by
          rw [slice, length_take, length_drop]
        have hpos := length_pos_iff.2 (isIdent_ne_nil hident)
        obtain ⟨hsplit, hbefore⟩ := @slice_split content first last (by omega)
        refine ⟨_, _, hsplit, hbefore, by omega, hident, start_apart (by omega) hstart, ?_⟩
        rcases Nat.le_total last content.length with hle | hle
        · rw [hlen, show first + min (last - first) (content.length - first) = last by omega]
          exact stop_apart hstop
        · rw [drop_of_length_le (by omega)]
          exact fun _ hb => nomatch hb

/-- A name without separators is one segment. -/
theorem splitName_append {scope token : List Char} (h : ∀ c ∈ scope, c ≠ '.' ∧ c ≠ '/' ∧ c ≠ '#' ∧ c ≠ ':') (rest : List Char) :
    splitName (scope ++ rest) token = splitName rest (scope.reverse ++ token) := by
  induction scope generalizing token with
  | nil => rfl
  | cons c scope ih =>
    obtain ⟨hdot, hslash, hhash, hcolon⟩ := h c mem_cons_self
    rw [cons_append, splitName, if_neg (by simp [hdot, hslash, hhash]), ih fun d hd => h d (mem_cons_of_mem _ hd),
      reverse_cons, append_assoc, singleton_append]
    exact fun _ hc => absurd hc hcolon

theorem segments_ident (h : isIdent (Utf8.encode name.toList) = true) :
    segments name = [Utf8.encode name.toList] := by
  have hnone : ∀ c ∈ name.toList, c ≠ '.' ∧ c ≠ '/' ∧ c ≠ '#' ∧ c ≠ ':' := by
    intro c hc
    have hbyte : ∀ d : Char, d.toNat < 128 → isIdentRest (UInt8.ofNat d.toNat) = false → c ≠ d := by
      rintro d hlow hd rfl
      exact absurd (isIdent_rest h _ (Utf8.mem_encode_of_lt hc hlow)) (by rw [hd]; decide)
    exact ⟨hbyte _ (by decide) (by decide), hbyte _ (by decide) (by decide), hbyte _ (by decide) (by decide),
      hbyte _ (by decide) (by decide)⟩
  unfold segments
  rw [← append_nil name.toList, splitName_append hnone, splitName, append_nil, append_nil, reverse_reverse]
  rfl

theorem filter_pieces (h : ∀ piece ∈ pieces, isIdent (stripSpace piece) = true) :
    ([46].intercalate pieces).filter (!isWhitespace ·) = [46].intercalate (pieces.map stripSpace) := by
  have hone : ∀ piece : List UInt8, isIdent (stripSpace piece) = true →
      piece.filter (!isWhitespace ·) = stripSpace piece := by
    intro piece hp
    obtain ⟨back, heq, hback⟩ := stripSpace_parts piece
    have hnone : ∀ {part : List UInt8}, (∀ b ∈ part, isWhitespace b = true) → part.filter (!isWhitespace ·) = [] :=
      fun hpart => filter_eq_nil_iff.2 fun b hb => by rw [hpart b hb]; decide
    conv_lhs => rw [heq]
    rw [filter_append, filter_append, hnone fun b hb => mem_takeWhile_imp hb, hnone hback, nil_append,
      append_nil]
    exact filter_eq_self.2 fun b hb => by rw [isIdent_not_space hp b hb]; rfl
  induction pieces with
  | nil => rfl
  | cons piece pieces ih =>
    have hpiece := hone piece (h piece mem_cons_self)
    cases pieces with
    | nil => rw [intercalate_singleton, map_singleton, intercalate_singleton, hpiece]
    | cons next pieces =>
      have htail := ih fun piece hp => h piece (mem_cons_of_mem _ hp)
      rw [intercalate_cons, filter_append, filter_cons_of_pos (by decide), htail, hpiece]
      exact intercalate_cons.symm

theorem dottedNameAt_some (h : dottedNameAt content start stop = some name) :
    ∃ before pieces after, content = before ++ [46].intercalate pieces ++ after ∧ before.length = start ∧
      before.length + ([46].intercalate pieces).length = stop ∧ stop - start ≤ maxNameBytes ∧ pieces ≠ [] ∧
      (∀ piece ∈ pieces, isIdent (stripSpace piece) = true) ∧ (∀ b ∈ before.getLast?, isIdentRest b = false) ∧
      (∀ b ∈ after.head?, isIdentRest b = false) ∧
      Utf8.encode name.toList = [46].intercalate (pieces.map stripSpace) := by
  unfold dottedNameAt at h
  split at h
  · exact nomatch h
  · next hrange =>
    split at h
    · exact nomatch h
    · next hdotted =>
      split at h
      · exact nomatch h
      · next hstart =>
        split at h
        · exact nomatch h
        · next hstop =>
          obtain ⟨text, htext, rfl⟩ := Option.map_eq_some_iff.1 h
          have hdotted : isDotted (slice content start stop) = true := by simpa using hdotted
          have hpieces := all_eq_true.1 (Bool.and_eq_true_iff.1 hdotted).2
          have hjoin := @intercalate_splitOn _ (slice content start stop) _ _ (46 : UInt8)
          have hlen : (slice content start stop).length = stop - start := by
            rw [slice, length_take, length_drop]
            omega
          obtain ⟨hsplit, hbefore⟩ := @slice_split content start stop (by omega)
          refine ⟨content.take start, (slice content start stop).splitOn 46, content.drop stop, ?_, hbefore, ?_, by omega,
            splitOn_ne_nil _ _, hpieces, start_apart (by omega) hstart, stop_apart hstop, ?_⟩
          · rw [hjoin]
            rwa [hlen, show start + (stop - start) = stop by omega] at hsplit
          · rw [hjoin, hbefore, hlen]
            omega
          · rw [String.toList_ofList, Utf8.encode_of_decode htext, ← filter_pieces hpieces, hjoin]

theorem splitOn_dotted (hne : pieces ≠ []) (h : ∀ piece ∈ pieces, isIdent (stripSpace piece) = true)
    (hname : Utf8.encode name.toList = [46].intercalate (pieces.map stripSpace)) :
    (name.toList.splitOn '.').map Utf8.encode = pieces.map stripSpace := by
  rw [← Utf8.splitOn_encode (by decide), hname]
  refine splitOn_intercalate _ (fun piece hp hdot => ?_) (by simpa using hne)
  obtain ⟨part, hpart, rfl⟩ := mem_map.1 hp
  exact absurd (isIdent_rest (h part hpart) _ hdot) (by decide)

theorem length_filter_pieces (pieces : List (List UInt8)) (h : ∀ piece ∈ pieces, isIdent (stripSpace piece) = true) :
    ([46].intercalate (pieces.map stripSpace)).length ≤ ([46].intercalate pieces).length := by
  rw [← filter_pieces h]
  exact length_filter_le _ _

/-- Every byte of a dotted name is of a token, or a dot. -/
theorem mem_dotted (h : ∀ piece ∈ pieces, isIdent (stripSpace piece) = true) {b : UInt8}
    (hb : b ∈ [46].intercalate (pieces.map stripSpace)) : b = 46 ∨ isIdentRest b = true := by
  induction pieces with
  | nil => exact nomatch hb
  | cons piece pieces ih =>
    have hpiece := isIdent_rest (h piece mem_cons_self)
    cases pieces with
    | nil => exact .inr (hpiece b (by simpa using hb))
    | cons next pieces =>
      rw [map_cons, map_cons, intercalate_cons] at hb
      rcases mem_append.1 hb with hb | hb
      · exact .inr (hpiece b hb)
      · rcases mem_cons.1 hb with rfl | hb
        · exact .inl rfl
        · exact ih (fun piece hp => h piece (mem_cons_of_mem _ hp)) hb

theorem dottedNameAt_isName (h : dottedNameAt content start stop = some name) : isName name = true := by
  obtain ⟨before, pieces, after, -, hbefore, hstop, hbound, hne, hpieces, -, -, hname⟩ := dottedNameAt_some h
  refine Bool.and_eq_true_iff.2 ⟨decide_eq_true ?_, isText_of_bytes ?_ fun b hb => ?_⟩
  · rw [← String.length_toList]
    refine length_pos_iff.2 fun hnil => ?_
    have hwords := splitOn_dotted hne hpieces hname
    rw [hnil] at hwords
    cases pieces with
    | nil => exact hne rfl
    | cons piece pieces =>
      rw [map_cons] at hwords
      exact isIdent_ne_nil (hpieces piece mem_cons_self) (List.cons.inj hwords).1.symm
  · have := length_filter_pieces pieces hpieces
    rw [hname]
    omega
  · rw [hname] at hb
    rcases mem_dotted hpieces hb with rfl | hrest
    · decide
    · have := toNat_of_isIdentRest hrest
      omega

/-! ## What the parent does -/

theorem checkName_dotted {path : String} {nameBytes : Nat} {qualifier : Bool} (h : dottedNameAt content start stop = some name) :
    checkName (SourceText.of path content) nameBytes name start stop qualifier = charge nameBytes name := by
  obtain ⟨before, pieces, after, hcontent, rfl, rfl, -, hne, hpieces, hfirst, hlast, hname⟩ := dottedNameAt_some h
  unfold checkName
  rw [pathOk_of_dotted hcontent hpieces hfirst hlast (splitOn_dotted hne hpieces hname)]
  cases charge nameBytes name <;> rfl

theorem finalOk_identifier {path qualifiedName : String} {kind : SymbolKind} {scope : List (List UInt8)}
    (h : identifierBytes (slice content first last) content first last = some name) (hstart : start ≤ first)
    (hstop : last ≤ stop) (hscope : ∀ raw ∈ scope, isIdent raw = true)
    (hsegments : segments qualifiedName = scope ++ [Utf8.encode name.toList]) :
    (SourceText.of path content).finalOk qualifiedName kind start stop = true := by
  obtain ⟨before, after, hcontent, rfl, hwithin, hident, hfirst, hlast⟩ := identifierBytes_some h
  unfold SourceText.finalOk
  dsimp only
  rw [hsegments, getLastD_concat, tokenWithin_of_ident hcontent hident hfirst hlast hstart (by omega), Bool.true_or,
    Bool.and_true, all_append, all_eq_true.2 hscope, Bool.true_and, all_cons, hident]
  rfl

theorem signatureOk_cut {path : String} (hstart : start ≤ first) (hstop : last ≤ stop) :
    (SourceText.of path content).signatureOk (cutSignature (slice content first last)) start stop = true := by
  have hlen : (slice content first last).length = min (last - first) (content.length - first) := by
    rw [slice, length_take, length_drop]
  have hstarts := (cutSignature_starts (slice content first last)).trans
    ((List.take_prefix _ _).trans (List.takeWhile_prefix _))
  have hlast : ∀ b ∈ (Utf8.encode (cutSignature (slice content first last)).toList).getLast?, isWhitespace b = false := by
    unfold cutSignature
    rw [String.toList_ofList]
    exact rstrip_last _
  rcases eq_nil_or_concat' (slice content first last) with hnil | ⟨front, b, hcons⟩
  · -- nothing is cut from nothing
    rw [hnil] at hstarts ⊢
    unfold SourceText.signatureOk
    rw [prefix_nil.1 hstarts]
    rfl
  · rw [hcons, length_append, length_singleton] at hlen
    obtain ⟨hsplit, hbefore⟩ := @slice_split content first last (by omega)
    refine signatureOk_of_prefix hsplit hstarts hlast (by omega) ?_
    rw [hbefore, hcons, length_append, length_singleton]
    omega

/-- **Whatever the text and the range, the parent accepts what the helpers return.** A dotted name fails only where the
names of a file are too many bytes; an identifier is the last segment of any name whose other segments are identifiers;
and a signature is cut from any part of the range of its symbol. -/
theorem helpers_accepted (path : String) (content : List UInt8) :
    (∀ start stop name, dottedNameAt content start stop = some name → isName name = true ∧
      ∀ nameBytes qualifier, checkName (SourceText.of path content) nameBytes name start stop qualifier =
        charge nameBytes name) ∧
    (∀ first last name, identifierBytes (slice content first last) content first last = some name →
      segments name = [Utf8.encode name.toList] ∧
      ∀ qualifiedName kind start stop scope, start ≤ first → last ≤ stop → (∀ raw ∈ scope, isIdent raw = true) →
        segments qualifiedName = scope ++ [Utf8.encode name.toList] →
        (SourceText.of path content).finalOk qualifiedName kind start stop = true) ∧
    ∀ first last start stop, start ≤ first → last ≤ stop →
      isText maxSignatureBytes (cutSignature (slice content first last)) = true ∧
      (SourceText.of path content).signatureOk (cutSignature (slice content first last)) start stop = true := by
  refine ⟨fun start stop name h => ⟨dottedNameAt_isName h, fun _ _ => checkName_dotted h⟩, ?_, ?_⟩
  · intro first last name h
    obtain ⟨-, -, -, -, -, hident, -⟩ := identifierBytes_some h
    exact ⟨segments_ident hident, fun _ _ _ _ _ hstart hstop hscope => finalOk_identifier h hstart hstop hscope⟩
  · exact fun first last start stop hstart hstop => ⟨cutSignature_isText _, signatureOk_cut hstart hstop⟩

theorem dottedNameAt_spaced : dottedNameAt [97, 32, 46, 32, 98] 0 5 = some "a.b" := by
  have hdecode : Utf8.decode [97, 46, 98] = some ['a', '.', 'b'] := @Utf8.decode_encode ['a', '.', 'b']
  unfold dottedNameAt
  rw [if_neg (by decide), if_neg (by decide), if_neg (by decide), if_neg (by decide),
    show (slice [97, 32, 46, 32, 98] 0 5).filter (!isWhitespace ·) = [97, 46, 98] by decide, hdecode]
  rfl

/-- `a . b` is read as `a.b`. -/
theorem helpers_accepted_spaced : checkName (SourceText.of "m.py" [97, 32, 46, 32, 98]) 0 "a.b" 0 5 false = charge 0 "a.b" :=
  ((helpers_accepted "m.py" [97, 32, 46, 32, 98]).1 0 5 "a.b" dottedNameAt_spaced).2 0 false

end Indexing.Structural
