import AgentContext.Indexing.Validation

/-!
# The tokens of a text, part by part

`_SourceText` of `indexing/tree_sitter/base.py` reads the identifier tokens of a whole file and collapses its white space
once.  Here both are read off the parts of the file:

    identTokens_apart   where no token runs over the border, the tokens are those of the parts
    identTokens_dotted  names with dots between them, one token a name
    collapse_append     the collapsed text of two parts
    Tight               a text that collapsing leaves as it is
-/

namespace Indexing.Structural

open List

variable {xs ys zs content raw : List UInt8} {b : UInt8} {p q : Nat}
variable {pieces : List (List UInt8)} {start stop : Nat} {inside : Bool}

/-! ## Bytes -/

theorem isIdentRest_of_start (h : isIdentStart b = true) : isIdentRest b = true := by
  unfold isIdentRest
  rw [h]
  rfl

theorem isIdentStart_of_not_rest (h : isIdentRest b = false) : isIdentStart b = false := by
  cases hstart : isIdentStart b with
  | false => rfl
  | true => exact absurd (isIdentRest_of_start hstart) (by rw [h]; decide)

theorem isWhitespace_iff : isWhitespace b = true ↔ b.toNat = 32 ∨ 9 ≤ b.toNat ∧ b.toNat ≤ 13 := by
  simp [isWhitespace, UInt8.le_iff_toNat_le, ← UInt8.toNat_inj]

theorem toNat_of_isIdentRest (h : isIdentRest b = true) : 36 ≤ b.toNat ∧ b.toNat ≠ 127 := by
  simp only [isIdentRest, isIdentStart, Bool.or_eq_true, Bool.and_eq_true, decide_eq_true_eq, UInt8.le_iff_toNat_le,
    ← UInt8.toNat_inj, UInt8.reduceToNat] at h
  omega

theorem isIdentRest_of_space (h : isWhitespace b = true) : isIdentRest b = false := by
  cases hrest : isIdentRest b with
  | false => rfl
  | true =>
    have := isWhitespace_iff.1 h
    have := toNat_of_isIdentRest hrest
    omega

theorem isIdent_ne_nil (h : isIdent xs = true) : xs ≠ [] := by
  rintro rfl
  exact nomatch h

theorem isIdent_rest (h : isIdent xs = true) : ∀ b ∈ xs, isIdentRest b = true := by
  cases xs with
  | nil => exact nomatch h
  | cons c rest =>
    obtain ⟨hstart, hrest⟩ := Bool.and_eq_true_iff.1 h
    intro b hb
    rcases mem_cons.1 hb with rfl | hb
    · exact isIdentRest_of_start hstart
    · exact all_eq_true.1 hrest b hb

theorem isIdent_not_space (h : isIdent xs = true) : ∀ b ∈ xs, isWhitespace b = false := by
  intro b hb
  cases hspace : isWhitespace b with
  | false => rfl
  | true => exact absurd (isIdent_rest h b hb) (by rw [isIdentRest_of_space hspace]; decide)

/-! ## Tokens -/

theorem identTokens_none_nil : identTokens p none [] = [] := rfl

theorem identTokens_some_nil {word : Nat × List UInt8} : identTokens p (some word) [] = [(word.1, word.2.reverse)] := rfl

theorem identTokens_none_cons : identTokens p none (b :: xs) =
    identTokens (p + 1) (if isIdentStart b then some (p, [b]) else none) xs := rfl

theorem identTokens_some_cons {word : Nat × List UInt8} : identTokens p (some word) (b :: xs) =
    if isIdentRest b then identTokens (p + 1) (some (word.1, b :: word.2)) xs
    else (word.1, word.2.reverse) :: identTokens (p + 1) none xs := rfl

variable {state : Option (Nat × List UInt8)}

theorem identTokens_append (h : ∀ b ∈ ys.head?, isIdentRest b = false) :
    identTokens p state (xs ++ ys) = identTokens p state xs ++ identTokens (p + xs.length) none ys := by
  induction xs generalizing p state with
  | nil =>
    cases state with
    | none => rfl
    | some word =>
      cases ys with
      | nil => rfl
      | cons b rest =>
        have hb := h b rfl
        rw [nil_append, identTokens_some_cons, if_neg (by rw [hb]; decide), length_nil, Nat.add_zero,
          identTokens_none_cons, if_neg (by rw [isIdentStart_of_not_rest hb]; decide)]
        rfl
  | cons c xs ih =>
    have hlen : p + (c :: xs).length = p + 1 + xs.length := by rw [length_cons]; omega
    rw [hlen, cons_append]
    cases state with
    | none => exact ih
    | some word =>
      rw [identTokens_some_cons, identTokens_some_cons]
      split
      · exact ih
      · rw [ih, cons_append]

/-- No token runs over a border that a byte of no token stands at. -/
theorem identTokens_apart (h : ∀ b ∈ xs.getLast?, isIdentRest b = false) :
    identTokens p none (xs ++ ys) = identTokens p none xs ++ identTokens (p + xs.length) none ys := by
  rcases eq_nil_or_concat' xs with rfl | ⟨front, b, rfl⟩
  · rfl
  · have hb := h b List.getLast?_concat
    have hone : ∀ n rest, identTokens n none (b :: rest) = identTokens (n + 1) none rest := by
      intro n rest
      rw [identTokens_none_cons, if_neg (by rw [isIdentStart_of_not_rest hb]; decide)]
    have hhead : ∀ rest, ∀ c ∈ (b :: rest).head?, isIdentRest c = false := by
      rintro rest c ⟨⟩
      exact hb
    rw [append_assoc, singleton_append, identTokens_append (hhead ys), identTokens_append (hhead []), hone, hone,
      length_append, length_singleton, ← Nat.add_assoc, identTokens_none_nil, append_nil]

theorem identTokens_of_none (h : ∀ b ∈ xs, isIdentRest b = false) : identTokens p none xs = [] := by
  induction xs generalizing p with
  | nil => rfl
  | cons b xs ih =>
    rw [identTokens_none_cons, if_neg (by rw [isIdentStart_of_not_rest (h b mem_cons_self)]; decide)]
    exact ih fun c hc => h c (mem_cons_of_mem _ hc)

theorem identTokens_run {start : Nat} {word : List UInt8} (h : ∀ b ∈ xs, isIdentRest b = true) :
    identTokens p (some (start, word)) xs = [(start, word.reverse ++ xs)] := by
  induction xs generalizing p word with
  | nil => rw [identTokens_some_nil, append_nil]
  | cons b xs ih =>
    rw [identTokens_some_cons, if_pos (h b mem_cons_self), ih fun c hc => h c (mem_cons_of_mem _ hc), reverse_cons,
      append_assoc, singleton_append]

theorem identTokens_ident (h : isIdent xs = true) : identTokens p none xs = [(p, xs)] := by
  cases xs with
  | nil => exact nomatch h
  | cons b xs =>
    rw [identTokens_none_cons, if_pos (Bool.and_eq_true_iff.1 h).1,
      identTokens_run fun c hc => isIdent_rest h c (mem_cons_of_mem _ hc)]
    rfl

/-- A token lies in the text it is read from. -/
theorem identTokens_within {start : Nat}
    (hstate : ∀ word ∈ state, start = word.1 ∧ word.1 + word.2.length = p ∧ 0 < word.2.length)
    (hnone : state = none → start = p) {token : Nat × List UInt8} (h : token ∈ identTokens p state xs) :
    start ≤ token.1 ∧ token.1 + token.2.length ≤ p + xs.length ∧ 0 < token.2.length := by
  induction xs generalizing p state start with
  | nil =>
    cases state with
    | none => exact nomatch h
    | some word =>
      obtain ⟨rfl, hp, hpos⟩ := hstate word rfl
      rw [identTokens_some_nil, mem_singleton] at h
      subst h
      rw [length_reverse, length_nil]
      exact ⟨Nat.le_refl _, Nat.le_of_eq hp, hpos⟩
  | cons b xs ih =>
    rw [length_cons]
    cases state with
    | none =>
      obtain rfl := hnone rfl
      rw [identTokens_none_cons] at h
      split at h
      · have := @ih _ (some (start, [b])) start (by rintro word ⟨⟩; exact ⟨rfl, rfl, Nat.one_pos⟩) (fun h => nomatch h) h
        omega
      · have := @ih _ none (start + 1) (fun _ hw => nomatch hw) (fun _ => rfl) h
        omega
    | some word =>
      obtain ⟨rfl, hp, hpos⟩ := hstate word rfl
      rw [identTokens_some_cons] at h
      split at h
      · have := @ih _ (some (word.1, b :: word.2)) word.1
          (by rintro w ⟨⟩; exact ⟨rfl, by rw [length_cons]; omega, by rw [length_cons]; omega⟩) (fun h => nomatch h) h
        omega
      · rcases mem_cons.1 h with rfl | h
        · rw [length_reverse]
          exact ⟨Nat.le_refl _, by omega, hpos⟩
        · have := @ih _ none (p + 1) (fun _ hw => nomatch hw) (fun _ => rfl) h
          omega

theorem identTokens_bounds {token : Nat × List UInt8} (h : token ∈ identTokens p none xs) :
    p ≤ token.1 ∧ token.1 + token.2.length ≤ p + xs.length ∧ 0 < token.2.length :=
  @identTokens_within xs p none p (fun _ hw => nomatch hw) (fun _ => rfl) token h

/-! ## White space at the ends -/

theorem stripSpace_parts (xs : List UInt8) :
    ∃ back, xs = xs.takeWhile isWhitespace ++ stripSpace xs ++ back ∧ ∀ b ∈ back, isWhitespace b = true := by
  refine ⟨((xs.dropWhile isWhitespace).reverse.takeWhile isWhitespace).reverse, ?_, fun b hb => ?_⟩
  · unfold stripSpace
    rw [append_assoc, ← reverse_append, takeWhile_append_dropWhile, reverse_reverse,
      takeWhile_append_dropWhile]
  · exact mem_takeWhile_imp (mem_reverse.1 hb)

theorem stripSpace_pad (hxs : ∀ b ∈ xs, isWhitespace b = true) (hzs : ∀ b ∈ zs, isWhitespace b = true)
    (hhead : ∀ b ∈ ys.head?, isWhitespace b = false) (hlast : ∀ b ∈ ys.getLast?, isWhitespace b = false) :
    stripSpace (xs ++ ys ++ zs) = ys := by
  have hdrop : ∀ {us vs : List UInt8}, (∀ b ∈ us, isWhitespace b = true) → (us ++ vs).dropWhile isWhitespace =
      vs.dropWhile isWhitespace := fun h => dropWhile_append_of_pos h
  have hkeep : ∀ {us : List UInt8}, (∀ b ∈ us.head?, isWhitespace b = false) → us.dropWhile isWhitespace = us := by
    intro us h
    cases us with
    | nil => rfl
    | cons b us => exact dropWhile_cons_of_neg (by rw [h b rfl]; decide)
  have hempty : zs.dropWhile isWhitespace = [] := dropWhile_eq_nil_iff.2 hzs
  unfold stripSpace
  rw [append_assoc, hdrop hxs]
  cases ys with
  | nil => rw [nil_append, hempty]; rfl
  | cons b ys =>
    rw [cons_append, dropWhile_cons_of_neg (by rw [hhead b rfl]; decide), ← cons_append,
      reverse_append, hdrop fun b hb => hzs b (mem_reverse.1 hb), hkeep, reverse_reverse]
    rwa [List.head?_reverse]

/-! ## Names with dots between them -/

/-- The tokens of some pieces with a byte between each two. -/
def pieceTokens : Nat → List (List UInt8) → List (Nat × List UInt8)
  | _, [] => []
  | position, piece :: pieces =>
    (position + (piece.takeWhile isWhitespace).length, stripSpace piece) :: pieceTokens (position + piece.length + 1) pieces

theorem pieceTokens_words (pieces : List (List UInt8)) : (pieceTokens p pieces).map (·.2) = pieces.map stripSpace := by
  induction pieces generalizing p with
  | nil => rfl
  | cons piece pieces ih => rw [pieceTokens, map_cons, map_cons, ih]

theorem identTokens_piece (h : isIdent (stripSpace xs) = true) :
    identTokens p none xs = [(p + (xs.takeWhile isWhitespace).length, stripSpace xs)] := by
  obtain ⟨back, heq, hback⟩ := stripSpace_parts xs
  have hfront : ∀ b ∈ xs.takeWhile isWhitespace, isIdentRest b = false :=
    fun b hb => isIdentRest_of_space (mem_takeWhile_imp hb)
  have hrest : ∀ b ∈ back, isIdentRest b = false := fun b hb => isIdentRest_of_space (hback b hb)
  conv_lhs => rw [heq]
  rw [append_assoc, identTokens_apart fun b hb => hfront b (mem_of_getLast? hb), identTokens_of_none hfront,
    nil_append, identTokens_append fun b hb => hrest b (mem_of_head? hb), identTokens_ident h,
    identTokens_of_none hrest, append_nil]

theorem intercalate_cons {piece next : List UInt8} :
    [46].intercalate (piece :: next :: pieces) = piece ++ 46 :: [46].intercalate (next :: pieces) := by
  simp [List.intercalate]

theorem identTokens_dotted (h : ∀ piece ∈ pieces, isIdent (stripSpace piece) = true) :
    identTokens p none ([46].intercalate pieces) = pieceTokens p pieces := by
  induction pieces generalizing p with
  | nil => rfl
  | cons piece pieces ih =>
    have hpiece := h piece mem_cons_self
    cases pieces with
    | nil => rw [intercalate_singleton, identTokens_piece hpiece]; rfl
    | cons next pieces =>
      have hdot : ∀ b ∈ (46 :: [46].intercalate (next :: pieces)).head?, isIdentRest b = false := by
        rintro b ⟨⟩
        rfl
      rw [intercalate_cons, identTokens_append hdot, identTokens_piece hpiece, identTokens_none_cons,
        if_neg (by decide), ih fun piece hp => h piece (mem_cons_of_mem _ hp), pieceTokens]
      rfl

/-! ## Places -/

theorem slice_append : slice (xs ++ ys ++ zs) xs.length (xs.length + ys.length) = ys := by
  unfold slice
  rw [append_assoc, drop_left, Nat.add_sub_cancel_left, take_left]

/-- A range of a text that is not past its end. -/
theorem slice_split (h : start ≤ content.length) :
    content = content.take start ++ slice content start stop ++ content.drop (start + (slice content start stop).length) ∧
      (content.take start).length = start := by
  refine ⟨?_, length_take_of_le h⟩
  unfold slice
  rw [append_assoc, ← drop_drop, prefix_iff_eq_append.1 (List.take_prefix _ _), take_append_drop]

theorem bisectLeft_append {xs ys : List Nat} {n : Nat} (hxs : ∀ x ∈ xs, x < n) (hys : ∀ y ∈ ys, n ≤ y) :
    bisectLeft (xs ++ ys) n = xs.length := by
  unfold bisectLeft
  rw [takeWhile_append_of_pos fun x hx => decide_eq_true (hxs x hx)]
  cases ys with
  | nil => rw [takeWhile_nil, append_nil]
  | cons y ys => rw [takeWhile_cons_of_neg (by simpa using hys y mem_cons_self), append_nil]

/-- Between two tokens of some pieces there is the dot, and white space around it. -/
theorem pieceTokens_separated (h : ∀ piece ∈ pieces, isIdent (stripSpace piece) = true)
    (hcontent : content = xs ++ [46].intercalate pieces ++ ys) (hp : xs.length = p) :
    ((pieceTokens p pieces).zip (pieceTokens p pieces).tail).all fun (token, following) =>
      decide (stripSpace (slice content (token.1 + token.2.length) following.1) = [46]) := by
  induction pieces generalizing p xs with
  | nil => rfl
  | cons piece pieces ih =>
    cases pieces with
    | nil => rfl
    | cons next pieces =>
      rw [intercalate_cons] at hcontent
      have htail := @ih (xs ++ piece ++ [46]) (p + piece.length + 1)
        (fun piece hp => h piece (mem_cons_of_mem _ hp))
        (by rw [hcontent]; simp only [append_assoc, cons_append, nil_append])
        (by simp only [length_append, length_singleton, hp])
      rw [pieceTokens]
      refine Bool.and_eq_true_iff.2 ⟨decide_eq_true ?_, htail⟩
      obtain ⟨back, hpiece, hback⟩ := stripSpace_parts piece
      obtain ⟨back', hnext, -⟩ := stripSpace_parts next
      have hstart : ∃ rest, [46].intercalate (next :: pieces) = next.takeWhile isWhitespace ++ rest := by
        cases pieces with
        | nil => exact ⟨_, by rw [intercalate_singleton, ← append_assoc]; exact hnext⟩
        | cons third pieces =>
          refine ⟨stripSpace next ++ back' ++ 46 :: [46].intercalate (third :: pieces), ?_⟩
          rw [intercalate_cons, ← append_assoc, ← append_assoc, ← hnext]
      obtain ⟨rest, hrest⟩ := hstart
      have hplace : content = (xs ++ piece.takeWhile isWhitespace ++ stripSpace piece) ++
          (back ++ 46 :: next.takeWhile isWhitespace) ++ (rest ++ ys) := by
        rw [hcontent, hrest]
        conv_lhs => rw [hpiece]
        simp only [append_assoc, cons_append]
      have hlen := congrArg List.length hpiece
      have hslice := @slice_append (xs ++ piece.takeWhile isWhitespace ++ stripSpace piece)
        (back ++ 46 :: next.takeWhile isWhitespace) (rest ++ ys)
      rw [← hplace] at hslice
      simp only [length_append, length_cons, hp] at hslice hlen
      rw [show p + piece.length + 1 + (next.takeWhile isWhitespace).length = p + (piece.takeWhile isWhitespace).length +
        (stripSpace piece).length + (back.length + ((next.takeWhile isWhitespace).length + 1)) by omega]
      rw [hslice, ← singleton_append, ← append_assoc]
      exact stripSpace_pad hback (fun b hb => mem_takeWhile_imp hb) (by rintro b ⟨⟩; decide) (by rintro b ⟨⟩; decide)

/-! ## What the parent finds -/

/-- A text in three parts, no token over a border of the middle one. -/
theorem identTokens_between (hxs : ∀ b ∈ xs.getLast?, isIdentRest b = false) (hzs : ∀ b ∈ zs.head?, isIdentRest b = false) :
    identTokens 0 none (xs ++ ys ++ zs) = identTokens 0 none xs ++ identTokens xs.length none ys ++
      identTokens (xs.length + ys.length) none zs := by
  rw [identTokens_append hzs, identTokens_apart hxs, Nat.zero_add, length_append, Nat.zero_add]

theorem pathOk_of_dotted {path targetName : String} {qualifier : Bool}
    (hcontent : content = xs ++ [46].intercalate pieces ++ zs)
    (h : ∀ piece ∈ pieces, isIdent (stripSpace piece) = true) (hxs : ∀ b ∈ xs.getLast?, isIdentRest b = false)
    (hzs : ∀ b ∈ zs.head?, isIdentRest b = false)
    (hname : (targetName.toList.splitOn '.').map Utf8.encode = pieces.map stripSpace) :
    (SourceText.of path content).pathOk targetName xs.length (xs.length + ([46].intercalate pieces).length) qualifier = true := by
  have htokens : (SourceText.of path content).tokens = identTokens 0 none xs ++ (pieceTokens xs.length pieces ++
      identTokens (xs.length + ([46].intercalate pieces).length) none zs) := by
    show identTokens 0 none content = _
    rw [hcontent, identTokens_between hxs hzs, identTokens_dotted h, append_assoc]
  have hmiddle : ∀ token ∈ pieceTokens xs.length pieces, xs.length ≤ token.1 ∧
      token.1 + token.2.length ≤ xs.length + ([46].intercalate pieces).length := by
    intro token ht
    rw [← identTokens_dotted h] at ht
    exact ⟨(identTokens_bounds ht).1, (identTokens_bounds ht).2.1⟩
  have hindex : bisectLeft ((SourceText.of path content).tokens.map (·.1)) xs.length = (identTokens 0 none xs).length := by
    rw [htokens, map_append, bisectLeft_append, length_map]
    · intro n hn
      obtain ⟨token, ht, rfl⟩ := mem_map.1 hn
      have := identTokens_bounds ht
      omega
    · intro n hn
      obtain ⟨token, ht, rfl⟩ := mem_map.1 hn
      rcases mem_append.1 ht with ht | ht
      · exact (hmiddle token ht).1
      · have := identTokens_bounds ht
        omega
  have hcount : (pieces.map stripSpace).length = (pieceTokens xs.length pieces).length := by
    rw [← pieceTokens_words (p := xs.length), length_map]
  unfold SourceText.pathOk
  dsimp only
  rw [hindex, hname, htokens, take_left' rfl, drop_left' rfl, hcount, take_left' rfl, ← drop_drop,
    drop_left' rfl, drop_left' rfl, pieceTokens_words]
  simp only [Bool.and_eq_true, decide_true, and_true]
  refine ⟨⟨⟨?_, ?_⟩, ?_⟩, ?_⟩
  · cases hlast : (identTokens 0 none xs).getLast? with
    | none => rfl
    | some token =>
      have := identTokens_bounds (mem_of_getLast? hlast)
      simpa using show token.1 + token.2.length ≤ xs.length by omega
  · exact all_eq_true.2 fun token ht => decide_eq_true (hmiddle token ht).2
  · cases hnext : (identTokens (xs.length + ([46].intercalate pieces).length) none zs).head? with
    | none => rfl
    | some token => exact decide_eq_true (identTokens_bounds (mem_of_head? hnext)).1
  · refine all_eq_true.2 fun pair hpair => decide_eq_true ?_
    have hdot := of_decide_eq_true (all_eq_true.1 (pieceTokens_separated h hcontent rfl) pair hpair)
    show stripSpace (slice content _ _) ∈ _
    rw [hdot]
    split
    · exact mem_cons_self
    · exact mem_singleton_self _

theorem tokenWithin_of_ident {path : String} (hcontent : content = xs ++ raw ++ zs) (h : isIdent raw = true)
    (hxs : ∀ b ∈ xs.getLast?, isIdentRest b = false) (hzs : ∀ b ∈ zs.head?, isIdentRest b = false)
    (hstart : start ≤ xs.length) (hstop : xs.length + raw.length ≤ stop) :
    (SourceText.of path content).tokenWithin raw start stop = true := by
  have htokens : (SourceText.of path content).tokens = identTokens 0 none xs ++ ((xs.length, raw) ::
      identTokens (xs.length + raw.length) none zs) := by
    show identTokens 0 none content = _
    rw [hcontent, identTokens_between hxs hzs, identTokens_ident h, append_assoc]
    rfl
  unfold SourceText.tokenWithin
  rw [htokens, filter_append, filter_cons_of_pos (by simp), map_append, map_cons, List.find?_append]
  cases hfound : (((identTokens 0 none xs).filter fun token => token.2 = raw).map (·.1)).find? (start ≤ ·) with
  | none =>
    rw [Option.none_or, List.find?_cons_of_pos (by simpa using hstart)]
    exact decide_eq_true hstop
  | some found =>
    obtain ⟨token, ht, rfl⟩ := mem_map.1 (List.mem_of_find?_eq_some hfound)
    have := identTokens_bounds (mem_filter.1 ht).1
    rw [Option.some_or]
    exact decide_eq_true (by omega)

/-! ## Collapsed white space -/

/-- White space in single spaces only. -/
def Tight (xs : List UInt8) : Prop :=
  (∀ b ∈ xs, isWhitespace b = true → b = 32) ∧ xs.IsChain fun a b => ¬(isWhitespace a = true ∧ isWhitespace b = true)

theorem Tight.of_part (h : Tight xs) (hys : ys <:+: xs) : Tight ys :=
  ⟨fun b hb => h.1 b (hys.subset hb), List.IsChain.infix h.2 hys⟩

theorem collapse_cons_space (h : isWhitespace b = true) : collapse p inside (b :: xs) =
    (if inside then [] else [(p, 32)]) ++ collapse (p + 1) true xs := by
  refine (if_pos h).trans ?_
  cases inside <;> rfl

theorem collapse_cons_other (h : isWhitespace b = false) : collapse p inside (b :: xs) =
    (p, b) :: collapse (p + 1) false xs := if_neg (by rw [h]; decide)

theorem collapse_append : ∃ inside', collapse p inside (xs ++ ys) =
    collapse p inside xs ++ collapse (p + xs.length) inside' ys := by
  induction xs generalizing p inside with
  | nil => exact ⟨inside, rfl⟩
  | cons b xs ih =>
    have hlen : p + (b :: xs).length = p + 1 + xs.length := by rw [length_cons]; omega
    rw [hlen, cons_append]
    cases hb : isWhitespace b with
    | true =>
      obtain ⟨inside', h⟩ := @ih (p + 1) true
      exact ⟨inside', by rw [collapse_cons_space hb, collapse_cons_space hb, h, append_assoc]⟩
    | false =>
      obtain ⟨inside', h⟩ := @ih (p + 1) false
      exact ⟨inside', by rw [collapse_cons_other hb, collapse_cons_other hb, h, cons_append]⟩

theorem collapse_bounds {pair : Nat × UInt8} (h : pair ∈ collapse p inside xs) :
    p ≤ pair.1 ∧ pair.1 < p + xs.length := by
  induction xs generalizing p inside with
  | nil => exact nomatch h
  | cons b xs ih =>
    rw [length_cons]
    cases hb : isWhitespace b with
    | true =>
      rw [collapse_cons_space hb] at h
      rcases mem_append.1 h with h | h
      · cases inside with
        | true => exact nomatch h
        | false =>
          obtain rfl := mem_singleton.1 h
          exact ⟨Nat.le_refl _, by omega⟩
      · have := ih h
        omega
    | false =>
      rw [collapse_cons_other hb] at h
      rcases mem_cons.1 h with rfl | h
      · exact ⟨Nat.le_refl _, by omega⟩
      · have := ih h
        omega

/-- The places do not change what the text is. -/
theorem collapse_text : (collapse p inside xs).map (·.2) = (collapse q inside xs).map (·.2) := by
  induction xs generalizing p q inside with
  | nil => rfl
  | cons b xs ih =>
    cases hb : isWhitespace b with
    | true =>
      rw [collapse_cons_space hb, collapse_cons_space hb, map_append, map_append, ih (q := q + 1)]
      cases inside <;> rfl
    | false => rw [collapse_cons_other hb, collapse_cons_other hb, map_cons, map_cons, ih (q := q + 1)]

/-- A space more in front, at most. -/
theorem collapse_inside : ((collapse p inside xs).map (·.2)).dropWhile isWhitespace =
    ((collapse p false xs).map (·.2)).dropWhile isWhitespace := by
  cases inside with
  | false => rfl
  | true =>
    cases xs with
    | nil => rfl
    | cons b xs =>
      cases hb : isWhitespace b with
      | true => rw [collapse_cons_space hb, collapse_cons_space hb]; rfl
      | false => rw [collapse_cons_other hb, collapse_cons_other hb]

theorem tight_collapse : Tight ((collapse p inside xs).map (·.2)) ∧
    (inside = true → ∀ b ∈ ((collapse p inside xs).map (·.2)).head?, isWhitespace b = false) := by
  induction xs generalizing p inside with
  | nil => exact ⟨⟨fun _ hb => (nomatch hb), List.IsChain.nil⟩, fun _ _ hb => nomatch hb⟩
  | cons b xs ih =>
    cases hb : isWhitespace b with
    | true =>
      obtain ⟨htight, hhead⟩ := @ih (p + 1) true
      rw [collapse_cons_space hb]
      cases inside with
      | true => exact ⟨htight, fun _ => hhead rfl⟩
      | false =>
        refine ⟨⟨?_, isChain_cons.2 ⟨fun c hc h => ?_, htight.2⟩⟩, fun h => Bool.noConfusion h⟩
        · intro c hc hspace
          rcases mem_cons.1 hc with rfl | hc
          · rfl
          · exact htight.1 c hc hspace
        · exact absurd h.2 (by rw [hhead rfl c hc]; decide)
    | false =>
      obtain ⟨htight, -⟩ := @ih (p + 1) false
      rw [collapse_cons_other hb]
      refine ⟨⟨?_, isChain_cons.2 ⟨fun c _ h => ?_, htight.2⟩⟩, ?_⟩
      · intro c hc hspace
        rcases mem_cons.1 hc with rfl | hc
        · exact absurd hspace (by rw [hb]; decide)
        · exact htight.1 c hc hspace
      · exact absurd h.1 (by rw [hb]; decide)
      · rintro - c ⟨⟩
        exact hb

theorem collapse_of_tight (h : Tight xs) (hhead : inside = true → ∀ b ∈ xs.head?, isWhitespace b = false) :
    (collapse p inside xs).map (·.2) = xs := by
  induction xs generalizing p inside with
  | nil => rfl
  | cons b xs ih =>
    obtain ⟨hnext, hchain⟩ := isChain_cons.1 h.2
    have htail : Tight xs := ⟨fun c hc => h.1 c (mem_cons_of_mem _ hc), hchain⟩
    cases hb : isWhitespace b with
    | true =>
      cases inside with
      | true => exact absurd hb (by rw [hhead rfl b rfl]; decide)
      | false =>
        obtain rfl := h.1 b mem_cons_self hb
        rw [collapse_cons_space hb, map_append, ih htail]
        · rfl
        · intro _ c hc
          cases hspace : isWhitespace c with
          | false => rfl
          | true => exact absurd ⟨hb, hspace⟩ (hnext c hc)
    | false => rw [collapse_cons_other hb, map_cons, @ih _ false htail fun h => Bool.noConfusion h]

/-! ## What the parent finds of a signature -/

theorem bisectLeft_le {xs ys : List Nat} {n : Nat} (h : ∀ y ∈ ys, n ≤ y) : bisectLeft (xs ++ ys) n ≤ xs.length := by
  induction xs with
  | nil => exact Nat.le_of_eq (@bisectLeft_append [] ys n (fun _ hx => nomatch hx) h)
  | cons x xs ih =>
    unfold bisectLeft at ih ⊢
    rw [cons_append, takeWhile_cons]
    split
    · rw [length_cons, length_cons]
      omega
    · exact Nat.zero_le _

theorem le_bisectLeft {xs ys : List Nat} {n : Nat} (h : ∀ x ∈ xs, x < n) : xs.length ≤ bisectLeft (xs ++ ys) n := by
  unfold bisectLeft
  rw [takeWhile_append_of_pos fun x hx => decide_eq_true (h x hx), length_append]
  exact Nat.le_add_right _ _

theorem infix_take_drop {α : Type} {front part back : List α} {low high : Nat} (hlow : low ≤ front.length)
    (hhigh : front.length + part.length ≤ high) : part <:+: ((front ++ part ++ back).take high).drop low := by
  have hhigh : (front ++ part).length ≤ high := by rwa [length_append]
  rw [take_append, take_of_length_le hhigh, append_assoc, drop_append_of_le_length hlow,
    ← append_assoc]
  exact infix_append _ _ _

theorem stripSpace_starts : stripSpace xs <+: xs.dropWhile isWhitespace := by
  unfold stripSpace
  have hsuffix := dropWhile_suffix isWhitespace (l := (xs.dropWhile isWhitespace).reverse)
  rw [← List.reverse_prefix, reverse_reverse] at hsuffix
  exact hsuffix

/-- **A cut run of the collapsed text of a part is found in the part.** -/
theorem signatureOk_of_prefix {path signature : String} (hcontent : content = xs ++ raw ++ zs)
    (h : Utf8.encode signature.toList <+: stripSpace ((collapse 0 false raw).map (·.2)))
    (hlast : ∀ b ∈ (Utf8.encode signature.toList).getLast?, isWhitespace b = false) (hstart : start ≤ xs.length)
    (hstop : xs.length + raw.length ≤ stop) :
    (SourceText.of path content).signatureOk signature start stop = true := by
  generalize hneedle : Utf8.encode signature.toList = needle at h hlast
  have hdrop := h.trans (@stripSpace_starts ((collapse 0 false raw).map (·.2)))
  have htight : Tight needle :=
    tight_collapse.1.of_part (hdrop.isInfix.trans (dropWhile_suffix isWhitespace).isInfix)
  have hhead : ∀ b ∈ needle.head?, isWhitespace b = false := by
    intro b hb
    obtain ⟨rest, hrest⟩ := hdrop
    have hfirst : (((collapse 0 false raw).map (·.2)).dropWhile isWhitespace).head? = some b := by
      rw [← hrest, List.head?_append, hb]
      rfl
    have := List.head?_dropWhile_not isWhitespace ((collapse 0 false raw).map (·.2))
    rw [hfirst] at this
    simpa using this
  have hkept : stripSpace ((collapse 0 false needle).map (·.2)) = needle := by
    rw [@collapse_of_tight needle 0 false htight fun h => Bool.noConfusion h]
    have := @stripSpace_pad [] needle [] (fun _ hb => nomatch hb) (fun _ hb => nomatch hb) hhead hlast
    rwa [nil_append, append_nil] at this
  obtain ⟨inside, hfirst⟩ := @collapse_append (xs ++ raw) zs 0 false
  obtain ⟨inside', hsecond⟩ := @collapse_append xs raw 0 false
  have hcollapsed : (SourceText.of path content).collapsed = collapse 0 false xs ++ collapse xs.length inside' raw ++
      collapse (xs.length + raw.length) inside zs := by
    show collapse 0 false content = _
    rw [hcontent, hfirst, hsecond, Nat.zero_add, Nat.zero_add, length_append]
  have hpart : needle <:+: (collapse xs.length inside' raw).map (·.2) := by
    rw [collapse_text (q := xs.length), ← @collapse_inside raw _ inside'] at hdrop
    exact hdrop.isInfix.trans (dropWhile_suffix isWhitespace).isInfix
  unfold SourceText.signatureOk
  dsimp only
  rw [hneedle, hkept, hcollapsed]
  refine Bool.or_eq_true_iff.2 (.inr (decide_eq_true (hpart.trans (List.IsInfix.map _ (infix_take_drop ?_ ?_)))))
  · rw [append_assoc, map_append]
    refine Nat.le_trans (bisectLeft_le fun n hn => ?_) (by rw [length_map])
    obtain ⟨pair, hpair, rfl⟩ := mem_map.1 hn
    rcases mem_append.1 hpair with hpair | hpair
    · have := collapse_bounds hpair
      omega
    · have := collapse_bounds hpair
      omega
  · rw [map_append, ← length_append, ← length_map]
    refine le_bisectLeft fun n hn => ?_
    obtain ⟨pair, hpair, rfl⟩ := mem_map.1 hn
    rcases mem_append.1 hpair with hpair | hpair
    · have := collapse_bounds hpair
      omega
    · have := collapse_bounds hpair
      omega

end Indexing.Structural
