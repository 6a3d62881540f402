import AgentContext.Indexing.Shedding
import AgentContext.Lib.Text

/-!
# Characters and bytes

The output budget is kept in characters, the bound of the runner is in UTF-8 bytes.  An answer of signatures that take
four bytes a character is kept as it is, and is larger than the runner reads:

    validateModule_wide    the gate lets the answer through
    length_wideAnswer      its characters
    excess_wideAnswer      its bytes over the characters
    kept_wide              `safe_module` keeps it
    stray_refused          a file without structure is kept under any path
-/

namespace Indexing.Structural

open JsonDump Fallible List

variable {i : Nat} {n : Nat}

/-- A character of four bytes. -/
def wideChar : Char := Char.ofNat 0x1F600

def wideSignature : String := String.ofList (List.replicate 128 wideChar)

def zeroDigest : String := String.ofList (List.replicate 64 '0')

/-- A name, a run of wide characters, and spaces. -/
def wideContent : List UInt8 := 102 :: 32 :: (Utf8.encode wideSignature.toList ++ List.replicate 10000 32)

def wideSymbol (i : Nat) : ParsedSymbol where
  ref := toString i
  language := "python"
  qualifiedName := "f"
  kind := .function
  startByte := 0
  endByte := 514 + i
  signature := wideSignature
  signatureDigest := zeroDigest
  semanticFingerprint := zeroDigest

def wideAnswer (n : Nat) : Answer where
  path := "wide.py"
  language := "python"
  parserFingerprint := zeroDigest
  symbols := (List.range n).map wideSymbol
  relations := []
  references := []
  diagnostics := []

theorem excess_wideSignature : excess wideSignature.toList = 384 := by
  unfold wideSignature
  rw [String.toList_ofList]
  exact (excess_replicate 128).trans (by decide)

theorem excess_zeroDigest : excess zeroDigest.toList = 0 := by
  unfold zeroDigest
  rw [String.toList_ofList]
  exact (excess_replicate 64).trans (by decide)

theorem excess_symbol (symbol : ParsedSymbol) : excess symbol.dump =
    excess symbol.ref.toList + excess symbol.language.toList + excess symbol.qualifiedName.toList +
      excess symbol.kind.value.toList + excess symbol.disambiguator.toList + excess symbol.signature.toList +
      excess symbol.signatureDigest.toList + excess symbol.semanticFingerprint.toList := by
  unfold ParsedSymbol.dump
  rw [excess_object]
  simp [Char.utf8Size, evidenceKind, Nat.add_assoc]

theorem length_symbol (symbol : ParsedSymbol) : symbol.dump.length =
    176 + (str symbol.ref).length + (str symbol.language).length + (str symbol.qualifiedName).length +
      (str symbol.kind.value).length + (str symbol.disambiguator).length + (nat symbol.startByte).length +
      (nat symbol.endByte).length + (str symbol.signature).length + (str symbol.signatureDigest).length +
      (str symbol.semanticFingerprint).length := by
  have hnames : (str "ref").length = 5 ∧ (str "language").length = 10 ∧ (str "qualified_name").length = 16 ∧
      (str "kind").length = 6 ∧ (str "disambiguator").length = 15 ∧ (str "start_byte").length = 12 ∧
      (str "end_byte").length = 10 ∧ (str "signature").length = 11 ∧ (str "signature_digest").length = 18 ∧
      (str "semantic_fingerprint").length = 22 ∧ (str "evidence_kind").length = 15 ∧
      (str evidenceKind).length = 13 := by simp [str, escapeChar, evidenceKind]
  unfold ParsedSymbol.dump
  rw [length_object]
  simp only [map_cons, map_nil, sum_cons, sum_nil, length_cons, length_nil]
  omega

theorem excess_wideSymbol (i : Nat) : excess (wideSymbol i).dump = 384 := by
  have href : excess (toString i).toList = 0 := by rw [toList_toString, excess_nat]
  rw [excess_symbol]
  simp only [wideSymbol, excess_wideSignature, excess_zeroDigest, href]
  simp [Char.utf8Size, SymbolKind.value]

theorem length_wideSymbol (hi : i < 10000) : 460 ≤ (wideSymbol i).dump.length ∧ (wideSymbol i).dump.length ≤ 600 := by
  have hsignature : (str wideSignature).length = 130 := length_str_replicate 128 (by decide)
  have hzero : (str zeroDigest).length = 66 := length_str_replicate 64 (by decide)
  have hdigits : ∀ n, n < 100000 → (Nat.toDigits 10 n).length ≤ 5 := fun n hn =>
    (Nat.length_toDigits_le_iff (by decide) (by decide)).2 hn
  have hend : (nat (514 + i)).length ≤ 5 := hdigits _ (by omega)
  have href : (str (toString i)).length ≤ 32 := by
    have hle := length_str_le (toString i)
    have hlength : (toString i).length ≤ 5 := by
      rw [← String.length_toList, toList_toString]
      exact hdigits i (by omega)
    omega
  have hvalues : (str "python").length = 8 ∧ (str "f").length = 3 ∧ (str SymbolKind.function.value).length = 10 ∧
      (str "").length = 2 ∧ (nat 0).length = 1 := by
    simp [str, escapeChar, SymbolKind.value, nat]
  rw [length_symbol]
  simp only [wideSymbol, hsignature, hzero]
  omega

/-! ## The file is let through -/

def wideSource : SourceFile := ⟨"wide.py", "python", Base64.encodeStandard wideContent⟩

theorem content_wideSource : wideSource.content = wideContent := by
  unfold SourceFile.content wideSource
  rw [Base64.decode_encodeStandard]
  rfl

theorem length_encode_wideSignature : (Utf8.encode wideSignature.toList).length = 512 := by
  rw [Utf8.length_encode, size_eq, excess_wideSignature, wideSignature, String.toList_ofList, length_replicate]

theorem length_wideContent : wideContent.length = 10514 := by
  unfold wideContent
  rw [length_cons, length_cons, length_append, length_encode_wideSignature, length_replicate]

theorem encode_wideSignature_word : ∀ b ∈ Utf8.encode wideSignature.toList, isWhitespace b = false := by
  intro b hb
  unfold wideSignature Utf8.encode at hb
  rw [String.toList_ofList] at hb
  obtain ⟨c, hc, hb⟩ := mem_flatMap.1 hb
  have hbytes : (String.utf8EncodeChar wideChar).all (fun b => !isWhitespace b) := rfl
  simpa using all_eq_true.1 hbytes b (eq_of_mem_replicate hc ▸ hb)

/-- Text without white space is kept as it is, byte by byte. -/
theorem collapse_word {word rest : List UInt8} (h : ∀ b ∈ word, isWhitespace b = false) (position : Nat) (inside : Bool) :
    ∃ pre inside', collapse position inside (word ++ rest) = pre ++ collapse (position + word.length) inside' rest ∧
      pre.map (·.2) = word ∧ ∀ x ∈ pre, x.1 < position + word.length := by
  induction word generalizing position inside with
  | nil => exact ⟨[], inside, rfl, rfl, forall_mem_nil _⟩
  | cons b word ih =>
    obtain ⟨pre, inside', heq, hbytes, hpositions⟩ := ih (fun b' hb' => h b' (mem_cons_of_mem b hb')) (position + 1) false
    have hb := h b mem_cons_self
    have hlength : position + 1 + word.length = position + (b :: word).length := by
      rw [length_cons]
      omega
    rw [hlength] at heq hpositions
    refine ⟨(position, b) :: pre, inside', ?_, by rw [map_cons, hbytes], ?_⟩
    · rw [cons_append, collapse, hb, if_neg Bool.false_ne_true, heq, cons_append]
    · intro x hx
      rcases mem_cons.1 hx with rfl | hx
      · rw [length_cons]
        exact Nat.lt_add_of_pos_right (Nat.succ_pos _)
      · exact hpositions x hx

theorem stripSpace_word {word : List UInt8} (h : ∀ b ∈ word, isWhitespace b = false) : stripSpace word = word := by
  have hdrop : ∀ bytes : List UInt8, (∀ b ∈ bytes, isWhitespace b = false) → bytes.dropWhile isWhitespace = bytes := by
    intro bytes hbytes
    cases bytes with
    | nil => rfl
    | cons b bytes => rw [dropWhile_cons, hbytes b mem_cons_self, if_neg Bool.false_ne_true]
  unfold stripSpace
  rw [hdrop word h, hdrop word.reverse fun b hb => h b (mem_reverse.1 hb), reverse_reverse]

/-- A word that stands in a range, after a token at its start, is a signature of it. -/
theorem signatureOk_word {path signature : String} {rest : List UInt8} {stop : Nat}
    (h : ∀ b ∈ Utf8.encode signature.toList, isWhitespace b = false)
    (hstop : 2 + (Utf8.encode signature.toList).length ≤ stop) :
    (SourceText.of path (102 :: 32 :: (Utf8.encode signature.toList ++ rest))).signatureOk signature 0 stop := by
  have hneedle : stripSpace ((collapse 0 false (Utf8.encode signature.toList)).map (·.2)) =
      Utf8.encode signature.toList := by
    obtain ⟨pre, inside, heq, hbytes, -⟩ := @collapse_word _ [] h 0 false
    rw [append_nil] at heq
    rw [heq, collapse, append_nil, hbytes, stripSpace_word h]
  obtain ⟨first, more, hcollapsed, hbytes, hpositions⟩ : ∃ first more,
      collapse 0 false (102 :: 32 :: (Utf8.encode signature.toList ++ rest)) = first ++ more ∧
        first.map (·.2) = 102 :: 32 :: Utf8.encode signature.toList ∧
        ∀ x ∈ first, x.1 < 2 + (Utf8.encode signature.toList).length := by
    obtain ⟨pre, inside, heq, hbytes, hpositions⟩ := @collapse_word _ rest h 2 true
    refine ⟨(0, 102) :: (1, 32) :: pre, collapse (2 + (Utf8.encode signature.toList).length) inside rest, ?_, ?_, ?_⟩
    · show (0, 102) :: (1, 32) :: collapse 2 true (Utf8.encode signature.toList ++ rest) = _
      rw [heq]
      rfl
    · rw [map_cons, map_cons, hbytes]
    · intro x hx
      rcases mem_cons.1 hx with rfl | hx
      · exact Nat.lt_of_lt_of_le (by decide : (0 : Nat) < 2) (Nat.le_add_right 2 _)
      · rcases mem_cons.1 hx with rfl | hx
        · exact Nat.lt_of_lt_of_le (by decide : (1 : Nat) < 2) (Nat.le_add_right 2 _)
        · exact hpositions x hx
  have hlow : bisectLeft ((first ++ more).map (·.1)) 0 = 0 := by
    unfold bisectLeft
    cases (first ++ more).map (·.1) with
    | nil => rfl
    | cons x xs => rw [takeWhile_cons, decide_eq_false (Nat.not_lt_zero x), if_neg Bool.false_ne_true, length_nil]
  obtain ⟨k, hhigh⟩ : ∃ k, bisectLeft ((first ++ more).map (·.1)) stop = first.length + k := by
    unfold bisectLeft
    rw [map_append, takeWhile_append_of_pos, length_append, length_map]
    · exact ⟨_, rfl⟩
    · intro x hx
      obtain ⟨y, hy, rfl⟩ := mem_map.1 hx
      have := hpositions y hy
      exact decide_eq_true (by omega)
  unfold SourceText.signatureOk SourceText.of
  simp only [hneedle, hcollapsed, hlow, hhigh, Bool.or_eq_true, decide_eq_true_eq]
  right
  rw [drop_zero, take_length_add_append, map_append, hbytes]
  exact ⟨[102, 32], (more.take k).map (·.2), rfl⟩

/-- A token at the start of the range, before white space, is a name of it. -/
theorem finalOk_start {path : String} {rest : List UInt8} {stop : Nat} (hstop : 1 ≤ stop) :
    (SourceText.of path (102 :: 32 :: rest)).finalOk "f" .function 0 stop := by
  have hsegments : segments "f" = [[102]] := rfl
  have htokens : (SourceText.of path (102 :: 32 :: rest)).tokens = (0, [102]) :: identTokens 2 none rest := rfl
  unfold SourceText.finalOk SourceText.tokenWithin
  rw [hsegments, htokens]
  simp [isIdent, isIdentStart, hstop]

/-! ## All its symbols are -/

/-- The state of the loop after so many symbols. -/
def wideDeclared (n : Nat) : Declared where
  nameBytes := n
  refs := (List.range n).map fun i => (toString i, (0, 514 + i))
  declarations := (List.range n).map fun i => ("f", .function, 0, 514 + i)

theorem checkSymbol_wide {text : SourceText} (hi : i < 10000) (hlength : text.content.length = 10514)
    (hfinal : ∀ stop, 1 ≤ stop → text.finalOk "f" .function 0 stop)
    (hsignature : ∀ stop, 514 ≤ stop → text.signatureOk wideSignature 0 stop) :
    checkSymbol text "python" (wideDeclared i) (wideSymbol i) = .ok (wideDeclared (i + 1)) := by
  have hsize : Utf8.size "f".toList = 1 := by simp [Utf8.size, Char.utf8Size]
  have href : toString i ∉ (wideDeclared i).refs.map (·.1) := by
    simp only [wideDeclared, map_map, mem_map, mem_range, Function.comp_apply, not_exists, not_and]
    intro j hj heq
    exact absurd (Text.toString_injective heq) (Nat.ne_of_lt hj)
  have hdeclaration : ("f", SymbolKind.function, 0, 514 + i) ∉ (wideDeclared i).declarations := by
    simp only [wideDeclared, mem_map, mem_range, not_exists, not_and, Prod.mk.injEq, true_and]
    intro j hj heq
    omega
  have hcharge : charge (wideDeclared i).nameBytes "f" = .ok (i + 1) := by
    unfold charge
    rw [hsize, if_neg]
    · rfl
    · show ¬ i + 1 > maxNameTotalBytes
      unfold maxNameTotalBytes
      omega
  have hrange : ¬ (wideSymbol i).endByte > text.content.length := by
    rw [hlength]
    show ¬ 514 + i > 10514
    omega
  have htext : (!text.finalOk "f" .function 0 (514 + i) || !text.signatureOk wideSignature 0 (514 + i)) = false := by
    rw [hfinal (514 + i) (by omega), hsignature (514 + i) (by omega)]
    rfl
  unfold checkSymbol
  rw [if_neg (fun h => h rfl), if_neg hrange]
  show (charge (wideDeclared i).nameBytes "f" >>= _) = _
  rw [hcharge, ok_bind]
  show (if (!text.finalOk "f" .function 0 (514 + i) || !text.signatureOk wideSignature 0 (514 + i)) = true then _ else
    if toString i ∈ (wideDeclared i).refs.map (·.1) ∨ ("f", SymbolKind.function, 0, 514 + i) ∈ (wideDeclared i).declarations
      then _ else _) = _
  rw [htext, if_neg Bool.false_ne_true, if_neg (not_or.2 ⟨href, hdeclaration⟩)]
  unfold wideDeclared
  rw [range_succ, map_append, map_append]
  rfl

theorem checkSymbols_wide {text : SourceText} (hlength : text.content.length = 10514)
    (hfinal : ∀ stop, 1 ≤ stop → text.finalOk "f" .function 0 stop)
    (hsignature : ∀ stop, 514 ≤ stop → text.signatureOk wideSignature 0 stop) :
    ∀ n ≤ 10000, ((List.range n).map wideSymbol).foldlM (checkSymbol text "python") {} = .ok (wideDeclared n) := by
  intro n
  induction n with
  | zero =>
    intro _
    rfl
  | succ n ih =>
    intro hn
    rw [range_succ, map_append, foldlM_append, ih (by omega), ok_bind, map_singleton,
      foldlM_cons, checkSymbol_wide (by omega) hlength hfinal hsignature]
    rfl

theorem validateFile_wide (hn : n ≤ 10000) :
    validateFile (wideAnswer n) wideSource.content = .ok (SourceText.of (wideAnswer n).path wideSource.content) := by
  rw [content_wideSource, validateFile_eq_ok]
  refine ⟨⟨?_, Nat.zero_le _, Nat.zero_le _⟩, rfl, wideDeclared n, [], { nameBytes := n }, ?_, rfl, rfl⟩
  · show ((List.range n).map wideSymbol).length ≤ maxSymbolsPerFile
    rw [length_map, length_range]
    exact hn
  · refine checkSymbols_wide length_wideContent (fun stop hstop => finalOk_start hstop) (fun stop hstop => ?_) n hn
    refine signatureOk_word encode_wideSignature_word ?_
    rw [length_encode_wideSignature]
    exact hstop

/-- The file is let through. -/
theorem validateModule_wide (rehash : String → String → String) (hn : n ≤ 10000) :
    ∃ answers, validateModule rehash [wideSource] [wideAnswer n] zeroDigest = .ok answers := by
  refine validateModule_all (nodup_singleton _) (.cons ⟨rfl, rfl, rfl, validateFile_wide hn, ?_⟩ .nil)
  intro symbol hsymbol
  obtain ⟨i, -, rfl⟩ := mem_map.1 hsymbol
  have hsegments : (segments "f").dropLast = [] := rfl
  show SourceText.prefixOk _ "f" 0 (514 + i) _ _
  unfold SourceText.prefixOk
  rw [hsegments]
  rfl

/-! ## Its answer -/

theorem sum_le_mul {α : Type} {f : α → Nat} {l : List α} {k : Nat} (h : ∀ a ∈ l, f a ≤ k) :
    (l.map f).sum ≤ l.length * k := by
  induction l with
  | nil => exact Nat.zero_le _
  | cons a l ih =>
    have ha := h a mem_cons_self
    have hl := ih fun b hb => h b (mem_cons_of_mem a hb)
    rw [map_cons, sum_cons, length_cons, Nat.succ_mul]
    omega

theorem mul_le_sum {α : Type} {f : α → Nat} {l : List α} {k : Nat} (h : ∀ a ∈ l, k ≤ f a) :
    l.length * k ≤ (l.map f).sum := by
  induction l with
  | nil => exact Nat.le_of_eq (Nat.zero_mul k)
  | cons a l ih =>
    have ha := h a mem_cons_self
    have hl := ih fun b hb => h b (mem_cons_of_mem a hb)
    rw [map_cons, sum_cons, length_cons, Nat.succ_mul]
    omega

theorem length_wideAnswer (hn : n ≤ 10000) :
    n * 460 ≤ (wideAnswer n).dump.length ∧ (wideAnswer n).dump.length ≤ n * 600 + n + 1000 := by
  have hbounds : ∀ symbol ∈ (List.range n).map wideSymbol, 460 ≤ symbol.dump.length ∧ symbol.dump.length ≤ 600 := by
    intro symbol hsymbol
    obtain ⟨i, hi, rfl⟩ := mem_map.1 hsymbol
    exact length_wideSymbol (Nat.lt_of_lt_of_le (mem_range.1 hi) hn)
  have hlength : ((List.range n).map wideSymbol).length = n := by rw [length_map, length_range]
  have hle := sum_le_mul fun symbol hsymbol => (hbounds symbol hsymbol).2
  have hge := mul_le_sum fun symbol hsymbol => (hbounds symbol hsymbol).1
  rw [hlength] at hle hge
  have hvalues : (str "wide.py").length = 9 ∧ (str "python").length = 8 := by simp [str, escapeChar]
  have hzero : (str zeroDigest).length = 66 := length_str_replicate 64 (by decide)
  rw [length_dump]
  simp only [wideAnswer, map_nil, sum_nil, length_nil, length_array, length_map, length_range, hzero]
  rw [map_map]
  have hsum : (((List.range n).map wideSymbol).map (List.length ∘ fun symbol => symbol.dump)).sum =
      (((List.range n).map wideSymbol).map fun symbol => symbol.dump.length).sum := rfl
  rw [hsum]
  omega

theorem excess_wideAnswer (n : Nat) : excess (wideAnswer n).dump = n * 384 := by
  have hsymbols : ((wideAnswer n).symbols.map fun symbol => excess symbol.dump) = List.replicate n 384 := by
    rw [eq_replicate_iff, length_map, wideAnswer, length_map, length_range]
    refine ⟨rfl, fun k hk => ?_⟩
    obtain ⟨symbol, hsymbol, rfl⟩ := mem_map.1 hk
    obtain ⟨i, -, rfl⟩ := mem_map.1 hsymbol
    exact excess_wideSymbol i
  rw [excess_dump, hsymbols]
  simp only [wideAnswer, excess_zeroDigest, map_nil, sum_nil]
  simp [Char.utf8Size]

/-! ## What the adapter may answer -/

theorem isDigest_zeroDigest : isDigest zeroDigest := by
  unfold isDigest zeroDigest
  rw [← String.length_toList, String.toList_ofList, length_replicate, Bool.and_eq_true, all_eq_true]
  refine ⟨rfl, fun c hc => ?_⟩
  rw [eq_of_mem_replicate hc]
  rfl

theorem isRef_toString (hi : i < 10000) : isRef (toString i) := by
  have hlength : (toString i).length ≤ 6 := by
    rw [← String.length_toList, toList_toString]
    exact (Nat.length_toDigits_le_iff (by decide) (by decide)).2 (Nat.lt_of_lt_of_le hi (by decide))
  have hpos : 1 ≤ (toString i).length := by
    rw [← String.length_toList, toList_toString]
    exact Nat.length_toDigits_pos
  unfold isRef
  rw [decide_eq_true hpos, decide_eq_true hlength, Bool.true_and, Bool.true_and, all_eq_true, toList_toString]
  exact fun c hc => @Nat.isDigit_of_mem_toDigits 10 i c (by decide) (by decide) hc

theorem isText_wideSignature : isText maxSignatureBytes wideSignature := by
  unfold isText
  rw [Bool.and_eq_true, all_eq_true, decide_eq_true_eq, ← Utf8.length_encode, length_encode_wideSignature]
  refine ⟨fun c hc => ?_, Nat.le_refl _⟩
  unfold wideSignature at hc
  rw [String.toList_ofList] at hc
  rw [eq_of_mem_replicate hc]
  decide

theorem valid_wideSymbol (hi : i < 10000) : (wideSymbol i).valid := by
  have hlanguage : isLanguage "python" := rfl
  have hname : isName "f" := rfl
  have hdisambiguator : isDisambiguator "" := rfl
  unfold ParsedSymbol.valid
  simp only [wideSymbol, isRef_toString hi, hlanguage, hname, hdisambiguator, isText_wideSignature, isDigest_zeroDigest,
    Bool.true_and]
  exact decide_eq_true (Nat.lt_of_lt_of_le (by decide : 0 < 514) (Nat.le_add_right 514 i))

theorem valid_wideAnswer (hn : n ≤ 10000) : (wideAnswer n).valid := by
  have hpath : isRepoPath "wide.py" := rfl
  have hlanguage : isLanguage "python" := rfl
  have hsymbols : ((List.range n).map wideSymbol).all (·.valid) := by
    rw [all_eq_true]
    intro symbol hsymbol
    obtain ⟨i, hi, rfl⟩ := mem_map.1 hsymbol
    exact valid_wideSymbol (Nat.lt_of_lt_of_le (mem_range.1 hi) hn)
  unfold Answer.valid
  simp only [wideAnswer, hpath, hlanguage, isDigest_zeroDigest, hsymbols, Bool.true_and]
  rfl

/-! ## The answer is kept -/

section Kept

variable {A : Type} {rehash : String → String → String} {newFile : A → A} {fingerprint : String} {source : SourceFile}
  {parsed refused : Answer}

theorem fit_first {total : Nat} (h : total + parsed.dump.length ≤ outputBudget) : fit total parsed refused = parsed := by
  obtain ⟨rest, hrest⟩ : ∃ rest, reductions parsed refused = parsed :: rest := ⟨_, rfl⟩
  unfold fit
  rw [hrest, List.find?_cons, decide_eq_true h, Option.getD_some]

theorem attempt_valid (h : ∃ answers, validateModule rehash [source] [parsed] fingerprint = .ok answers) :
    attempt rehash fingerprint source (.parsed parsed) = parsed := by
  obtain ⟨answers, h⟩ := h
  show (if _ then _ else _) = parsed
  rw [h]
  exact ite_self parsed

/-- A parse function that gives one answer to every file. -/
def always (parsed : Answer) : ParseFile A := fun _ adapter output => (.parsed parsed, adapter, output)

theorem safeModule_always (adapter : A) (h : attempt rehash fingerprint source (.parsed parsed) = parsed)
    (hfits : parsed.dump.length ≤ outputBudget) :
    (safeModule rehash newFile (always parsed) fingerprint adapter [source]).files = [parsed] := by
  show [fit 0 (attempt rehash fingerprint source (.parsed parsed)) _] = [parsed]
  rw [h, fit_first]
  rwa [Nat.zero_add]

theorem outcomes_always (adapter : A) : outcomes rehash newFile (always parsed) fingerprint ⟨adapter, 0, 0, []⟩ [source] =
    [(source, .parsed parsed)] := rfl

theorem slack_singleton (outcome : FileOutcome) : slack rehash fingerprint [(source, outcome)] =
    excess (attempt rehash fingerprint source outcome).dump +
      (degradedFile source fingerprint "symbols_dropped").dump.length + 1 := by
  unfold slack
  rw [map_singleton, map_singleton, sum_singleton, sum_singleton, length_singleton]

end Kept

/-- A file of its own is a request. -/
def ParseRequest.single (source : SourceFile) (h : source.valid) : ParseRequest where
  files := [source]
  nonempty := Nat.le_refl 1
  bounded := (by decide : 1 ≤ maxInputFiles)
  unique := List.nodup_singleton _
  valid := List.forall_mem_singleton.2 h

theorem valid_wideSource : wideSource.valid := by
  have hpath : isRepoPath "wide.py" := rfl
  have hlanguage : isLanguage "python" := rfl
  unfold SourceFile.valid wideSource
  rw [Base64.decode_encodeStandard, hpath, hlanguage, Option.any_some, length_wideContent]
  decide

theorem kept_wide (rehash : String → String → String) (hn : n ≤ 10000) :
    (safeModule rehash id (always (wideAnswer n)) zeroDigest () (ParseRequest.single wideSource valid_wideSource).files).files =
      [wideAnswer n] := by
  refine safeModule_always () (attempt_valid (validateModule_wide rehash hn)) ?_
  have hlength := (length_wideAnswer hn).2
  unfold outputBudget maxOutputBytes
  omega

theorem size_wide (hn : n ≤ 10000) : n * 844 ≤ Utf8.size (dumpModule [wideAnswer n]) := by
  have hlength := (length_wideAnswer hn).1
  rw [size_eq, excess_dumpModule, length_dumpModule, map_singleton, map_singleton, sum_singleton,
    sum_singleton, excess_wideAnswer]
  calc n * 844 = n * 460 + n * 384 := Nat.mul_add n 460 384
    _ ≤ (wideAnswer n).dump.length + n * 384 := Nat.add_le_add_right hlength _
    _ ≤ _ := Nat.add_le_add_right ((Nat.le_add_left _ _).trans (Nat.le_add_right _ _)) _

theorem length_degraded_wide : (degradedFile wideSource zeroDigest "symbols_dropped").dump.length ≤ 1000 := by
  have hnames : (str "wide.py").length = 9 ∧ (str "python").length = 8 ∧ (str "code").length = 6 ∧
      (str "count").length = 7 ∧ (str "symbols_dropped").length = 17 ∧ (str "file_degraded").length = 15 := by
    simp [str, escapeChar]
  have hone : (nat 1).length = 1 := rfl
  have hzero : (str zeroDigest).length = 66 := length_str_replicate 64 (by decide)
  have hdiagnostics : (degradedFile wideSource zeroDigest "symbols_dropped").diagnostics =
      [⟨"symbols_dropped", 1⟩, ⟨"file_degraded", 1⟩] := rfl
  rw [length_dump, hdiagnostics]
  simp only [degradedFile, wideSource, ParsedDiagnostic.dump, map_cons, map_nil, sum_cons, sum_nil,
    length_cons, length_nil, length_array, length_object, hzero]
  omega

/-- An answer of few such symbols is small enough. -/
theorem safeModule_bounded_wide :
    Utf8.size (dumpModule (safeModule (fun _ digest => digest) id (always (wideAnswer 2)) zeroDigest ()
      (ParseRequest.single wideSource valid_wideSource).files).files) ≤ maxOutputBytes := by
  have hattempt : attempt (fun _ digest => digest) zeroDigest wideSource (.parsed (wideAnswer 2)) = wideAnswer 2 :=
    attempt_valid (validateModule_wide _ (by decide))
  have hempty : (dumpModule []).length ≤ 100 := by
    have htwo : (nat 2).length = 1 := rfl
    unfold dumpModule
    rw [length_object]
    simp [str, escapeChar, htwo, array, commas]
  have hbound : ∀ a b c, a ≤ 100 → b ≤ 1000 → c ≤ outputBudget → a + c + (2 * 384 + b + 1) ≤ maxOutputBytes := by
    unfold outputBudget maxOutputBytes
    omega
  refine (safeModule_bounded (ParseRequest.single wideSource valid_wideSource) () ?_ ?_).2.1
  · intro x hx parsed hparsed hbare
    rw [show (ParseRequest.single wideSource valid_wideSource).files = [wideSource] from rfl, outcomes_always] at hx
    obtain rfl := List.mem_singleton.1 hx
    obtain rfl : wideAnswer 2 = parsed := FileOutcome.parsed.inj hparsed
    exact absurd hbare Bool.false_ne_true
  · have hexcess := excess_wideAnswer 2
    have hdegraded := length_degraded_wide
    rw [show (ParseRequest.single wideSource valid_wideSource).files = [wideSource] from rfl, outcomes_always,
      slack_singleton, hattempt, hexcess]
    exact hbound _ _ _ hempty hdegraded (Nat.min_le_left _ _)

/-! ## Files without structure -/

/-- An answer to another file. -/
def strayAnswer : Answer := ⟨"other.py", "python", zeroDigest, [], [], [], []⟩

theorem kept_stray (rehash : String → String → String) :
    (safeModule rehash id (always strayAnswer) zeroDigest () (ParseRequest.single wideSource valid_wideSource).files).files =
      [strayAnswer] := by
  refine safeModule_always () rfl ?_
  have hnames : strayAnswer.dump.length ≤ 1000 := by
    have hzero : (str zeroDigest).length = 66 := length_str_replicate 64 (by decide)
    have hvalues : (str "other.py").length = 10 ∧ (str "python").length = 8 := by simp [str, escapeChar]
    rw [length_dump]
    simp only [strayAnswer, map_nil, sum_nil, length_nil, length_array, hzero]
    omega
  exact hnames.trans (by decide)

theorem stray_refused (rehash : String → String → String) :
    validateModule rehash [wideSource] [strayAnswer] zeroDigest = .error .pathMismatch := by
  have hpath : decide (wideSource.path = strayAnswer.path) = false := rfl
  have hfind : [wideSource].find? (·.path = strayAnswer.path) = none := by
    rw [List.find?_cons, hpath]
    rfl
  unfold validateModule
  rw [foldlM_cons]
  unfold checkFile
  rw [hfind]
  rfl

/-- **An answer may be larger than the runner reads, or refused by it**: every symbol is valid and let through, and its
characters are within the output budget. -/
theorem safeModule_refused :
    ((wideAnswer 10000).valid ∧
      (wideAnswer 10000) ∈ (safeModule (fun _ digest => digest) id (always (wideAnswer 10000)) zeroDigest ()
        (ParseRequest.single wideSource valid_wideSource).files).files ∧
      ¬ Utf8.size (dumpModule (safeModule (fun _ digest => digest) id (always (wideAnswer 10000)) zeroDigest ()
        (ParseRequest.single wideSource valid_wideSource).files).files) ≤ maxOutputBytes) ∧
    ¬ ∃ answers, validateModule (fun _ digest => digest) (ParseRequest.single wideSource valid_wideSource).files
      (safeModule (fun _ digest => digest) id (always strayAnswer) zeroDigest ()
        (ParseRequest.single wideSource valid_wideSource).files).files zeroDigest = .ok answers := by
  refine ⟨⟨valid_wideAnswer (Nat.le_refl _), ?_, ?_⟩, ?_⟩
  · rw [kept_wide _ (Nat.le_refl _)]
    exact List.mem_singleton_self _
  · have hsize := @size_wide 10000 (Nat.le_refl _)
    have hbound : maxOutputBytes < 10000 * 844 := by decide
    rw [kept_wide _ (Nat.le_refl _)]
    exact Nat.not_le_of_lt (Nat.lt_of_lt_of_le hbound hsize)
  · rintro ⟨answers, h⟩
    rw [kept_stray] at h
    rw [show (ParseRequest.single wideSource valid_wideSource).files = [wideSource] from rfl, stray_refused] at h
    cases h

end Indexing.Structural
