import AgentContext.Lib.Table
import AgentContext.Lib.Utf8
import Mathlib

/-!
# Positions in a source

`indexing/emitter.py`: a line and a character offset, in one of three encodings, as the offset of a byte.  A line is
measured once; where it is not ASCII, tables hold the places of its characters.

    _line_starts    where the lines begin
    _line_at        a line without its terminator, from the cache or measured
    _byte_offset    the byte of a position
-/

namespace Indexing.Positions

open Table Utf8 List

inductive PositionEncoding where
  | unspecified
  | utf8
  | utf16
  | utf32
  | unknown
deriving DecidableEq, Repr

/-- `_line_starts`. -/
def lineStarts (source : List UInt8) : List Nat :=
  0 :: source.zipIdx.filterMap fun entry => if entry.1 = 0x0A then some (entry.2 + 1) else none

/-- `_Line`. -/
structure Line where
  start : Nat
  length : Nat
  text : Option (List UInt8)
  valid : Bool
  codePoints : Option (List Nat)
  utf16 : Option (List (Option Nat))
deriving DecidableEq, Repr

/-- The bytes that `tables` counts for a character. -/
def width (symbol : Char) : Nat :=
  let code := symbol.toNat
  if code < 0x80 then 1 else if code < 0x800 then 2 else if code < 0x10000 then 3 else 4

/-- `boundaries`, after so many bytes. -/
def boundariesFrom : Nat → List Char → List Nat
  | _, [] => []
  | total, symbol :: decoded => (total + width symbol) :: boundariesFrom (total + width symbol) decoded

/-- `units`, after so many bytes. -/
def unitsFrom : Nat → List Char → List (Option Nat)
  | _, [] => []
  | total, symbol :: decoded =>
    (if symbol.toNat > 0xFFFF then [none] else []) ++
      some (total + width symbol) :: unitsFrom (total + width symbol) decoded

/-- `_Line.tables`. -/
def Line.tables (item : Line) : Line :=
  if item.codePoints.isSome ∨ item.valid = false then item
  else
    match item.text with
    | none => item
    | some text =>
      match decode text with
      | none => { item with valid := false }
      | some decoded =>
        { item with codePoints := some (0 :: boundariesFrom 0 decoded), utf16 := some (some 0 :: unitsFrom 0 decoded) }

abbrev Lines : Type := Dict Nat Line

/-- The end of a line, before its terminator: LF or CRLF. -/
def lineEnd (source : List UInt8) (starts : List Nat) (line start : Nat) : Nat :=
  let stop := if line + 1 < starts.length then starts.getD (line + 1) 0 else source.length
  if start < stop ∧ source[stop - 1]? = some 0x0A then
    if start < stop - 1 ∧ source[stop - 2]? = some 0x0D then stop - 2 else stop - 1
  else stop

/-- The line that `_line_at` measures. -/
def measure (source : List UInt8) (starts : List Nat) (line : Nat) : Line :=
  let start := starts.getD line 0
  let length := lineEnd source starts line start - start
  let text := (source.drop start).take length
  ⟨start, length, if text.all fun byte => byte.toNat < 128 then none else some text, true, none, none⟩

/-- `_line_at`. -/
def lineAt (source : List UInt8) (starts : List Nat) (line : Nat) (cache : Lines) : Line × Lines :=
  match cache.lookup line with
  | some found => (found, cache)
  | none => (measure source starts line, cache.insert line (measure source starts line))

/-- The byte of a character offset in a line that is not ASCII, by a table. -/
def lookupTable (item : Line) (character : Nat) (encoding : PositionEncoding) : Option Nat :=
  match if encoding = .utf32 then item.codePoints.map (List.map some) else item.utf16 with
  | none => none
  | some table =>
    match table[character]? with
    | some (some offset) => some (item.start + offset)
    | _ => none

/-- The byte of a character offset in a line. -/
def locate (source : List UInt8) (item : Line) (character : Nat) (encoding : PositionEncoding) : Option Nat :=
  if item.text = none then if character ≤ item.length then some (item.start + character) else none
  else
    match encoding with
    | .unspecified => none
    | .utf8 =>
      if item.length < character ∨ character < item.length ∧ (source[item.start + character]?).any isContinuation then none
      else some (item.start + character)
    | _ => lookupTable item.tables character encoding

/-- `_byte_offset`, and the cache after it. -/
def byteOffset (source : List UInt8) (starts : List Nat) (line character : Int) (encoding : PositionEncoding)
    (cache : Lines) : Option Nat × Lines :=
  if ¬(0 ≤ line ∧ line < starts.length) ∨ character < 0 ∨ encoding = .unknown then (none, cache)
  else
    let (item, cache) := lineAt source starts line.toNat cache
    -- the tables are built in the cached line
    let cache := if encoding = .utf16 ∨ encoding = .utf32 then cache.insert line.toNat item.tables else cache
    (locate source item character.toNat encoding, cache)

/-! ## Lines of a text -/

/-- What ends the content of a line: nothing, at the end of the text, or LF, or CRLF. -/
inductive Terminator (content : List Char) : List Char → Prop
  | last : Terminator content []
  | lf (rest : List Char) : content.getLast? ≠ some '\r' → Terminator content ('\n' :: rest)
  | crlf (rest : List Char) : Terminator content ('\r' :: '\n' :: rest)

/-- The text up to a line, the content of the line, and the text from its terminator on. -/
structure LineOf (text before content after : List Char) : Prop where
  whole : text = before ++ (content ++ after)
  begins : before = [] ∨ before.getLast? = some '\n'
  inside : '\n' ∉ content
  terminator : Terminator content after

def lengthIn : PositionEncoding → List Char → Nat
  | .utf16, text => units16 text
  | .utf32, text => text.length
  | _, text => size text

variable {text before content after : List Char} {n k v : Nat}
variable {encoding : PositionEncoding} {source : List UInt8} {cache : Lines}

/-- What is in front of a line feed ends in a content and its terminator. -/
theorem exists_terminator (text rest : List Char) : ∃ content after, text ++ '\n' :: rest = content ++ after ∧
    (∀ c ∈ content, c ∈ text) ∧ Terminator content after := by
  by_cases hlast : text.getLast? = some '\r'
  · obtain ⟨content, rfl⟩ := List.getLast?_eq_some_iff.1 hlast
    exact ⟨content, '\r' :: '\n' :: rest, by simp, fun c hc => mem_append_left _ hc, .crlf rest⟩
  · exact ⟨text, '\n' :: rest, rfl, fun _ hc => hc, .lf rest hlast⟩

theorem exists_line (text : List Char) (line : Nat) (h : line ≤ text.count '\n') :
    ∃ before content after, LineOf text before content after ∧ before.count '\n' = line := by
  induction line generalizing text with
  | zero =>
    by_cases hmem : '\n' ∈ text
    · obtain ⟨content, rest, rfl, hinside⟩ := eq_append_cons_of_mem hmem
      obtain ⟨content', after, heq, hsub, hterminator⟩ := exists_terminator content rest
      exact ⟨[], content', after, ⟨heq, .inl rfl, fun hc => hinside (hsub _ hc), hterminator⟩, rfl⟩
    · exact ⟨[], text, [], ⟨(append_nil _).symm, .inl rfl, hmem, .last⟩, rfl⟩
  | succ line ih =>
    have hmem : '\n' ∈ text := count_pos_iff.1 (Nat.lt_of_lt_of_le (Nat.succ_pos _) h)
    obtain ⟨first, rest, rfl, hinside⟩ := eq_append_cons_of_mem hmem
    rw [count_append, count_eq_zero_of_not_mem hinside, count_cons_self] at h
    obtain ⟨before, content, after, hline, hcount⟩ := ih rest (by omega)
    refine ⟨first ++ '\n' :: before, content, after, ⟨?_, .inr ?_, hline.inside, hline.terminator⟩, ?_⟩
    · rw [hline.whole, append_assoc, cons_append]
    · rcases hline.begins with rfl | hbegins
      · rw [List.getLast?_append, List.getLast?_singleton]
        rfl
      · rw [List.getLast?_append, List.getLast?_cons, hbegins]
        rfl
    · rw [count_append, count_eq_zero_of_not_mem hinside, count_cons_self, hcount, Nat.zero_add]

/-! ## Where lines begin -/

/-- The places behind the line feeds, in bytes that begin at a place. -/
def behindFeeds (source : List UInt8) (start : Nat) : List Nat :=
  (source.zipIdx start).filterMap fun entry => if entry.1 = 0x0A then some (entry.2 + 1) else none

theorem behindFeeds_append (source source' : List UInt8) (start : Nat) :
    behindFeeds (source ++ source') start = behindFeeds source start ++ behindFeeds source' (start + source.length) := by
  unfold behindFeeds
  rw [zipIdx_append, filterMap_append]

theorem behindFeeds_char (c : Char) (start : Nat) :
    behindFeeds (String.utf8EncodeChar c) start = if c = '\n' then [start + 1] else [] := by
  by_cases h : c = '\n'
  · subst h
    rfl
  · rw [if_neg h]
    refine filterMap_eq_nil_iff.2 fun entry hentry => if_neg fun hfeed => h ?_
    have hmem : (0x0A : UInt8) ∈ String.utf8EncodeChar c := hfeed ▸ (fst_mem_of_mem_zipIdx hentry)
    obtain ⟨hcode, -⟩ := of_mem_encodeChar hmem (by decide)
    exact Char.toNat_inj.1 hcode

theorem behindFeeds_length (text : List Char) (start : Nat) :
    (behindFeeds (encode text) start).length = text.count '\n' := by
  induction text generalizing start with
  | nil => rfl
  | cons c text ih =>
    rw [encode_cons, behindFeeds_append, length_append, ih, behindFeeds_char, count_cons]
    by_cases h : c = '\n' <;> simp [h, Nat.add_comm]

theorem behindFeeds_getLast (text : List Char) (start : Nat) (h : text.getLast? = some '\n') :
    (behindFeeds (encode text) start).getLast? = some (start + size text) := by
  obtain ⟨front, rfl⟩ := List.getLast?_eq_some_iff.1 h
  rw [encode_append, behindFeeds_append, show encode ['\n'] = String.utf8EncodeChar '\n' from rfl, behindFeeds_char, if_pos rfl,
    List.getLast?_append, List.getLast?_singleton, length_encode, size_append]
  rfl

theorem behindFeeds_nil (h : '\n' ∉ text) (start : Nat) : behindFeeds (encode text) start = [] :=
  length_eq_zero_iff.1 ((behindFeeds_length text start).trans (count_eq_zero_of_not_mem h))

section

variable (h : LineOf text before content after)
include h

theorem LineOf.length : (encode text).length = size before + (size content + size after) := by
  rw [length_encode, h.whole, size_append, size_append]

theorem LineOf.starts : lineStarts (encode text) =
    0 :: behindFeeds (encode before) 0 ++ behindFeeds (encode after) (size before + size content) := by
  show 0 :: behindFeeds (encode text) 0 = _
  rw [h.whole, encode_append, encode_append, behindFeeds_append, behindFeeds_append, behindFeeds_nil h.inside,
    nil_append, length_encode, length_encode, Nat.zero_add]
  rfl

/-- The bytes from the terminator on. -/
theorem LineOf.behind (k : Nat) : (encode text)[size before + size content + k]? = (encode after)[k]? := by
  rw [h.whole, ← append_assoc, ← size_append, getElem?_encode_append]

theorem LineOf.lastByte (hpos : 0 < size content) :
    (encode text)[size before + size content - 1]? = (encode content)[size content - 1]? := by
  rw [h.whole, show size before + size content - 1 = size before + (size content - 1) by omega, getElem?_encode_append,
    encode_append, List.getElem?_append_left (by rw [length_encode]; omega)]

theorem line_start : (lineStarts (encode text)).getD (before.count '\n') 0 = size before := by
  have hlength := behindFeeds_length before 0
  rw [h.starts, getD_eq_getElem?_getD, List.getElem?_append_left (by rw [length_cons, hlength]; omega)]
  rcases h.begins with rfl | hbegins
  · rfl
  · have hlast := behindFeeds_getLast before 0 hbegins
    have hcount : before.count '\n' = (before.count '\n' - 1) + 1 := by
      have hpos : 0 < before.count '\n' := count_pos_iff.2 (mem_of_getLast? hbegins)
      omega
    rw [List.getLast?_eq_getElem?, hlength] at hlast
    rw [hcount, List.getElem?_cons_succ, hlast, Nat.zero_add]
    rfl

theorem line_next :
    (if before.count '\n' + 1 < (lineStarts (encode text)).length then
        (lineStarts (encode text)).getD (before.count '\n' + 1) 0
      else (encode text).length) =
      match behindFeeds (encode after) (size before + size content) with
      | next :: _ => next
      | [] => (encode text).length := by
  have hlength := behindFeeds_length before 0
  rw [h.starts]
  cases hnext : behindFeeds (encode after) (size before + size content) with
  | nil =>
    rw [if_neg]
    rw [append_nil, length_cons, hlength]
    omega
  | cons next rest =>
    rw [if_pos]
    · rw [getD_eq_getElem?_getD, List.getElem?_append_right (by rw [length_cons, hlength]), length_cons, hlength,
        Nat.sub_self]
      rfl
    · rw [length_append, length_cons, length_cons, hlength]
      omega

/-- The terminator is left out. -/
theorem line_end :
    lineEnd (encode text) (lineStarts (encode text)) (before.count '\n') (size before) = size before + size content := by
  unfold lineEnd
  dsimp only
  rw [line_next h]
  have hsize := h.length
  cases h.terminator with
  | last =>
    have hstop : (encode text).length = size before + size content := by rw [hsize, size_nil, Nat.add_zero]
    rw [show behindFeeds (encode []) (size before + size content) = [] from rfl]
    dsimp only
    rw [hstop, if_neg]
    rintro ⟨hlt, hfeed⟩
    rw [h.lastByte (by omega)] at hfeed
    obtain ⟨c, hc, hcode⟩ := getLast_of_byte hfeed (by decide)
    rw [Char.toNat_inj.1 (hcode.trans (by decide : _ = '\n'.toNat))] at hc
    exact h.inside (mem_of_getLast? hc)
  | lf rest hreturn =>
    have hfeeds : ∃ more, behindFeeds (encode ('\n' :: rest)) (size before + size content) =
        (size before + size content + 1) :: more := by
      rw [encode_cons, behindFeeds_append, behindFeeds_char]
      exact ⟨_, rfl⟩
    obtain ⟨more, hmore⟩ := hfeeds
    rw [hmore]
    dsimp only
    have hfeed := h.behind 0
    rw [Nat.add_zero] at hfeed
    have hstop : size before < size before + size content + 1 := by omega
    rw [if_pos ⟨hstop, hfeed⟩, if_neg, Nat.add_sub_cancel]
    rintro ⟨hlt, hbyte⟩
    have hpos : 0 < size content := by
      rw [Nat.add_sub_cancel] at hlt
      omega
    have hbyte' : (encode text)[size before + size content - 1]? = some 0x0D := hbyte
    rw [h.lastByte hpos] at hbyte'
    obtain ⟨c, hc, hcode⟩ := getLast_of_byte hbyte' (by decide)
    exact hreturn (by rw [hc, Char.toNat_inj.1 (hcode.trans (by decide : _ = '\r'.toNat))])
  | crlf rest =>
    have hfeeds : ∃ more, behindFeeds (encode ('\r' :: '\n' :: rest)) (size before + size content) =
        (size before + size content + 2) :: more := by
      rw [encode_cons, encode_cons, behindFeeds_append, behindFeeds_append, behindFeeds_char, behindFeeds_char]
      exact ⟨_, rfl⟩
    obtain ⟨more, hmore⟩ := hfeeds
    rw [hmore]
    dsimp only
    have hreturn := h.behind 0
    have hfeed := h.behind 1
    rw [Nat.add_zero] at hreturn
    have hstop : size before < size before + size content + 2 := by omega
    have hstop' : size before < size before + size content + 2 - 1 := by omega
    rw [if_pos ⟨hstop, hfeed⟩, if_pos ⟨hstop', hreturn⟩, Nat.add_sub_cancel]

/-- **A measured line**: where it begins and how long its content is. -/
theorem measure_line : measure (encode text) (lineStarts (encode text)) (before.count '\n') =
      ⟨size before, size content, if ∀ c ∈ content, c.toNat < 128 then none else some (encode content), true, none, none⟩ := by
  have htext : ((encode text).drop (size before)).take (size content) = encode content := by
    rw [h.whole, encode_append, encode_append, drop_left' length_encode, take_left' length_encode]
  unfold measure
  dsimp only
  rw [line_start h, line_end h, Nat.add_sub_cancel_left, htext]
  simp only [all_eq_true, decide_eq_true_eq, ascii_iff]

end

/-! ## Tables -/

theorem width_eq (c : Char) : width c = c.utf8Size := by
  have hle : ∀ n : UInt32, c.val ≤ n ↔ c.toNat ≤ n.toNat := fun n => UInt32.le_iff_toNat_le
  have hlt : ∀ n : UInt32, n < c.val ↔ n.toNat < c.toNat := fun n => UInt32.lt_iff_toNat_lt
  unfold width
  dsimp only
  by_cases h₁ : c.toNat < 0x80
  · rw [if_pos h₁, Char.utf8Size_eq_one_iff.2 ((hle _).2 (Nat.le_of_lt_succ h₁))]
  by_cases h₂ : c.toNat < 0x800
  · rw [if_neg h₁, if_pos h₂,
      Char.utf8Size_eq_two_iff.2 ⟨(hlt _).2 (Nat.lt_of_not_ge fun h => h₁ (Nat.lt_succ_of_le h)), (hle _).2 (Nat.le_of_lt_succ h₂)⟩]
  by_cases h₃ : c.toNat < 0x10000
  · rw [if_neg h₁, if_neg h₂, if_pos h₃,
      Char.utf8Size_eq_three_iff.2
        ⟨(hlt _).2 (Nat.lt_of_not_ge fun h => h₂ (Nat.lt_succ_of_le h)), (hle _).2 (Nat.le_of_lt_succ h₃)⟩]
  · rw [if_neg h₁, if_neg h₂, if_neg h₃,
      Char.utf8Size_eq_four_iff.2 ((hlt _).2 (Nat.lt_of_not_ge fun h => h₃ (Nat.lt_succ_of_le h)))]

/-- What is said of the prefixes of a text, of the empty one and of the longer ones apart. -/
theorem exists_prefix_cons {c : Char} {P : List Char → Prop} :
    (∃ before after, c :: text = before ++ after ∧ P before) ↔ P [] ∨ ∃ before after, text = before ++ after ∧ P (c :: before) := by
  constructor
  · rintro ⟨before, after, heq, hP⟩
    cases before with
    | nil => exact .inl hP
    | cons d before =>
      obtain ⟨rfl, rfl⟩ := List.cons.inj heq
      exact .inr ⟨before, after, rfl, hP⟩
  · rintro (hP | ⟨before, after, rfl, hP⟩)
    · exact ⟨[], c :: text, rfl, hP⟩
    · exact ⟨c :: before, after, rfl, hP⟩

/-- The table of the code points has the places of the prefixes, by their length. -/
theorem getElem?_boundariesFrom (total : Nat) : (total :: boundariesFrom total content)[k]? = some v ↔
    ∃ before after, content = before ++ after ∧ k = before.length ∧ v = total + size before := by
  induction content generalizing total k with
  | nil =>
    constructor
    · intro h
      cases k with
      | zero => exact ⟨[], [], rfl, rfl, (Option.some.inj h).symm⟩
      | succ k => exact nomatch h
    · rintro ⟨before, after, heq, rfl, rfl⟩
      obtain ⟨rfl, rfl⟩ := append_eq_nil_iff.1 heq.symm
      rfl
  | cons c content ih =>
    rw [exists_prefix_cons]
    cases k with
    | zero =>
      simp only [List.getElem?_cons_zero, Option.some.injEq, length_nil, length_cons, size_nil, true_and, Nat.add_zero]
      constructor
      · exact fun h => .inl h.symm
      · rintro (h | ⟨_, _, _, h, _⟩)
        · exact h.symm
        · omega
    | succ k =>
      rw [List.getElem?_cons_succ, boundariesFrom, ih, width_eq]
      simp only [length_cons, length_nil, Nat.succ_ne_zero, false_and, false_or, Nat.add_right_cancel_iff, size_cons,
        Nat.add_assoc]

/-- The table of the UTF-16 code units has them by their units, and nothing between the two halves of a pair. -/
theorem getElem?_unitsFrom (total : Nat) : (some total :: unitsFrom total content)[k]? = some (some v) ↔
    ∃ before after, content = before ++ after ∧ k = units16 before ∧ v = total + size before := by
  induction content generalizing total k with
  | nil =>
    constructor
    · intro h
      cases k with
      | zero => exact ⟨[], [], rfl, rfl, (Option.some.inj (Option.some.inj h)).symm⟩
      | succ k => exact nomatch h
    · rintro ⟨before, after, heq, rfl, rfl⟩
      obtain ⟨rfl, rfl⟩ := append_eq_nil_iff.1 heq.symm
      rfl
  | cons c content ih =>
    rw [exists_prefix_cons]
    have hpos := width16_pos c
    cases k with
    | zero =>
      simp only [List.getElem?_cons_zero, Option.some.injEq, units16_cons, size_nil, Nat.add_zero]
      constructor
      · exact fun h => .inl ⟨rfl, h.symm⟩
      · rintro (⟨_, h⟩ | ⟨_, _, _, h, _⟩)
        · exact h.symm
        · omega
    | succ k =>
      rw [List.getElem?_cons_succ, unitsFrom, width_eq]
      have hshift : ((if c.toNat > 0xFFFF then [none] else []) ++
          some (total + c.utf8Size) :: unitsFrom (total + c.utf8Size) content)[k]? = some (some v) ↔
          width16 c ≤ k + 1 ∧
            (some (total + c.utf8Size) :: unitsFrom (total + c.utf8Size) content)[k + 1 - width16 c]? = some (some v) := by
        unfold width16
        by_cases hastral : c.toNat > 0xFFFF
        · rw [if_pos hastral, if_pos hastral]
          cases k with
          | zero | succ => simp
        · rw [if_neg hastral, if_neg hastral]
          simp
      rw [hshift, ih]
      simp only [units16_cons, size_cons, show units16 [] = 0 from rfl, Nat.succ_ne_zero, false_and, false_or, Nat.add_assoc]
      constructor
      · rintro ⟨hle, before, after, heq, hk, hv⟩
        exact ⟨before, after, heq, by omega, hv⟩
      · rintro ⟨before, after, heq, hk, hv⟩
        exact ⟨by omega, before, after, heq, by omega, hv⟩

/-! ## One position -/

theorem tables_fields (item : Line) :
    item.tables.start = item.start ∧ item.tables.length = item.length ∧ item.tables.text = item.text := by
  unfold Line.tables
  split
  · exact ⟨rfl, rfl, rfl⟩
  · split
    · exact ⟨rfl, rfl, rfl⟩
    · split <;> exact ⟨rfl, rfl, rfl⟩

theorem tables_tables (item : Line) : item.tables.tables = item.tables := by
  by_cases h : item.codePoints.isSome ∨ item.valid = false
  · have hsame : item.tables = item := if_pos h
    rw [hsame, hsame]
  · cases htext : item.text with
    | none =>
      have hsame : item.tables = item := by
        unfold Line.tables
        rw [if_neg h, htext]
      rw [hsame, hsame]
    | some bytes =>
      cases hdecode : decode bytes with
      | none =>
        have hsame : item.tables = { item with valid := false } := by
          unfold Line.tables
          rw [if_neg h, htext]
          dsimp only
          rw [hdecode]
        rw [hsame]
        exact if_pos (.inr rfl)
      | some decoded =>
        have hsame : item.tables =
            { item with codePoints := some (0 :: boundariesFrom 0 decoded), utf16 := some (some 0 :: unitsFrom 0 decoded) } := by
          unfold Line.tables
          rw [if_neg h, htext]
          dsimp only
          rw [hdecode]
        rw [hsame]
        exact if_pos (.inl rfl)

theorem locate_tables {item : Line} {character : Nat} :
    locate source item.tables character encoding = locate source item character encoding := by
  obtain ⟨hstart, hlength, htext⟩ := tables_fields item
  unfold locate
  rw [hstart, hlength, htext, tables_tables]

def PositionEncoding.Exact (encoding : PositionEncoding) : Prop :=
  encoding = .utf8 ∨ encoding = .utf16 ∨ encoding = .utf32

theorem size_ascii (h : ∀ c ∈ text, c.toNat < 128) : size text = text.length := by
  have hone : ∀ c ∈ text, c.utf8Size = 1 := fun c hc => by
    rw [← width_eq]
    exact if_pos (h c hc)
  unfold size
  rw [map_congr_left hone, map_const', sum_replicate_nat, Nat.mul_one]

theorem lengthIn_ascii (h : ∀ c ∈ text, c.toNat < 128) (encoding : PositionEncoding) : lengthIn encoding text = size text := by
  have hunits : units16 text = text.length := by
    have hone : ∀ c ∈ text, width16 c = 1 := fun c hc => if_neg (by have := h c hc; omega)
    unfold units16
    rw [map_congr_left hone, map_const', sum_replicate_nat, Nat.mul_one]
  cases encoding <;> simp only [lengthIn, size_ascii h, hunits]

theorem place_eq_some {table : List (Option Nat)} {start b : Nat} :
    (match table[k]? with
      | some (some offset) => some (start + offset)
      | _ => none) = some b ↔ ∃ v, table[k]? = some (some v) ∧ b = start + v := by
  cases table[k]? with
  | none => exact ⟨nofun, fun ⟨_, h, _⟩ => nomatch h⟩
  | some entry =>
    cases entry with
    | none => exact ⟨nofun, fun ⟨_, h, _⟩ => nomatch h⟩
    | some offset =>
      constructor
      · intro h
        exact ⟨offset, rfl, (Option.some.inj h).symm⟩
      · rintro ⟨v, h, rfl⟩
        cases h
        rfl

theorem locate_iff (h : LineOf text before content after) (hencoding : encoding.Exact) {character b : Nat} :
    locate (encode text) (measure (encode text) (lineStarts (encode text)) (before.count '\n')) character encoding = some b ↔
      ∃ inside rest, content = inside ++ rest ∧ character = lengthIn encoding inside ∧ b = size before + size inside := by
  rw [measure_line h]
  by_cases hascii : ∀ c ∈ content, c.toNat < 128
  · unfold locate
    rw [if_pos hascii, if_pos rfl]
    dsimp only
    constructor
    · intro hb
      split at hb
      · next hle =>
        cases hb
        have htake : ∀ c ∈ content.take character, c.toNat < 128 := fun c hc => hascii c (mem_of_mem_take hc)
        have hlength : (content.take character).length = character := by
          rw [size_ascii hascii] at hle
          rw [length_take, Nat.min_eq_left hle]
        refine ⟨content.take character, content.drop character, (take_append_drop _ _).symm, ?_, ?_⟩
        · rw [lengthIn_ascii htake, size_ascii htake, hlength]
        · rw [size_ascii htake, hlength]
      · cases hb
    · rintro ⟨inside, rest, rfl, rfl, rfl⟩
      have hinside : ∀ c ∈ inside, c.toNat < 128 := fun c hc => hascii c (mem_append_left _ hc)
      rw [lengthIn_ascii hinside, size_append, if_pos (Nat.le_add_right _ _)]
  · rw [if_neg hascii]
    unfold locate
    rw [if_neg (Option.some_ne_none _)]
    have htables : (⟨size before, size content, some (encode content), true, none, none⟩ : Line).tables =
        ⟨size before, size content, some (encode content), true, some (0 :: boundariesFrom 0 content),
          some (some 0 :: unitsFrom 0 content)⟩ := by
      unfold Line.tables
      rw [if_neg (by simp)]
      dsimp only
      rw [decode_encode]
    rcases hencoding with rfl | rfl | rfl
    · dsimp only
      have hbyte : ∀ k, k < size content → (encode text)[size before + k]? = (encode content)[k]? := fun k hk => by
        rw [h.whole, getElem?_encode_append, encode_append, List.getElem?_append_left (by rwa [length_encode])]
      have hboundary : ¬(size content < character ∨ character < size content ∧
          ((encode text)[size before + character]?).any isContinuation) ↔ Boundary content character := by
        rw [boundary_iff, not_or, not_and, Nat.not_lt]
        refine and_congr_right fun hle => ?_
        rcases Nat.lt_or_ge character (size content) with hlt | hge
        · rw [hbyte character hlt]
          cases (encode content)[character]? <;> simp [hlt]
        · simp [Nat.not_lt.2 hge]
      constructor
      · intro hb
        split at hb
        · cases hb
        · next hplace =>
          cases hb
          obtain ⟨inside, rest, heq, rfl⟩ := hboundary.1 hplace
          exact ⟨inside, rest, heq, rfl, rfl⟩
      · rintro ⟨inside, rest, heq, hcharacter, rfl⟩
        have hcharacter' : character = size inside := hcharacter
        rw [if_neg (hboundary.2 ⟨inside, rest, heq, hcharacter'⟩), hcharacter']
    · dsimp only
      rw [htables]
      show (match (some 0 :: unitsFrom 0 content)[character]? with
        | some (some offset) => some (size before + offset)
        | _ => none) = some b ↔ _
      rw [place_eq_some]
      simp only [getElem?_unitsFrom, Nat.zero_add]
      constructor
      · rintro ⟨_, ⟨inside, rest, heq, hcharacter, rfl⟩, hb⟩
        exact ⟨inside, rest, heq, hcharacter, hb⟩
      · rintro ⟨inside, rest, heq, hcharacter, hb⟩
        exact ⟨_, ⟨inside, rest, heq, hcharacter, rfl⟩, hb⟩
    · dsimp only
      rw [htables]
      show (match ((0 :: boundariesFrom 0 content).map some)[character]? with
        | some (some offset) => some (size before + offset)
        | _ => none) = some b ↔ _
      rw [place_eq_some, List.getElem?_map]
      have htable : ∀ v, ((0 :: boundariesFrom 0 content)[character]?).map some = some (some v) ↔
          ∃ inside rest, content = inside ++ rest ∧ character = inside.length ∧ v = size inside := fun v => by
        have hfound := @getElem?_boundariesFrom content character v 0
        simp only [Nat.zero_add] at hfound
        rw [← hfound]
        cases (0 :: boundariesFrom 0 content)[character]? <;> simp
      simp only [htable]
      constructor
      · rintro ⟨_, ⟨inside, rest, heq, hcharacter, rfl⟩, hb⟩
        exact ⟨inside, rest, heq, hcharacter, hb⟩
      · rintro ⟨inside, rest, heq, hcharacter, hb⟩
        exact ⟨_, ⟨inside, rest, heq, hcharacter, rfl⟩, hb⟩

/-! ## Any position, whatever was asked before -/

def Measured (source : List UInt8) (cache : Lines) : Prop :=
  ∀ line item, cache.lookup line = some item →
    item = measure source (lineStarts source) line ∨ item = (measure source (lineStarts source) line).tables

theorem measured_insert (h : Measured source cache) {line : Nat} {item : Line}
    (hitem : item = measure source (lineStarts source) line ∨ item = (measure source (lineStarts source) line).tables) :
    Measured source (cache.insert line item) := by
  intro line' item' hlookup
  rw [lookup_insert_eq] at hlookup
  split at hlookup
  · next hline =>
    cases hlookup
    rwa [hline]
  · exact h line' item' hlookup

theorem lineAt_spec (h : Measured source cache) (line : Nat) :
    Measured source (lineAt source (lineStarts source) line cache).2 ∧
      ((lineAt source (lineStarts source) line cache).1 = measure source (lineStarts source) line ∨
        (lineAt source (lineStarts source) line cache).1 = (measure source (lineStarts source) line).tables) := by
  unfold lineAt
  cases hfound : cache.lookup line with
  | none => exact ⟨measured_insert h (.inl rfl), .inl rfl⟩
  | some found => exact ⟨h, h line found hfound⟩

/-- One position: the byte is that of the prefix of the content of the line which has this length. -/
theorem byteOffset_iff (hencoding : encoding.Exact) (hcache : Measured (encode text) cache) (line character : Int) :
    Measured (encode text) (byteOffset (encode text) (lineStarts (encode text)) line character encoding cache).2 ∧
    ∀ b, (byteOffset (encode text) (lineStarts (encode text)) line character encoding cache).1 = some b ↔
      ∃ before inside rest after, LineOf text before (inside ++ rest) after ∧ line = before.count '\n' ∧
        character = lengthIn encoding inside ∧ b = size before + size inside := by
  have hlines : (lineStarts (encode text)).length = text.count '\n' + 1 := by
    show (0 :: behindFeeds (encode text) 0).length = _
    rw [length_cons, behindFeeds_length]
  have hknown : encoding ≠ .unknown := by rcases hencoding with rfl | rfl | rfl <;> decide
  unfold byteOffset
  by_cases hout : ¬(0 ≤ line ∧ line < (lineStarts (encode text)).length) ∨ character < 0 ∨ encoding = .unknown
  · rw [if_pos hout]
    refine ⟨hcache, fun b => ⟨nofun, ?_⟩⟩
    rintro ⟨before, inside, rest, after, hline, rfl, rfl, rfl⟩
    have hcount : before.count '\n' ≤ text.count '\n' := by
      rw [hline.whole, count_append]
      exact Nat.le_add_right _ _
    rcases hout with hout | hout | hout
    · omega
    · omega
    · exact absurd hout hknown
  · rw [if_neg hout]
    push Not at hout
    obtain ⟨⟨hpos, hlt⟩, hcharacter, -⟩ := hout
    obtain ⟨line, rfl⟩ := Int.eq_ofNat_of_zero_le hpos
    obtain ⟨character, rfl⟩ := Int.eq_ofNat_of_zero_le hcharacter
    obtain ⟨hmeasured, hitem⟩ := lineAt_spec hcache line
    obtain ⟨before, content, after, hline, rfl⟩ := exists_line text line (by omega)
    dsimp only [Int.toNat_natCast]
    refine ⟨?_, fun b => ?_⟩
    · split
      · refine measured_insert hmeasured (.inr ?_)
        rcases hitem with hitem | hitem <;> rw [hitem]
        exact tables_tables _
      · exact hmeasured
    · have hlocate : locate (encode text) (lineAt (encode text) (lineStarts (encode text)) (before.count '\n') cache).1
          character encoding = locate (encode text)
            (measure (encode text) (lineStarts (encode text)) (before.count '\n')) character encoding := by
        rcases hitem with hitem | hitem <;> rw [hitem]
        exact locate_tables
      rw [hlocate]
      constructor
      · intro hb
        obtain ⟨inside, rest, rfl, rfl, rfl⟩ := (locate_iff hline hencoding).1 hb
        exact ⟨before, inside, rest, after, hline, rfl, rfl, rfl⟩
      · rintro ⟨before', inside, rest, after', hline', hcount, hlength, rfl⟩
        rw [Int.natCast_inj] at hcount hlength
        rw [hcount]
        exact (locate_iff hline' hencoding).2 ⟨inside, rest, rfl, hlength, rfl⟩

/-- **Positions are exact.**  In a text and one of the three encodings, the byte of a position is that of the prefix of the
content of the line that has this length, and there is none where no prefix has it; the cache stays one of the source.  So
the three encodings of one position have one byte. -/
theorem byteOffset_exact {cache : Lines} (hcache : Measured (encode text) cache) :
    (∀ encoding : PositionEncoding, encoding.Exact → ∀ line character : Int,
      Measured (encode text) (byteOffset (encode text) (lineStarts (encode text)) line character encoding cache).2 ∧
      ∀ b, (byteOffset (encode text) (lineStarts (encode text)) line character encoding cache).1 = some b ↔
        ∃ before inside rest after, LineOf text before (inside ++ rest) after ∧ line = before.count '\n' ∧
          character = lengthIn encoding inside ∧ b = size before + size inside) ∧
    ∀ before inside rest after, LineOf text before (inside ++ rest) after → ∀ encoding : PositionEncoding, encoding.Exact →
      (byteOffset (encode text) (lineStarts (encode text)) (before.count '\n') (lengthIn encoding inside) encoding cache).1 =
        some (size before + size inside) := by
  refine ⟨fun encoding hencoding line character => byteOffset_iff hencoding hcache line character, ?_⟩
  intro before inside rest after hline encoding hencoding
  exact ((byteOffset_iff hencoding hcache _ _).2 _).2 ⟨before, inside, rest, after, hline, rfl, rfl, rfl⟩

/-- A cache with nothing in it is one of every source. -/
theorem measured_empty : Measured source ∅ := fun _ _ h => nomatch (Finmap.lookup_empty _).symm.trans h

/-- The end of the second line of a text with characters of one, two and four bytes, and CRLF. -/
theorem byteOffset_exact_pair :
    (byteOffset (encode "a\né😀\r\n".toList) (lineStarts (encode "a\né😀\r\n".toList)) 1 3 .utf16 ∅).1 = some 8 := by
  refine ((byteOffset_exact measured_empty).1 .utf16 (.inr (.inl rfl)) 1 3).2 8 |>.2 ?_
  exact ⟨"a\n".toList, "é😀".toList, [], "\r\n".toList, ⟨by decide, .inr (by decide), by decide, .crlf []⟩, by decide, by decide,
    by decide⟩

end Indexing.Positions
