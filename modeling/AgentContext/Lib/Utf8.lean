import Mathlib.Algebra.GroupWithZero.Nat
import Mathlib.Data.List.Basic
import Mathlib.Tactic.Common

/-!
# UTF-8

A text is a list of characters, its bytes are those of the characters in order.  A character has one byte that begins it,
and the rest are continuation bytes; a byte below 128 is a character of its own.

    encode        the bytes of a text, `decode` the text of some bytes
    size          how many bytes a text has
    boundary_iff  the places where a character begins or the text ends are those of its prefixes
    units16       how many UTF-16 code units a text has
-/

namespace Utf8

open List

/-- The bytes of a text. -/
def encode (text : List Char) : List UInt8 := text.flatMap String.utf8EncodeChar

/-- The text of some bytes. -/
def decode (bytes : List UInt8) : Option (List Char) := (ByteArray.utf8Decode? bytes.toByteArray).map Array.toList

def size (text : List Char) : Nat := (text.map Char.utf8Size).sum

/-- The code units of a character in UTF-16. -/
def width16 (c : Char) : Nat := if 0xFFFF < c.toNat then 2 else 1

def units16 (text : List Char) : Nat := (text.map width16).sum

/-- A byte in a character, and not the first. -/
def isContinuation (b : UInt8) : Bool := b &&& 0xC0 = 0x80

variable {text text' : List Char} {c : Char} {b : UInt8}

theorem decode_encode : decode (encode text) = some text := by
  unfold decode
  rw [show (encode text).toByteArray = text.utf8Encode from rfl, List.utf8Decode?_utf8Encode]
  rfl

theorem encode_of_decode {bytes : List UInt8} (h : decode bytes = some text) : encode text = bytes := by
  obtain ⟨chars, hchars, rfl⟩ := Option.map_eq_some_iff.1 h
  have hget := ByteArray.utf8Encode_get_utf8Decode? (b := bytes.toByteArray) (h := hchars ▸ rfl)
  simp only [hchars, Option.get_some] at hget
  exact toByteArray_inj.1 hget

@[simp] theorem encode_nil : encode [] = [] := rfl

@[simp] theorem encode_cons : encode (c :: text) = String.utf8EncodeChar c ++ encode text := rfl

@[simp] theorem encode_append : encode (text ++ text') = encode text ++ encode text' := flatMap_append

@[simp] theorem size_nil : size [] = 0 := rfl

@[simp] theorem size_cons : size (c :: text) = c.utf8Size + size text := rfl

@[simp] theorem size_append : size (text ++ text') = size text + size text' := by
  unfold size
  rw [map_append, sum_append]

@[simp] theorem length_encode : (encode text).length = size text := by
  induction text with
  | nil => rfl
  | cons c text ih => rw [encode_cons, length_append, String.length_utf8EncodeChar, ih, size_cons]

@[simp] theorem units16_cons : units16 (c :: text) = width16 c + units16 text := rfl

theorem width16_pos (c : Char) : 0 < width16 c := by
  unfold width16
  split <;> omega

/-! ## Bytes of a character -/

theorem isContinuation_iff : isContinuation b ↔ b.toNat / 64 = 2 := by
  have hall : ∀ n : Fin 256, isContinuation (UInt8.ofNat n.val) ↔ n.val / 64 = 2 := by decide +kernel
  have h := hall ⟨b.toNat, b.toNat_lt⟩
  rwa [UInt8.ofNat_toNat] at h

/-- A character below 128 is one byte; any other has a first byte from 192 on, and continuation bytes. -/
theorem encodeChar_cases (c : Char) : (c.toNat < 128 ∧ String.utf8EncodeChar c = [UInt8.ofNat c.toNat]) ∨
      128 ≤ c.toNat ∧ ∃ first rest, String.utf8EncodeChar c = first :: rest ∧ 192 ≤ first.toNat ∧
        ∀ b ∈ rest, b.toNat / 64 = 2 := by
  have hlt : c.val.toNat < 1114112 := by
    rcases c.valid with h | h
    · exact Nat.lt_trans h (by decide)
    · exact h.2
  unfold String.utf8EncodeChar
  dsimp only
  show (c.val.toNat < 128 ∧ _) ∨ _
  split
  · next h => exact .inl ⟨by omega, rfl⟩
  · next h =>
    refine .inr ⟨by show 128 ≤ c.val.toNat; omega, ?_⟩
    split
    · refine ⟨_, _, rfl, ?_, ?_⟩
      · rw [UInt8.toNat_ofNat']
        omega
      · simp only [mem_singleton, forall_eq, UInt8.toNat_ofNat']
        omega
    · split
      · refine ⟨_, _, rfl, ?_, ?_⟩
        · rw [UInt8.toNat_ofNat']
          omega
        · simp only [mem_cons, not_mem_nil, or_false, forall_eq_or_imp, forall_eq, UInt8.toNat_ofNat']
          omega
      · refine ⟨_, _, rfl, ?_, ?_⟩
        · rw [UInt8.toNat_ofNat']
          omega
        · simp only [mem_cons, not_mem_nil, or_false, forall_eq_or_imp, forall_eq, UInt8.toNat_ofNat']
          omega

/-- A byte below 128 is a character. -/
theorem of_mem_encodeChar (hb : b ∈ String.utf8EncodeChar c) (hlow : b.toNat < 128) :
    c.toNat = b.toNat ∧ String.utf8EncodeChar c = [b] := by
  rcases encodeChar_cases c with ⟨hc, heq⟩ | ⟨-, first, rest, heq, hfirst, hrest⟩
  · rw [heq, mem_singleton] at hb
    subst hb
    refine ⟨?_, heq⟩
    rw [UInt8.toNat_ofNat']
    omega
  · rw [heq] at hb
    rcases mem_cons.1 hb with rfl | hb
    · omega
    · have := hrest b hb
      omega

/-- A character below 128 is a byte. -/
theorem mem_encode_of_lt (hmem : c ∈ text) (hlow : c.toNat < 128) : UInt8.ofNat c.toNat ∈ encode text := by
  rcases encodeChar_cases c with ⟨-, heq⟩ | ⟨hhigh, -⟩
  · exact mem_flatMap.2 ⟨c, hmem, heq ▸ mem_singleton_self _⟩
  · omega

theorem splitOn_append_of_notMem {α : Type} [DecidableEq α] {a : α} {xs ys : List α} (h : a ∉ xs) :
    (xs ++ ys).splitOn a = (ys.splitOn a).modifyHead (xs ++ ·) := by
  induction xs with
  | nil =>
    rw [nil_append]
    cases ys.splitOn a <;> rfl
  | cons x xs ih =>
    obtain ⟨hx, hxs⟩ := not_or.1 (mt mem_cons.2 h)
    rw [cons_append, splitOn_cons_eq_if_modifyHead, if_neg (by simpa using Ne.symm hx), ih hxs,
      modifyHead_modifyHead]
    rfl

/-- A text cut at a character below 128 is cut at its byte. -/
theorem splitOn_encode {sep : Char} (hsep : sep.toNat < 128) :
    (encode text).splitOn (UInt8.ofNat sep.toNat) = (text.splitOn sep).map encode := by
  have hnat : (UInt8.ofNat sep.toNat).toNat = sep.toNat := by rw [UInt8.toNat_ofNat']; omega
  induction text with
  | nil => rfl
  | cons c text ih =>
    rw [encode_cons, splitOn_cons_eq_if_modifyHead]
    split
    · next heq =>
      obtain rfl := beq_iff_eq.1 heq
      rcases encodeChar_cases c with ⟨-, hone⟩ | ⟨hhigh, -⟩
      · rw [hone, singleton_append, splitOn_cons_eq_if_modifyHead, if_pos (beq_self_eq_true _), ih]
        rfl
      · omega
    · next hne =>
      have hnone : UInt8.ofNat sep.toNat ∉ String.utf8EncodeChar c := by
        intro hmem
        have heq := (of_mem_encodeChar hmem (by omega)).1
        rw [hnat] at heq
        exact hne (beq_iff_eq.2 (Char.toNat_inj.1 heq))
      rw [splitOn_append_of_notMem hnone, ih]
      cases text.splitOn sep <;> rfl

/-- The bytes are below 128 where the characters are. -/
theorem ascii_iff : (∀ b ∈ encode text, b.toNat < 128) ↔ ∀ c ∈ text, c.toNat < 128 := by
  unfold encode
  simp only [mem_flatMap, forall_exists_index, and_imp]
  constructor
  · intro h c hc
    rcases encodeChar_cases c with ⟨hlow, -⟩ | ⟨-, first, rest, heq, hfirst, -⟩
    · exact hlow
    · have hmem : first ∈ String.utf8EncodeChar c := heq ▸ mem_cons_self
      have := h first c hc hmem
      omega
  · intro h b c hc hb
    rcases encodeChar_cases c with ⟨hlow, heq⟩ | ⟨hhigh, -⟩
    · rw [heq, mem_singleton] at hb
      subst hb
      rw [UInt8.toNat_ofNat']
      omega
    · have := h c hc
      omega

theorem getElem?_encode_append (k : Nat) : (encode (text ++ text'))[size text + k]? = (encode text')[k]? := by
  rw [encode_append, List.getElem?_append_right (by rw [length_encode]; omega), length_encode, Nat.add_sub_cancel_left]

theorem getLast_of_byte (h : (encode text)[size text - 1]? = some b) (hlow : b.toNat < 128) :
    ∃ c, text.getLast? = some c ∧ c.toNat = b.toNat := by
  rcases eq_nil_or_concat' text with rfl | ⟨front, c, rfl⟩
  · exact nomatch h
  · have hpos := c.utf8Size_pos
    have hsize : size (front ++ [c]) - 1 = size front + (c.utf8Size - 1) := by
      rw [size_append, size_cons, size_nil]
      omega
    rw [hsize, getElem?_encode_append, encode_cons, encode_nil, append_nil] at h
    exact ⟨c, List.getLast?_concat, (of_mem_encodeChar (mem_of_getElem? h) hlow).1⟩

/-- Where a character of a text begins, or where the text ends. -/
def Boundary (text : List Char) (k : Nat) : Prop := ∃ before after, text = before ++ after ∧ k = size before

theorem boundary_zero : Boundary text 0 := ⟨[], text, rfl, rfl⟩

theorem boundary_cons {k : Nat} : Boundary (c :: text) (c.utf8Size + k) ↔ Boundary text k := by
  constructor
  · rintro ⟨before, after, heq, hk⟩
    cases before with
    | nil =>
      have hpos := c.utf8Size_pos
      rw [size_nil] at hk
      omega
    | cons d before =>
      obtain ⟨rfl, rfl⟩ := List.cons.inj heq
      rw [size_cons] at hk
      exact ⟨before, after, rfl, by omega⟩
  · rintro ⟨before, after, rfl, rfl⟩
    exact ⟨c :: before, after, rfl, rfl⟩

/-- **The boundaries are the end and the bytes that begin a character.** -/
theorem boundary_iff {k : Nat} : Boundary text k ↔
    k ≤ size text ∧ ∀ b, (encode text)[k]? = some b → ¬isContinuation b := by
  induction text generalizing k with
  | nil =>
    constructor
    · rintro ⟨before, after, heq, rfl⟩
      obtain ⟨rfl, rfl⟩ := append_eq_nil_iff.1 heq.symm
      exact ⟨Nat.le_refl _, fun b hb => nomatch hb⟩
    · rintro ⟨hk, -⟩
      rw [size_nil, Nat.le_zero] at hk
      exact hk ▸ boundary_zero
  | cons c text ih =>
    obtain ⟨first, rest, heq, hfirst, hrest⟩ : ∃ first rest, String.utf8EncodeChar c = first :: rest ∧
        ¬isContinuation first ∧ ∀ b ∈ rest, isContinuation b := by
      rcases encodeChar_cases c with ⟨hlow, heq⟩ | ⟨-, first, rest, heq, hfirst, hrest⟩
      · refine ⟨_, [], heq, fun h => ?_, forall_mem_nil _⟩
        have := isContinuation_iff.1 h
        rw [UInt8.toNat_ofNat'] at this
        omega
      · refine ⟨first, rest, heq, fun h => ?_, fun b hb => isContinuation_iff.2 (hrest b hb)⟩
        have := isContinuation_iff.1 h
        have := first.toNat_lt
        omega
    have hlength : (String.utf8EncodeChar c).length = c.utf8Size := String.length_utf8EncodeChar c
    rw [encode_cons, size_cons]
    rcases Nat.eq_zero_or_pos k with rfl | hpos
    · refine ⟨fun _ => ⟨Nat.zero_le _, fun b hb => ?_⟩, fun _ => boundary_zero⟩
      rw [heq] at hb
      cases hb
      exact hfirst
    by_cases hin : k < c.utf8Size
    · -- inside the first character
      have hget : (String.utf8EncodeChar c ++ encode text)[k]? = rest[k - 1]? := by
        rw [List.getElem?_append_left (by omega), heq, List.getElem?_cons, if_neg (by omega)]
      have hsome : k - 1 < rest.length := by
        rw [heq, length_cons] at hlength
        omega
      constructor
      · rintro ⟨before, after, hwhole, hk⟩
        cases before with
        | nil =>
          rw [size_nil] at hk
          omega
        | cons d before =>
          obtain ⟨rfl, -⟩ := List.cons.inj hwhole
          rw [size_cons] at hk
          omega
      · rintro ⟨-, hbyte⟩
        rw [hget, List.getElem?_eq_getElem hsome] at hbyte
        exact absurd (hrest _ (getElem_mem hsome)) (hbyte _ rfl)
    · obtain ⟨m, rfl⟩ := Nat.exists_eq_add_of_le (Nat.le_of_not_lt hin)
      rw [boundary_cons, ih, List.getElem?_append_right (by omega), hlength, Nat.add_sub_cancel_left]
      refine and_congr_left fun _ => ?_
      omega

end Utf8
