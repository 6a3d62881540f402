import Mathlib.Data.List.Basic
import Mathlib.Tactic.Common

/-!
# Base64, the URL alphabet

    encode     three bytes to four characters, without padding
    decode     characters outside the alphabet are skipped, `=` ends the text when it completes a quad

The reader is a lenient one: it also takes `+` and `/`, and bits left over in the last character are dropped.
-/

namespace Base64

/-- `A` to `Z`, `a` to `z`, `0` to `9`, `-` and `_`. -/
def alphabet : List Char :=
  (List.range' 65 26 ++ List.range' 97 26 ++ List.range' 48 10).map Char.ofNat ++ ['-', '_']

def digit (v : Nat) : Char := alphabet.getD v 'A'

def value (c : Char) : Option Nat :=
  if c = '+' then some 62
  else if c = '/' then some 63
  else alphabet.idxOf? c

def encode : List UInt8 → List Char
  | [] => []
  | [a] => [digit (a.toNat / 4), digit (a.toNat % 4 * 16)]
  | [a, b] => [digit (a.toNat / 4), digit (a.toNat % 4 * 16 + b.toNat / 16), digit (b.toNat % 16 * 4)]
  | a :: b :: c :: rest =>
    digit (a.toNat / 4) :: digit (a.toNat % 4 * 16 + b.toNat / 16) :: digit (b.toNat % 16 * 4 + c.toNat / 64) ::
      digit (c.toNat % 64) :: encode rest

/-- Reads on with `quad` characters of a quad read, `left` the bits of them not given out yet, and `pads` pad
characters in a row. -/
def decodeFrom : List Char → Nat → Nat → Nat → Option (List UInt8)
  | [], quad, _, _ => if quad = 0 then some [] else none
  | c :: cs, quad, left, pads =>
    if c = '=' then
      if 2 ≤ quad then
        if 4 ≤ quad + (pads + 1) then some [] else decodeFrom cs quad left (pads + 1)
      else decodeFrom cs quad left pads
    else
      match value c with
      | none => decodeFrom cs quad left pads
      | some v =>
        match quad with
        | 0 => decodeFrom cs 1 v 0
        | 1 => (decodeFrom cs 2 (v % 16) 0).map (UInt8.ofNat (left * 4 + v / 16) :: ·)
        | 2 => (decodeFrom cs 3 (v % 4) 0).map (UInt8.ofNat (left * 16 + v / 4) :: ·)
        | _ => (decodeFrom cs 0 0 0).map (UInt8.ofNat (left * 64 + v) :: ·)

def decode (text : List Char) : Option (List UInt8) := decodeFrom text 0 0 0

/-- The padding that makes the length a multiple of four. -/
def padding (text : List Char) : List Char := List.replicate ((4 - text.length % 4) % 4) '='

/-- The text in the standard alphabet, padded. -/
def encodeStandard (bytes : List UInt8) : List Char :=
  let text := encode bytes
  (text.map fun c => if c = '-' then '+' else if c = '_' then '/' else c) ++ padding text

/-! ## Round trip -/

theorem digit_all : ∀ v : Fin 64, digit v ≠ '=' ∧ value (digit v) = some v.val ∧ digit v ∈ alphabet := by decide +kernel

theorem value_digit {v : Nat} (h : v < 64) : digit v ≠ '=' ∧ value (digit v) = some v :=
  ⟨(digit_all ⟨v, h⟩).1, (digit_all ⟨v, h⟩).2.1⟩

section

variable {v left pads : Nat} {cs : List Char}

theorem decodeFrom_digit (h : v < 64) (quad : Nat) : decodeFrom (digit v :: cs) quad left pads =
    match quad with
    | 0 => decodeFrom cs 1 v 0
    | 1 => (decodeFrom cs 2 (v % 16) 0).map (UInt8.ofNat (left * 4 + v / 16) :: ·)
    | 2 => (decodeFrom cs 3 (v % 4) 0).map (UInt8.ofNat (left * 16 + v / 4) :: ·)
    | _ => (decodeFrom cs 0 0 0).map (UInt8.ofNat (left * 64 + v) :: ·) := by
  obtain ⟨hpad, hvalue⟩ := value_digit h
  rw [decodeFrom, if_neg hpad, hvalue]

@[simp] theorem decodeFrom_digit_zero (h : v < 64) : decodeFrom (digit v :: cs) 0 left pads = decodeFrom cs 1 v 0 :=
  decodeFrom_digit h 0

@[simp] theorem decodeFrom_digit_one (h : v < 64) : decodeFrom (digit v :: cs) 1 left pads =
    (decodeFrom cs 2 (v % 16) 0).map (UInt8.ofNat (left * 4 + v / 16) :: ·) := decodeFrom_digit h 1

@[simp] theorem decodeFrom_digit_two (h : v < 64) : decodeFrom (digit v :: cs) 2 left pads =
    (decodeFrom cs 3 (v % 4) 0).map (UInt8.ofNat (left * 16 + v / 4) :: ·) := decodeFrom_digit h 2

@[simp] theorem decodeFrom_digit_three (h : v < 64) : decodeFrom (digit v :: cs) 3 left pads =
    (decodeFrom cs 0 0 0).map (UInt8.ofNat (left * 64 + v) :: ·) := decodeFrom_digit h 3

end

theorem toNat_lt (a : UInt8) : a.toNat < 256 := a.toNat_lt

theorem byte_eq {a : UInt8} {n : Nat} (h : n = a.toNat) : UInt8.ofNat n = a := by rw [h, UInt8.ofNat_toNat]

/-- **What was encoded is decoded.** -/
theorem decode_encode (bs : List UInt8) : decode (encode bs ++ padding (encode bs)) = some bs := by
  unfold decode
  fun_induction encode bs with
  | case1 => rfl
  | case2 a =>
    have ha := toNat_lt a
    show decodeFrom [digit (a.toNat / 4), digit (a.toNat % 4 * 16), '=', '='] 0 0 0 = some [a]
    rw [decodeFrom_digit_zero (by omega), decodeFrom_digit_one (by omega), byte_eq (a := a) (by omega)]
    rfl
  | case3 a b =>
    have ha := toNat_lt a
    have hb := toNat_lt b
    show decodeFrom [digit (a.toNat / 4), digit (a.toNat % 4 * 16 + b.toNat / 16), digit (b.toNat % 16 * 4), '='] 0 0 0 =
      some [a, b]
    rw [decodeFrom_digit_zero (by omega), decodeFrom_digit_one (by omega), decodeFrom_digit_two (by omega),
      byte_eq (a := a) (by omega), byte_eq (a := b) (by omega)]
    rfl
  | case4 a b c rest ih =>
    have ha := toNat_lt a
    have hb := toNat_lt b
    have hc := toNat_lt c
    have hpadding : ∀ d₁ d₂ d₃ d₄ : Char, padding (d₁ :: d₂ :: d₃ :: d₄ :: encode rest) = padding (encode rest) := by
      intro d₁ d₂ d₃ d₄
      simp only [padding, List.length_cons]
      congr 2
      omega
    simp only [hpadding, List.cons_append]
    rw [decodeFrom_digit_zero (by omega), decodeFrom_digit_one (by omega), decodeFrom_digit_two (by omega),
      decodeFrom_digit_three (by omega), ih, byte_eq (a := a) (by omega), byte_eq (a := b) (by omega),
      byte_eq (a := c) (by omega)]
    rfl

theorem decodeFrom_map {f : Char → Char} (hvalue : ∀ c, value (f c) = value c) (hpad : ∀ c, f c = '=' ↔ c = '=')
    (cs : List Char) (quad left pads : Nat) : decodeFrom (cs.map f) quad left pads = decodeFrom cs quad left pads := by
  induction cs generalizing quad left pads with
  | nil => rfl
  | cons c cs ih =>
    rw [List.map_cons, decodeFrom, decodeFrom]
    simp only [hpad, hvalue, ih]

/-- The standard alphabet is read as the URL alphabet is. -/
theorem decode_encodeStandard (bs : List UInt8) : decode (encodeStandard bs) = some bs := by
  have hmap : encodeStandard bs = (encode bs ++ padding (encode bs)).map
      fun c => if c = '-' then '+' else if c = '_' then '/' else c := by
    unfold encodeStandard
    rw [List.map_append]
    refine congrArg _ ?_
    unfold padding
    rw [List.map_replicate]
    rfl
  rw [hmap, decode, decodeFrom_map]
  · exact decode_encode bs
  · intro c
    split
    · next h =>
      subst h
      decide
    · split
      · next h =>
        subst h
        decide
      · rfl
  · intro c
    split
    · next h =>
      subst h
      decide
    · split
      · next h =>
        subst h
        decide
      · exact Iff.rfl

theorem encode_alphabet (bs : List UInt8) : ∀ c ∈ encode bs, c ∈ alphabet := by
  have hdigit : ∀ {v : Nat}, v < 64 → digit v ∈ alphabet := fun {v} h => (digit_all ⟨v, h⟩).2.2
  fun_induction encode bs with
  | case1 => simp
  | case2 a =>
    have ha := toNat_lt a
    simp [hdigit (show a.toNat / 4 < 64 by omega), hdigit (show a.toNat % 4 * 16 < 64 by omega)]
  | case3 a b =>
    have ha := toNat_lt a
    have hb := toNat_lt b
    simp [hdigit (show a.toNat / 4 < 64 by omega), hdigit (show a.toNat % 4 * 16 + b.toNat / 16 < 64 by omega),
      hdigit (show b.toNat % 16 * 4 < 64 by omega)]
  | case4 a b c rest ih =>
    have ha := toNat_lt a
    have hb := toNat_lt b
    have hc := toNat_lt c
    simp only [List.mem_cons, forall_eq_or_imp]
    exact ⟨hdigit (by omega), hdigit (by omega), hdigit (by omega), hdigit (by omega), ih⟩

end Base64
