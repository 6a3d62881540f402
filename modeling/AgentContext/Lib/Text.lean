import Mathlib.Data.String.Basic
import Mathlib.Tactic.Common

/-!
# Text

White space as Python's `str` has it, on lists of characters, and parts that name their own length:

    frame          <UTF-8 length>:<part>
    frame_inj      no frame is the start of another
    frames_inj     a row of frames is read back in one way
-/

namespace Text

variable {rest rest' : List Char}

/-- `str.isspace` of one character. -/
def isSpace (c : Char) : Bool :=
  let n := c.toNat
  (9 ≤ n && n ≤ 13) || (28 ≤ n && n ≤ 32) || n = 0x85 || n = 0xa0 || n = 0x1680 || (0x2000 ≤ n && n ≤ 0x200a) ||
    n = 0x2028 || n = 0x2029 || n = 0x202f || n = 0x205f || n = 0x3000

/-- `str.strip`. -/
def strip (text : List Char) : List Char := ((text.dropWhile isSpace).reverse.dropWhile isSpace).reverse

/-! ## Parts with their length -/

/-- `<UTF-8 length>:<part>`. -/
def frame (part : String) : String := toString part.utf8ByteSize ++ ":" ++ part

theorem toList_frame (part : String) :
    (frame part).toList = Nat.toDigits 10 part.utf8ByteSize ++ ':' :: part.toList := by
  unfold frame
  rw [String.toList_append, String.toList_append, List.append_assoc]
  show (Nat.repr _).toList ++ _ = _
  rw [Nat.repr, String.toList_ofList]
  rfl

/-- A number is read back from its digits. -/
theorem toString_injective {m n : Nat} (h : toString m = toString n) : m = n := by
  have hdigits : Nat.toDigits 10 m = Nat.toDigits 10 n := String.ofList_injective h
  rw [← Nat.ofDigitChars_ten_toDigits (n := m), hdigits, Nat.ofDigitChars_ten_toDigits]

/-- What stands before the first colon, and what after it. -/
theorem split_at_colon {ds ds' rest rest' : List Char} (h : ':' ∉ ds) (h' : ':' ∉ ds')
    (heq : ds ++ ':' :: rest = ds' ++ ':' :: rest') : ds = ds' ∧ rest = rest' := by
  induction ds generalizing ds' with
  | nil =>
    cases ds' with
    | nil => exact ⟨rfl, (List.cons.inj heq).2⟩
    | cons d' ds' =>
      have hd : ':' = d' := (List.cons.inj heq).1
      exact absurd (hd ▸ List.mem_cons_self) h'
  | cons d ds ih =>
    cases ds' with
    | nil =>
      have hd : d = ':' := (List.cons.inj heq).1
      exact absurd (hd ▸ List.mem_cons_self) h
    | cons d' ds' =>
      obtain ⟨hd, htail⟩ := List.cons.inj heq
      obtain ⟨hds, hrest⟩ := ih (fun hm => h (List.mem_cons_of_mem d hm)) (fun hm => h' (List.mem_cons_of_mem d' hm)) htail
      exact ⟨by rw [hd, hds], hrest⟩

theorem colon_notMem_toDigits (n : Nat) : ':' ∉ Nat.toDigits 10 n := by
  intro h
  have hdigit : (':' : Char).isDigit := Nat.isDigit_of_mem_toDigits (by decide) (by decide) h
  revert hdigit
  decide

/-- Of two parts of one size, neither goes on where the other ends. -/
theorem part_inj {p q : String} (hsize : p.utf8ByteSize = q.utf8ByteSize)
    (heq : p.toList ++ rest = q.toList ++ rest') : p = q ∧ rest = rest' := by
  have key : ∀ (a b : String) (tail : List Char), a.utf8ByteSize = b.utf8ByteSize → b.toList = a.toList ++ tail →
      tail = [] := by
    intro a b tail hsize hb
    have hab : b = a ++ String.ofList tail := String.toList_injective (by rw [hb, String.toList_append, String.toList_ofList])
    have hzero : (String.ofList tail).utf8ByteSize = 0 := by
      have hadd := congrArg String.utf8ByteSize hab
      rw [String.utf8ByteSize_append] at hadd
      omega
    have hempty : String.ofList tail = "" := String.utf8ByteSize_eq_zero_iff.1 hzero
    simpa using congrArg String.toList hempty
  rcases List.append_eq_append_iff.1 heq with ⟨tail, hq, hrest⟩ | ⟨tail, hp, hrest⟩
  · have htail := key p q tail hsize hq
    subst htail
    rw [List.append_nil] at hq
    exact ⟨String.toList_injective hq.symm, hrest⟩
  · have htail := key q p tail hsize.symm hp
    subst htail
    rw [List.append_nil] at hp
    exact ⟨String.toList_injective hp, hrest.symm⟩

theorem frame_inj {p q : String} (heq : (frame p).toList ++ rest = (frame q).toList ++ rest') :
    p = q ∧ rest = rest' := by
  rw [toList_frame, toList_frame, List.append_assoc, List.append_assoc, List.cons_append, List.cons_append] at heq
  obtain ⟨hdigits, htail⟩ := split_at_colon (colon_notMem_toDigits _) (colon_notMem_toDigits _) heq
  have hsize : p.utf8ByteSize = q.utf8ByteSize := by
    rw [← Nat.ofDigitChars_ten_toDigits (n := p.utf8ByteSize), hdigits, Nat.ofDigitChars_ten_toDigits]
  exact part_inj hsize htail

theorem frames_inj {ps qs : List String} (heq : String.join (ps.map frame) = String.join (qs.map frame)) : ps = qs := by
  have hcons : ∀ p, (frame p).toList ≠ [] := fun p h => by
    rw [toList_frame, List.append_eq_nil_iff] at h
    exact List.cons_ne_nil _ _ h.2
  have key : ∀ ps qs : List String,
      (ps.map frame).flatMap String.toList = (qs.map frame).flatMap String.toList → ps = qs := by
    intro ps
    induction ps with
    | nil =>
      intro qs h
      cases qs with
      | nil => rfl
      | cons q qs => exact absurd (List.append_eq_nil_iff.1 h.symm).1 (hcons q)
    | cons p ps ih =>
      intro qs h
      cases qs with
      | nil => exact absurd (List.append_eq_nil_iff.1 h).1 (hcons p)
      | cons q qs =>
        obtain ⟨hp, htail⟩ := frame_inj h
        rw [hp, ih qs htail]
  refine key ps qs ?_
  rw [← String.toList_join, ← String.toList_join, heq]

end Text
