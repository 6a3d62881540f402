import Mathlib.Data.Prod.Lex
import Mathlib.Data.String.Basic
import Mathlib.Tactic.Common

/-!
# `event_order`

The order of two events as one text, fixed-width in the time:

    2026-01-31T09:05:00.000250|0196f0d2-…

    eventOrder t id < eventOrder t' id'  ↔  (t, id) < (t', id')          (eventOrder_lt_iff)
-/

namespace Activity

/-! ## Padded numbers -/

/-- The last `width` decimal digits of a number. -/
def padded : Nat → Nat → List Char
  | 0, _ => []
  | width + 1, n => Nat.digitChar (n / 10 ^ width % 10) :: padded width n

theorem digitChar_lt_iff {d e : Nat} (hd : d < 10) (he : e < 10) : Nat.digitChar d < Nat.digitChar e ↔ d < e := by
  have hall : ∀ d < 10, ∀ e < 10, (Nat.digitChar d < Nat.digitChar e ↔ d < e) := by decide
  exact hall d hd e he

theorem digitChar_inj {d e : Nat} (hd : d < 10) (he : e < 10) (h : Nat.digitChar d = Nat.digitChar e) : d = e := by
  have hall : ∀ d < 10, ∀ e < 10, Nat.digitChar d = Nat.digitChar e → d = e := by decide
  exact hall d hd e he h

/-- Padded numbers compare as the numbers do, then by what follows. -/
theorem padded_append_lt_iff (width : Nat) {n m : Nat} {s t : List Char} : padded width n ++ s < padded width m ++ t ↔
      n % 10 ^ width < m % 10 ^ width ∨ n % 10 ^ width = m % 10 ^ width ∧ s < t := by
  induction width with
  | zero => simp [padded, Nat.mod_one]
  | succ width ih =>
    have hn := Nat.mod_pow_succ (b := 10) (k := width) (x := n)
    have hm := Nat.mod_pow_succ (b := 10) (k := width) (x := m)
    have hpos : 0 < 10 ^ width := Nat.pow_pos (by omega)
    have hnlt := Nat.mod_lt n hpos
    have hmlt := Nat.mod_lt m hpos
    have hnd : n / 10 ^ width % 10 < 10 := Nat.mod_lt _ (by omega)
    have hmd : m / 10 ^ width % 10 < 10 := Nat.mod_lt _ (by omega)
    rw [padded, padded, List.cons_append, List.cons_append, List.cons_lt_cons_iff, digitChar_lt_iff hnd hmd, ih, hn, hm]
    generalize n / 10 ^ width % 10 = d at *
    generalize m / 10 ^ width % 10 = e at *
    generalize n % 10 ^ width = x at *
    generalize m % 10 ^ width = y at *
    rcases Nat.lt_trichotomy d e with hlt | rfl | hlt
    · have hstep : x + 10 ^ width * d < y + 10 ^ width * e := by
        have hmul : 10 ^ width * (d + 1) ≤ 10 ^ width * e := Nat.mul_le_mul_left _ hlt
        rw [Nat.mul_succ] at hmul
        omega
      simp [hlt, hstep]
    · simp
    · have hstep : y + 10 ^ width * e < x + 10 ^ width * d := by
        have hmul : 10 ^ width * (e + 1) ≤ 10 ^ width * d := Nat.mul_le_mul_left _ hlt
        rw [Nat.mul_succ] at hmul
        omega
      have hne : Nat.digitChar d ≠ Nat.digitChar e := fun h => by
        have heq := digitChar_inj hnd hmd h
        omega
      have hnlt' : ¬ d < e := by omega
      have hle : ¬ x + 10 ^ width * d < y + 10 ^ width * e := by omega
      have hneq : ¬ x + 10 ^ width * d = y + 10 ^ width * e := by omega
      simp [hne, hnlt', hle, hneq]

/-! ## Instants -/

/-- A UTC `datetime`. -/
@[ext] structure DateTime where
  year : Nat
  month : Nat
  day : Nat
  hour : Nat
  minute : Nat
  second : Nat
  microsecond : Nat
  year_le : year ≤ 9999
  month_le : month ≤ 12
  day_le : day ≤ 31
  hour_lt : hour < 24
  minute_lt : minute < 60
  second_lt : second < 60
  microsecond_lt : microsecond < 1000000
deriving DecidableEq

namespace DateTime

/-- The fields in the order that compares. -/
def key (t : DateTime) : Nat ×ₗ Nat ×ₗ Nat ×ₗ Nat ×ₗ Nat ×ₗ Nat ×ₗ Nat :=
  toLex (t.year, toLex (t.month, toLex (t.day, toLex (t.hour, toLex (t.minute, toLex (t.second, t.microsecond))))))

theorem key_injective : Function.Injective key := fun a b h => by
  simp only [key, EmbeddingLike.apply_eq_iff_eq, Prod.mk.injEq] at h
  obtain ⟨hyear, hmonth, hday, hhour, hminute, hsecond, hmicro⟩ := h
  exact DateTime.ext hyear hmonth hday hhour hminute hsecond hmicro

instance : LinearOrder DateTime := LinearOrder.lift' key key_injective

theorem lt_iff {a b : DateTime} : a < b ↔ a.key < b.key := Iff.rfl

/-- `%Y-%m-%dT%H:%M:%S.%f`, before what follows it. -/
def text (t : DateTime) (rest : List Char) : List Char :=
  padded 4 t.year ++ '-' :: (padded 2 t.month ++ '-' :: (padded 2 t.day ++ 'T' :: (padded 2 t.hour ++ ':' ::
    (padded 2 t.minute ++ ':' :: (padded 2 t.second ++ '.' :: (padded 6 t.microsecond ++ rest))))))

end DateTime

/-- `event_order`. -/
def eventOrder (occurredAt : DateTime) (eventId : String) : String := String.ofList (occurredAt.text ('|' :: eventId.toList))

theorem text_lt_iff {a b : DateTime} {s t : List Char} : a.text s < b.text t ↔ a < b ∨ a = b ∧ s < t := by
  have hyear := a.year_le
  have hyear' := b.year_le
  have hmonth := a.month_le
  have hmonth' := b.month_le
  have hday := a.day_le
  have hday' := b.day_le
  have hhour := a.hour_lt
  have hhour' := b.hour_lt
  have hminute := a.minute_lt
  have hminute' := b.minute_lt
  have hsecond := a.second_lt
  have hsecond' := b.second_lt
  have hmicro := a.microsecond_lt
  have hmicro' := b.microsecond_lt
  unfold DateTime.text
  simp only [padded_append_lt_iff, List.cons_lt_cons_iff, lt_self_iff_false, false_or, true_and]
  rw [Nat.mod_eq_of_lt (a := a.year) (by omega), Nat.mod_eq_of_lt (a := b.year) (by omega),
    Nat.mod_eq_of_lt (a := a.month) (by omega), Nat.mod_eq_of_lt (a := b.month) (by omega),
    Nat.mod_eq_of_lt (a := a.day) (by omega), Nat.mod_eq_of_lt (a := b.day) (by omega),
    Nat.mod_eq_of_lt (a := a.hour) (by omega), Nat.mod_eq_of_lt (a := b.hour) (by omega),
    Nat.mod_eq_of_lt (a := a.minute) (by omega), Nat.mod_eq_of_lt (a := b.minute) (by omega),
    Nat.mod_eq_of_lt (a := a.second) (by omega), Nat.mod_eq_of_lt (a := b.second) (by omega),
    Nat.mod_eq_of_lt (a := a.microsecond) (by omega), Nat.mod_eq_of_lt (a := b.microsecond) (by omega)]
  rw [DateTime.lt_iff, DateTime.ext_iff]
  simp only [DateTime.key, Prod.Lex.toLex_lt_toLex, and_or_left, or_assoc, and_assoc]

theorem eventOrder_lt_iff {t t' : DateTime} {id id' : String} :
    eventOrder t id < eventOrder t' id' ↔ toLex (t, id) < toLex (t', id') := by
  unfold eventOrder
  rw [String.lt_iff_toList_lt, String.toList_ofList, String.toList_ofList, text_lt_iff, Prod.Lex.toLex_lt_toLex,
    List.cons_lt_cons_iff, String.lt_iff_toList_lt]
  simp

end Activity
