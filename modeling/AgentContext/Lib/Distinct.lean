import Mathlib.Data.List.Induction
import Mathlib.Data.List.Nodup
import Mathlib.Tactic.Common

/-!
# The first of each key

    distinctBy            for v in values: if key(v) not in seen: seen.add(key(v)); out.append(v)
    distinctBy_concat     what one more value adds
    exists_first          the value that is kept stands for the later ones
    distinctBy_key        only what the keys tell apart matters
-/

namespace Distinct

variable {κ α β : Type} [DecidableEq κ] {key : α → κ} {a : α} {l l' : List α}
variable {seen : List κ}

/-- The values whose key is not seen, nor the key of a value before. -/
def distinctFrom (key : α → κ) (seen : List κ) : List α → List α
  | [] => []
  | a :: l => if key a ∈ seen then distinctFrom key seen l else a :: distinctFrom key (key a :: seen) l

def distinctBy (key : α → κ) (l : List α) : List α := distinctFrom key [] l

theorem distinctFrom_congr {seen seen' : List κ} (h : ∀ k, k ∈ seen ↔ k ∈ seen') :
    distinctFrom key seen l = distinctFrom key seen' l := by
  induction l generalizing seen seen' with
  | nil => rfl
  | cons a l ih =>
    unfold distinctFrom
    by_cases hseen : key a ∈ seen
    · rw [if_pos hseen, if_pos ((h _).1 hseen), ih h]
    · rw [if_neg hseen, if_neg fun hseen' => hseen ((h _).2 hseen')]
      have hcons : ∀ k, k ∈ key a :: seen ↔ k ∈ key a :: seen' := fun k => by rw [List.mem_cons, List.mem_cons, h]
      rw [ih hcons]

theorem distinctFrom_append :
    distinctFrom key seen (l ++ l') = distinctFrom key seen l ++ distinctFrom key (l.map key ++ seen) l' := by
  induction l generalizing seen with
  | nil => rfl
  | cons a l ih =>
    rw [List.cons_append, distinctFrom, distinctFrom]
    by_cases hseen : key a ∈ seen
    · rw [if_pos hseen, if_pos hseen, ih]
      refine congrArg _ (distinctFrom_congr fun k => ?_)
      rw [List.map_cons, List.cons_append, List.mem_cons, iff_or_self]
      rintro rfl
      exact List.mem_append_right _ hseen
    · rw [if_neg hseen, if_neg hseen, ih, List.cons_append]
      refine congrArg _ (congrArg _ (distinctFrom_congr fun k => ?_))
      simp only [List.map_cons, List.cons_append, List.mem_cons, List.mem_append]
      tauto

/-- What one more value adds. -/
theorem distinctBy_concat :
    distinctBy key (l ++ [a]) = if key a ∈ l.map key then distinctBy key l else distinctBy key l ++ [a] := by
  unfold distinctBy
  rw [distinctFrom_append, List.append_nil]
  by_cases h : key a ∈ l.map key
  · rw [if_pos h, distinctFrom, if_pos h, distinctFrom, List.append_nil]
  · rw [if_neg h, distinctFrom, if_neg h, distinctFrom]

theorem distinctFrom_sublist : (distinctFrom key seen l).Sublist l := by
  induction l generalizing seen with
  | nil => exact List.Sublist.slnil
  | cons a l ih =>
    unfold distinctFrom
    split
    · exact ih.cons a
    · exact ih.cons_cons a

theorem distinctBy_sublist : (distinctBy key l).Sublist l := distinctFrom_sublist

/-- Of each key the value that stands first is kept. -/
theorem exists_first {R : α → α → Prop} (hrefl : ∀ b, R b b) (hpair : l.Pairwise R) (ha : a ∈ l) :
    ∃ b ∈ distinctBy key l, key b = key a ∧ R b a := by
  induction l using List.reverseRecOn generalizing a with
  | nil => cases ha
  | append_singleton l c ih =>
    obtain ⟨hl, -, hlast⟩ := List.pairwise_append.1 hpair
    have hkept : ∀ b ∈ distinctBy key l, b ∈ distinctBy key (l ++ [c]) := by
      intro b hb
      rw [distinctBy_concat]
      split
      · exact hb
      · exact List.mem_append_left _ hb
    rcases List.mem_append.1 ha with ha | ha
    · obtain ⟨b, hb, hkey, hR⟩ := ih hl ha
      exact ⟨b, hkept b hb, hkey, hR⟩
    · obtain rfl := List.mem_singleton.1 ha
      by_cases hseen : key a ∈ l.map key
      · obtain ⟨a', ha', hkey'⟩ := List.mem_map.1 hseen
        obtain ⟨b, hb, hkey, -⟩ := ih hl ha'
        exact ⟨b, hkept b hb, hkey.trans hkey', hlast b (distinctBy_sublist.subset hb) a ha⟩
      · refine ⟨a, ?_, rfl, hrefl a⟩
        rw [distinctBy_concat, if_neg hseen]
        exact List.mem_append_right _ ha

theorem distinctFrom_map {f : β → α} {l : List β} :
    (distinctFrom (fun b => key (f b)) seen l).map f = distinctFrom key seen (l.map f) := by
  induction l generalizing seen with
  | nil => rfl
  | cons b l ih =>
    rw [List.map_cons, distinctFrom, distinctFrom]
    split
    · exact ih
    · rw [List.map_cons, ih]

/-- Keys that tell the same values apart keep the same values. -/
theorem distinctFrom_key {κ' : Type} [DecidableEq κ'] {key' : α → κ'}
    (h : ∀ a b, key a = key b ↔ key' a = key' b) (seen : List α) :
    distinctFrom key (seen.map key) l = distinctFrom key' (seen.map key') l := by
  induction l generalizing seen with
  | nil => rfl
  | cons a l ih =>
    have hseen : key a ∈ seen.map key ↔ key' a ∈ seen.map key' := by
      rw [List.mem_map, List.mem_map]
      exact exists_congr fun b => and_congr_right fun _ => h b a
    have hcons := ih (a :: seen)
    rw [List.map_cons, List.map_cons] at hcons
    unfold distinctFrom
    by_cases hin : key a ∈ seen.map key
    · rw [if_pos hin, if_pos (hseen.1 hin), ih]
    · rw [if_neg hin, if_neg fun hin' => hin (hseen.2 hin'), hcons]

theorem distinctBy_key {κ' : Type} [DecidableEq κ'] {key' : α → κ'} (h : ∀ a b, key a = key b ↔ key' a = key' b) :
    distinctBy key l = distinctBy key' l := distinctFrom_key h []

theorem distinctBy_map {f : β → α} {l : List β} :
    (distinctBy (fun b => key (f b)) l).map f = distinctBy key (l.map f) := distinctFrom_map

end Distinct
