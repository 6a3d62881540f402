import Mathlib.Data.Finset.Basic
import Mathlib.Data.List.Nodup
import Mathlib.Order.Basic
import Mathlib.Tactic.Common

/-!
# A store of merged entities

A statement merges one entity, found by its key, into a store.  A property is filled once or keeps the smallest
value that was written, and an entity keeps the set of the sources that wrote it:

    fills      coalesce(n.p, $p)
    least      CASE WHEN $p < n.p THEN $p ELSE n.p END
    sources    the union

Where the writes of one key agree on what they fill, the store holds exactly what was written, so it depends on
the set of the writes only:

    fills_written     a property is filled with v       ↔  some write of the key fills it with v
    least_written     a least property is t             ↔  some write says t, and none says less
    read_written_eq   the same writes                   →  the same entities

Keys are kept in the order of their creation, which is the order a query returns rows in.
-/

namespace PropertyGraph

open List

variable {κ π ν τ σ : Type}

/-! ## Entities -/

@[ext] structure Entity (π ν τ σ : Type) where
  fills : π → Option ν
  least : π → Option τ
  sources : Finset σ

/-- The smaller of the values that are not null. -/
def minNonNull [LinearOrder τ] : Option τ → Option τ → Option τ
  | held, none => held
  | none, some t => some t
  | some h, some t => some (if t < h then t else h)

namespace Entity

/-- An entity no statement has written. -/
def blank : Entity π ν τ σ := ⟨fun _ => none, fun _ => none, ∅⟩

def merge [LinearOrder τ] [DecidableEq σ] (n w : Entity π ν τ σ) : Entity π ν τ σ where
  fills := fun p => (n.fills p).or (w.fills p)
  least := fun p => minNonNull (n.least p) (w.least p)
  sources := n.sources ∪ w.sources

end Entity

/-! ## Stores -/

structure Store (κ π ν τ σ : Type) where
  keys : List κ
  read : κ → Entity π ν τ σ

namespace Store

def empty : Store κ π ν τ σ := ⟨[], fun _ => Entity.blank⟩

@[simp] theorem read_empty (k : κ) : (empty : Store κ π ν τ σ).read k = Entity.blank := rfl

/-- The writes of one key agree on every property that two of them fill. -/
def Agree (writes : List (κ × Entity π ν τ σ)) : Prop :=
  ∀ k n n', (k, n) ∈ writes → (k, n') ∈ writes → ∀ p v v', n.fills p = some v → n'.fills p = some v' → v = v'

theorem Agree.of_subset {writes writes' : List (κ × Entity π ν τ σ)} (h : Agree writes) (hsub : ∀ w ∈ writes', w ∈ writes) : Agree writes' :=
  fun k n n' hn hn' => h k n n' (hsub _ hn) (hsub _ hn')

section Put

variable [DecidableEq κ] [LinearOrder τ] [DecidableEq σ]

/-- `MERGE` an entity and set its properties. -/
def put (s : Store κ π ν τ σ) (write : κ × Entity π ν τ σ) : Store κ π ν τ σ where
  keys := if write.1 ∈ s.keys then s.keys else s.keys ++ [write.1]
  read := fun k => if k = write.1 then (s.read k).merge write.2 else s.read k

def putAll (s : Store κ π ν τ σ) (writes : List (κ × Entity π ν τ σ)) : Store κ π ν τ σ :=
  writes.foldl put s

def written (writes : List (κ × Entity π ν τ σ)) : Store κ π ν τ σ := empty.putAll writes

variable {s : Store κ π ν τ σ} {writes writes' : List (κ × Entity π ν τ σ)} {k : κ}
variable {w : κ × Entity π ν τ σ} {p : π}

theorem putAll_append : s.putAll (writes ++ writes') = (s.putAll writes).putAll writes' := foldl_append

theorem written_append : written (writes ++ writes') = (written writes).putAll writes' := putAll_append

theorem written_snoc : written (writes ++ [w]) = (written writes).put w := putAll_append

/-! ## Keys -/

theorem mem_keys_put : k ∈ (s.put w).keys ↔ k ∈ s.keys ∨ k = w.1 := by
  unfold put
  by_cases hk : w.1 ∈ s.keys
  · rw [if_pos hk]
    refine ⟨Or.inl, ?_⟩
    rintro (h | rfl)
    · exact h
    · exact hk
  · rw [if_neg hk, mem_append, mem_singleton]

theorem mem_keys_putAll : k ∈ (s.putAll writes).keys ↔ k ∈ s.keys ∨ ∃ n, (k, n) ∈ writes := by
  induction writes generalizing s with
  | nil => simp [putAll]
  | cons w writes ih =>
    show k ∈ ((s.put w).putAll writes).keys ↔ _
    rw [ih, mem_keys_put]
    constructor
    · rintro ((h | rfl) | ⟨n, h⟩)
      · exact Or.inl h
      · exact Or.inr ⟨w.2, mem_cons_self⟩
      · exact Or.inr ⟨n, mem_cons_of_mem _ h⟩
    · rintro (h | ⟨n, h⟩)
      · exact Or.inl (Or.inl h)
      · rcases mem_cons.1 h with rfl | h
        · exact Or.inl (Or.inr rfl)
        · exact Or.inr ⟨n, h⟩

theorem mem_keys_written : k ∈ (written writes).keys ↔ ∃ n, (k, n) ∈ writes := by
  show k ∈ (empty.putAll writes).keys ↔ _
  rw [mem_keys_putAll]
  simp [empty]

theorem nodup_put (h : s.keys.Nodup) : (s.put w).keys.Nodup := by
  unfold put
  by_cases hk : w.1 ∈ s.keys
  · rwa [if_pos hk]
  · rw [if_neg hk]
    refine nodup_append.2 ⟨h, nodup_singleton _, ?_⟩
    rintro a ha b hb rfl
    exact hk (mem_singleton.1 hb ▸ ha)

theorem nodup_putAll (h : s.keys.Nodup) : (s.putAll writes).keys.Nodup := by
  induction writes generalizing s with
  | nil => exact h
  | cons w writes ih => exact ih (nodup_put h)

theorem nodup_written : (written writes).keys.Nodup := nodup_putAll nodup_nil

theorem keys_putAll (s : Store κ π ν τ σ) (writes : List (κ × Entity π ν τ σ)) :
    ∃ new, (s.putAll writes).keys = s.keys ++ new ∧ ∀ k ∈ new, ∃ n, (k, n) ∈ writes := by
  induction writes generalizing s with
  | nil => exact ⟨[], by simp [putAll], by simp⟩
  | cons w writes ih =>
    obtain ⟨new, hkeys, hnew⟩ := ih (s.put w)
    have hlater : ∀ k ∈ new, ∃ n, (k, n) ∈ w :: writes := by
      intro k hk
      obtain ⟨n, hn⟩ := hnew k hk
      exact ⟨n, mem_cons_of_mem _ hn⟩
    by_cases hw : w.1 ∈ s.keys
    · refine ⟨new, ?_, hlater⟩
      show ((s.put w).putAll writes).keys = _
      rw [hkeys]
      simp [put, hw]
    · refine ⟨w.1 :: new, ?_, ?_⟩
      · show ((s.put w).putAll writes).keys = _
        rw [hkeys]
        simp [put, hw]
      · rintro k hk
        rcases mem_cons.1 hk with rfl | hk
        · exact ⟨w.2, mem_cons_self⟩
        · exact hlater k hk

/-! ## Entities after a list of writes -/

theorem read_put :
    (s.put w).read k = if k = w.1 then (s.read k).merge w.2 else s.read k := rfl

/-- An entity that no statement writes is left as it is. -/
theorem read_putAll_of_unwritten (h : ∀ n, (k, n) ∉ writes) : (s.putAll writes).read k = s.read k := by
  induction writes generalizing s with
  | nil => rfl
  | cons w writes ih =>
    have hk : k ≠ w.1 := fun hk => h w.2 (hk ▸ mem_cons_self)
    show ((s.put w).putAll writes).read k = _
    rw [ih fun n hn => h n (mem_cons_of_mem _ hn), read_put, if_neg hk]

/-- A filled property stays as it is. -/
theorem fills_putAll_of_filled {v : ν} (h : (s.read k).fills p = some v) :
    ((s.putAll writes).read k).fills p = some v := by
  induction writes generalizing s with
  | nil => exact h
  | cons w writes ih =>
    refine ih (s := s.put w) ?_
    rw [read_put]
    by_cases hk : k = w.1
    · rw [if_pos hk]
      simp [Entity.merge, h]
    · rwa [if_neg hk]

theorem exists_write_of_fills {v : ν} (h : ((written writes).read k).fills p = some v) :
    ∃ n, (k, n) ∈ writes ∧ n.fills p = some v := by
  induction writes using reverseRecOn with
  | nil => simp [written, putAll, Entity.blank] at h
  | append_singleton writes w ih =>
    rw [written_snoc, read_put] at h
    by_cases hk : k = w.1
    · rw [if_pos hk] at h
      rcases Option.or_eq_some_iff.1 h with h | ⟨-, h⟩
      · obtain ⟨n, hn, hv⟩ := ih h
        exact ⟨n, mem_append_left _ hn, hv⟩
      · exact ⟨w.2, by simp [hk], h⟩
    · rw [if_neg hk] at h
      obtain ⟨n, hn, hv⟩ := ih h
      exact ⟨n, mem_append_left _ hn, hv⟩

/-- **A property holds what the writes of its key fill it with.** -/
theorem fills_written (agree : Agree writes) {v : ν} :
    ((written writes).read k).fills p = some v ↔ ∃ n, (k, n) ∈ writes ∧ n.fills p = some v := by
  refine ⟨exists_write_of_fills, ?_⟩
  rintro ⟨n, hn, hv⟩
  obtain ⟨before, after, rfl⟩ := append_of_mem hn
  have hfilled : ∃ u, (((written before).put (k, n)).read k).fills p = some u := by
    rw [read_put, if_pos rfl]
    show ∃ u, (((written before).read k).fills p).or (n.fills p) = some u
    cases ((written before).read k).fills p with
    | none => exact ⟨v, hv⟩
    | some u => exact ⟨u, rfl⟩
  obtain ⟨u, hu⟩ := hfilled
  have hkept : ((written (before ++ (k, n) :: after)).read k).fills p = some u := by
    rw [written_append]
    exact fills_putAll_of_filled (s := (written before).put (k, n)) hu
  obtain ⟨m, hm, hmu⟩ := exists_write_of_fills hkept
  rw [hkept, agree k m n hm hn p u v hmu hv]

theorem unstated (h : ((written writes).read k).least p = none) {n : Entity π ν τ σ} {u : τ} (hn : (k, n) ∈ writes) :
    n.least p ≠ some u := by
  induction writes using reverseRecOn with
  | nil => cases hn
  | append_singleton writes w ih =>
    rw [written_snoc, read_put] at h
    by_cases hk : k = w.1
    · rw [if_pos hk] at h
      have hboth : minNonNull (((written writes).read k).least p) (w.2.least p) = none := h
      have hparts : ((written writes).read k).least p = none ∧ w.2.least p = none := by
        revert hboth
        cases ((written writes).read k).least p <;> cases w.2.least p <;> simp [minNonNull]
      rcases mem_append.1 hn with hn | hn
      · exact ih hparts.1 hn
      · have hn2 : n = w.2 := congrArg Prod.snd (mem_singleton.1 hn)
        rw [hn2, hparts.2]
        simp
    · rw [if_neg hk] at h
      rcases mem_append.1 hn with hn | hn
      · exact ih h hn
      · exact absurd (congrArg Prod.fst (mem_singleton.1 hn)) hk

/-- **A least property holds the least value the writes of its key state.** -/
theorem least_written {t : τ} : ((written writes).read k).least p = some t ↔
      (∃ n, (k, n) ∈ writes ∧ n.least p = some t) ∧ ∀ n u, (k, n) ∈ writes → n.least p = some u → t ≤ u := by
  induction writes using reverseRecOn generalizing t with
  | nil => simp [written, putAll, Entity.blank]
  | append_singleton writes w ih =>
    have hmem : ∀ n, (k, n) ∈ writes ++ [w] ↔ (k, n) ∈ writes ∨ (k, n) = w := by simp
    rw [written_snoc, read_put]
    by_cases hk : k = w.1
    · rw [if_pos hk]
      have hw : ∀ n, (k, n) = w ↔ n = w.2 := fun n => by rw [hk, Prod.ext_iff]; simp
      show minNonNull _ (w.2.least p) = some t ↔ _
      simp only [hmem, hw]
      cases hnew : w.2.least p with
      | none =>
        show ((written writes).read k).least p = some t ↔ _
        rw [ih]
        constructor
        · rintro ⟨⟨n, hn, ht⟩, hle⟩
          refine ⟨⟨n, Or.inl hn, ht⟩, ?_⟩
          rintro m u (hm | rfl) hu
          · exact hle m u hm hu
          · rw [hnew] at hu
            cases hu
        · rintro ⟨⟨n, hn | rfl, ht⟩, hle⟩
          · exact ⟨⟨n, hn, ht⟩, fun m u hm => hle m u (Or.inl hm)⟩
          · rw [hnew] at ht
            cases ht
      | some t' =>
        cases hheld : ((written writes).read k).least p with
        | none =>
          have hnone : ∀ n u, (k, n) ∈ writes → n.least p ≠ some u := fun n u => unstated hheld
          show some t' = some t ↔ _
          constructor
          · rintro ⟨rfl⟩
            refine ⟨⟨w.2, Or.inr rfl, hnew⟩, ?_⟩
            rintro m u (hm | rfl) hu
            · exact absurd hu (hnone m u hm)
            · rw [hnew] at hu
              exact le_of_eq (Option.some.inj hu)
          · rintro ⟨⟨n, hn | rfl, ht⟩, -⟩
            · exact absurd ht (hnone n t hn)
            · rw [← hnew, ht]
        | some h =>
          obtain ⟨⟨n₀, hn₀, ht₀⟩, hle₀⟩ := ih.1 hheld
          show some (if t' < h then t' else h) = some t ↔ _
          constructor
          · rintro ⟨rfl⟩
            by_cases hlt : t' < h
            · simp only [if_pos hlt]
              refine ⟨⟨w.2, Or.inr rfl, hnew⟩, ?_⟩
              rintro m u (hm | rfl) hu
              · exact le_trans (le_of_lt hlt) (hle₀ m u hm hu)
              · rw [hnew] at hu
                exact le_of_eq (Option.some.inj hu)
            · simp only [if_neg hlt]
              refine ⟨⟨n₀, Or.inl hn₀, ht₀⟩, ?_⟩
              rintro m u (hm | rfl) hu
              · exact hle₀ m u hm hu
              · rw [hnew] at hu
                exact Option.some.inj hu ▸ not_lt.1 hlt
          · rintro ⟨⟨n, hn, ht⟩, hle⟩
            have hth : t ≤ h := hle n₀ h (Or.inl hn₀) ht₀
            have htt : t ≤ t' := hle w.2 t' (Or.inr rfl) hnew
            congr 1
            rcases hn with hn | rfl
            · have hht : h ≤ t := hle₀ n t hn ht
              rw [if_neg (not_lt.2 (le_trans hht htt))]
              exact le_antisymm hht hth
            · have heq : t' = t := Option.some.inj (hnew.symm.trans ht)
              by_cases hlt : t' < h
              · rw [if_pos hlt, heq]
              · rw [if_neg hlt]
                exact le_antisymm (heq ▸ not_lt.1 hlt) hth
    · rw [if_neg hk, ih]
      have hw : ∀ n, (k, n) ≠ w := fun n h => hk (congrArg Prod.fst h)
      simp only [hmem, hw, or_false]

theorem mem_sources_written {source : σ} :
    source ∈ ((written writes).read k).sources ↔ ∃ n, (k, n) ∈ writes ∧ source ∈ n.sources := by
  induction writes using reverseRecOn with
  | nil => simp [written, putAll, Entity.blank]
  | append_singleton writes w ih =>
    rw [written_snoc, read_put]
    by_cases hk : k = w.1
    · rw [if_pos hk]
      have hw : ∀ n, (k, n) = w ↔ n = w.2 := fun n => by rw [hk, Prod.ext_iff]; simp
      simp only [Entity.merge, Finset.mem_union, ih, mem_append, mem_singleton, hw, or_and_right,
        exists_or, exists_eq_left]
    · have hw : ∀ n, (k, n) ≠ w := fun n h => hk (congrArg Prod.fst h)
      rw [if_neg hk, ih]
      simp only [mem_append, mem_singleton, hw, or_false]

/-- **The entities depend on the set of the writes only.** -/
theorem read_written_eq (agree : Agree writes) (same : ∀ w, w ∈ writes ↔ w ∈ writes') :
    (written writes).read = (written writes').read := by
  funext k
  have agree' : Agree writes' := agree.of_subset fun w => (same w).2
  ext
  · rw [fills_written agree, fills_written agree']
    simp only [same]
  · rw [least_written, least_written]
    simp only [same]
  · rw [mem_sources_written, mem_sources_written]
    simp only [same]

/-! ## Part of the writes -/

theorem fills_eq_of_covered (agree : Agree writes) (hsub : ∀ w ∈ writes', w ∈ writes)
    (hcover : ∀ n v, (k, n) ∈ writes → n.fills p = some v → ∃ n' v', (k, n') ∈ writes' ∧ n'.fills p = some v') :
    ((written writes').read k).fills p = ((written writes).read k).fills p := by
  ext v
  rw [fills_written (agree.of_subset hsub), fills_written agree]
  constructor
  · rintro ⟨n, hn, hv⟩
    exact ⟨n, hsub _ hn, hv⟩
  · rintro ⟨n, hn, hv⟩
    obtain ⟨n', v', hn', hv'⟩ := hcover n v hn hv
    rw [agree k n n' hn (hsub _ hn') p v v' hv hv']
    exact ⟨n', hn', hv'⟩

/-- A least property is the least that some of the writes state, where the others state none less. -/
theorem least_eq_of_covered (hsub : ∀ w ∈ writes', w ∈ writes) (hcover : ∀ n t, (k, n) ∈ writes → n.least p = some t →
      ∃ n' t', (k, n') ∈ writes' ∧ n'.least p = some t' ∧ t' ≤ t) :
    ((written writes').read k).least p = ((written writes).read k).least p := by
  ext t
  rw [least_written, least_written]
  constructor
  · rintro ⟨⟨n, hn, ht⟩, hle⟩
    refine ⟨⟨n, hsub _ hn, ht⟩, ?_⟩
    intro m u hm hu
    obtain ⟨m', u', hm', hu', huu⟩ := hcover m u hm hu
    exact le_trans (hle m' u' hm' hu') huu
  · rintro ⟨⟨n, hn, ht⟩, hle⟩
    obtain ⟨n', t', hn', ht', htt⟩ := hcover n t hn ht
    have heq : t = t' := le_antisymm (hle n' t' (hsub _ hn') ht') htt
    exact ⟨⟨n', hn', heq ▸ ht'⟩, fun m u hm hu => hle m u (hsub _ hm) hu⟩

end Put

end Store

end PropertyGraph
