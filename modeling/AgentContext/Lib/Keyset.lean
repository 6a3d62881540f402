import Mathlib.Algebra.BigOperators.Group.List.Basic
import Mathlib.Algebra.GroupWithZero.Nat
import Mathlib.Data.List.Sort
import Mathlib.Data.List.Dedup
import Mathlib.Data.List.Perm.Subperm

/-!
# Sorted key sets and keyset paging

`sortedSet` is a set of keys in order.  Keyset paging reads such a set a page at a time, each page asking for
the keys after the last one it saw:

    walk_pages      the pages together are the keys after the start, in order
    page_union      a page of a union can be cut from a page of each side

A reader of rows only needs each page to hold the right rows and to end with the greatest of them:

    walkRows_perm   the pages together are the rows, each once

Rows are grouped by a key the way GROUP BY does it, one group for each key of the sorted set of keys:

    sum_countP_groups   counting group by group counts the rows of all the groups

Rows that carry a key are put in its order, or the first row with the least key is taken.  Where no two rows share
a key, neither depends on the order the rows come in:

    sortBy_eq       the same rows, sorted, are the same list
    leastBy_eq      the same rows have the same least row
-/

namespace Keyset

open List

variable {α : Type} [LinearOrder α]
variable {xs ys : List α}

/-! ## Sorted sets -/

/-- The elements of `xs` in order, each once. -/
def sortedSet (xs : List α) : List α := xs.dedup.insertionSort (· ≤ ·)

@[simp] theorem mem_sortedSet (xs : List α) {a : α} : a ∈ sortedSet xs ↔ a ∈ xs := by simp [sortedSet]

theorem sortedSet_nodup (xs : List α) : (sortedSet xs).Nodup :=
  (perm_insertionSort _ _).nodup_iff.2 (nodup_dedup xs)

theorem sortedSet_pairwise (xs : List α) : (sortedSet xs).Pairwise (· < ·) := by
  have hle : (sortedSet xs).Pairwise (· ≤ ·) := pairwise_insertionSort _ _
  exact hle.imp₂ (fun _ _ h hne => lt_of_le_of_ne h hne) (sortedSet_nodup xs)

/-- Lists that strictly increase in a key and have the same elements are equal. -/
theorem eq_of_same_mem_by {ρ : Type} {f : ρ → α} {xs ys : List ρ} (hx : xs.Pairwise (f · < f ·))
    (hy : ys.Pairwise (f · < f ·)) (h : ∀ a, a ∈ xs ↔ a ∈ ys) : xs = ys := by
  have hne : ∀ a b : ρ, f a < f b → a ≠ b := fun a b hab hab' => absurd (hab' ▸ hab) (lt_irrefl _)
  have hperm : xs.Perm ys := (perm_ext_iff_of_nodup (hx.imp fun h => hne _ _ h) (hy.imp fun h => hne _ _ h)).2 h
  exact hperm.eq_of_pairwise (fun a b _ _ hab hba => absurd hab (lt_asymm hba)) hx hy

/-- Strictly increasing lists with the same elements are equal. -/
theorem eq_of_same_mem (hx : xs.Pairwise (· < ·)) (hy : ys.Pairwise (· < ·)) (h : ∀ a, a ∈ xs ↔ a ∈ ys) : xs = ys :=
  eq_of_same_mem_by (f := id) hx hy h

theorem sortedSet_congr (h : ∀ a, a ∈ xs ↔ a ∈ ys) : sortedSet xs = sortedSet ys :=
  eq_of_same_mem (sortedSet_pairwise xs) (sortedSet_pairwise ys) fun a => by rw [mem_sortedSet, mem_sortedSet, h]

/-! ## Rows in the order of a key -/

section Rows

variable {ρ : Type} {key : ρ → α} {rows rows' : List ρ}

def sortBy (key : ρ → α) (rows : List ρ) : List ρ := rows.insertionSort (key · ≤ key ·)

/-- The first of the rows with the least key. -/
def leastBy (key : ρ → α) : List ρ → Option ρ
  | [] => none
  | row :: rows =>
    match leastBy key rows with
    | none => some row
    | some least => if key least < key row then some least else some row

/-- No two different rows share a key. -/
def KeyedBy (key : ρ → α) (rows : List ρ) : Prop := ∀ a ∈ rows, ∀ b ∈ rows, key a = key b → a = b

omit [LinearOrder α] in
theorem KeyedBy.of_subset (h : KeyedBy key rows) (hsub : ∀ a ∈ rows', a ∈ rows) : KeyedBy key rows' :=
  fun a ha b hb => h a (hsub a ha) b (hsub b hb)

@[simp] theorem mem_sortBy {a : ρ} : a ∈ sortBy key rows ↔ a ∈ rows := by simp [sortBy]

theorem sortBy_le (key : ρ → α) (rows : List ρ) : (sortBy key rows).Pairwise (key · ≤ key ·) := by
  have := pairwise_insertionSort (fun a b : ρ => key a ≤ key b) rows
  exact this

theorem sortBy_pairwise (keyed : KeyedBy key rows) (nodup : rows.Nodup) :
    (sortBy key rows).Pairwise (key · < key ·) := by
  have hle := sortBy_le key rows
  have hnodup : (sortBy key rows).Nodup := (perm_insertionSort _ _).nodup_iff.2 nodup
  have hmem : ∀ a ∈ sortBy key rows, ∀ b ∈ sortBy key rows, key a ≤ key b ∧ a ≠ b → key a < key b := by
    rintro a ha b hb ⟨hab, hne⟩
    exact lt_of_le_of_ne hab fun h => hne (keyed a (mem_sortBy.1 ha) b (mem_sortBy.1 hb) h)
  exact List.Pairwise.imp_of_mem (fun ha hb h => hmem _ ha _ hb h) (hle.and hnodup)

/-- **The same rows, sorted, are the same list.** -/
theorem sortBy_eq (keyed : KeyedBy key rows) (nodup : rows.Nodup) (nodup' : rows'.Nodup)
    (same : ∀ a, a ∈ rows ↔ a ∈ rows') : sortBy key rows = sortBy key rows' := by
  have keyed' : KeyedBy key rows' := keyed.of_subset fun a => (same a).2
  refine eq_of_same_mem_by (sortBy_pairwise keyed nodup) (sortBy_pairwise keyed' nodup') ?_
  intro a
  rw [mem_sortBy, mem_sortBy, same]

theorem leastBy_eq_none : leastBy key rows = none ↔ rows = [] := by
  cases rows with
  | nil => simp [leastBy]
  | cons row rows =>
    unfold leastBy
    cases leastBy key rows with
    | none => simp
    | some least => by_cases h : key least < key row <;> simp [h]

theorem leastBy_spec {least : ρ} (h : leastBy key rows = some least) :
    least ∈ rows ∧ ∀ row ∈ rows, key least ≤ key row := by
  induction rows generalizing least with
  | nil => cases h
  | cons row rows ih =>
    unfold leastBy at h
    cases hrest : leastBy key rows with
    | none =>
      rw [leastBy_eq_none.1 hrest]
      rw [hrest] at h
      obtain rfl := Option.some.inj h
      simp
    | some held =>
      obtain ⟨hmem, hle⟩ := ih hrest
      rw [hrest] at h
      by_cases hlt : key held < key row
      · simp only [if_pos hlt] at h
        obtain rfl := Option.some.inj h
        refine ⟨mem_cons_of_mem _ hmem, ?_⟩
        rintro r (- | ⟨_, hr⟩)
        · exact le_of_lt hlt
        · exact hle r hr
      · simp only [if_neg hlt] at h
        obtain rfl := Option.some.inj h
        refine ⟨mem_cons_self, ?_⟩
        rintro r (- | ⟨_, hr⟩)
        · exact le_refl _
        · exact le_trans (not_lt.1 hlt) (hle r hr)

theorem exists_leastBy (key : ρ → α) {row : ρ} (h : row ∈ rows) : ∃ least, leastBy key rows = some least := by
  cases hleast : leastBy key rows with
  | none => rw [leastBy_eq_none.1 hleast] at h; cases h
  | some least => exact ⟨least, rfl⟩

theorem leastBy_eq_some (keyed : KeyedBy key rows) {least : ρ} :
    leastBy key rows = some least ↔ least ∈ rows ∧ ∀ row ∈ rows, key least ≤ key row := by
  refine ⟨leastBy_spec, ?_⟩
  rintro ⟨hmem, hle⟩
  obtain ⟨held, hheld⟩ := exists_leastBy key hmem
  obtain ⟨hheldMem, hheldLe⟩ := leastBy_spec hheld
  rw [hheld, keyed held hheldMem least hmem (le_antisymm (hheldLe least hmem) (hle held hheldMem))]

/-- **The same rows have the same least row.** -/
theorem leastBy_eq (keyed : KeyedBy key rows) (same : ∀ a, a ∈ rows ↔ a ∈ rows') :
    leastBy key rows = leastBy key rows' := by
  ext least
  rw [leastBy_eq_some keyed, leastBy_eq_some (keyed.of_subset fun a => (same a).2)]
  simp only [same]

end Rows

/-! ## Groups -/

theorem sum_ite_eq {κ : Type} [DecidableEq κ] (k : κ) (n : Nat) {ks : List κ} (hnodup : ks.Nodup) :
    (ks.map fun k' => if k = k' then n else 0).sum = if k ∈ ks then n else 0 := by
  induction ks with
  | nil => simp
  | cons k' ks ih =>
    rw [nodup_cons] at hnodup
    rw [map_cons, sum_cons, ih hnodup.2]
    by_cases hk : k = k'
    · subst hk
      simp [hnodup.1]
    · simp [hk]

theorem sum_countP_groups {ρ κ : Type} [DecidableEq κ] (rows : List ρ) (key : ρ → κ) (counted : ρ → Bool) {ks : List κ}
    (hnodup : ks.Nodup) :
    (ks.map fun k => (rows.filter fun row => key row = k).countP counted).sum =
      rows.countP fun row => key row ∈ ks && counted row := by
  induction rows with
  | nil => simp
  | cons row rows ih =>
    have hcons : ∀ k, ((row :: rows).filter fun row => key row = k).countP counted =
        (if key row = k then (if counted row then 1 else 0) else 0) +
          (rows.filter fun row => key row = k).countP counted := by
      intro k
      by_cases hk : key row = k
      · rw [filter_cons_of_pos (by simpa using hk), countP_cons, if_pos hk]
        omega
      · rw [filter_cons_of_neg (by simpa using hk), if_neg hk, Nat.zero_add]
    simp only [hcons, sum_map_add, ih, sum_ite_eq (key row) _ hnodup, countP_cons]
    by_cases hmem : key row ∈ ks
    · cases hcounted : counted row
      · simp [hmem]
      · simp only [hmem, if_true, decide_true, Bool.true_and]
        omega
    · simp [hmem]

/-! ## Pages -/

/-- The first `limit` keys after `after`. -/
def page (keys : List α) (limit : Nat) (after : α) : List α := (keys.filter (after < ·)).take limit

/-- Page after page, until one is empty. -/
def walk (next : α → List α) : Nat → α → List α
  | 0, _ => []
  | fuel + 1, after =>
    match (next after).getLast? with
    | none => []
    | some last => next after ++ walk next fuel last

theorem filter_after_last {keys front back : List α} {last : α} (hs : (front ++ [last] ++ back).Pairwise (· < ·))
    {after : α} (hkeys : keys.filter (after < ·) = front ++ [last] ++ back) : keys.filter (last < ·) = back := by
  have hafter : after < last := by
    have hmem : last ∈ keys.filter (after < ·) := by
      rw [hkeys]
      simp
    simpa using (mem_filter.1 hmem).2
  have hsub : keys.filter (last < ·) = (keys.filter (after < ·)).filter (last < ·) := by
    rw [filter_filter]
    apply filter_congr
    intro a _
    by_cases h : last < a
    · simp [h, hafter.trans h]
    · simp [h]
  rw [hsub, hkeys, filter_append]
  rw [pairwise_append] at hs
  have hfront : (front ++ [last]).filter (last < ·) = [] := by
    rw [filter_eq_nil_iff]
    intro a ha
    rcases mem_append.1 ha with ha | ha
    · have := (pairwise_append.1 hs.1).2.2 a ha last mem_cons_self
      simpa using this.le
    · simp [mem_singleton.1 ha]
  have hback : back.filter (last < ·) = back := by
    rw [filter_eq_self]
    intro a ha
    simpa using hs.2.2 last (by simp) a ha
  rw [hfront, hback, nil_append]

/-- **The pages together are the keys after the start.** -/
theorem walk_pages {keys : List α} {limit : Nat} (hs : keys.Pairwise (· < ·)) (hl : 0 < limit) :
    ∀ {fuel : Nat} {after : α}, (keys.filter (after < ·)).length < fuel →
      walk (page keys limit) fuel after = keys.filter (after < ·)
  | 0, _, h => absurd h (Nat.not_lt_zero _)
  | fuel + 1, after, h => by
    unfold walk
    cases hlast : (page keys limit after).getLast? with
    | none =>
      have hnil : page keys limit after = [] := List.getLast?_eq_none_iff.1 hlast
      have : keys.filter (after < ·) = [] := by
        unfold page at hnil
        rcases take_eq_nil_iff.1 hnil with h0 | h0
        · omega
        · exact h0
      simp [this]
    | some last =>
      obtain ⟨front, hfront⟩ := List.getLast?_eq_some_iff.1 hlast
      have hsplit : keys.filter (after < ·) = front ++ [last] ++ (keys.filter (after < ·)).drop limit := by
        rw [← hfront, page, take_append_drop]
      have hsorted : (front ++ [last] ++ (keys.filter (after < ·)).drop limit).Pairwise (· < ·) := by
        rw [← hsplit]
        exact hs.sublist filter_sublist
      have hrest := filter_after_last hsorted hsplit
      have hlen := congrArg List.length hsplit
      simp only [length_append, length_singleton] at hlen
      simp only
      rw [walk_pages hs hl (by rw [hrest]; omega), hrest, hfront]
      exact hsplit.symm

/-! ## Pages of rows -/

section Rows

variable {ρ : Type}

/-- What a page read after a cursor is for. -/
def rowsAfter (cursor : ρ → α) (rows : List ρ) (after : Option α) : List ρ :=
  rows.filter fun row => after.all (· < cursor row)

/-- Pages of rows: the first rows after the cursor, in any order but for the last, which has the greatest cursor. -/
structure Pages (cursor : ρ → α) (rows : List ρ) (limit : Nat) (fetch : Option α → List ρ) : Prop where
  perm : ∀ after, (fetch after).Perm ((sortBy cursor (rowsAfter cursor rows after)).take limit)
  last : ∀ after, ∀ last ∈ (fetch after).getLast?, ∀ row ∈ fetch after, cursor row ≤ cursor last

/-- Page after page from the last row of each, until one is short; none if the fuel runs out. -/
def walkRows (cursor : ρ → α) (limit : Nat) (fetch : Option α → List ρ) : Nat → Option α → Option (List (List ρ))
  | 0, _ => none
  | fuel + 1, after =>
    match (fetch after).getLast? with
    | none => some []
    | some last =>
      if (fetch after).length < limit then some [fetch after]
      else (walkRows cursor limit fetch fuel (some (cursor last))).map (fetch after :: ·)

variable {cursor : ρ → α} {rows : List ρ} {limit : Nat} {fetch : Option α → List ρ}

theorem sortBy_perm (key : ρ → α) (rows : List ρ) : (sortBy key rows).Perm rows := perm_insertionSort _ _

theorem Pages.sorted (cursor : ρ → α) (rows : List ρ) (limit : Nat) :
    Pages cursor rows limit fun after => (sortBy cursor (rowsAfter cursor rows after)).take limit where
  perm := fun _ => List.Perm.refl _
  last := by
    intro after last hlast row hrow
    obtain ⟨front, hfront⟩ := List.getLast?_eq_some_iff.1 hlast
    have hle := (sortBy_le cursor (rowsAfter cursor rows after)).sublist (take_sublist limit _)
    rw [hfront] at hle hrow
    rcases mem_append.1 hrow with hrow | hrow
    · exact (pairwise_append.1 hle).2.2 row hrow last mem_cons_self
    · rw [mem_singleton.1 hrow]

theorem rowsAfter_last (keyed : KeyedBy cursor rows) (nodup : rows.Nodup) (pages : Pages cursor rows limit fetch)
    {after : Option α} {last : ρ} (hlast : (fetch after).getLast? = some last) :
    (rowsAfter cursor rows (some (cursor last))).Perm ((sortBy cursor (rowsAfter cursor rows after)).drop limit) := by
  have hsplit := take_append_drop limit (sortBy cursor (rowsAfter cursor rows after))
  have hsorted : (sortBy cursor (rowsAfter cursor rows after)).Pairwise (cursor · < cursor ·) :=
    sortBy_pairwise (keyed.of_subset fun _ h => mem_of_mem_filter h) (nodup.filter _)
  rw [← hsplit] at hsorted
  obtain ⟨-, -, hapart⟩ := pairwise_append.1 hsorted
  have hmem : last ∈ (sortBy cursor (rowsAfter cursor rows after)).take limit :=
    (pages.perm after).mem_iff.1 (mem_of_getLast? hlast)
  have hafter : ∀ t ∈ after, t < cursor last := by
    have := (mem_filter.1 (mem_sortBy.1 (mem_of_mem_take hmem))).2
    simpa [Option.all_eq_true] using this
  have hsub : rowsAfter cursor rows (some (cursor last)) =
      (rowsAfter cursor rows after).filter (cursor last < cursor ·) := by
    rw [rowsAfter, rowsAfter, filter_filter]
    refine filter_congr fun row _ => ?_
    rw [Option.all_some]
    by_cases h : cursor last < cursor row
    · have : after.all (· < cursor row) = true := by
        rw [Option.all_eq_true]
        exact fun t ht => decide_eq_true (lt_trans (hafter t ht) h)
      rw [this, Bool.and_true]
    · simp [h]
  have htake : ((sortBy cursor (rowsAfter cursor rows after)).take limit).filter (cursor last < cursor ·) = [] := by
    refine filter_eq_nil_iff.2 fun row hrow => ?_
    have := pages.last after last hlast row ((pages.perm after).mem_iff.2 hrow)
    simpa using this
  have hdrop : ((sortBy cursor (rowsAfter cursor rows after)).drop limit).filter (cursor last < cursor ·) =
      (sortBy cursor (rowsAfter cursor rows after)).drop limit :=
    filter_eq_self.2 fun row hrow => decide_eq_true (hapart last hmem row hrow)
  have hfiltered : (sortBy cursor (rowsAfter cursor rows after)).filter (cursor last < cursor ·) =
      (sortBy cursor (rowsAfter cursor rows after)).drop limit := by
    conv_lhs => rw [← hsplit, filter_append, htake, hdrop, nil_append]
  rw [hsub, ← hfiltered]
  exact (sortBy_perm _ _).symm.filter _

/-- **The pages together are the rows, each once.** -/
theorem walkRows_perm (keyed : KeyedBy cursor rows) (nodup : rows.Nodup) (hlimit : 0 < limit)
    (pages : Pages cursor rows limit fetch) :
    ∀ {fuel : Nat} {after : Option α}, (rowsAfter cursor rows after).length < fuel →
      ∃ read, walkRows cursor limit fetch fuel after = some read ∧ read.flatten.Perm (rowsAfter cursor rows after)
  | 0, _, h => absurd h (Nat.not_lt_zero _)
  | fuel + 1, after, h => by
    have hperm := pages.perm after
    have hsort := sortBy_perm cursor (rowsAfter cursor rows after)
    have hlen : (fetch after).length = min limit (rowsAfter cursor rows after).length := by
      rw [hperm.length_eq, length_take, hsort.length_eq]
    unfold walkRows
    cases hlast : (fetch after).getLast? with
    | none =>
      have hnil : rowsAfter cursor rows after = [] := by
        rw [List.getLast?_eq_none_iff.1 hlast, length_nil] at hlen
        exact length_eq_zero_iff.1 (by omega)
      exact ⟨[], rfl, by rw [hnil]; rfl⟩
    | some last =>
      simp only
      split_ifs with hshort
      · -- a short page is the last one
        refine ⟨[fetch after], rfl, ?_⟩
        rw [take_of_length_le (by rw [hsort.length_eq]; omega)] at hperm
        simpa using hperm.trans hsort
      · have hrest := rowsAfter_last keyed nodup pages hlast
        have hfewer : (rowsAfter cursor rows (some (cursor last))).length < fuel := by
          rw [hrest.length_eq, length_drop, hsort.length_eq]
          omega
        obtain ⟨read, hread, hall⟩ := walkRows_perm keyed nodup hlimit pages hfewer
        refine ⟨fetch after :: read, by rw [hread]; rfl, ?_⟩
        rw [flatten_cons]
        refine ((hperm.append (hall.trans hrest)).trans ?_).trans hsort
        rw [take_append_drop]

end Rows

/-! ## Pages of a union -/

/-- In a strictly increasing list the first `n` are those with fewer than `n` before them. -/
theorem mem_take_iff {xs : List α} (hs : xs.Pairwise (· < ·)) (n : Nat) {a : α} :
    a ∈ xs.take n ↔ a ∈ xs ∧ (xs.filter (· < a)).length < n := by
  induction xs generalizing n with
  | nil => simp
  | cons x xs ih =>
    rw [pairwise_cons] at hs
    cases n with
    | zero => simp
    | succ n =>
      rw [take_succ_cons, mem_cons, mem_cons, ih hs.2]
      by_cases hax : a = x
      · subst hax
        have hnone : xs.filter (· < a) = [] := by
          rw [filter_eq_nil_iff]
          intro b hb
          simpa using (hs.1 b hb).le
        simp [hnone]
      · constructor
        · rintro (h | ⟨hmem, hlt⟩)
          · exact absurd h hax
          · refine ⟨Or.inr hmem, ?_⟩
            rw [filter_cons, if_pos (by simpa using hs.1 a hmem), length_cons]
            omega
        · rintro ⟨h | hmem, hlt⟩
          · exact absurd h hax
          · refine Or.inr ⟨hmem, ?_⟩
            rw [filter_cons, if_pos (by simpa using hs.1 a hmem), length_cons] at hlt
            omega

theorem mem_take_sortBy {ρ : Type} {key : ρ → α} {rows : List ρ} (keyed : KeyedBy key rows) (nodup : rows.Nodup)
    (n : Nat) {a : ρ} :
    a ∈ (sortBy key rows).take n ↔ a ∈ rows ∧ (rows.filter (key · < key a)).length < n := by
  have hkeys : ((sortBy key rows).map key).Pairwise (· < ·) := pairwise_map.2 (sortBy_pairwise keyed nodup)
  have hcount : (((sortBy key rows).map key).filter (· < key a)).length = (rows.filter (key · < key a)).length := by
    rw [filter_map, length_map]
    exact ((perm_insertionSort _ rows).filter _).length_eq
  have htake : a ∈ (sortBy key rows).take n ↔ a ∈ rows ∧ key a ∈ ((sortBy key rows).map key).take n := by
    rw [← map_take, mem_map]
    constructor
    · intro h
      exact ⟨mem_sortBy.1 (mem_of_mem_take h), a, h, rfl⟩
    · rintro ⟨ha, b, hb, hab⟩
      exact keyed b (mem_sortBy.1 (mem_of_mem_take hb)) a ha hab ▸ hb
  rw [htake, mem_take_iff hkeys, hcount]
  constructor
  · exact fun h => ⟨h.1, h.2.2⟩
  · exact fun h => ⟨h.1, mem_map_of_mem (mem_sortBy.2 h.1), h.2⟩

/-- A part of a sorted list that has its first `n` elements has them as its own first `n`. -/
theorem take_eq_of_subset (hx : xs.Pairwise (· < ·)) (hy : ys.Pairwise (· < ·)) {n : Nat} (hsub : ∀ a ∈ ys, a ∈ xs)
    (hfirst : ∀ a ∈ xs.take n, a ∈ ys) : ys.take n = xs.take n := by
  have hfilter : ∀ a, ((ys.filter (· < a)).length ≤ (xs.filter (· < a)).length) := by
    intro a
    apply List.Subperm.length_le
    apply List.Nodup.subperm
    · exact (hy.imp fun h => ne_of_lt h).filter _
    · intro b hb
      rw [mem_filter] at hb ⊢
      exact ⟨hsub b hb.1, hb.2⟩
  apply eq_of_same_mem (hy.sublist (take_sublist _ _)) (hx.sublist (take_sublist _ _))
  intro a
  constructor
  · intro ha
    obtain ⟨hmem, hlt⟩ := (mem_take_iff hy n).1 ha
    refine (mem_take_iff hx n).2 ⟨hsub a hmem, ?_⟩
    by_contra hge
    -- were there `n` smaller ones, the first `n` of `xs` would all be in `ys` and smaller
    have htake : ∀ b ∈ xs.take n, b ∈ ys.filter (· < a) := by
      intro b hb
      obtain ⟨hbx, hbn⟩ := (mem_take_iff hx n).1 hb
      refine mem_filter.2 ⟨hfirst b hb, ?_⟩
      by_contra hnot
      have hab : a ≤ b := by simpa using hnot
      have hle : (xs.filter (· < a)).length ≤ (xs.filter (· < b)).length := by
        apply List.Subperm.length_le
        apply List.Nodup.subperm
        · exact (hx.imp fun h => ne_of_lt h).filter _
        · intro c hc
          rw [mem_filter] at hc ⊢
          exact ⟨hc.1, by simpa using lt_of_lt_of_le (by simpa using hc.2) hab⟩
      omega
    have hlen : (xs.take n).length ≤ (ys.filter (· < a)).length := by
      apply List.Subperm.length_le
      apply List.Nodup.subperm
      · exact (hx.imp fun h => ne_of_lt h).sublist (take_sublist _ _)
      · exact htake
    have hmany : (xs.filter (· < a)).length ≤ xs.length := length_filter_le _ _
    rw [length_take] at hlen
    omega
  · intro ha
    refine (mem_take_iff hy n).2 ⟨hfirst a ha, ?_⟩
    exact Nat.lt_of_le_of_lt (hfilter a) ((mem_take_iff hx n).1 ha).2

/-- **A page of a union can be cut from a page of each side.** -/
theorem page_union (xs ys : List α) (limit : Nat) (after : α) :
    (sortedSet (page (sortedSet xs) limit after ++ page (sortedSet ys) limit after)).take limit =
      page (sortedSet (xs ++ ys)) limit after := by
  have hall : ((sortedSet (xs ++ ys)).filter (after < ·)).Pairwise (· < ·) :=
    (sortedSet_pairwise _).sublist filter_sublist
  refine take_eq_of_subset hall (sortedSet_pairwise _) ?_ ?_
  · intro a ha
    rw [mem_sortedSet, mem_append] at ha
    rw [mem_filter, mem_sortedSet, mem_append]
    rcases ha with ha | ha
    · have := mem_of_mem_take ha
      rw [mem_filter, mem_sortedSet] at this
      exact ⟨Or.inl this.1, this.2⟩
    · have := mem_of_mem_take ha
      rw [mem_filter, mem_sortedSet] at this
      exact ⟨Or.inr this.1, this.2⟩
  · intro a ha
    obtain ⟨hmem, hlt⟩ := (mem_take_iff hall limit).1 ha
    rw [mem_filter, mem_sortedSet, mem_append] at hmem
    -- a side has no more keys before `a` than the union
    have side : ∀ zs : List α, (∀ b ∈ zs, b ∈ xs ++ ys) → a ∈ zs → a ∈ page (sortedSet zs) limit after := by
      intro zs hzs haz
      have hsorted : ((sortedSet zs).filter (after < ·)).Pairwise (· < ·) :=
        (sortedSet_pairwise _).sublist filter_sublist
      refine (mem_take_iff hsorted limit).2 ⟨?_, Nat.lt_of_le_of_lt ?_ hlt⟩
      · rw [mem_filter, mem_sortedSet]
        exact ⟨haz, hmem.2⟩
      · apply List.Subperm.length_le
        apply List.Nodup.subperm
        · exact (hsorted.imp fun h => ne_of_lt h).filter _
        · intro b hb
          simp only [mem_filter, mem_sortedSet] at hb ⊢
          exact ⟨⟨hzs b hb.1.1, hb.1.2⟩, hb.2⟩
    rw [mem_sortedSet, mem_append]
    rcases hmem.1 with h | h
    · exact Or.inl (side xs (fun b hb => mem_append_left _ hb) h)
    · exact Or.inr (side ys (fun b hb => mem_append_right _ hb) h)

end Keyset
