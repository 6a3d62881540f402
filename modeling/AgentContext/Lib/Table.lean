import AgentContext.Lib.PropertyGraph
import Mathlib.Data.Finmap
import Mathlib.Data.List.MinMax
import Mathlib.Data.List.Sort
import Mathlib.Tactic.Common

/-!
# Tables

A dictionary, or the nodes of one label by their key: a finite map whose equality is that of its lookups.

    touch      MERGE (n {key})
    modify     MATCH (n {key}) SET …
    keep       MATCH … WHERE not p DELETE
    collect    MATCH (n) WHERE … RETURN …, by key
    values     … ORDER BY the key
    items      sorted(d.items())
    insertAll  for k, v in pairs: d[k] = v
    groupAll   for v in values: d.setdefault(key(v), []).append(v)
    keepBest   for v in values: if the key is new or v beats the one held, hold v
    leastNonNull   min(f(a)), nulls ignored
    put            d[k] = v, in a dictionary that keeps the order of insertion
-/

namespace Table

open List

open PropertyGraph (minNonNull)

variable {κ α β ρ : Type} [DecidableEq κ]

/-- A finite map from keys to values of one type. -/
abbrev Dict (κ α : Type) : Type := Finmap fun _ : κ => α

variable {s : Dict κ α} {k k' : κ}
variable {entries : List (κ × α)} {a : α}
variable {blank : α} {v : α}

theorem lookup_insert_eq : (s.insert k v).lookup k' = if k' = k then some v else s.lookup k' := by
  by_cases h : k' = k
  · subst h
    rw [if_pos rfl, Finmap.lookup_insert]
  · rw [if_neg h, Finmap.lookup_insert_of_ne s h]

theorem mem_iff_lookup : k ∈ s ↔ s.lookup k ≠ none :=
  ⟨fun h hn => Finmap.lookup_eq_none.1 hn h, fun h => by
    by_contra hk
    exact h (Finmap.lookup_eq_none.2 hk)⟩

/-! ## Statements -/

/-- `MERGE` the entity of a key: it is created when there is none. -/
def touch (k : κ) (blank : α) (s : Dict κ α) : Dict κ α := if k ∈ s then s else s.insert k blank

theorem mem_touch : k' ∈ touch k blank s ↔ k' = k ∨ k' ∈ s := by
  unfold touch
  split
  · next h => exact ⟨Or.inr, fun h' => h'.elim (fun e => e ▸ h) id⟩
  · exact Finmap.mem_insert

theorem mem_touch_all {ks : List κ} : k' ∈ ks.foldl (fun s k => touch k blank s) s ↔ k' ∈ ks ∨ k' ∈ s := by
  induction ks generalizing s with
  | nil => simp
  | cons k ks ih => rw [foldl_cons, ih, mem_touch, mem_cons]; tauto

theorem lookup_touch :
    (touch k blank s).lookup k' = if k' = k then some ((s.lookup k).getD blank) else s.lookup k' := by
  unfold touch
  by_cases hk : k ∈ s
  · obtain ⟨v, hv⟩ := Finmap.mem_iff.1 hk
    rw [if_pos hk, hv]
    by_cases h : k' = k
    · rw [if_pos h, h, hv, Option.getD_some]
    · rw [if_neg h]
  · rw [if_neg hk, lookup_insert_eq, Finmap.lookup_eq_none.2 hk, Option.getD_none]

/-- `MATCH` the entity of a key and change it. -/
def modify (k : κ) (f : α → α) (s : Dict κ α) : Dict κ α :=
  match s.lookup k with
  | none => s
  | some v => s.insert k (f v)

theorem lookup_modify {f : α → α} :
    (modify k f s).lookup k' = if k' = k then (s.lookup k).map f else s.lookup k' := by
  unfold modify
  cases hv : s.lookup k with
  | none =>
    by_cases h : k' = k
    · rw [if_pos h, h, hv, Option.map_none]
    · rw [if_neg h]
  | some v => rw [lookup_insert_eq, Option.map_some]

theorem mem_modify {f : α → α} : k' ∈ modify k f s ↔ k' ∈ s := by
  rw [mem_iff_lookup, mem_iff_lookup, lookup_modify]
  split
  · next h => rw [h, ne_eq, Option.map_eq_none_iff]
  · rfl

/-- Only the entities whose key meets `p`. -/
def keep (p : κ → Prop) [DecidablePred p] (s : Dict κ α) : Dict κ α where
  entries := s.entries.filter fun entry => p entry.1
  nodupKeys := Multiset.nodup_keys.1 <|
    Multiset.nodup_of_le (Multiset.map_le_map (Multiset.filter_le _ _)) (Multiset.nodup_keys.2 s.nodupKeys)

theorem lookup_keep {p : κ → Prop} [DecidablePred p] :
    (keep p s).lookup k = if p k then s.lookup k else none := by
  refine Option.ext fun v => ?_
  rw [Finmap.lookup_eq_some_iff]
  show (⟨k, v⟩ : Sigma _) ∈ s.entries.filter _ ↔ _
  rw [Multiset.mem_filter, ← Finmap.lookup_eq_some_iff]
  by_cases h : p k <;> simp [h]

/-- Only the entities that meet `p`. -/
def select (p : κ → α → Prop) [∀ k a, Decidable (p k a)] (s : Dict κ α) : Dict κ α where
  entries := s.entries.filter fun entry => p entry.1 entry.2
  nodupKeys := Multiset.nodup_keys.1 <|
    Multiset.nodup_of_le (Multiset.map_le_map (Multiset.filter_le _ _)) (Multiset.nodup_keys.2 s.nodupKeys)

theorem lookup_select {p : κ → α → Prop} [∀ k a, Decidable (p k a)] :
    (select p s).lookup k = (s.lookup k).filter fun a => p k a := by
  refine Option.ext fun v => ?_
  rw [Finmap.lookup_eq_some_iff, Option.filter_eq_some_iff]
  show (⟨k, v⟩ : Sigma fun _ : κ => α) ∈ s.entries.filter _ ↔ _
  rw [Multiset.mem_filter, ← Finmap.lookup_eq_some_iff, decide_eq_true_eq]

/-- A dictionary of the same keys. -/
def mapValues (f : κ → α → β) (s : Dict κ α) : Dict κ β where
  entries := s.entries.map fun entry => ⟨entry.1, f entry.1 entry.2⟩
  nodupKeys := by
    rw [← Multiset.nodup_keys, Multiset.keys, Multiset.map_map]
    exact Multiset.nodup_keys.2 s.nodupKeys

theorem lookup_mapValues {f : κ → α → β} : (mapValues f s).lookup k = (s.lookup k).map (f k) := by
  refine Option.ext fun v => ?_
  rw [Finmap.lookup_eq_some_iff, Option.map_eq_some_iff]
  show (⟨k, v⟩ : Sigma fun _ : κ => β) ∈ s.entries.map _ ↔ _
  rw [Multiset.mem_map]
  constructor
  · rintro ⟨⟨k', a⟩, ha, he⟩
    cases he
    exact ⟨a, Finmap.lookup_eq_some_iff.2 ha, rfl⟩
  · rintro ⟨a, ha, rfl⟩
    exact ⟨⟨k, a⟩, Finmap.lookup_eq_some_iff.1 ha, rfl⟩

/-- The entities that `f` takes, as what it makes of them. -/
def collect (f : κ → α → Option β) (s : Dict κ α) : Dict κ β where
  entries := s.entries.filterMap fun entry => (f entry.1 entry.2).map (Sigma.mk entry.1)
  nodupKeys := by
    obtain ⟨entries, hnodup⟩ := s
    induction entries using Quotient.inductionOn with
    | h entries =>
      refine List.nodupKeys_iff_pairwise.2 (List.Pairwise.filterMap _ ?_ (List.nodupKeys_iff_pairwise.1 hnodup))
      intro a b hab a' ha b' hb
      obtain ⟨v, -, rfl⟩ := Option.map_eq_some_iff.1 ha
      obtain ⟨v', -, rfl⟩ := Option.map_eq_some_iff.1 hb
      exact hab

theorem lookup_collect {f : κ → α → Option β} : (collect f s).lookup k = (s.lookup k).bind (f k) := by
  refine Option.ext fun v => ?_
  rw [Finmap.lookup_eq_some_iff, Option.bind_eq_some_iff]
  show (⟨k, v⟩ : Sigma fun _ : κ => β) ∈ s.entries.filterMap _ ↔ _
  rw [Multiset.mem_filterMap]
  constructor
  · rintro ⟨⟨k', a⟩, ha, he⟩
    obtain ⟨v', hv', he⟩ := Option.map_eq_some_iff.1 he
    cases he
    exact ⟨a, Finmap.lookup_eq_some_iff.2 ha, hv'⟩
  · rintro ⟨a, ha, hv⟩
    exact ⟨⟨k, a⟩, Finmap.lookup_eq_some_iff.1 ha, by rw [hv]; rfl⟩

/-- Results that name what they are made of keep the order of the names. -/
theorem filterMap_map_sublist {γ : Type} {f : α → Option β} {name : β → γ} {source : α → γ}
    (hname : ∀ a b, f a = some b → name b = source a) (l : List α) :
    ((l.filterMap f).map name).Sublist (l.map source) := by
  induction l with
  | nil => exact .slnil
  | cons a l ih =>
    rw [map_cons]
    cases ha : f a with
    | none => rw [filterMap_cons_none ha]; exact ih.cons _
    | some b =>
      rw [filterMap_cons_some ha, map_cons, hname a b ha]
      exact ih.cons_cons _

variable {entry : κ × α}

section Values

variable [LinearOrder κ]

def ordered (s : Finset κ) : List κ :=
  Quot.liftOn s.val (List.insertionSort (· ≤ ·)) fun _ _ h =>
    List.Perm.eq_of_pairwise' (List.pairwise_insertionSort _ _) (List.pairwise_insertionSort _ _)
      (((List.perm_insertionSort _ _).trans h).trans (List.perm_insertionSort _ _).symm)

section

omit [DecidableEq κ]

theorem mem_ordered {s : Finset κ} {k : κ} : k ∈ ordered s ↔ k ∈ s := by
  obtain ⟨⟨l⟩, h⟩ := s
  exact (perm_insertionSort _ l).mem_iff

theorem ordered_nodup {s : Finset κ} : (ordered s).Nodup := by
  obtain ⟨⟨l⟩, h⟩ := s
  exact (perm_insertionSort _ l).nodup_iff.2 h

theorem ordered_pairwise {s : Finset κ} : (ordered s).Pairwise (· ≤ ·) := by
  obtain ⟨⟨l⟩, h⟩ := s
  exact pairwise_insertionSort _ l

/-- The least element comes first. -/
theorem ordered_head {s : Finset κ} {k : κ} (hk : k ∈ s) (hle : ∀ k' ∈ s, k ≤ k') : ∃ rest, ordered s = k :: rest := by
  have hmem : k ∈ ordered s := mem_ordered.2 hk
  cases hs : ordered s with
  | nil => rw [hs] at hmem; exact absurd hmem not_mem_nil
  | cons k' rest =>
    have hpair := ordered_pairwise (s := s)
    rw [hs] at hmem hpair
    have hle' : k' ≤ k := (mem_cons.1 hmem).elim (fun h => h ▸ le_refl _) ((pairwise_cons.1 hpair).1 k)
    have hk' : k' ∈ s := mem_ordered.1 (hs ▸ mem_cons_self ..)
    exact ⟨rest, by rw [le_antisymm hle' (hle k' hk')]⟩

end

/-- The values in the order of their keys. -/
def values (s : Dict κ α) : List α := (ordered s.keys).filterMap fun k => s.lookup k

theorem mem_values {a : α} : a ∈ values s ↔ ∃ k, s.lookup k = some a := by
  unfold values
  rw [mem_filterMap]
  refine ⟨fun ⟨k, _, h⟩ => ⟨k, h⟩, fun ⟨k, h⟩ => ⟨k, ?_, h⟩⟩
  rw [mem_ordered, Finmap.mem_keys, mem_iff_lookup, h]
  exact Option.some_ne_none a

/-- Values that name their key are as distinct as the keys. -/
theorem values_map_nodup {f : α → κ} (hname : ∀ k a, s.lookup k = some a → f a = k) : ((values s).map f).Nodup := by
  have hid : ∀ k a, s.lookup k = some a → f a = id k := hname
  have hsub := filterMap_map_sublist hid (ordered s.keys)
  rw [map_id] at hsub
  exact hsub.nodup ordered_nodup

/-- The entries in the order of their keys. -/
def items (s : Dict κ α) : List (κ × α) := (ordered s.keys).filterMap fun k => (s.lookup k).map (Prod.mk k)

theorem mem_items : entry ∈ items s ↔ s.lookup entry.1 = some entry.2 := by
  unfold items
  rw [mem_filterMap]
  constructor
  · rintro ⟨k, -, h⟩
    obtain ⟨a, ha, rfl⟩ := Option.map_eq_some_iff.1 h
    exact ha
  · intro h
    refine ⟨entry.1, ?_, by rw [h, Option.map_some]⟩
    rw [mem_ordered, Finmap.mem_keys, mem_iff_lookup, h]
    exact Option.some_ne_none _

theorem items_keys_nodup : ((items s).map Prod.fst).Nodup := by
  have hname : ∀ k (entry : κ × α), (s.lookup k).map (Prod.mk k) = some entry → entry.1 = id k := fun k entry h => by
    obtain ⟨a, -, rfl⟩ := Option.map_eq_some_iff.1 h
    rfl
  have hsub := filterMap_map_sublist hname (ordered s.keys)
  rw [map_id] at hsub
  exact hsub.nodup ordered_nodup

theorem items_keys_pairwise : ((items s).map Prod.fst).Pairwise (· ≤ ·) := by
  have hname : ∀ k (entry : κ × α), (s.lookup k).map (Prod.mk k) = some entry → entry.1 = id k := fun k entry h => by
    obtain ⟨a, -, rfl⟩ := Option.map_eq_some_iff.1 h
    rfl
  have hsub := filterMap_map_sublist hname (ordered s.keys)
  rw [map_id] at hsub
  exact ordered_pairwise.sublist hsub

/-- The last item of a kind is the one with the greatest key. -/
theorem getLast?_filter_items {p : κ × α → Bool} : ((items s).filter p).getLast? = some entry ↔
    entry ∈ items s ∧ p entry ∧ ∀ entry' ∈ items s, p entry' → entry'.1 ≤ entry.1 := by
  have hgreatest : ∀ {last}, ((items s).filter p).getLast? = some last →
      last ∈ items s ∧ p last ∧ ∀ entry' ∈ items s, p entry' → entry'.1 ≤ last.1 := by
    intro last hlast
    obtain ⟨hmem, hp⟩ := mem_filter.1 (mem_of_getLast? hlast)
    refine ⟨hmem, hp, fun entry' hmem' hp' => ?_⟩
    obtain ⟨init, hinit⟩ := List.getLast?_eq_some_iff.1 hlast
    have hsorted : ((items s).filter p).Pairwise fun a b => a.1 ≤ b.1 := (pairwise_map.1 items_keys_pairwise).filter p
    have hmem'' : entry' ∈ (items s).filter p := mem_filter.2 ⟨hmem', hp'⟩
    rw [hinit] at hsorted hmem''
    rcases mem_append.1 hmem'' with hin | hin
    · exact (pairwise_append.1 hsorted).2.2 entry' hin last (mem_singleton_self _)
    · rw [mem_singleton.1 hin]
  constructor
  · exact hgreatest
  · rintro ⟨hmem, hp, hle⟩
    have hne : (items s).filter p ≠ [] := ne_nil_of_mem (mem_filter.2 ⟨hmem, hp⟩)
    have hlast := List.getLast?_eq_some_getLast hne
    obtain ⟨hmem', hp', hle'⟩ := hgreatest hlast
    have hkey : ((items s).filter p).getLast hne = entry := by
      refine Prod.ext (le_antisymm (hle _ hmem' hp') (hle' entry hmem hp)) ?_
      have hvalue := mem_items.1 hmem'
      rw [le_antisymm (hle _ hmem' hp') (hle' entry hmem hp), mem_items.1 hmem] at hvalue
      exact (Option.some.inj hvalue).symm
    rw [hlast, hkey]

end Values

/-! ## Groups -/

section Groups

variable {key : α → κ} {vs : List α}

/-- `for v in values: groups.setdefault(key(v), []).append(v)`. -/
def groupAll (key : α → κ) (vs : List α) : Dict κ (List α) :=
  vs.foldl (fun groups v => groups.insert (key v) ((groups.lookup (key v)).getD [] ++ [v])) ∅

end Groups

/-! ## Loops -/

/-- The entries put in one after the other. -/
def insertAll (entries : List (κ × α)) (s : Dict κ α) : Dict κ α := entries.foldl (fun s entry => s.insert entry.1 entry.2) s

theorem lookup_insertAll_of_notMem (h : k ∉ entries.map Prod.fst) : (insertAll entries s).lookup k = s.lookup k := by
  induction entries generalizing s with
  | nil => rfl
  | cons entry entries ih =>
    rw [map_cons, mem_cons, not_or] at h
    show (insertAll entries (s.insert entry.1 entry.2)).lookup k = _
    rw [ih h.2, lookup_insert_eq, if_neg h.1]

theorem lookup_insertAll :
    (insertAll entries s).lookup k = (((entries.filter (·.1 = k)).getLast?).map Prod.snd).or (s.lookup k) := by
  unfold insertAll
  induction entries generalizing s with
  | nil => rfl
  | cons entry entries ih =>
    rw [foldl_cons, ih, lookup_insert_eq]
    by_cases h : entry.1 = k
    · rw [if_pos h.symm, filter_cons_of_pos (by simpa using h), List.getLast?_cons]
      cases (entries.filter (·.1 = k)).getLast? <;> rfl
    · rw [if_neg (Ne.symm h), filter_cons_of_neg (by simpa using h)]

theorem mem_of_lookup_insertAll (h : (insertAll entries s).lookup k = some a) :
    (k, a) ∈ entries ∨ s.lookup k = some a := by
  rw [lookup_insertAll, Option.or_eq_some_iff, Option.map_eq_some_iff] at h
  rcases h with ⟨entry, hlast, rfl⟩ | ⟨-, hold⟩
  · obtain ⟨hmem, hkey⟩ := mem_filter.1 (mem_of_getLast? hlast)
    exact .inl ((of_decide_eq_true hkey : entry.1 = k) ▸ hmem)
  · exact .inr hold

theorem lookup_insertAll_of_mem (nodup : (entries.map Prod.fst).Nodup) (h : (k, a) ∈ entries) :
    (insertAll entries s).lookup k = some a := by
  induction entries generalizing s with
  | nil => exact absurd h not_mem_nil
  | cons entry entries ih =>
    rw [map_cons, nodup_cons] at nodup
    show (insertAll entries (s.insert entry.1 entry.2)).lookup k = _
    rcases mem_cons.1 h with rfl | h
    · rw [lookup_insertAll_of_notMem nodup.1, lookup_insert_eq, if_pos rfl]
    · exact ih nodup.2 h

/-- A table built of entries of different keys has those entries. -/
theorem lookup_insertAll_empty (nodup : (entries.map Prod.fst).Nodup) :
    (insertAll entries ∅).lookup k = some a ↔ (k, a) ∈ entries := by
  refine ⟨fun h => ?_, lookup_insertAll_of_mem nodup⟩
  by_cases hk : k ∈ entries.map Prod.fst
  · obtain ⟨⟨k, a'⟩, hmem, rfl⟩ := mem_map.1 hk
    rw [lookup_insertAll_of_mem nodup hmem] at h
    exact Option.some.inj h ▸ hmem
  · rw [lookup_insertAll_of_notMem hk, Finmap.lookup_empty] at h
    exact absurd h (Option.some_ne_none a).symm

theorem lookup_insertAll_named {values : List α} {name : α → κ} (nodup : (values.map name).Nodup) :
    (insertAll (values.map fun v => (name v, v)) ∅).lookup k = some a ↔ a ∈ values ∧ name a = k := by
  have hkeys : (values.map fun v => (name v, v)).map Prod.fst = values.map name := by
    rw [map_map]
    rfl
  rw [lookup_insertAll_empty (hkeys ▸ nodup), mem_map]
  constructor
  · rintro ⟨v, hv, heq⟩
    obtain ⟨rfl, rfl⟩ := Prod.mk.inj heq
    exact ⟨hv, rfl⟩
  · rintro ⟨ha, rfl⟩
    exact ⟨a, ha, rfl⟩

/-- The order in which entries of different keys are put in does not matter. -/
theorem insertAll_perm {entries entries' : List (κ × α)} (nodup : (entries.map Prod.fst).Nodup) (h : entries.Perm entries') :
    insertAll entries s = insertAll entries' s := by
  have nodup' : (entries'.map Prod.fst).Nodup := (h.map Prod.fst).nodup_iff.1 nodup
  refine Finmap.ext_lookup fun k => ?_
  by_cases hk : k ∈ entries.map Prod.fst
  · obtain ⟨⟨k, a⟩, ha, rfl⟩ := mem_map.1 hk
    rw [lookup_insertAll_of_mem nodup ha, lookup_insertAll_of_mem nodup' (h.mem_iff.1 ha)]
  · rw [lookup_insertAll_of_notMem hk, lookup_insertAll_of_notMem fun hk' => hk ((h.map Prod.fst).mem_iff.2 hk')]

/-! ## Dictionaries in the order of insertion -/

/-- A key that is there keeps its place. -/
def put (k : κ) (a : α) : List (κ × α) → List (κ × α)
  | [] => [(k, a)]
  | entry :: entries => if entry.1 = k then (k, a) :: entries else entry :: put k a entries

theorem put_nil : put k a [] = [(k, a)] := rfl

theorem put_cons : put k a (entry :: entries) =
    if entry.1 = k then (k, a) :: entries else entry :: put k a entries := rfl

theorem mem_keys_put : k' ∈ (put k a entries).map Prod.fst ↔ k' = k ∨ k' ∈ entries.map Prod.fst := by
  induction entries with
  | nil => simp [put_nil]
  | cons entry entries ih =>
    rw [put_cons]
    split
    · next h => simp [← h]
    · next h =>
      rw [map_cons, mem_cons, ih, map_cons, mem_cons]
      tauto

theorem put_nodup (nodup : (entries.map Prod.fst).Nodup) : ((put k a entries).map Prod.fst).Nodup := by
  induction entries with
  | nil => simp [put_nil]
  | cons entry entries ih =>
    rw [map_cons, nodup_cons] at nodup
    rw [put_cons]
    split
    · next h => rw [map_cons, ← h]; exact nodup_cons.2 nodup
    · next h =>
      rw [map_cons, nodup_cons, mem_keys_put]
      exact ⟨fun hmem => hmem.elim h nodup.1, ih nodup.2⟩

theorem mem_put {a a' : α} (nodup : (entries.map Prod.fst).Nodup) :
    (k', a') ∈ put k a entries ↔ if k' = k then a' = a else (k', a') ∈ entries := by
  induction entries with
  | nil =>
    rw [put_nil, mem_singleton, Prod.mk.injEq]
    split <;> simp_all
  | cons entry entries ih =>
    rw [map_cons, nodup_cons] at nodup
    rw [put_cons]
    by_cases hentry : entry.1 = k
    · rw [if_pos hentry, mem_cons, mem_cons, Prod.mk.injEq]
      by_cases hk : k' = k
      · subst hk
        rw [if_pos rfl]
        refine ⟨fun h => h.elim And.right fun hmem => absurd ?_ nodup.1, fun h => .inl ⟨rfl, h⟩⟩
        exact hentry ▸ mem_map_of_mem hmem
      · rw [if_neg hk]
        refine ⟨fun h => h.elim (fun h => absurd h.1 hk) .inr, fun h => h.elim (fun h => ?_) .inr⟩
        exact absurd ((congrArg Prod.fst h).trans hentry) hk
    · rw [if_neg hentry, mem_cons, ih nodup.2, mem_cons]
      by_cases hk : k' = k
      · rw [if_pos hk, if_pos hk]
        refine ⟨fun h => h.elim (fun h => absurd ((congrArg Prod.fst h).symm.trans hk) hentry) id, .inr⟩
      · rw [if_neg hk, if_neg hk]

/-! ## The best value of each key -/

section Best

variable [LinearOrder ρ] {key : α → κ} {rank : α → ρ} {vs : List α}

/-- The loop that holds, for each key, the first of the values of the greatest rank. -/
def keepBest (key : α → κ) (rank : α → ρ) (vs : List α) : Dict κ α :=
  vs.foldl (fun held v =>
    match held.lookup (key v) with
    | none => held.insert (key v) v
    | some best => if rank best < rank v then held.insert (key v) v else held) ∅

theorem lookup_keepBest : (keepBest key rank vs).lookup k = (vs.filter (key · = k)).argmax rank := by
  induction vs using List.reverseRecOn with
  | nil => rfl
  | append_singleton vs v ih =>
    unfold keepBest at ih ⊢
    rw [foldl_append, foldl_cons, foldl_nil, filter_append]
    by_cases hk : key v = k
    · subst hk
      have hv : ([v].filter (key · = key v)) = [v] := by simp
      rw [hv, argmax_concat, ih]
      cases hbest : (vs.filter (key · = key v)).argmax rank with
      | none => exact Finmap.lookup_insert _
      | some best =>
        show Finmap.lookup _ (if _ then _ else _) = if _ then _ else _
        by_cases hlt : rank best < rank v
        · rw [if_pos hlt, if_pos hlt, Finmap.lookup_insert]
        · rw [if_neg hlt, if_neg hlt, ih, hbest]
    · have hv : ([v].filter (key · = k)) = [] := by simp [hk]
      rw [hv, append_nil, ← ih]
      split
      · exact Finmap.lookup_insert_of_ne _ (Ne.symm hk)
      · split
        · exact Finmap.lookup_insert_of_ne _ (Ne.symm hk)
        · rfl

/-- What is held is a value that none of the values beats. -/
theorem argmax_eq_some (hinj : ∀ a ∈ vs, ∀ b ∈ vs, rank a = rank b → a = b) :
    vs.argmax rank = some v ↔ v ∈ vs ∧ ∀ a ∈ vs, rank a ≤ rank v := by
  constructor
  · intro h
    exact ⟨argmax_mem h, fun a ha => le_of_mem_argmax ha h⟩
  · rintro ⟨hv, hmax⟩
    cases h : vs.argmax rank with
    | none =>
      rw [argmax_eq_none.1 h] at hv
      exact absurd hv not_mem_nil
    | some w =>
      have hw := argmax_mem h
      have hle : rank v ≤ rank w := le_of_mem_argmax hv h
      exact congrArg some (hinj w hw v hv (le_antisymm (hmax w hw) hle))

theorem argmax_filter_eq_some (hinj : ∀ a ∈ vs, ∀ b ∈ vs, key a = k → key b = k → rank a = rank b → a = b) :
    (vs.filter (key · = k)).argmax rank = some v ↔ v ∈ vs ∧ key v = k ∧ ∀ a ∈ vs, key a = k → rank a ≤ rank v := by
  have hmem : ∀ a, a ∈ vs.filter (key · = k) ↔ a ∈ vs ∧ key a = k := fun a => by simp
  rw [argmax_eq_some fun a ha b hb => hinj a ((hmem a).1 ha).1 b ((hmem b).1 hb).1 ((hmem a).1 ha).2 ((hmem b).1 hb).2]
  simp only [hmem, and_imp, and_assoc]

/-- Values that a kept one beats can be left out. -/
theorem argmax_filter_of_beaten {p : α → Bool} (hinj : ∀ a ∈ vs, ∀ b ∈ vs, rank a = rank b → a = b)
    (hbeaten : ∀ a ∈ vs, p a = false → ∃ b ∈ vs, p b = true ∧ rank a < rank b) :
    (vs.filter p).argmax rank = vs.argmax rank := by
  refine Option.ext fun v => ?_
  have hmem : ∀ a, a ∈ vs.filter p ↔ a ∈ vs ∧ p a = true := fun a => mem_filter
  rw [argmax_eq_some hinj, argmax_eq_some fun a ha b hb => hinj a ((hmem a).1 ha).1 b ((hmem b).1 hb).1, hmem]
  constructor
  · rintro ⟨⟨hv, -⟩, hmax⟩
    refine ⟨hv, fun a ha => ?_⟩
    cases hp : p a with
    | true => exact hmax a ((hmem a).2 ⟨ha, hp⟩)
    | false =>
      obtain ⟨b, hb, hpb, hlt⟩ := hbeaten a ha hp
      exact hlt.le.trans (hmax b ((hmem b).2 ⟨hb, hpb⟩))
  · rintro ⟨hv, hmax⟩
    refine ⟨⟨hv, ?_⟩, fun a ha => hmax a ((hmem a).1 ha).1⟩
    by_contra hp
    obtain ⟨b, hb, -, hlt⟩ := hbeaten v hv (Bool.eq_false_iff.2 hp)
    exact absurd (hmax b hb) (not_le.2 hlt)

end Best

/-! ## The least value -/

section Least

variable [LinearOrder ρ] {f : α → Option ρ} {f' : β → Option ρ} {l : List α} {l' : List β}

def leastNonNull (f : α → Option ρ) (l : List α) : Option ρ := (l.filterMap f).argmin id

@[simp] theorem leastNonNull_nil : leastNonNull f [] = none := rfl

theorem leastNonNull_concat {a : α} : leastNonNull f (l ++ [a]) = minNonNull (leastNonNull f l) (f a) := by
  unfold leastNonNull
  rw [filterMap_append]
  cases ha : f a with
  | none =>
    have hnil : [a].filterMap f = [] := by simp [ha]
    rw [hnil, append_nil]
    cases (l.filterMap f).argmin id <;> rfl
  | some t =>
    have hone : [a].filterMap f = [t] := by simp [ha]
    rw [hone, argmin_concat]
    cases (l.filterMap f).argmin id with
    | none => rfl
    | some least => exact (apply_ite some _ _ _).symm

theorem leastNonNull_eq_some {m : ρ} :
    leastNonNull f l = some m ↔ (∃ a ∈ l, f a = some m) ∧ ∀ a ∈ l, ∀ v, f a = some v → m ≤ v := by
  have hmem : ∀ v, v ∈ l.filterMap f ↔ ∃ a ∈ l, f a = some v := fun v => mem_filterMap
  constructor
  · intro h
    refine ⟨(hmem m).1 (argmin_mem h), fun a ha v hv => ?_⟩
    exact le_of_mem_argmin ((hmem v).2 ⟨a, ha, hv⟩) h
  · rintro ⟨hm, hle⟩
    cases h : leastNonNull f l with
    | none =>
      have hm' := (hmem m).2 hm
      rw [argmin_eq_none.1 h] at hm'
      exact absurd hm' not_mem_nil
    | some v =>
      obtain ⟨a, ha, hv⟩ := (hmem v).1 (argmin_mem h)
      exact congrArg some (le_antisymm (le_of_mem_argmin ((hmem m).2 hm) h) (hle a ha v hv))

theorem leastNonNull_congr (h : ∀ v, (∃ a ∈ l, f a = some v) ↔ ∃ a ∈ l', f' a = some v) :
    leastNonNull f l = leastNonNull f' l' := by
  refine Option.ext fun m => ?_
  rw [leastNonNull_eq_some, leastNonNull_eq_some, h m]
  refine and_congr_right fun _ => ⟨fun hle a ha v hv => ?_, fun hle a ha v hv => ?_⟩
  · obtain ⟨b, hb, hbv⟩ := (h v).2 ⟨a, ha, hv⟩
    exact hle b hb v hbv
  · obtain ⟨b, hb, hbv⟩ := (h v).1 ⟨a, ha, hv⟩
    exact hle b hb v hbv

/-- Values that a kept one does not exceed can be left out. -/
theorem leastNonNull_filter {p : α → Bool}
    (hmatched : ∀ a ∈ l, p a = false → ∀ v, f a = some v → ∃ b ∈ l, p b = true ∧ ∃ u ≤ v, f b = some u) :
    leastNonNull f (l.filter p) = leastNonNull f l := by
  refine Option.ext fun m => ?_
  rw [leastNonNull_eq_some, leastNonNull_eq_some]
  have hmem : ∀ a, a ∈ l.filter p ↔ a ∈ l ∧ p a = true := fun a => mem_filter
  constructor
  · rintro ⟨⟨a, ha, hm⟩, hle⟩
    refine ⟨⟨a, ((hmem a).1 ha).1, hm⟩, fun b hb v hv => ?_⟩
    cases hp : p b with
    | true => exact hle b ((hmem b).2 ⟨hb, hp⟩) v hv
    | false =>
      obtain ⟨c, hc, hpc, u, hu, huc⟩ := hmatched b hb hp v hv
      exact (hle c ((hmem c).2 ⟨hc, hpc⟩) u huc).trans hu
  · rintro ⟨⟨a, ha, hm⟩, hle⟩
    refine ⟨?_, fun b hb => hle b ((hmem b).1 hb).1⟩
    cases hp : p a with
    | true => exact ⟨a, (hmem a).2 ⟨ha, hp⟩, hm⟩
    | false =>
      obtain ⟨c, hc, hpc, u, hu, huc⟩ := hmatched a ha hp m hm
      have hsame : u = m := le_antisymm hu (hle c hc u huc)
      exact ⟨c, (hmem c).2 ⟨hc, hpc⟩, hsame ▸ huc⟩

end Least

end Table
