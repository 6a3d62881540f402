import AgentContext.Retrieval.Windows

/-!
# One page

`_page`: items in the order of the ranking until the page is full, then over the candidates that have no citable
evidence.

    takeItems   the first loop: renders, leaves an excerpt away where the first item does not fit with it
    skip        the second loop
    page        both, from a start, with a renderer of its own

A page from `s` holds the candidates it passes that are `Shown s` (`PageSpec`).
-/

namespace Retrieval

open List

/-! ## Budgets -/

/-- `QueryBudgetV1`: positive bounds. -/
structure Budget where
  maxItems : Nat
  maxBytes : Nat
  maxTokens : Nat
  items_pos : 0 < maxItems
  bytes_pos : 0 < maxBytes
  tokens_pos : 0 < maxTokens

/-- `MAX_PAGE_ITEMS`. -/
def maxPageItems : Nat := 100

/-- `BYTES_PER_TOKEN`. -/
def bytesPerToken : Nat := 4

def Budget.items (budget : Budget) : Nat := min budget.maxItems maxPageItems

def Budget.bytes (budget : Budget) : Nat := min budget.maxBytes (budget.maxTokens * bytesPerToken)

inductive PageError where
  | contextBudgetTooSmall
  | assertion
deriving DecidableEq, Repr

/-! ## Loops -/

structure Page (R : Type) where
  items : List (ContextItem R)
  position : Nat
  dropped : Nat

/-- The variables of `_page`. -/
structure PageState (E R : Type) where
  renderer : Renderer E
  items : List (ContextItem R)
  used : Nat
  dropped : Nat
  position : Nat

section Page

variable {U E R : Type} [LinearOrder U] (src : Sources U E R) (ranked : Ranked E) (budget : Budget)

/-- `_size`. -/
def Sources.size (item : ContextItem R) : Nat := (src.itemJson item).utf8ByteSize

/-- The serialized `items`. -/
def Sources.arrayText (items : List (ContextItem R)) : String :=
  "[" ++ ",".intercalate (items.map src.itemJson) ++ "]"

def PageState.page (st : PageState E R) : Page R := ⟨st.items, st.position, st.dropped⟩

/-- The next position, with one candidate dropped. -/
def PageState.drop (st : PageState E R) : PageState E R :=
  { st with dropped := st.dropped + 1, position := st.position + 1 }

/-- The next position, with an item of a size taken. -/
def PageState.take (st : PageState E R) (item : ContextItem R) (size : Nat) : PageState E R :=
  { st with items := st.items ++ [item], used := st.used + size, position := st.position + 1 }

def PageState.load (st : PageState E R) : PageState E R :=
  { st with renderer := st.renderer.load src ranked st.position }

@[simp] theorem PageState.load_items (st : PageState E R) : (st.load src ranked).items = st.items := rfl

/-- The first loop, with the positions left; `true` where it returns the page. -/
def takeItems : Nat → PageState E R → Except PageError (PageState E R × Bool)
  | 0, st => .ok (st, false)
  | left + 1, st =>
    match ranked.candidates[st.position]? with
    | none => .ok (st, false)
    | some candidate =>
      if budget.items ≤ st.items.length then .ok (st, false)
      else
        let st := st.load src ranked
        match st.renderer.render src candidate true with
        | none => takeItems left st.drop
        | some item =>
          let size := src.size item + if st.items.isEmpty then 0 else 1
          if st.used + size ≤ budget.bytes then takeItems left (st.take item size)
          else if !st.items.isEmpty then .ok (st, true)
          else
            match st.renderer.render src candidate false with
            | none => .error .assertion
            | some item =>
              if st.used + src.size item ≤ budget.bytes then takeItems left (st.take item (src.size item))
              else .error .contextBudgetTooSmall

/-- The second loop. -/
def skip : Nat → PageState E R → PageState E R
  | 0, st => st
  | left + 1, st =>
    match ranked.candidates[st.position]? with
    | none => st
    | some candidate =>
      let st := st.load src ranked
      if st.renderer.citable src candidate then st else skip left st.drop

/-- `_page`. -/
def page (start : Nat) : Except PageError (Page R) :=
  let left := ranked.candidates.length - start
  match takeItems src ranked budget left ⟨Renderer.new src ranked, [], 2, 0, start⟩ with
  | .error e => .error e
  | .ok (st, true) => .ok st.page
  | .ok (st, false) => .ok (skip src ranked left st).page

end Page

variable {U E R : Type} [LinearOrder U] {src : Sources U E R} {ranked : Ranked E} {budget : Budget}
variable {s : Nat} {candidate : Candidate}

/-! ## Sizes -/

omit [LinearOrder U] in
/-- One more item: its size, and a comma after the first. -/
theorem arrayText_append (items : List (ContextItem R)) (item : ContextItem R) :
    (src.arrayText (items ++ [item])).utf8ByteSize =
      (src.arrayText items).utf8ByteSize + (src.size item + if items.isEmpty then 0 else 1) := by
  unfold Sources.arrayText Sources.size
  cases items with
  | nil =>
    have hopen : ("[").utf8ByteSize = 1 := by decide
    have hclose : ("]").utf8ByteSize = 1 := by decide
    simp only [nil_append, map_cons, map_nil, String.intercalate_singleton, String.intercalate_nil,
      String.utf8ByteSize_append, hopen, hclose, String.utf8ByteSize_empty, isEmpty_nil, if_true]
    omega
  | cons first rest =>
    rw [map_append, String.intercalate_append_of_ne_nil (by simp) (by simp)]
    have hcomma : (",").utf8ByteSize = 1 := by decide
    simp only [map_cons, map_nil, String.intercalate_singleton, String.utf8ByteSize_append, hcomma,
      isEmpty_cons, Bool.false_eq_true, if_false]
    omega

/-! ## What a page collects -/

/-- The ids of the candidates from one position to another. -/
def idsFrom (ranked : Ranked E) (s p : Nat) : List String :=
  ((ranked.candidates.drop s).take (p - s)).map (·.itemId)

/-- The ids are those of the candidates from `s` to `p` that a page from `s` shows, in their order. -/
structure Collected (src : Sources U E R) (ranked : Ranked E) (s p : Nat) (ids : List String) : Prop where
  ordered : ids.Sublist (idsFrom ranked s p)
  shown : ∀ q candidate, s ≤ q → q < p → ranked.candidates[q]? = some candidate →
    (candidate.itemId ∈ ids ↔ Shown src ranked s q)

section

omit [LinearOrder U]

theorem mem_idsFrom {s p : Nat} {id : String} :
    id ∈ idsFrom ranked s p ↔ ∃ q candidate, s ≤ q ∧ q < p ∧ ranked.candidates[q]? = some candidate ∧
      candidate.itemId = id := by
  unfold idsFrom
  rw [mem_map]
  constructor
  · rintro ⟨candidate, hmem, rfl⟩
    obtain ⟨i, hi⟩ := mem_iff_getElem?.1 hmem
    rw [getElem?_take] at hi
    split at hi
    · rw [getElem?_drop] at hi
      exact ⟨s + i, candidate, by omega, by omega, hi, rfl⟩
    · cases hi
  · rintro ⟨q, candidate, hs, hq, hcandidate, rfl⟩
    refine ⟨candidate, mem_of_getElem? (i := q - s) ?_, rfl⟩
    rw [getElem?_take, if_pos (by omega), getElem?_drop, Nat.add_sub_cancel' hs]
    exact hcandidate

theorem position_unique {p q : Nat} {candidate candidate' : Candidate}
    (hp : ranked.candidates[p]? = some candidate) (hq : ranked.candidates[q]? = some candidate')
    (hid : candidate.itemId = candidate'.itemId) : p = q := by
  have hlt : p < (ranked.candidates.map (·.itemId)).length := by
    rw [length_map]
    exact (List.getElem?_eq_some_iff.1 hp).1
  refine (getElem?_inj hlt ranked.ids).1 ?_
  rw [getElem?_map, getElem?_map, hp, hq]
  simp [hid]

theorem idsFrom_succ {s p : Nat} {candidate : Candidate} (hs : s ≤ p) (hcandidate : ranked.candidates[p]? = some candidate) :
    idsFrom ranked s (p + 1) = idsFrom ranked s p ++ [candidate.itemId] := by
  have hlength : p + 1 - s = p - s + 1 := by omega
  unfold idsFrom
  rw [hlength, take_add_one, getElem?_drop, Nat.add_sub_cancel' hs, hcandidate, map_append]
  rfl

end

theorem Collected.nil : Collected src ranked s s [] where
  ordered := nil_sublist _
  shown := fun _ _ hs hq => absurd hs (Nat.not_le_of_lt hq)

theorem Collected.drop {s p : Nat} {ids : List String} (h : Collected src ranked s p ids) (hs : s ≤ p)
    (hcandidate : ranked.candidates[p]? = some candidate) (hshown : ¬Shown src ranked s p) :
    Collected src ranked s (p + 1) ids where
  ordered := by
    rw [idsFrom_succ hs hcandidate]
    exact h.ordered.trans (sublist_append_left _ _)
  shown := fun q candidate' hsq hq hcandidate' => by
    rcases Nat.lt_succ_iff_lt_or_eq.1 hq with hq | rfl
    · exact h.shown q candidate' hsq hq hcandidate'
    · refine iff_of_false (fun hin => ?_) hshown
      obtain ⟨_, candidate'', _, hq', hcandidate'', hid⟩ := mem_idsFrom.1 (h.ordered.subset hin)
      exact absurd (position_unique hcandidate'' hcandidate' hid) (Nat.ne_of_lt hq')

theorem Collected.take {s p : Nat} {ids : List String} (h : Collected src ranked s p ids) (hs : s ≤ p)
    (hcandidate : ranked.candidates[p]? = some candidate) (hshown : Shown src ranked s p) :
    Collected src ranked s (p + 1) (ids ++ [candidate.itemId]) where
  ordered := by
    rw [idsFrom_succ hs hcandidate]
    exact h.ordered.append (List.Sublist.refl _)
  shown := fun q candidate' hsq hq hcandidate' => by
    rw [mem_append, mem_singleton]
    rcases Nat.lt_succ_iff_lt_or_eq.1 hq with hq | rfl
    · rw [← h.shown q candidate' hsq hq hcandidate']
      refine or_iff_left fun hid => ?_
      exact absurd (position_unique hcandidate' hcandidate hid) (Nat.ne_of_lt hq)
    · cases hcandidate.symm.trans hcandidate'
      exact iff_of_true (Or.inr rfl) hshown

/-! ## The loops -/

/-- What holds of `_page` at a position it has not loaded yet. -/
structure InPage (src : Sources U E R) (ranked : Ranked E) (budget : Budget) (s : Nat) (st : PageState E R) : Prop where
  start : s ≤ st.position
  bound : s ≤ ranked.candidates.length → st.position ≤ ranked.candidates.length
  loaded : Loaded src ranked s (windowsBefore s st.position) st.renderer
  collected : Collected src ranked s st.position (st.items.map (·.itemId))
  count : st.items.length ≤ budget.items
  used : st.used = (src.arrayText st.items).utf8ByteSize
  fits : st.items = [] ∨ st.used ≤ budget.bytes

section Steps

variable {s : Nat} {st : PageState E R} {candidate : Candidate} (hconsistent : Consistent src ranked)
  (h : InPage src ranked budget s st) (hcandidate : ranked.candidates[st.position]? = some candidate)

include hconsistent h hcandidate

theorem InPage.load : Loaded src ranked s (windowsTo s st.position) (st.load src ranked).renderer :=
  h.loaded.load hconsistent (Or.inl rfl) h.start (List.getElem?_eq_some_iff.1 hcandidate).1

/-- Past a candidate without citable evidence. -/
theorem InPage.drop (hnot : (st.load src ranked).renderer.citable src candidate = false) :
    InPage src ranked budget s (st.load src ranked).drop where
  start := Nat.le_succ_of_le h.start
  bound := fun _ => (List.getElem?_eq_some_iff.1 hcandidate).1
  loaded := by
    show Loaded src ranked s (windowsBefore s (st.position + 1)) _
    rw [windowsBefore_succ h.start]
    exact h.load hconsistent hcandidate
  collected := h.collected.drop h.start hcandidate fun hshown => by
    rw [((h.load hconsistent hcandidate).citable_iff hcandidate).2 hshown] at hnot
    cases hnot
  count := h.count
  used := h.used
  fits := h.fits

theorem InPage.take {item : ContextItem R} {quoted : Bool} {size : Nat} (hroom : ¬budget.items ≤ st.items.length)
    (hitem : (st.load src ranked).renderer.render src candidate quoted = some item)
    (hsize : size = src.size item + if st.items.isEmpty then 0 else 1) (hfits : st.used + size ≤ budget.bytes) :
    InPage src ranked budget s ((st.load src ranked).take item size) where
  start := Nat.le_succ_of_le h.start
  bound := fun _ => (List.getElem?_eq_some_iff.1 hcandidate).1
  loaded := by
    show Loaded src ranked s (windowsBefore s (st.position + 1)) _
    rw [windowsBefore_succ h.start]
    exact h.load hconsistent hcandidate
  collected := by
    have hcitable : (st.load src ranked).renderer.citable src candidate = true := by
      have hisSome : ((st.load src ranked).renderer.render src candidate quoted).isSome = _ := render_isSome
      rw [← hisSome, hitem]
      rfl
    have hshown := ((h.load hconsistent hcandidate).citable_iff hcandidate).1 hcitable
    show Collected src ranked s (st.position + 1) ((st.items ++ [item]).map (·.itemId))
    rw [map_append, map_singleton, render_itemId hitem]
    exact h.collected.take h.start hcandidate hshown
  count := by
    show (st.items ++ [item]).length ≤ _
    rw [length_append, length_singleton]
    omega
  used := by
    show st.used + size = (src.arrayText (st.items ++ [item])).utf8ByteSize
    rw [arrayText_append, ← h.used, hsize]
  fits := Or.inr hfits

end Steps

/-- What a page from `s` is. -/
structure PageSpec (src : Sources U E R) (ranked : Ranked E) (budget : Budget) (s : Nat) (page : Page R) : Prop where
  start : s ≤ page.position
  bound : s ≤ ranked.candidates.length → page.position ≤ ranked.candidates.length
  collected : Collected src ranked s page.position (page.items.map (·.itemId))
  count : page.items.length ≤ budget.items
  fits : page.items = [] ∨ (src.arrayText page.items).utf8ByteSize ≤ budget.bytes
  next : page.position < ranked.candidates.length → Shown src ranked s page.position
  empty : page.items = [] → ranked.candidates.length ≤ page.position

/-- An item at or after `s` is too large for a page of its own, also without its excerpt. -/
def TooLarge (src : Sources U E R) (ranked : Ranked E) (budget : Budget) (s : Nat) : Prop :=
  ∃ p candidate events item, s ≤ p ∧ ranked.candidates[p]? = some candidate ∧ Shown src ranked s p ∧
    (∀ id e, events id = some e → Evidence src ranked id e) ∧
    renderItem src candidate events none = some item ∧ budget.bytes < (src.arrayText [item]).utf8ByteSize

/-- A page before the end goes on. -/
theorem PageSpec.progress {page : Page R} (h : PageSpec src ranked budget s page)
    (hs : s < ranked.candidates.length) : s < page.position := by
  by_contra hnot
  have hsame : page.position = s := Nat.le_antisymm (Nat.not_lt.1 hnot) h.start
  have hnil : page.items.map (·.itemId) = [] := by
    have hsub := h.collected.ordered
    rw [hsame] at hsub
    simpa [idsFrom] using hsub
  have := h.empty (map_eq_nil_iff.1 hnil)
  omega

section

variable (hconsistent : Consistent src ranked)
include hconsistent

theorem InPage.full {st : PageState E R} (h : InPage src ranked budget s st)
    (hcandidate : ranked.candidates[st.position]? = some candidate) (hitems : st.items ≠ [])
    (hcitable : (st.load src ranked).renderer.citable src candidate = true) :
    PageSpec src ranked budget s (st.load src ranked).page where
  start := h.start
  bound := h.bound
  collected := h.collected
  count := h.count
  fits := h.fits.imp (fun h => h) fun hfits => h.used ▸ hfits
  next := fun _ => ((h.load hconsistent hcandidate).citable_iff hcandidate).1 hcitable
  empty := fun hempty => absurd hempty hitems

end

end Retrieval
