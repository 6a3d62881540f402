import Mathlib.Data.List.Range

/-!
# Hash chains

A chain is a list of links numbered from 1, each naming the digest of the one before it.  `Links`
says how a link type carries its number, its predecessor's digest and its own digest.

    Chained L (es ++ [e])  ↔  Chained L es, e is numbered one past es and names its last digest   (chained_snoc)
    Chained L es           ↔  position k holds number k + 1 and names the digest at k - 1         (chained_iff_getElem)
-/

namespace HashChain

variable {α D : Type}

/-- How a link carries its number, its predecessor's digest and its own. -/
structure Links (α D : Type) where
  seq : α → Nat
  prev : α → Option D
  digest : α → D

variable (L : Links α D)

/-- `es` continues a chain of `n` links whose last digest is `p`. -/
def ChainedFrom : Nat → Option D → List α → Prop
  | _, _, [] => True
  | n, p, e :: es => L.seq e = n + 1 ∧ L.prev e = p ∧ ChainedFrom (n + 1) (some (L.digest e)) es

def Chained (es : List α) : Prop := ChainedFrom L 0 none es

/-- The number of the last link, `0` when there is none. -/
def lastSeq (es : List α) : Nat := (es.getLast?.map L.seq).getD 0

def lastDigest (es : List α) : Option D := es.getLast?.map L.digest

section

variable (es : List α) (e : α)
include es e

@[simp] theorem lastSeq_snoc : lastSeq L (es ++ [e]) = L.seq e := by simp [lastSeq]

@[simp] theorem lastDigest_snoc : lastDigest L (es ++ [e]) = some (L.digest e) := by
  simp [lastDigest]

theorem chainedFrom_snoc (n : Nat) (p : Option D) :
    ChainedFrom L n p (es ++ [e]) ↔ ChainedFrom L n p es ∧ L.seq e = n + es.length + 1 ∧
      L.prev e = (es.getLast?.map L.digest).or p := by
  induction es generalizing n p with
  | nil => simp [ChainedFrom]
  | cons a es ih =>
    simp only [List.cons_append, ChainedFrom, ih, List.length_cons]
    have hl : ((a :: es).getLast?.map L.digest).or p = (es.getLast?.map L.digest).or (some (L.digest a)) := by
      cases es with
      | nil => simp
      | cons b es => rw [List.getLast?_cons_cons]; simp [List.getLast?_eq_some_getLast]
    rw [hl]
    constructor
    · rintro ⟨h1, h2, h3, h4, h5⟩
      exact ⟨⟨h1, h2, h3⟩, by omega, h5⟩
    · rintro ⟨⟨h1, h2, h3⟩, h4, h5⟩
      exact ⟨h1, h2, h3, by omega, h5⟩

theorem chained_snoc : Chained L (es ++ [e]) ↔
      Chained L es ∧ L.seq e = es.length + 1 ∧ L.prev e = lastDigest L es := by
  unfold Chained
  rw [chainedFrom_snoc]
  simp [lastDigest]

end

theorem chainedFrom_seqs (es : List α) (n : Nat) (p : Option D) (h : ChainedFrom L n p es) :
    es.map L.seq = List.range' (n + 1) es.length := by
  induction es generalizing n p with
  | nil => rfl
  | cons e es ih =>
    obtain ⟨h1, -, h3⟩ := h
    rw [List.map_cons, h1, ih _ _ h3, List.length_cons, List.range'_succ]

theorem Chained.seqs {es : List α} (h : Chained L es) : es.map L.seq = List.range' 1 es.length := by
  have := chainedFrom_seqs L es 0 none h
  simpa using this

theorem Chained.lastSeq {es : List α} (h : Chained L es) : lastSeq L es = es.length := by
  induction es using List.reverseRecOn with
  | nil => rfl
  | append_singleton es e _ =>
    have := (chained_snoc L es e).1 h
    rw [lastSeq_snoc, this.2.1]
    simp

/-- **Position by position.** -/
theorem chained_iff_getElem (es : List α) : Chained L es ↔ ∀ k (h : k < es.length), L.seq es[k] = k + 1 ∧
      L.prev es[k] = if k = 0 then none else (es[k - 1]?).map L.digest := by
  induction es using List.reverseRecOn with
  | nil => simp [Chained, ChainedFrom]
  | append_singleton es e ih =>
    rw [chained_snoc, ih]
    constructor
    · rintro ⟨h1, h2, h3⟩ k hk
      rw [List.length_append, List.length_singleton] at hk
      rcases Nat.lt_or_ge k es.length with hlt | hge
      · rw [List.getElem_append_left hlt, List.getElem?_append_left (by omega)]
        exact h1 k hlt
      · obtain rfl : k = es.length := by omega
        rw [List.getElem_append_right (Nat.le_refl _)]
        simp only [Nat.sub_self, List.getElem_singleton]
        refine ⟨h2, ?_⟩
        rw [h3]
        unfold lastDigest
        rw [List.getLast?_eq_getElem?]
        split
        · next h0 => simp [List.length_eq_zero_iff.1 h0]
        · next h0 => rw [List.getElem?_append_left (by omega)]
    · intro h
      refine ⟨fun k hk => ?_, ?_⟩
      · have := h k (by simp; omega)
        rwa [List.getElem_append_left hk, List.getElem?_append_left (by omega)] at this
      · have := h es.length (by simp)
        rw [List.getElem_append_right (Nat.le_refl _)] at this
        simp only [Nat.sub_self, List.getElem_singleton] at this
        refine ⟨this.1, this.2.trans ?_⟩
        unfold lastDigest
        rw [List.getLast?_eq_getElem?]
        split
        · next h0 => simp [List.length_eq_zero_iff.1 h0]
        · next h0 => rw [List.getElem?_append_left (by omega)]

end HashChain
