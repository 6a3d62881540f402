import Mathlib.Data.List.Basic
import Mathlib.Algebra.BigOperators.Group.List.Basic
import Mathlib.Algebra.Ring.Int.Defs

/-!
# Library: the token stream of a labelled tree

A walk over a tree writes one token for a leaf, an opening token before the children of any
other node and a closing token after them; labels may be skipped with all that is below them.
`net` counts openings minus closings:

    net (stream t) = 0                                             (net_stream)
    0 < net p,  p a proper nonempty part of the start of stream t  (net_prefix_pos)

so no stream is the start of another one (`stream_append_inj`), and what follows a tree in a
longer row of tokens can be told without its labels.
-/

namespace Bracketed

open List

inductive Tree (α : Type) where
  | node (label : α) (children : List (Tree α))

namespace Tree

variable {α : Type}

def label : Tree α → α
  | .node a _ => a

def children : Tree α → List (Tree α)
  | .node _ cs => cs

@[simp] theorem label_node (a : α) (cs : List (Tree α)) : (node a cs).label = a := rfl

@[simp] theorem children_node (a : α) (cs : List (Tree α)) : (node a cs).children = cs := rfl

mutual
def labels : Tree α → List α
  | .node a cs => a :: labelsOf cs
def labelsOf : List (Tree α) → List α
  | [] => []
  | t :: ts => labels t ++ labelsOf ts
end

theorem label_mem_labels (t : Tree α) : t.label ∈ t.labels := by
  cases t
  simp [label, labels]

theorem labels_subset_labelsOf {t : Tree α} {ts : List (Tree α)} (h : t ∈ ts) : t.labels ⊆ labelsOf ts := by
  induction ts with
  | nil => simp at h
  | cons u us ih =>
    intro a ha
    rw [labelsOf, mem_append]
    rcases mem_cons.mp h with rfl | h
    · exact .inl ha
    · exact .inr (ih h ha)

end Tree

/-- The tokens a walk writes, and the weight that tells openings from closings. -/
structure Vocabulary (α τ : Type) where
  skip : α → Bool
  leaf : α → τ
  opening : α → τ
  closing : τ
  weight : τ → Int
  weight_leaf : ∀ a, weight (leaf a) = 0
  weight_opening : ∀ a, weight (opening a) = 1
  weight_closing : weight closing = -1

section
variable {α τ : Type} (V : Vocabulary α τ)
variable {t : Tree α}

mutual
def stream : Tree α → List τ
  | .node a [] => if V.skip a then [] else [V.leaf a]
  | .node a (c :: cs) => if V.skip a then [] else V.opening a :: (stream c ++ streams cs ++ [V.closing])
def streams : List (Tree α) → List τ
  | [] => []
  | t :: ts => stream t ++ streams ts
end

theorem stream_node_nil (a : α) : stream V (.node a []) = if V.skip a then [] else [V.leaf a] := rfl

theorem stream_node_cons (a : α) (c : Tree α) (cs : List (Tree α)) : stream V (.node a (c :: cs)) =
    if V.skip a then [] else V.opening a :: (stream V c ++ streams V cs ++ [V.closing]) := rfl

theorem streams_nil : streams V [] = [] := rfl

theorem streams_cons (t : Tree α) (ts : List (Tree α)) : streams V (t :: ts) = stream V t ++ streams V ts := rfl

theorem streams_eq_flatMap (ts : List (Tree α)) : streams V ts = ts.flatMap (stream V) := by
  induction ts with
  | nil => rfl
  | cons t ts ih => rw [streams_cons, ih, flatMap_cons]

theorem stream_skip (h : V.skip t.label = true) : stream V t = [] := by
  cases t with
  | node a cs => cases cs <;> simp_all [stream_node_nil, stream_node_cons, Tree.label]

theorem stream_leaf (h : V.skip t.label = false) (hleaf : t.children = []) : stream V t = [V.leaf t.label] := by
  cases t with
  | node a cs =>
    have : cs = [] := hleaf
    subst this
    simp_all [stream_node_nil, Tree.label]

theorem stream_inner (h : V.skip t.label = false) (hinner : t.children ≠ []) :
    stream V t = V.opening t.label :: (streams V t.children ++ [V.closing]) := by
  cases t with
  | node a cs =>
    cases cs with
    | nil => exact absurd rfl hinner
    | cons c cs =>
      have h : V.skip a = false := h
      simp [stream_node_cons, streams_cons, Tree.label, Tree.children, h]

/-- A row of trees writes what its unskipped trees write. -/
theorem streams_filter (ts : List (Tree α)) :
    streams V (ts.filter fun t => !V.skip t.label) = streams V ts := by
  induction ts with
  | nil => rfl
  | cons t ts ih =>
    cases h : V.skip t.label with
    | true => simp [h, streams_cons, ih, stream_skip V h]
    | false => simp [h, streams_cons, ih]

@[simp] theorem streams_append (ts us : List (Tree α)) : streams V (ts ++ us) = streams V ts ++ streams V us := by
  simp [streams_eq_flatMap]

/-- Openings minus closings. -/
def net (ts : List τ) : Int := (ts.map V.weight).sum

@[simp] theorem net_nil : net V [] = 0 := rfl

@[simp] theorem net_cons (t : τ) (ts : List τ) : net V (t :: ts) = V.weight t + net V ts := by simp [net]

@[simp] theorem net_append (ts us : List τ) : net V (ts ++ us) = net V ts + net V us := by simp [net]

theorem stream_ne_nil (h : V.skip t.label = false) : stream V t ≠ [] := by
  rcases eq_or_ne t.children [] with hleaf | hinner
  · rw [stream_leaf V h hleaf]
    exact cons_ne_nil _ _
  · rw [stream_inner V h hinner]
    exact cons_ne_nil _ _

mutual
theorem net_stream : ∀ t : Tree α, net V (stream V t) = 0
  | .node a [] => by cases h : V.skip a <;> simp [stream_node_nil, h, V.weight_leaf]
  | .node a (c :: cs) => by
    cases h : V.skip a
    · simp [stream_node_cons, h, V.weight_opening, V.weight_closing, net_stream c, net_streams cs]
    · simp [stream_node_cons, h]
theorem net_streams : ∀ ts : List (Tree α), net V (streams V ts) = 0
  | [] => rfl
  | t :: ts => by simp [streams_cons, net_stream t, net_streams ts]
end

mutual
/-- Reading a stream from its start, no closing comes before its opening. -/
theorem net_prefix_nonneg : ∀ (t : Tree α) (p r : List τ), stream V t = p ++ r → 0 ≤ net V p
  | .node a [], p, r, h => by
    cases hskip : V.skip a
    · simp only [stream_node_nil, hskip, Bool.false_eq_true, if_false] at h
      rcases singleton_eq_append_iff.mp h with ⟨rfl, -⟩ | ⟨rfl, -⟩ <;> simp [V.weight_leaf]
    · simp only [stream_node_nil, hskip, if_true, nil_eq, append_eq_nil_iff] at h
      simp [h.1]
  | .node a (c :: cs), p, r, h => by
    rcases eq_nil_or_concat r with rfl | ⟨r, y, rfl⟩
    · -- all of the stream is read
      rw [append_nil] at h
      exact Int.le_of_eq (h ▸ net_stream V _).symm
    · cases hskip : V.skip a
      · cases p with
        | nil => simp
        | cons x p =>
          simp only [stream_node_cons, hskip, Bool.false_eq_true, if_false, cons_append, List.cons.injEq] at h
          obtain ⟨rfl, h⟩ := h
          -- the closing is not read yet
          rw [concat_eq_append, ← append_assoc] at h
          obtain ⟨hrow, -⟩ := append_inj' h rfl
          rcases append_eq_append_iff.mp hrow with ⟨q, rfl, hq⟩ | ⟨q, hq, -⟩
          · have := net_row_prefix cs q r hq
            simp only [net_cons, net_append, V.weight_opening, net_stream V c]
            omega
          · have := net_prefix_nonneg c p q hq
            simp only [net_cons, V.weight_opening]
            omega
      · simp only [stream_node_cons, hskip, if_true, nil_eq, append_eq_nil_iff] at h
        simp [h.1]
theorem net_row_prefix : ∀ (ts : List (Tree α)) (p r : List τ), streams V ts = p ++ r → 0 ≤ net V p
  | [], p, r, h => by
    rw [streams_nil, nil_eq, append_eq_nil_iff] at h
    simp [h.1]
  | t :: ts, p, r, h => by
    rcases append_eq_append_iff.mp h with ⟨q, rfl, hq⟩ | ⟨q, hq, -⟩
    · have := net_row_prefix ts q r hq
      simpa only [net_append, net_stream V t, zero_add] using this
    · exact net_prefix_nonneg t p q hq
end

/-- Only the whole stream of a tree has as many closings as openings. -/
theorem net_prefix_pos {p r : List τ} (h : stream V t = p ++ r) (hp : p ≠ []) (hr : r ≠ []) : 0 < net V p := by
  cases hskip : V.skip t.label with
  | true =>
    rw [stream_skip V hskip, nil_eq, append_eq_nil_iff] at h
    exact absurd h.1 hp
  | false =>
    rcases eq_or_ne t.children [] with hleaf | hinner
    · rw [stream_leaf V hskip hleaf] at h
      rcases singleton_eq_append_iff.mp h with ⟨rfl, -⟩ | ⟨-, rfl⟩ <;> contradiction
    · rw [stream_inner V hskip hinner] at h
      cases p with
      | nil => exact absurd rfl hp
      | cons x p =>
        rw [cons_append, List.cons.injEq] at h
        obtain ⟨rfl, h⟩ := h
        obtain ⟨r, y, rfl⟩ := (eq_nil_or_concat r).resolve_left hr
        rw [concat_eq_append, ← append_assoc] at h
        obtain ⟨hrow, -⟩ := append_inj' h rfl
        have := net_row_prefix V _ p r hrow
        simp only [net_cons, V.weight_opening]
        omega

theorem net_congr {V V' : Vocabulary α τ} (h : V.weight = V'.weight) (ts : List τ) : net V ts = net V' ts := by
  rw [net, net, h]

/-- No stream is the start of another one, also of a walk that writes other leaves. -/
theorem stream_append_inj {V V' : Vocabulary α τ} (hweight : V.weight = V'.weight) {t t' : Tree α}
    (ht : V.skip t.label = false) (ht' : V'.skip t'.label = false) {r r' : List τ}
    (h : stream V t ++ r = stream V' t' ++ r') : stream V t = stream V' t' ∧ r = r' := by
  have hle : ∀ {V V' : Vocabulary α τ} {t t' : Tree α} {q : List τ}, V.weight = V'.weight → V.skip t.label = false →
      stream V' t' = stream V t ++ q → q = [] := by
    intro V V' t t' q hweight ht hq
    by_contra hne
    have := net_prefix_pos V' hq (stream_ne_nil V ht) hne
    rw [← net_congr hweight, net_stream] at this
    omega
  rcases append_eq_append_iff.mp h with ⟨q, hq, rfl⟩ | ⟨q, hq, rfl⟩
  · obtain rfl := hle hweight ht hq
    simpa using hq.symm
  · obtain rfl := hle hweight.symm ht' hq
    simpa using hq

end

end Bracketed
