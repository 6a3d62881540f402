import Mathlib.Logic.Function.Basic
import Mathlib.Data.List.Induction
import Mathlib.Data.List.Nodup
import Mathlib.Tactic.Common

/-!
# Properties merged by clauses

Statements set the properties of an entity from their parameters and from what is stored.  Three clauses do not depend
on the order they run in:

    least p v            the smaller of v and the stored value; null states nothing
    newest s o values    all the values and the stamp s := o, where o is greater than the stored stamp
    raise p v            v, where its rank is higher than the stored value's

A layout gives every property one of these roles.  What a list of clauses leaves is described by the clauses alone
(`shows_run`), so it depends on the set of them (`Shows.unique`).

The order `lt` is one of the values of a domain only: a comparison of values of two kinds is no comparison.
-/

namespace Properties

open List

variable {π ν : Type}

abbrev Props (π ν : Type) : Type := π → Option ν

inductive Clause (π ν : Type) where
  | least (p : π) (v : Option ν)
  | newest (stamp : π) (order : ν) (values : List (π × Option ν))
  | raise (p : π) (v : ν)
deriving DecidableEq, Repr

section Run

variable [DecidableEq π] (lt : ν → ν → Bool) (rank : Option ν → Int)

def setAll (props : Props π ν) (values : List (π × Option ν)) : Props π ν :=
  values.foldl (fun props value => Function.update props value.1 value.2) props

def minNonNull (stated held : Option ν) : Option ν :=
  match stated, held with
  | none, held => held
  | some v, none => some v
  | some v, some held => some (if lt v held then v else held)

def Clause.run (props : Props π ν) : Clause π ν → Props π ν
  | .least p v => Function.update props p (minNonNull lt v (props p))
  | .newest stamp order values =>
    if (props stamp).all (lt · order) then Function.update (setAll props values) stamp (some order) else props
  | .raise p v => if rank (props p) < rank (some v) then Function.update props p (some v) else props

def runAll (props : Props π ν) (clauses : List (Clause π ν)) : Props π ν := clauses.foldl (Clause.run lt rank) props

/-- What the values of a clause say of a property. -/
def stating (values : List (π × Option ν)) (p : π) : Option ν := (values.lookup p).join

end Run

/-! ## Layouts -/

inductive Role (π : Type) where
  | least
  | stamp
  | member (stamp : π)
  | ranked
deriving DecidableEq, Repr

/-- The role of each property, the properties that move with a stamp, and the values a property takes. -/
structure Layout (π ν : Type) where
  role : π → Role π
  names : π → List π
  domain : π → ν → Prop
  nodup : ∀ stamp, (names stamp).Nodup
  member : ∀ stamp, ∀ p ∈ names stamp, role p = .member stamp
  stamped : ∀ p stamp, role p = .member stamp → role stamp = .stamp

/-- A strict order of a domain. -/
structure Ordered (lt : ν → ν → Bool) (S : ν → Prop) : Prop where
  irrefl : ∀ a, S a → lt a a = false
  trans : ∀ a b c, S a → S b → S c → lt a b = true → lt b c = true → lt a c = true
  total : ∀ a b, S a → S b → lt a b = false → lt b a = false → a = b

theorem Ordered.of_imp {lt : ν → ν → Bool} {S T : ν → Prop} (h : Ordered lt T) (hsub : ∀ v, S v → T v) : Ordered lt S where
  irrefl := fun a ha => h.irrefl a (hsub a ha)
  trans := fun a b c ha hb hc => h.trans a b c (hsub a ha) (hsub b hb) (hsub c hc)
  total := fun a b ha hb => h.total a b (hsub a ha) (hsub b hb)

/-- The orders and ranks that a layout relies on. -/
structure Layout.Lawful (layout : Layout π ν) (lt : ν → ν → Bool) (rank : Option ν → Int) : Prop where
  least : ∀ p, layout.role p = .least → Ordered lt (layout.domain p)
  stamp : ∀ p, layout.role p = .stamp → Ordered lt (layout.domain p)
  ranked : ∀ p, layout.role p = .ranked → (∀ v, layout.domain p v → rank none < rank (some v)) ∧
    ∀ u v, layout.domain p u → layout.domain p v → rank (some u) = rank (some v) → u = v

/-- A clause writes properties in their roles, with values of their domains. -/
def Layout.Fits (layout : Layout π ν) : Clause π ν → Prop
  | .least p v => layout.role p = .least ∧ ∀ u ∈ v, layout.domain p u
  | .newest stamp order values =>
    layout.role stamp = .stamp ∧ layout.domain stamp order ∧ values.map (·.1) = layout.names stamp
  | .raise p v => layout.role p = .ranked ∧ layout.domain p v

/-! ## What clauses leave -/

section Shows

variable (layout : Layout π ν) (lt : ν → ν → Bool) (rank : Option ν → Int) [DecidableEq π]

/-- The least value stated, if any. -/
def LeastOf (clauses : List (Clause π ν)) (p : π) : Option ν → Prop
  | none => ∀ v, .least p (some v) ∉ clauses
  | some v => .least p (some v) ∈ clauses ∧ ∀ u, .least p (some u) ∈ clauses → lt u v = false

/-- The values stated under the greatest stamp, if any. -/
def NewestOf (clauses : List (Clause π ν)) (stamp : π) (props : Props π ν) : Option ν → Prop
  | none => (∀ order values, .newest stamp order values ∉ clauses) ∧ ∀ p, layout.role p = .member stamp → props p = none
  | some order => ∃ values, .newest stamp order values ∈ clauses ∧
      (∀ order' values', .newest stamp order' values' ∈ clauses → lt order order' = false) ∧
      ∀ p, layout.role p = .member stamp → props p = stating values p

/-- The value of the highest rank stated, if any. -/
def HighestOf (clauses : List (Clause π ν)) (p : π) : Option ν → Prop
  | none => ∀ v, .raise p v ∉ clauses
  | some v => .raise p v ∈ clauses ∧ ∀ u, .raise p u ∈ clauses → rank (some u) ≤ rank (some v)

/-- The properties after a list of clauses. -/
structure Shows (clauses : List (Clause π ν)) (props : Props π ν) : Prop where
  least : ∀ p, layout.role p = .least → LeastOf lt clauses p (props p)
  newest : ∀ stamp, layout.role stamp = .stamp → NewestOf layout lt clauses stamp props (props stamp)
  ranked : ∀ p, layout.role p = .ranked → HighestOf rank clauses p (props p)

end Shows

section Lemmas

variable {layout : Layout π ν} {lt : ν → ν → Bool} {rank : Option ν → Int} [DecidableEq π]
variable {clauses clauses' : List (Clause π ν)} {props props' : Props π ν} {c : Clause π ν}
variable {values : List (π × Option ν)} {p : π}
variable {stamp : π}

theorem runAll_append :
    runAll lt rank props (clauses ++ clauses') = runAll lt rank (runAll lt rank props clauses) clauses' :=
  foldl_append

theorem setAll_of_notMem (h : p ∉ values.map (·.1)) : setAll props values p = props p := by
  induction values generalizing props with
  | nil => rfl
  | cons value values ih =>
    rw [map_cons, mem_cons, not_or] at h
    exact (ih h.2).trans (Function.update_of_ne h.1 ..)

theorem setAll_of_mem (hnodup : (values.map (·.1)).Nodup) (h : p ∈ values.map (·.1)) :
    setAll props values p = stating values p := by
  induction values generalizing props with
  | nil => cases h
  | cons value values ih =>
    obtain ⟨q, v⟩ := value
    rw [map_cons, nodup_cons] at hnodup
    show setAll (Function.update props q v) values p = _
    by_cases hp : p = q
    · subst hp
      rw [setAll_of_notMem hnodup.1, Function.update_self]
      simp [stating]
    · have hmem : p ∈ values.map (·.1) := (mem_cons.1 h).resolve_left hp
      have hbeq : (p == q) = false := beq_false_of_ne hp
      rw [ih hnodup.2 hmem]
      simp [stating, lookup_cons, hbeq]

theorem stating_of_notMem (h : p ∉ values.map (·.1)) : stating values p = none := by
  have hnone : values.lookup p = none := lookup_eq_none_iff.2 fun value hvalue => by
    simpa using fun hp : p = value.1 => h (hp ▸ mem_map_of_mem hvalue)
  rw [stating, hnone]
  rfl

theorem stating_of_mem {value : π × Option ν} (hnodup : (values.map (·.1)).Nodup) (h : value ∈ values) :
    stating values value.1 = value.2 := by
  induction values with
  | nil => cases h
  | cons first values ih =>
    rw [map_cons, nodup_cons] at hnodup
    obtain ⟨q, v⟩ := first
    rcases mem_cons.1 h with rfl | h
    · simp [stating]
    · have hbeq : (value.1 == q) = false := beq_false_of_ne fun heq => hnodup.1 (mem_map.2 ⟨value, h, heq⟩)
      rw [← ih hnodup.2 h]
      simp [stating, lookup_cons, hbeq]

/-- A clause does not lower a rank. -/
theorem rank_le_run (hfits : layout.Fits c) (hp : layout.role p = .ranked) :
    rank (props p) ≤ rank (c.run lt rank props p) := by
  cases c with
  | least q v =>
    have hne : p ≠ q := fun heq => by
      rw [heq, hfits.1] at hp
      cases hp
    have hrun : (Clause.least q v).run lt rank props p = props p := Function.update_of_ne hne ..
    exact Int.le_of_eq (congrArg rank hrun.symm)
  | newest stamp order values =>
    have hne : p ≠ stamp := fun heq => by
      rw [heq, hfits.1] at hp
      cases hp
    have hnames : p ∉ values.map (·.1) := fun hin => by
      rw [hfits.2.2] at hin
      rw [layout.member stamp p hin] at hp
      cases hp
    have hrun : (Clause.newest stamp order values).run lt rank props p = props p := by
      simp only [Clause.run]
      split
      · rw [Function.update_of_ne hne, setAll_of_notMem hnames]
      · rfl
    exact Int.le_of_eq (congrArg rank hrun.symm)
  | raise q v =>
    simp only [Clause.run]
    split
    · rename_i hlt
      by_cases hpq : p = q
      · subst hpq
        rw [Function.update_self]
        omega
      · exact Int.le_of_eq (congrArg rank (Function.update_of_ne hpq ..).symm)
    · exact Int.le_refl _

theorem rank_le_runAll (hclauses : ∀ c ∈ clauses, layout.Fits c) (hp : layout.role p = .ranked) :
    rank (props p) ≤ rank (runAll lt rank props clauses p) := by
  induction clauses generalizing props with
  | nil => exact Int.le_refl _
  | cons c clauses ih =>
    have hfirst : rank (props p) ≤ rank (c.run lt rank props p) := rank_le_run (hclauses c mem_cons_self) hp
    have hrest : rank (c.run lt rank props p) ≤ rank (runAll lt rank (c.run lt rank props) clauses p) := ih fun c hc => hclauses c (mem_cons_of_mem _ hc)
    show rank (props p) ≤ rank (runAll lt rank (c.run lt rank props) clauses p)
    omega

/-! ## One clause -/

omit [DecidableEq π] in
theorem LeastOf.other {p : π} {held : Option ν} (h : LeastOf lt clauses p held) (hc : ∀ v, c ≠ .least p (some v)) :
    LeastOf lt (clauses ++ [c]) p held := by
  have hmem : ∀ v, .least p (some v) ∈ clauses ++ [c] → .least p (some v) ∈ clauses := fun v hv =>
    (mem_append.1 hv).resolve_right fun h => hc v (mem_singleton.1 h).symm
  cases held with
  | none => exact fun v hv => h v (hmem v hv)
  | some v => exact ⟨mem_append_left _ h.1, fun u hu => h.2 u (hmem u hu)⟩

theorem NewestOf.other {held : Option ν} (h : NewestOf layout lt clauses stamp props held)
    (hc : ∀ order values, c ≠ .newest stamp order values)
    (hprops : ∀ p, layout.role p = .member stamp → props' p = props p) :
    NewestOf layout lt (clauses ++ [c]) stamp props' held := by
  have hmem : ∀ order values, .newest stamp order values ∈ clauses ++ [c] → .newest stamp order values ∈ clauses :=
    fun order values hv => (mem_append.1 hv).resolve_right fun h => hc order values (mem_singleton.1 h).symm
  cases held with
  | none => exact ⟨fun order values hv => h.1 order values (hmem order values hv), fun p hp => (hprops p hp).trans (h.2 p hp)⟩
  | some order =>
    obtain ⟨values, hvalues, hnewest, hstated⟩ := h
    exact ⟨values, mem_append_left _ hvalues, fun order' values' hv => hnewest order' values' (hmem order' values' hv),
      fun p hp => (hprops p hp).trans (hstated p hp)⟩

section

omit [DecidableEq π]

theorem HighestOf.other {p : π} {held : Option ν} (h : HighestOf rank clauses p held) (hc : ∀ v, c ≠ .raise p v) :
    HighestOf rank (clauses ++ [c]) p held := by
  have hmem : ∀ v, .raise p v ∈ clauses ++ [c] → .raise p v ∈ clauses := fun v hv =>
    (mem_append.1 hv).resolve_right fun h => hc v (mem_singleton.1 h).symm
  cases held with
  | none => exact fun v hv => h v (hmem v hv)
  | some v => exact ⟨mem_append_left _ h.1, fun u hu => h.2 u (hmem u hu)⟩

/-- One more value of a least property. -/
theorem LeastOf.least {held stated : Option ν} (hordered : Ordered lt (layout.domain p))
    (hclauses : ∀ c ∈ clauses, layout.Fits c) (hstated : ∀ v ∈ stated, layout.domain p v)
    (h : LeastOf lt clauses p held) : LeastOf lt (clauses ++ [.least p stated]) p (minNonNull lt stated held) := by
  have hdomain : ∀ u, .least p (some u) ∈ clauses → layout.domain p u := fun u hu => (hclauses _ hu).2 u rfl
  have hlast : ∀ u, (.least p (some u) : Clause π ν) ∈ clauses ++ [.least p stated] →
      .least p (some u) ∈ clauses ∨ stated = some u := fun u hu => by
    rcases mem_append.1 hu with hu | hu
    · exact Or.inl hu
    · exact Or.inr (by simpa using (mem_singleton.1 hu).symm)
  cases stated with
  | none => exact h.other fun v hv => nomatch hv
  | some v =>
    have hv : layout.domain p v := hstated v rfl
    cases held with
    | none =>
      refine ⟨mem_append_right _ (mem_singleton_self _), fun u hu => ?_⟩
      rcases hlast u hu with hu | hu
      · exact absurd hu (h u)
      · cases hu
        exact hordered.irrefl _ hv
    | some held =>
      obtain ⟨hheld, hleast⟩ := h
      have hheldd := hdomain held hheld
      by_cases hlt : lt v held = true
      · rw [minNonNull, if_pos hlt]
        refine ⟨mem_append_right _ (mem_singleton_self _), fun u hu => ?_⟩
        rcases hlast u hu with hu | hu
        · by_contra hne
          have huv : lt u held = true := hordered.trans u v held (hdomain u hu) hv hheldd (by simpa using hne) hlt
          rw [hleast u hu] at huv
          cases huv
        · cases hu
          exact hordered.irrefl _ hv
      · rw [minNonNull, if_neg hlt]
        refine ⟨mem_append_left _ hheld, fun u hu => ?_⟩
        rcases hlast u hu with hu | hu
        · exact hleast u hu
        · cases hu
          simpa using hlt

/-- One more value of a ranked property. -/
theorem HighestOf.raise {held : Option ν} {v : ν} (h : HighestOf rank clauses p held)
    (hrank : held = none → rank none < rank (some v)) :
    HighestOf rank (clauses ++ [.raise p v]) p (if rank held < rank (some v) then some v else held) := by
  have hlast : ∀ u, (.raise p u : Clause π ν) ∈ clauses ++ [.raise p v] → .raise p u ∈ clauses ∨ u = v := fun u hu => by
    rcases mem_append.1 hu with hu | hu
    · exact Or.inl hu
    · exact Or.inr (by simpa using mem_singleton.1 hu)
  split
  · rename_i hlt
    refine ⟨mem_append_right _ (mem_singleton_self _), fun u hu => ?_⟩
    rcases hlast u hu with hu | rfl
    · cases held with
      | none => exact absurd hu (h u)
      | some held =>
        have hle := h.2 u hu
        omega
    · exact Int.le_refl _
  · rename_i hlt
    cases held with
    | none => exact absurd (hrank rfl) hlt
    | some held =>
      refine ⟨mem_append_left _ h.1, fun u hu => ?_⟩
      rcases hlast u hu with hu | rfl
      · exact h.2 u hu
      · omega

end

/-- One more group of values. -/
theorem NewestOf.newest {order : ν} (hordered : Ordered lt (layout.domain stamp))
    (hclauses : ∀ c ∈ clauses, layout.Fits c) (hfits : layout.Fits (.newest stamp order values))
    (h : NewestOf layout lt clauses stamp props (props stamp)) :
    NewestOf layout lt (clauses ++ [.newest stamp order values]) stamp
      ((Clause.newest stamp order values).run lt rank props) ((Clause.newest stamp order values).run lt rank props stamp) := by
  obtain ⟨hrole, horder, hnames⟩ := hfits
  have hdomain : ∀ o values, .newest stamp o values ∈ clauses → layout.domain stamp o := fun o values ho =>
    (hclauses _ ho).2.1
  have hlast : ∀ o values', (.newest stamp o values' : Clause π ν) ∈ clauses ++ [.newest stamp order values] →
      .newest stamp o values' ∈ clauses ∨ o = order := fun o values' ho => by
    rcases mem_append.1 ho with ho | ho
    · exact Or.inl ho
    · simp only [mem_singleton, Clause.newest.injEq, true_and] at ho
      exact Or.inr ho.1
  have hmember : ∀ p, layout.role p = .member stamp → p ≠ stamp := fun p hp heq => by
    rw [heq, hrole] at hp
    cases hp
  have hset : ∀ p, layout.role p = .member stamp →
      (h' : props p = none ∨ p ∈ layout.names stamp) →
      Function.update (setAll props values) stamp (some order) p = stating values p := fun p hp h' => by
    rw [Function.update_of_ne (hmember p hp)]
    by_cases hmem : p ∈ values.map (·.1)
    · exact setAll_of_mem (hnames ▸ layout.nodup stamp) hmem
    · rw [setAll_of_notMem hmem, stating_of_notMem hmem]
      exact h'.resolve_right fun hin => hmem (hnames ▸ hin)
  have hnone : ∀ p, layout.role p = .member stamp → props p = none ∨ p ∈ layout.names stamp := fun p hp => by
    by_cases hin : p ∈ layout.names stamp
    · exact Or.inr hin
    · refine Or.inl ?_
      cases hheld : props stamp with
      | none =>
        rw [hheld] at h
        exact h.2 p hp
      | some o =>
        rw [hheld] at h
        obtain ⟨values', hvalues', -, hstated⟩ := h
        rw [hstated p hp]
        exact stating_of_notMem fun hmem => hin ((hclauses _ hvalues').2.2 ▸ hmem)
  by_cases hnewer : (props stamp).all (lt · order) = true
  · simp only [Clause.run, if_pos hnewer, Function.update_self]
    refine ⟨values, mem_append_right _ (mem_singleton_self _), fun o values' ho => ?_,
      fun p hp => hset p hp (hnone p hp)⟩
    rcases hlast o values' ho with ho | rfl
    · cases hheld : props stamp with
      | none =>
        rw [hheld] at h
        exact absurd ho (h.1 o values')
      | some held =>
        rw [hheld] at h hnewer
        obtain ⟨values'', hvalues'', hnewest, -⟩ := h
        by_contra hlt
        have hheldo : lt held o = true := hordered.trans held order o (hdomain held values'' hvalues'') horder
          (hdomain o values' ho) (by simpa using hnewer) (by simpa using hlt)
        rw [hnewest o values' ho] at hheldo
        cases hheldo
    · exact hordered.irrefl _ horder
  · simp only [Clause.run, if_neg hnewer]
    cases hheld : props stamp with
    | none =>
      rw [hheld] at hnewer
      exact absurd rfl hnewer
    | some held =>
      rw [hheld] at h hnewer
      obtain ⟨values', hvalues', hnewest, hstated⟩ := h
      refine ⟨values', mem_append_left _ hvalues', fun o values'' ho => ?_, hstated⟩
      rcases hlast o values'' ho with ho | rfl
      · exact hnewest o values'' ho
      · simpa using hnewer

/-! ## All clauses -/

/-- **One clause.** -/
theorem shows_step (hlawful : layout.Lawful lt rank) (hclauses : ∀ c ∈ clauses, layout.Fits c) (hfits : layout.Fits c)
    (h : Shows layout lt rank clauses props) : Shows layout lt rank (clauses ++ [c]) (c.run lt rank props) := by
  cases c with
  | least q v =>
    obtain ⟨hrole, hdomain⟩ := hfits
    have hsame : ∀ p, layout.role p ≠ .least → (Clause.least q v).run lt rank props p = props p := fun p hp =>
      Function.update_of_ne (fun heq : p = q => hp (heq ▸ hrole)) ..
    refine ⟨fun p hp => ?_, fun stamp hs => ?_, fun p hp => ?_⟩
    · by_cases hpq : p = q
      · subst hpq
        have hrun : (Clause.least p v).run lt rank props p = minNonNull lt v (props p) := Function.update_self ..
        rw [hrun]
        exact (h.least p hp).least (hlawful.least p hp) hclauses hdomain
      · have hrun : (Clause.least q v).run lt rank props p = props p := Function.update_of_ne hpq ..
        rw [hrun]
        refine (h.least p hp).other fun u heq => hpq ?_
        cases heq
        rfl
    · rw [hsame stamp (by rw [hs]; exact nofun)]
      exact (h.newest stamp hs).other nofun fun p hp => hsame p (by rw [hp]; exact nofun)
    · rw [hsame p (by rw [hp]; exact nofun)]
      exact (h.ranked p hp).other nofun
  | newest q order values =>
    have hrole := hfits.1
    have hsame : ∀ p, p ≠ q → p ∉ layout.names q → (Clause.newest q order values).run lt rank props p = props p :=
      fun p hpq hp => by
        by_cases hnewer : (props q).all (lt · order) = true
        · simp only [Clause.run, if_pos hnewer]
          rw [Function.update_of_ne hpq, setAll_of_notMem (hfits.2.2 ▸ hp)]
        · simp only [Clause.run, if_neg hnewer]
    have hother : ∀ p, layout.role p ≠ .stamp → layout.role p ≠ .member q →
        (Clause.newest q order values).run lt rank props p = props p := fun p hstamp hmember =>
      hsame p (fun heq => hstamp (heq ▸ hrole)) fun hin => hmember (layout.member q p hin)
    refine ⟨fun p hp => ?_, fun stamp hs => ?_, fun p hp => ?_⟩
    · rw [hother p (by rw [hp]; exact nofun) (by rw [hp]; exact nofun)]
      exact (h.least p hp).other nofun
    · by_cases hstamp : stamp = q
      · subst hstamp
        exact (h.newest stamp hs).newest (hlawful.stamp stamp hs) hclauses hfits
      · have hnot : ∀ p, layout.role p = .member stamp → layout.role p ≠ .member q := fun p hp heq => by
          rw [hp] at heq
          cases heq
          exact hstamp rfl
        rw [hsame stamp hstamp fun hin => by
          have hmem := layout.member q stamp hin
          rw [hs] at hmem
          cases hmem]
        refine (h.newest stamp hs).other (fun o values' heq => hstamp ?_) fun p hp =>
          hother p (by rw [hp]; exact nofun) (hnot p hp)
        cases heq
        rfl
    · rw [hother p (by rw [hp]; exact nofun) (by rw [hp]; exact nofun)]
      exact (h.ranked p hp).other nofun
  | raise q v =>
    obtain ⟨hrole, hdomain⟩ := hfits
    have hrun : (Clause.raise q v).run lt rank props q = if rank (props q) < rank (some v) then some v else props q := by
      by_cases hlt : rank (props q) < rank (some v)
      · simp only [Clause.run, if_pos hlt, Function.update_self]
      · simp only [Clause.run, if_neg hlt]
    have hsame : ∀ p, p ≠ q → (Clause.raise q v).run lt rank props p = props p := fun p hpq => by
      by_cases hlt : rank (props q) < rank (some v)
      · simp only [Clause.run, if_pos hlt]
        exact Function.update_of_ne hpq ..
      · simp only [Clause.run, if_neg hlt]
    have hother : ∀ p, layout.role p ≠ .ranked → (Clause.raise q v).run lt rank props p = props p := fun p hp =>
      hsame p fun heq => hp (heq ▸ hrole)
    refine ⟨fun p hp => ?_, fun stamp hs => ?_, fun p hp => ?_⟩
    · rw [hother p (by rw [hp]; exact nofun)]
      exact (h.least p hp).other nofun
    · rw [hother stamp (by rw [hs]; exact nofun)]
      exact (h.newest stamp hs).other nofun fun p hp => hother p (by rw [hp]; exact nofun)
    · by_cases hpq : p = q
      · subst hpq
        rw [hrun]
        refine (h.ranked p hp).raise fun hnone => ?_
        exact (hlawful.ranked p hp).1 v hdomain
      · rw [hsame p hpq]
        refine (h.ranked p hp).other fun u heq => hpq ?_
        cases heq
        rfl

theorem shows_run (hlawful : layout.Lawful lt rank) (hclauses : ∀ c ∈ clauses, layout.Fits c) :
    Shows layout lt rank clauses (runAll lt rank (fun _ => none) clauses) := by
  induction clauses using List.reverseRecOn with
  | nil => exact ⟨fun _ _ => nofun, fun _ _ => ⟨nofun, fun _ _ => rfl⟩, fun _ _ => nofun⟩
  | append_singleton clauses c ih =>
    have hrun : runAll lt rank (fun _ => none) (clauses ++ [c]) = c.run lt rank (runAll lt rank (fun _ => none) clauses) :=
      foldl_concat ..
    rw [hrun]
    have hbefore : ∀ c ∈ clauses, layout.Fits c := fun c hc => hclauses c (mem_append_left _ hc)
    exact shows_step hlawful hbefore (hclauses c (mem_append_right _ (mem_singleton_self _))) (ih hbefore)

/-- What two clauses state under one stamp is the same. -/
def Agree (clauses : List (Clause π ν)) : Prop :=
  ∀ stamp order values values', .newest stamp order values ∈ clauses → .newest stamp order values' ∈ clauses →
    values = values'

omit [DecidableEq π] in
theorem LeastOf.unique {p : π} {held held' : Option ν} (h : LeastOf lt clauses p held) (h' : LeastOf lt clauses' p held')
    (hordered : Ordered lt (layout.domain p)) (hclauses : ∀ c ∈ clauses, layout.Fits c)
    (hmem : ∀ c, c ∈ clauses ↔ c ∈ clauses') : held = held' := by
  cases held with
  | none =>
    cases held' with
    | none => rfl
    | some v' => exact absurd ((hmem _).2 h'.1) (h v')
  | some v =>
    cases held' with
    | none => exact absurd ((hmem _).1 h.1) (h' v)
    | some v' =>
      have hv' : .least p (some v') ∈ clauses := (hmem _).2 h'.1
      have hdomain : ∀ u, .least p (some u) ∈ clauses → layout.domain p u := fun u hu => (hclauses _ hu).2 u rfl
      exact congrArg some (hordered.total v v' (hdomain v h.1) (hdomain v' hv') (h'.2 v ((hmem _).1 h.1)) (h.2 v' hv'))

theorem NewestOf.unique {held held' : Option ν} (h : NewestOf layout lt clauses stamp props held)
    (h' : NewestOf layout lt clauses' stamp props' held') (hordered : Ordered lt (layout.domain stamp))
    (hclauses : ∀ c ∈ clauses, layout.Fits c) (hagree : Agree clauses) (hmem : ∀ c, c ∈ clauses ↔ c ∈ clauses') :
    held = held' ∧ ∀ p, layout.role p = .member stamp → props p = props' p := by
  cases held with
  | none =>
    cases held' with
    | none => exact ⟨rfl, fun p hp => (h.2 p hp).trans (h'.2 p hp).symm⟩
    | some o' =>
      obtain ⟨values', hvalues', -⟩ := h'
      exact absurd ((hmem _).2 hvalues') (h.1 o' values')
  | some o =>
    obtain ⟨values, hvalues, hnewest, hstated⟩ := h
    cases held' with
    | none => exact absurd ((hmem _).1 hvalues) (h'.1 o values)
    | some o' =>
      obtain ⟨values', hvalues', hnewest', hstated'⟩ := h'
      have hvalues'' := (hmem _).2 hvalues'
      have ho : o = o' := hordered.total o o' (hclauses _ hvalues).2.1 (hclauses _ hvalues'').2.1
        (hnewest o' values' hvalues'') (hnewest' o values ((hmem _).1 hvalues))
      subst ho
      have heq : values = values' := hagree stamp o values values' hvalues hvalues''
      exact ⟨rfl, fun p hp => by rw [hstated p hp, hstated' p hp, heq]⟩

omit [DecidableEq π] in
theorem HighestOf.unique {p : π} {held held' : Option ν} (h : HighestOf rank clauses p held)
    (h' : HighestOf rank clauses' p held')
    (hranked : ∀ u v, layout.domain p u → layout.domain p v → rank (some u) = rank (some v) → u = v)
    (hclauses : ∀ c ∈ clauses, layout.Fits c) (hmem : ∀ c, c ∈ clauses ↔ c ∈ clauses') : held = held' := by
  cases held with
  | none =>
    cases held' with
    | none => rfl
    | some v' => exact absurd ((hmem _).2 h'.1) (h v')
  | some v =>
    cases held' with
    | none => exact absurd ((hmem _).1 h.1) (h' v)
    | some v' =>
      have hv' := (hmem _).2 h'.1
      have hle := h.2 v' hv'
      have hle' := h'.2 v ((hmem _).1 h.1)
      exact congrArg some (hranked v v' (hclauses _ h.1).2 (hclauses _ hv').2 (by omega))

/-- **The set of the clauses decides.** -/
theorem Shows.unique (hlawful : layout.Lawful lt rank) (h : Shows layout lt rank clauses props)
    (h' : Shows layout lt rank clauses' props') (hclauses : ∀ c ∈ clauses, layout.Fits c) (hagree : Agree clauses)
    (hmem : ∀ c, c ∈ clauses ↔ c ∈ clauses') : props = props' := by
  funext p
  cases hrole : layout.role p with
  | least => exact (h.least p hrole).unique (h'.least p hrole) (hlawful.least p hrole) hclauses hmem
  | stamp => exact ((h.newest p hrole).unique (h'.newest p hrole) (hlawful.stamp p hrole) hclauses hagree hmem).1
  | member stamp =>
    have hstamp := layout.stamped p stamp hrole
    exact ((h.newest stamp hstamp).unique (h'.newest stamp hstamp) (hlawful.stamp stamp hstamp) hclauses hagree hmem).2
      p hrole
  | ranked => exact (h.ranked p hrole).unique (h'.ranked p hrole) (hlawful.ranked p hrole).2 hclauses hmem

end Lemmas

end Properties
