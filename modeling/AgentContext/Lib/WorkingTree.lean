import Mathlib.Tactic.Common
import Mathlib.Data.List.Nodup

/-!
# Checkouts

A commit's tree, the index over it and the working tree over both, and what a status command says of them.

    net       what a path comes to in the end: its working copy against its record in HEAD
    Code      the two status letters documented for a path: the index against HEAD, the working tree against the index
    StatusOf  the lines of a status command without rename detection that ignores what happens inside submodules

The letters say what was done and `net` what is left of it, and the two part ways: a file added to the index and removed
again has the letters `AD` and no net state.
-/

namespace WorkingTree

variable {π ω : Type}

inductive FileMode | regular | executable | symlink
deriving DecidableEq, Repr

/-- What a tree or the index records for a path: a file's content, or the commit of a submodule. -/
inductive Recorded (ω : Type)
  | blob (mode : FileMode) (oid : ω)
  | link (oid : ω)
deriving DecidableEq, Repr

/-- The versions of an unmerged path that the index has. -/
inductive Conflict | bothDeleted | addedByUs | deletedByThem | addedByThem | deletedByUs | bothAdded | bothModified
deriving DecidableEq, Repr

/-- Stage 1 is the common ancestor, 2 ours and 3 theirs. -/
def Conflict.stages : Conflict → List Nat
  | .bothDeleted => [1]
  | .addedByUs => [2]
  | .deletedByThem => [1, 2]
  | .addedByThem => [3]
  | .deletedByUs => [1, 3]
  | .bothAdded => [2, 3]
  | .bothModified => [1, 2, 3]

/-- What the index has for a path.  A flagged record is one that the index is told to take as matching the working tree. -/
inductive Staged (ω : Type)
  | plain (record : Recorded ω) (flagged : Bool)
  | intent (mode : FileMode)
  | unmerged (conflict : Conflict) (version : Nat → Recorded ω)

/-- What stands at a path of the working tree. -/
inductive Node
  | missing
  | beyondLink
  | directory
  | file (content : List UInt8) (readable : Bool)
  | link (target : List UInt8)
  | special
  | repository
deriving DecidableEq, Repr

/-- A directory that is no repository is not itself something at its path. -/
def Node.present : Node → Bool
  | .missing | .beyondLink | .directory => false
  | .file .. | .link _ | .special | .repository => true

/-- The three trees; `same` tells whether the working copy is what a record says, conversions taken into account. -/
structure Checkout (π ω : Type) where
  head : π → Option (Recorded ω)
  index : π → Option (Staged ω)
  work : π → Node
  ignored : π → Bool
  same : π → Recorded ω → Bool

def Recorded.pointer : Recorded ω → Option ω
  | .blob .. => none
  | .link oid => some oid

def Staged.pointer : Staged ω → Option ω
  | .plain record _ => record.pointer
  | .intent _ | .unmerged .. => none

namespace Checkout

variable (c : Checkout π ω) (p : π)

def headPointer : Option ω := (c.head p).bind Recorded.pointer

def indexPointer : Option ω := (c.index p).bind Staged.pointer

def present : Bool := (c.work p).present

/-- The index has no content for the path. -/
def dropped : Bool :=
  match c.index p with
  | none | some (.intent _) => true
  | some (.plain ..) | some (.unmerged ..) => false

/-- In the working tree, not in the index and not ignored. -/
def Untracked : Prop := c.index p = none ∧ c.present p ∧ c.ignored p = false

instance : Decidable (c.Untracked p) := by
  unfold Untracked
  cases h : c.index p with
  | none => exact decidable_of_iff (c.present p ∧ c.ignored p = false) (by simp)
  | some s => exact isFalse (by simp)

end Checkout

/-! ## The net state -/

inductive Change | deleted | added | modified | untracked | gitlink
deriving DecidableEq, Repr

section Net

variable [DecidableEq ω] (c : Checkout π ω) (p : π)

/-- A deleted path that is present again is modified, whatever it now holds. -/
def Checkout.net : Option Change :=
  if c.headPointer p ≠ c.indexPointer p then some .gitlink
  else
    match c.head p, c.present p with
    | some (.link _), _ => none
    | some (.blob mode oid), true => if c.dropped p ∨ c.same p (.blob mode oid) = false then some .modified else none
    | some (.blob ..), false => some .deleted
    | none, true => if (c.index p).isSome then some .added else if c.ignored p then none else some .untracked
    | none, false => none

end Net

/-! ## Status letters -/

inductive Letter | unchanged | modified | typeChanged | added | deleted | unmerged
deriving DecidableEq, Repr

/-- The letters of an unmerged path, from the versions it has. -/
def Conflict.code : Conflict → Letter × Letter
  | .bothDeleted => (.deleted, .deleted)
  | .addedByUs => (.added, .unmerged)
  | .deletedByThem => (.unmerged, .deleted)
  | .addedByThem => (.unmerged, .added)
  | .deletedByUs => (.deleted, .unmerged)
  | .bothAdded => (.added, .added)
  | .bothModified => (.unmerged, .unmerged)

/-- A difference between two records, or between a record and the working copy. -/
def Letter.Differs (x : Letter) : Prop := x = .modified ∨ x = .typeChanged

/-- The index against HEAD. -/
inductive StagedLetter : Option (Recorded ω) → Option (Recorded ω) → Letter → Prop
  | none : StagedLetter none none .unchanged
  | added {r : Recorded ω} : StagedLetter none (some r) .added
  | deleted {r : Recorded ω} : StagedLetter (some r) none .deleted
  | kept {r : Recorded ω} : StagedLetter (some r) (some r) .unchanged
  | changed {r r' : Recorded ω} {x : Letter} (h : r ≠ r') (hx : x.Differs) : StagedLetter (some r) (some r') x

namespace Checkout

variable (c : Checkout π ω) (p : π)

/-- The working tree against a record of the index. -/
inductive WorkLetter (r : Recorded ω) : Letter → Prop
  | deleted (h : c.present p = false) : WorkLetter r .deleted
  | kept (h : c.present p = true) (hsame : c.same p r = true) : WorkLetter r .unchanged
  | changed {y : Letter} (h : c.present p = true) (hsame : c.same p r = false) (hy : y.Differs) : WorkLetter r y

/-- The letters of a path.  A path the index only intends to add counts as absent from it on the one side, and on the
other as added when the working tree has it. -/
def Code (x y : Letter) : Prop :=
  match c.index p with
  | none => StagedLetter (c.head p) none x ∧ y = .unchanged
  | some (.plain r true) => StagedLetter (c.head p) (some r) x ∧ y = .unchanged
  | some (.plain r false) => StagedLetter (c.head p) (some r) x ∧ c.WorkLetter p r y
  | some (.intent _) => StagedLetter (c.head p) none x ∧ y = if c.present p then .added else .deleted
  | some (.unmerged k _) => (x, y) = k.code

/-- Neither HEAD nor the index has a submodule at the path. -/
def Open : Prop := c.headPointer p = none ∧ c.indexPointer p = none

/-- A submodule of HEAD that the index keeps as it is, or drops: its changes are all hidden. -/
def Hidden : Prop := (c.headPointer p).isSome ∧ (c.indexPointer p = c.headPointer p ∨ c.index p = none)

end Checkout

/-- A line of the status: the letters of a path, or an untracked path. -/
inductive Line (π : Type)
  | tracked (path : π) (x y : Letter)
  | untracked (path : π)
deriving DecidableEq

def Line.trackedPath : Line π → Option π
  | .tracked p .. => some p
  | .untracked _ => none

def Line.untrackedPath : Line π → Option π
  | .tracked .. => none
  | .untracked p => some p

/-- The lines of the status of a checkout, in any order. -/
structure StatusOf (c : Checkout π ω) (lines : List (Line π)) : Prop where
  trackedOnce : (lines.filterMap Line.trackedPath).Nodup
  untrackedOnce : (lines.filterMap Line.untrackedPath).Nodup
  shown : ∀ {p x y}, Line.tracked p x y ∈ lines → ¬ c.Hidden p
  code : ∀ {p x y}, Line.tracked p x y ∈ lines → c.Open p → c.Code p x y ∧ (x, y) ≠ (.unchanged, .unchanged)
  listed : ∀ {p x y}, c.Open p → c.Code p x y → (x, y) ≠ (.unchanged, .unchanged) → ∃ x y, Line.tracked p x y ∈ lines
  untracked : ∀ {p}, Line.untracked p ∈ lines ↔ c.Untracked p

/-! ## The net state of one path -/

section Cases

variable [DecidableEq ω] {c : Checkout π ω} {p : π} {r : Recorded ω}

theorem net_of_pointers (h : c.headPointer p ≠ c.indexPointer p) : c.net p = some .gitlink := if_pos h

/-- A submodule that the index keeps as it is has no net state, whatever goes on inside. -/
theorem net_of_kept (h : c.headPointer p = c.indexPointer p) (hlink : (c.headPointer p).isSome) : c.net p = none := by
  unfold Checkout.net
  rw [if_neg (not_not.2 h)]
  unfold Checkout.headPointer at hlink
  cases hh : c.head p with
  | none => rw [hh] at hlink; cases hlink
  | some r =>
    cases r with
    | blob mode oid => rw [hh] at hlink; cases hlink
    | link oid => rfl

omit [DecidableEq ω] in
theorem Checkout.Open.head (ho : c.Open p) (hh : c.head p = some r) : ∃ mode oid, r = .blob mode oid := by
  cases r with
  | blob mode oid => exact ⟨mode, oid, rfl⟩
  | link oid =>
    have hpointer : c.headPointer p = some oid := by
      unfold Checkout.headPointer
      rw [hh]
      rfl
    rw [ho.1] at hpointer
    cases hpointer

theorem net_of_open (ho : c.Open p) : c.net p =
      match c.head p, c.present p with
      | some r, true => if c.dropped p ∨ c.same p r = false then some .modified else none
      | some _, false => some .deleted
      | none, true => if (c.index p).isSome then some .added else if c.ignored p then none else some .untracked
      | none, false => none := by
  unfold Checkout.net
  rw [if_neg (not_not.2 (ho.1.trans ho.2.symm))]
  cases hh : c.head p with
  | none => cases c.present p <;> rfl
  | some r =>
    obtain ⟨mode, oid, rfl⟩ := ho.head hh
    cases c.present p <;> rfl

theorem net_deleted (ho : c.Open p) (hh : c.head p = some r) (hp : c.present p = false) : c.net p = some .deleted := by
  rw [net_of_open ho, hh, hp]

theorem net_vanished (ho : c.Open p) (hh : c.head p = none) (hp : c.present p = false) : c.net p = none := by
  rw [net_of_open ho, hh, hp]

theorem net_present (ho : c.Open p) (hh : c.head p = some r) (hp : c.present p = true) :
    c.net p = if c.dropped p ∨ c.same p r = false then some .modified else none := by
  rw [net_of_open ho, hh, hp]

theorem net_new (ho : c.Open p) (hh : c.head p = none) (hp : c.present p = true) :
    c.net p = if (c.index p).isSome then some .added else if c.ignored p then none else some .untracked := by
  rw [net_of_open ho, hh, hp]

end Cases

end WorkingTree
