import AgentContext.Projection.Safety

/-!
# Append transactions

An outbox row draws its id from a sequence when it is inserted (`_insert_or_recover`) and is visible when its
transaction commits.  Transactions on disjoint streams run at the same time and commit in any order, so ids may
become visible out of order:

    insert     an event and its outbox row, under the next id of the sequence; nobody sees them
    commit     what the transaction inserted becomes visible
    rollback   it never does, and its ids stay unused
    work       a step of the runtime, over what is visible
-/

namespace Projection

open Transition

variable {J G : Type}

/-- An event with its outbox row, as a transaction has inserted them. -/
structure Inserted (J : Type) where
  event : LedgerEvent J
  outboxId : Nat
  now : Nat

structure Database (J G : Type) where
  /-- What is committed. -/
  world : World J G
  nextId : Nat
  open_ : String → List (Inserted J)

def Database.start (graph : G) : Database J G := ⟨World.start graph, 1, fun _ => []⟩

inductive Statement (J : Type)
  | insert (tx : String) (event : LedgerEvent J) (now : Nat)
  | commit (tx : String)
  | rollback (tx : String)
  | work (l : Label J)

def Label.isAppend : Label J → Bool
  | .append _ _ _ => true
  | _ => false

/-- The rows of a transaction become visible together. -/
def commitAll (r : Runner J G) (w : World J G) (rows : List (Inserted J)) : Option (World J G) :=
  run (step r) w (rows.map fun i => .append i.event i.outboxId i.now)

def execute (r : Runner J G) (d : Database J G) : Statement J → Option (Database J G)
  | .insert tx event now => some { d with
      nextId := d.nextId + 1
      open_ := Function.update d.open_ tx (d.open_ tx ++ [⟨event, d.nextId, now⟩]) }
  | .commit tx => (commitAll r d.world (d.open_ tx)).map fun world => { d with
      world := world
      open_ := Function.update d.open_ tx [] }
  | .rollback tx => some { d with open_ := Function.update d.open_ tx [] }
  | .work l => if l.isAppend then none else (step r d.world l).map fun world => { d with world := world }

variable {r : Runner J G} {w w' : World J G} {d d' : Database J G}
variable {row' : OutboxRow} {l : Statement J} {I : World J G → Prop} {ls : List (Statement J)}

/-! ## The rows there are -/

theorem step_outboxIds {l : Label J} (h : step r w l = some w') (hrow : row' ∈ w'.outbox) :
    row'.outboxId ∈ w.outbox.map (·.outboxId) ∨ ∃ event now, l = .append event row'.outboxId now := by
  have hupdated : ∀ {matching : OutboxRow → Bool} {values : OutboxRow → OutboxRow},
      row' ∈ updateWhere matching values w.outbox → (∀ row, (values row).outboxId = row.outboxId) →
      row'.outboxId ∈ w.outbox.map (·.outboxId) := by
    intro matching values hmem hids
    have hmap := List.mem_map_of_mem (f := (·.outboxId)) hmem
    rwa [map_updateWhere hids] at hmap
  cases step_cases h with
  | append =>
    rcases List.mem_append.1 hrow with hrow | hrow
    · exact Or.inl (List.mem_map_of_mem hrow)
    · obtain rfl := List.mem_singleton.1 hrow
      exact Or.inr ⟨_, _, rfl⟩
  | @project id attempt claimed =>
    left
    have hsame : row' ∈ (w.write (processClaimedRow r w.events claimed attempt).2).outbox := hrow
    rw [(write_tables w _).2.1] at hsame
    exact List.mem_map_of_mem hsame
  | finalized hfin => cases hfin <;> exact Or.inl (hupdated hrow fun _ => rfl)
  | claim | release => exact Or.inl (hupdated hrow fun _ => rfl)
  | lost | crash => exact Or.inl (List.mem_map_of_mem hrow)

theorem commitAll_outboxIds {rows : List (Inserted J)} (h : commitAll r w rows = some w') (hrow : row' ∈ w'.outbox) :
    row'.outboxId ∈ w.outbox.map (·.outboxId) ∨ row'.outboxId ∈ rows.map (·.outboxId) := by
  induction rows generalizing w with
  | nil =>
    obtain rfl := Option.some.inj h
    exact Or.inl (List.mem_map_of_mem hrow)
  | cons i rows ih =>
    obtain ⟨w₁, hstep, hrest⟩ := run_cons.1 h
    rcases ih hrest with hold | hnew
    · obtain ⟨row₁, hrow₁, hid⟩ := List.mem_map.1 hold
      rcases step_outboxIds hstep hrow₁ with hold | ⟨event, now, happend⟩
      · exact Or.inl (hid ▸ hold)
      · obtain ⟨-, hid', -⟩ := Label.append.inj happend
        refine Or.inr (List.mem_cons.2 (Or.inl ?_))
        rw [← hid, ← hid']
    · exact Or.inr (List.mem_cons_of_mem _ hnew)

theorem execute_outboxIds (h : execute r d l = some d') (hrow : row' ∈ d'.world.outbox) :
    row'.outboxId ∈ d.world.outbox.map (·.outboxId) ∨
      ∃ tx, l = .commit tx ∧ row'.outboxId ∈ (d.open_ tx).map (·.outboxId) := by
  cases l with
  | insert | rollback =>
    obtain rfl := Option.some.inj h
    exact Or.inl (List.mem_map_of_mem hrow)
  | commit tx =>
    obtain ⟨world, hworld, rfl⟩ := Option.map_eq_some_iff.1 h
    exact (commitAll_outboxIds hworld hrow).imp id fun hnew => ⟨tx, rfl, hnew⟩
  | work l =>
    simp only [execute] at h
    split at h
    · cases h
    · next happend =>
      obtain ⟨world, hworld, rfl⟩ := Option.map_eq_some_iff.1 h
      rcases step_outboxIds hworld hrow with hold | ⟨event, now, rfl⟩
      · exact Or.inl hold
      · exact absurd rfl happend

/-! ## What a statement keeps -/

theorem execute_keeps (keep : ∀ w l w', I w → step r w l = some w' → I w') (inv : I d.world)
    (h : execute r d l = some d') : I d'.world := by
  cases l with
  | insert | rollback => obtain rfl := Option.some.inj h; exact inv
  | commit tx =>
    obtain ⟨world, hworld, rfl⟩ := Option.map_eq_some_iff.1 h
    exact run_invariant keep inv hworld
  | work l =>
    simp only [execute] at h
    split at h
    · cases h
    · obtain ⟨world, hworld, rfl⟩ := Option.map_eq_some_iff.1 h
      exact keep _ _ _ inv hworld

theorem executed_keeps (keep : ∀ w l w', I w → step r w l = some w' → I w') (inv : I d.world)
    (h : run (execute r) d ls = some d') : I d'.world :=
  run_invariant (I := fun d => I d.world) (fun _ _ _ inv hs => execute_keeps keep inv hs) inv h

/-- A condition on the steps of the runtime. -/
def OnWork (ok : World J G → Label J → Prop) (d : Database J G) : Statement J → Prop
  | .work l => ok d.world l
  | _ => True

instance {ok : World J G → Label J → Prop} [∀ w l, Decidable (ok w l)] (d : Database J G) (l : Statement J) :
    Decidable (OnWork ok d l) := by
  cases l <;> unfold OnWork <;> infer_instance

/-- What every step that meets a condition keeps, every run of statements that meets it keeps. -/
theorem executed_keeps_where {ok : World J G → Label J → Prop}
    (happend : ∀ w event outboxId now, ok w (.append event outboxId now))
    (keep : ∀ w l w', I w → ok w l → step r w l = some w' → I w') (inv : I d.world)
    (hmeets : Meets (execute r) (OnWork ok) d ls) (h : run (execute r) d ls = some d') : I d'.world := by
  refine run_invariant_where (I := fun d => I d.world) (fun d l d' inv hok hs => ?_) inv hmeets h
  cases l with
  | insert | rollback => obtain rfl := Option.some.inj hs; exact inv
  | commit tx =>
    obtain ⟨world, hworld, rfl⟩ := Option.map_eq_some_iff.1 hs
    refine run_invariant_where keep inv (Meets.of_labels (fun l hl w => ?_) _) hworld
    obtain ⟨i, -, rfl⟩ := List.mem_map.1 hl
    exact happend w i.event i.outboxId i.now
  | work l =>
    simp only [execute] at hs
    split at hs
    · cases hs
    · obtain ⟨world, hworld, rfl⟩ := Option.map_eq_some_iff.1 hs
      exact keep _ _ _ inv hok hworld

theorem execute_inv (inv : RunnerInv r d.world) (h : execute r d l = some d') : RunnerInv r d'.world :=
  execute_keeps (fun _ _ _ inv hs => inv.step hs) inv h

theorem execute_terminal (inv : RunnerInv r d.world) (h : execute r d l = some d') {row : OutboxRow}
    (hrow : row ∈ d.world.outbox) (ht : row.status.terminal = true) : row ∈ d'.world.outbox :=
  (execute_keeps (I := fun w => RunnerInv r w ∧ row ∈ w.outbox)
    (fun _ _ _ ⟨inv, hrow⟩ hs => ⟨inv.step hs, step_terminal inv hs hrow ht⟩) ⟨inv, hrow⟩ h).2

theorem runnerInv_executed {graph : G} (h : run (execute r) (Database.start graph) ls = some d) :
    RunnerInv r d.world :=
  executed_keeps (fun _ _ _ inv hs => inv.step hs) (RunnerInv.start r graph) h

theorem executed_terminal (inv : RunnerInv r d.world) (h : run (execute r) d ls = some d') {row : OutboxRow}
    (hrow : row ∈ d.world.outbox) (ht : row.status.terminal = true) : row ∈ d'.world.outbox :=
  (run_invariant (I := fun d => RunnerInv r d.world ∧ row ∈ d.world.outbox)
    (fun _ _ _ ⟨inv, hrow⟩ hs => ⟨execute_inv inv hs, execute_terminal inv hs hrow ht⟩) ⟨inv, hrow⟩ h).2

end Projection
