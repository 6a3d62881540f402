import AgentContext.Retrieval.Freshness

/-!
# The watermark

From `_WAITING` on, the rows at or below the watermark of a read are in a terminal status and stay so, as long as

    no commit brings a row whose id is below that of a delivered row              (`AboveDelivered`)
    what `_WATERMARK` sees delivered, `_WAITING` could see already               (`Seen`)

The first fails when a transaction that drew a smaller id commits late, the second when rows are committed and
delivered between the two statements.
-/

namespace Retrieval

open Projection Transition

variable {P G : Type} {r : Runner (Stored P) G} {d d' : Database (Stored P) G}
variable {mark : OutboxRow}
variable {between : List (Statement (Stored P))}

/-- A commit brings only rows above the delivered ones. -/
def AboveDelivered (d : Database (Stored P) G) : Statement (Stored P) → Prop
  | .commit tx => ∀ i ∈ d.open_ tx, ∀ row ∈ d.world.outbox, row.status = .delivered → row.outboxId < i.outboxId
  | _ => True

instance (d : Database (Stored P) G) (l : Statement (Stored P)) : Decidable (AboveDelivered d l) := by
  cases l <;> unfold AboveDelivered <;> infer_instance

/-- The rows delivered at `_WATERMARK` were visible at `_WAITING`. -/
def Seen (views : Views P G) : Prop :=
  ∀ row ∈ views.watermark.outbox, row.status = .delivered → row.outboxId ∈ views.waiting.outbox.map (·.outboxId)

/-- The row is delivered, and no row up to it waits. -/
structure Settled (mark : OutboxRow) (d : Database (Stored P) G) : Prop where
  mem : mark ∈ d.world.outbox
  delivered : mark.status = .delivered
  terminal : ∀ row ∈ d.world.outbox, row.outboxId ≤ mark.outboxId → row.status.terminal = true

section

variable (inv : RunnerInv r d.world)
include inv

theorem Settled.step (settled : Settled mark d) {l : Statement (Stored P)}
    (habove : AboveDelivered d l) (h : execute r d l = some d') : Settled mark d' := by
  have hterminal : mark.status.terminal = true := by
    rw [settled.delivered]
    rfl
  refine ⟨execute_terminal inv h settled.mem hterminal, settled.delivered, ?_⟩
  intro row' hrow' hle
  rcases execute_outboxIds h hrow' with hold | ⟨tx, rfl, hnew⟩
  · -- the row was there, in a terminal status, so it is the same row
    obtain ⟨row, hrow, hid⟩ := List.mem_map.1 hold
    have ht := settled.terminal row hrow (by omega)
    have hsame := eq_of_outboxId (execute_inv inv h).ids (execute_terminal inv h hrow ht) hrow' hid
    rw [← hsame]
    exact ht
  · obtain ⟨i, hi, hid⟩ := List.mem_map.1 hnew
    have hlt := habove i hi mark settled.mem settled.delivered
    omega

theorem Settled.run (settled : Settled mark d) {ls : List (Statement (Stored P))}
    (habove : Meets (execute r) AboveDelivered d ls) (h : run (execute r) d ls = some d') : Settled mark d' :=
  (run_invariant_where (I := fun d => RunnerInv r d.world ∧ Settled mark d)
    (fun _ _ _ ⟨inv, settled⟩ hok hs => ⟨execute_inv inv hs, settled.step inv hok hs⟩) ⟨inv, settled⟩ habove h).2

theorem settled_waiting (h : run (execute r) d between = some d')
    (hmark : watermark d'.world (low d.world) = some mark)
    (hseen : ∀ row ∈ d'.world.outbox, row.status = .delivered → row.outboxId ∈ d.world.outbox.map (·.outboxId)) :
    Settled mark d := by
  obtain ⟨hmem, hdelivered, hbelow, -⟩ := watermark_spec hmark
  obtain ⟨row, hrow, hid⟩ := List.mem_map.1 (hseen mark hmem hdelivered)
  have ht : row.status.terminal = true := below_low hrow (hid ▸ hbelow)
  have inv' : RunnerInv r d'.world := run_invariant (I := fun d => RunnerInv r d.world)
    (fun _ _ _ inv hs => execute_inv inv hs) inv h
  have hsame : row = mark := eq_of_outboxId inv'.ids (executed_terminal inv h hrow ht) hmem hid
  refine ⟨hsame ▸ hrow, hdelivered, ?_⟩
  intro other hother hle
  refine below_low hother ?_
  cases hlow : low d.world with
  | none => rfl
  | some m =>
    rw [hlow] at hbelow
    have hlt : mark.outboxId < m := by simpa using hbelow
    simpa using lt_of_le_of_lt hle hlt

theorem Settled.le_watermark {mark mark' : OutboxRow} (settled : Settled mark d)
    (h : Transition.run (execute r) d between = some d') (hmark : watermark d'.world (low d.world) = some mark') :
    mark.outboxId ≤ mark'.outboxId := by
  have hterminal : mark.status.terminal = true := by
    rw [settled.delivered]
    rfl
  refine (watermark_spec hmark).2.2.2 mark (executed_terminal inv h settled.mem hterminal) settled.delivered ?_
  cases hlow : low d.world with
  | none => rfl
  | some m =>
    have hmin : m ∈ (d.world.outbox.filter waiting).map (·.outboxId) := (List.min?_eq_some_iff.1 hlow).1
    obtain ⟨row, hrow, rfl⟩ := List.mem_map.1 hmin
    obtain ⟨hrow, hwaits⟩ := List.mem_filter.1 hrow
    have hnot : ¬ row.outboxId ≤ mark.outboxId := by
      intro hle
      have ht := settled.terminal row hrow hle
      cases hstatus : row.status <;> simp [waiting, OutboxStatus.terminal, hstatus] at hwaits ht
    simpa using Nat.lt_of_not_ge hnot

end

/-- **The watermark is final.**  `_WAITING` sees `a`, `_WATERMARK` sees `b`, and `c` is any later state, `d` and `e`
those of a later read. -/
theorem watermark_final (r : Runner (Stored P) G) (graph : G) (digest : List (String × String × Nat × String) → String)
    (before between after : List (Statement (Stored P))) (a b c : Database (Stored P) G)
    (ha : run (execute r) (.start graph) before = some a) (hb : run (execute r) a between = some b)
    (hc : run (execute r) b after = some c) (habove : Meets (execute r) AboveDelivered a (between ++ after))
    (views : Views P G) (hwaiting : views.waiting = a.world) (hmark : views.watermark = b.world) (hseen : Seen views)
    (projectors : List (String × String)) (now : Nat) (projectId repositoryId : Option String) (freshness : Freshness)
    (hread : read digest views projectors now projectId repositoryId = .ok freshness) :
    (∀ row ∈ c.world.outbox, row.outboxId ≤ freshness.asOfOutboxId → row.status = .delivered ∨ row.status = .deadLettered) ∧
      ∀ (between' : List (Statement (Stored P))) (e : Database (Stored P) G) (views' : Views P G)
        (projectors' : List (String × String)) (now' : Nat) (projectId' repositoryId' : Option String)
        (freshness' : Freshness), run (execute r) c between' = some e → views'.waiting = c.world →
        views'.watermark = e.world → read digest views' projectors' now' projectId' repositoryId' = .ok freshness' →
        freshness.asOfOutboxId ≤ freshness'.asOfOutboxId := by
  obtain ⟨mark, hmark', -, hasOf, -⟩ := read_eq_ok hread
  rw [hwaiting, hmark] at hmark'
  have hseen' : ∀ row ∈ b.world.outbox, row.status = .delivered → row.outboxId ∈ a.world.outbox.map (·.outboxId) := by
    rw [Seen, hwaiting, hmark] at hseen
    exact hseen
  have inv := runnerInv_executed ha
  have hrun : run (execute r) a (between ++ after) = some c := run_append.2 ⟨b, hb, hc⟩
  have settled : Settled mark c := (settled_waiting inv hb hmark' hseen').run inv habove hrun
  have inv' : RunnerInv r c.world := run_invariant (I := fun d => RunnerInv r d.world)
    (fun _ _ _ inv hs => execute_inv inv hs) inv hrun
  constructor
  · intro row hrow hle
    have ht := settled.terminal row hrow (hasOf ▸ hle)
    cases hstatus : row.status <;> simp [OutboxStatus.terminal, hstatus] at ht ⊢
  · intro between' e views' projectors' now' projectId' repositoryId' freshness' he hwaiting' hmark'' hread'
    obtain ⟨mark', hwatermark, -, hasOf', -⟩ := read_eq_ok hread'
    rw [hwaiting', hmark''] at hwatermark
    rw [hasOf, hasOf']
    exact settled.le_watermark inv' he hwatermark

/-! ## A late commit -/

/-- The first row delivered of a transaction that drew its id after another one. -/
def overtaken : List (Statement (Stored Unit)) :=
  [.insert "A" (sampleEvent "e1" 1 1) 5, .insert "B" (sampleEvent "e2" 2 2) 5, .commit "B",
   .work (.claim "w" 10 [] 10), .work (.project "w" .works), .work (.finalize "w" 11)]

/-- **A row below the watermark becomes visible**, pending, when its transaction commits late. -/
theorem late_commit_below_watermark :
    ∃ a c, run (execute sampleRunner) (.start ∅) overtaken = some a ∧
      run (execute sampleRunner) a [.commit "A"] = some c ∧
      (read (fun _ => "") (.at a.world) [("knowledge", "1")] 12 none none).toOption.map (·.asOfOutboxId) = some 2 ∧
      c.world.outbox.map (fun row => (row.outboxId, row.status)) = [(2, .delivered), (1, .pending)] := by
  have hrun : ((run (execute sampleRunner) (.start ∅) overtaken).bind fun a =>
      (run (execute sampleRunner) a [.commit "A"]).map fun c =>
        ((read (fun _ => "") (.at a.world) [("knowledge", "1")] 12 none none).toOption.map (·.asOfOutboxId),
          c.world.outbox.map fun row => (row.outboxId, row.status))) =
      some (some 2, [(2, .delivered), (1, .pending)]) := by decide +kernel
  obtain ⟨a, ha, hrest⟩ := Option.bind_eq_some_iff.1 hrun
  obtain ⟨c, hc, heq⟩ := Option.map_eq_some_iff.1 hrest
  obtain ⟨hread, hrows⟩ := Prod.mk.inj heq
  exact ⟨a, c, ha, hc, hread, hrows⟩

def delivered : List (Statement (Stored Unit)) :=
  [.insert "A" (sampleEvent "e1" 1 1) 5, .commit "A", .work (.claim "w" 10 [] 10), .work (.project "w" .works),
   .work (.finalize "w" 11)]

/-- Another append, which commits in order. -/
def appended : List (Statement (Stored Unit)) := [.insert "B" (sampleEvent "e2" 2 2) 12, .commit "B"]

theorem watermark_final_appended :
    ∃ a c freshness, run (execute sampleRunner) (.start ∅) delivered = some a ∧
      run (execute sampleRunner) a appended = some c ∧
      read (fun _ => "") (.at a.world) [("knowledge", "1")] 12 none none = .ok freshness ∧
      freshness.asOfOutboxId = 1 ∧
      (∀ row ∈ c.world.outbox, row.outboxId ≤ freshness.asOfOutboxId →
        row.status = .delivered ∨ row.status = .deadLettered) := by
  have hrun : ((run (execute sampleRunner) (.start ∅) delivered).bind fun a =>
      (run (execute sampleRunner) a appended).map fun c =>
        (decide (Meets (execute sampleRunner) AboveDelivered a ([] ++ appended)),
          (read (fun _ => "") (.at a.world) [("knowledge", "1")] 12 none none).toOption.map (·.asOfOutboxId))) =
      some (true, some 1) := by decide +kernel
  obtain ⟨a, ha, hrest⟩ := Option.bind_eq_some_iff.1 hrun
  obtain ⟨c, hc, heq⟩ := Option.map_eq_some_iff.1 hrest
  obtain ⟨habove, hread⟩ := Prod.mk.inj heq
  obtain ⟨freshness, hfreshness, hasOf⟩ := Option.map_eq_some_iff.1 hread
  have hok : read (fun _ => "") (.at a.world) [("knowledge", "1")] 12 none none = .ok freshness :=
    toOption_eq_some hfreshness
  refine ⟨a, c, freshness, ha, hc, hok, hasOf, ?_⟩
  exact (watermark_final sampleRunner ∅ (fun _ => "") delivered [] appended a a c ha rfl hc (of_decide_eq_true habove)
    (.at a.world) rfl rfl (fun row hrow _ => List.mem_map_of_mem hrow) [("knowledge", "1")] 12 none none freshness hok).1

end Retrieval
