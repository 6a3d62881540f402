import AgentContext.Projection.Progress
import AgentContext.Retrieval.Cursor
import AgentContext.Retrieval.Instant

/-!
# The snapshot token

What a cursor binds: the watermark's event and the checkpoints of the projectors the tool depends on.  From one
state to a later one it changes exactly when

    a projector's highest handled row moves           (`Raises`)
    the highest settled row moves up                  (settled: delivered, with nothing waiting below it)
    a row waits below a row that was settled

so a delivery below a projector's highest row, behind a row that still waits, leaves it as it is.
-/

namespace Retrieval

open Projection Keyset Transition List

variable {P G : Type} {r : Runner (Stored P) G} {w w' : World (Stored P) G} {d d' : Database (Stored P) G}
variable {ls : List (Statement (Stored P))}
variable {graph : G} {name version : String}

/-- `_snapshot_token`. -/
def snapshotToken (freshness : Freshness) : String := freshness.asOfEventId ++ "|" ++ freshness.projectionCheckpoint

def Raises (old new : List OutboxRow) : Prop := ∃ row ∈ new, ∀ row' ∈ old, row'.outboxId < row.outboxId

/-- The delivered rows with nothing waiting below them. -/
def settledRows (w : World (Stored P) G) : List OutboxRow :=
  w.outbox.filter fun row =>
    row.status = .delivered && (w.outbox.filter waiting).all (row.outboxId < ·.outboxId)

/-- A row that a projector of the list handles is delivered from one state to the other. -/
def Delivered (r : Runner (Stored P) G) (projectors : List (String × String)) (a b : World (Stored P) G) : Prop :=
  ∃ p ∈ r.projectors, (p.name, p.version) ∈ projectors ∧ ∃ row ∈ b.handledRows p, row ∉ a.handledRows p

/-- What a token can tell of two states. -/
structure Unmoved (r : Runner (Stored P) G) (projectors : List (String × String)) (a b : World (Stored P) G) : Prop where
  handled : ∀ p ∈ r.projectors, (p.name, p.version) ∈ projectors → ¬ Raises (a.handledRows p) (b.handledRows p)
  settled : ¬ Raises (settledRows a) (settledRows b)
  waits : ∀ row ∈ b.outbox, waiting row = true → ∀ mark ∈ settledRows a, mark.outboxId ≤ row.outboxId

/-! ## Checkpoints -/

theorem executed_progress (h : run (execute r) (.start graph) ls = some d) : ProgressInv r d.world :=
  executed_keeps (fun _ _ _ inv hs => inv.step hs) (ProgressInv.start r graph) h

theorem step_unregistered (hnot : (name, version) ∉ r.projectors.map fun p => (p.name, p.version))
    (inv : ProgressInv r w) (hnone : getCheckpoint w.checkpoints name version = none) {l : Label (Stored P)}
    (h : step r w l = some w') : getCheckpoint w'.checkpoints name version = none := by
  cases step_cases h with
  | project =>
    show getCheckpoint (w.write _).checkpoints name version = none
    rw [(write_tables w _).2.2.1]
    exact hnone
  | append | claim | lost | release | crash => exact hnone
  | finalized hfin hworker =>
    cases hfin with
    | retried | deadLettered => exact hnone
    | delivered matching =>
      obtain ⟨event, -, hmatch⟩ := inv.decided _ _ _ matching hworker
      have hmatching := matchingProjectors_ok hmatch
      have hnodup : (matching.map fun p => (p.name, p.version)).Nodup :=
        hmatching ▸ r.identities_nodup.sublist (filter_sublist.map _)
      have hnot' : (name, version) ∉ matching.map fun p => (p.name, p.version) := by
        intro hmem
        rw [hmatching] at hmem
        exact hnot (map_subset _ filter_sublist.subset hmem)
      show getCheckpoint (matching.foldl _ w.checkpoints) name version = none
      rw [getCheckpoint_foldl_advance hnodup, if_neg hnot']
      exact hnone

theorem executed_unregistered (hnot : (name, version) ∉ r.projectors.map fun p => (p.name, p.version))
    (h : run (execute r) (.start graph) ls = some d) : getCheckpoint d.world.checkpoints name version = none :=
  (executed_keeps (I := fun w => ProgressInv r w ∧ getCheckpoint w.checkpoints name version = none)
    (fun _ _ _ ⟨inv, hnone⟩ hs => ⟨inv.step hs, step_unregistered hnot inv hnone hs⟩)
    ⟨ProgressInv.start r graph, rfl⟩ h).2

theorem material_handled (inv : ProgressInv r w) {p : Projector (Stored P) G} (hp : p ∈ r.projectors) :
    material w.checkpoints (p.name, p.version) =
      match ((w.handledRows p).map (·.outboxId)).max? with
      | none => (p.name, p.version, 0, "none")
      | some top => (p.name, p.version, top, "active") := by
  have hsummarized := inv.summarized p hp
  unfold material
  cases hget : getCheckpoint w.checkpoints p.name p.version with
  | none =>
    rw [hget] at hsummarized
    rw [show w.handledRows p = [] from hsummarized]
    rfl
  | some row =>
    rw [hget] at hsummarized
    obtain ⟨-, hstate, top, htop, hid, -, hmax⟩ := hsummarized
    have hmax? : ((w.handledRows p).map (·.outboxId)).max? = some top.outboxId := by
      rw [List.max?_eq_some_iff]
      refine ⟨mem_map_of_mem htop, ?_⟩
      intro id hmem
      obtain ⟨other, hother, rfl⟩ := mem_map.1 hmem
      exact hmax other hother
    simp only [hmax?, hid, hstate, Option.getD_some, stateText]

/-! ## The highest of the rows -/

/-- The highest row of a list that only grows stays exactly when no new row is above all old ones. -/
theorem max?_eq_iff {old new : List OutboxRow} (hsub : ∀ row ∈ old, row ∈ new) :
    (new.map (·.outboxId)).max? = (old.map (·.outboxId)).max? ↔ ¬ Raises old new := by
  constructor
  · rintro heq ⟨row, hrow, habove⟩
    have hne : new.map (·.outboxId) ≠ [] := ne_nil_of_mem (mem_map_of_mem hrow)
    cases hmax : (new.map (·.outboxId)).max? with
    | none => exact hne (List.max?_eq_none_iff.1 hmax)
    | some top =>
      have hle : row.outboxId ≤ top := (List.max?_eq_some_iff.1 hmax).2 _ (mem_map_of_mem hrow)
      rw [hmax] at heq
      obtain ⟨old', hold', rfl⟩ := mem_map.1 (List.max?_eq_some_iff.1 heq.symm).1
      have hlt := habove old' hold'
      omega
  · intro hnot
    cases hmax : (old.map (·.outboxId)).max? with
    | none =>
      have hold : old = [] := map_eq_nil_iff.1 (List.max?_eq_none_iff.1 hmax)
      subst hold
      rw [List.max?_eq_none_iff, map_eq_nil_iff]
      cases new with
      | nil => rfl
      | cons row new => exact absurd ⟨row, mem_cons_self, by simp⟩ hnot
    | some top =>
      obtain ⟨hmem, hmax⟩ := List.max?_eq_some_iff.1 hmax
      obtain ⟨top', htop', rfl⟩ := mem_map.1 hmem
      rw [List.max?_eq_some_iff]
      refine ⟨mem_map_of_mem (hsub top' htop'), ?_⟩
      intro id hid
      obtain ⟨row, hrow, rfl⟩ := mem_map.1 hid
      by_contra hgt
      refine hnot ⟨row, hrow, fun row' hrow' => ?_⟩
      have := hmax _ (mem_map_of_mem hrow')
      omega

theorem handledRows_later (inv : RunnerInv r d.world) (h : run (execute r) d ls = some d')
    (p : Projector (Stored P) G) : ∀ row ∈ d.world.handledRows p, row ∈ d'.world.handledRows p := by
  intro row hrow
  exact (executed_keeps (I := fun w => RunnerInv r w ∧ row ∈ w.handledRows p)
    (fun _ _ _ ⟨inv, hrow⟩ hs => ⟨inv.step hs, handledRows_step inv hs p hrow⟩) ⟨inv, hrow⟩ h).2

/-- The entries of the digest are the same exactly when no projector's highest row moves. -/
theorem materials_eq_iff {before after : List (Statement (Stored P))}
    (hd : run (execute r) (.start graph) before = some d) (hd' : run (execute r) d after = some d')
    (projectors : List (String × String)) :
    projectors.map (material d'.world.checkpoints) = projectors.map (material d.world.checkpoints) ↔
      ∀ p ∈ r.projectors, (p.name, p.version) ∈ projectors →
        ¬ Raises (d.world.handledRows p) (d'.world.handledRows p) := by
  have hwhole : run (execute r) (.start graph) (before ++ after) = some d' := run_append.2 ⟨d, hd, hd'⟩
  have inv := executed_progress hd
  have inv' := executed_progress hwhole
  have hentry : ∀ p ∈ r.projectors, material d'.world.checkpoints (p.name, p.version) =
      material d.world.checkpoints (p.name, p.version) ↔
        ¬ Raises (d.world.handledRows p) (d'.world.handledRows p) := by
    intro p hp
    rw [← max?_eq_iff (handledRows_later inv.runner hd' p), material_handled inv' hp, material_handled inv hp]
    constructor
    · intro heq
      split at heq <;> split at heq <;> simp_all
    · intro heq
      rw [heq]
  rw [map_inj_left]
  constructor
  · intro heq p hp hmem
    exact (hentry p hp).1 (heq _ hmem)
  · rintro hnot ⟨name, version⟩ hmem
    by_cases hregistered : (name, version) ∈ r.projectors.map fun p => (p.name, p.version)
    · obtain ⟨p, hp, heq⟩ := mem_map.1 hregistered
      obtain ⟨rfl, rfl⟩ := Prod.mk.inj heq
      exact (hentry p hp).2 (hnot p hp hmem)
    · simp only [material, executed_unregistered hregistered hd, executed_unregistered hregistered hwhole]

/-! ## The watermark -/

theorem low_all {n : Nat} : (low w).all (n < ·) = true ↔ ∀ row ∈ w.outbox, waiting row = true → n < row.outboxId := by
  cases hlow : low w with
  | none =>
    have hnil := map_eq_nil_iff.1 (List.min?_eq_none_iff.1 hlow)
    simp only [Option.all_none, true_iff]
    intro row hrow hwaits
    exact absurd (mem_filter.2 ⟨hrow, hwaits⟩) (by rw [hnil]; exact not_mem_nil)
  | some m =>
    obtain ⟨hmem, hmin⟩ := List.min?_eq_some_iff.1 hlow
    obtain ⟨lowest, hlowest, rfl⟩ := mem_map.1 hmem
    obtain ⟨hlowest, hwaits⟩ := mem_filter.1 hlowest
    simp only [Option.all_some, decide_eq_true_eq]
    constructor
    · intro hlt row hrow hwaits
      have := hmin _ (mem_map_of_mem (mem_filter.2 ⟨hrow, hwaits⟩))
      omega
    · intro hall
      exact hall lowest hlowest hwaits

theorem mem_settledRows {row : OutboxRow} : row ∈ settledRows w ↔ row ∈ w.outbox ∧ row.status = .delivered ∧
    ∀ other ∈ w.outbox, waiting other = true → row.outboxId < other.outboxId := by
  simp only [settledRows, mem_filter, Bool.and_eq_true, decide_eq_true_eq, all_eq_true, and_imp]

theorem settledRows_markable : settledRows w = w.outbox.filter (markable (low w)) := by
  refine filter_congr fun row _ => ?_
  rw [Bool.eq_iff_iff, markable]
  simp only [Bool.and_eq_true, decide_eq_true_eq, low_all, all_eq_true, mem_filter, and_imp]

theorem watermark_settled {mark : OutboxRow} (h : watermark w (low w) = some mark) :
    mark ∈ settledRows w ∧ ∀ row ∈ settledRows w, row.outboxId ≤ mark.outboxId := by
  rw [settledRows_markable]
  exact leastBy_spec h

theorem exists_read {digest : List (String × String × Nat × String) → String} {projectors : List (String × String)}
    {now : Nat} {projectId repositoryId : Option String} (inv : RunnerInv r w) {row : OutboxRow}
    (hrow : row ∈ settledRows w) :
    ∃ freshness, read digest (.at w) projectors now projectId repositoryId = .ok freshness := by
  rw [settledRows_markable] at hrow
  obtain ⟨mark, hmark⟩ := exists_leastBy (OrderDual.toDual ·.outboxId) hrow
  obtain ⟨hmem, hdelivered, -, -⟩ := watermark_spec hmark
  have hrecent : mark ∈ recentRows w mark.outboxId := by
    refine (mem_recentRows inv.ids).2 ⟨mem_deliveredUpTo.2 ⟨hmem, le_refl _, hdelivered⟩, ?_⟩
    have hnone : newer w mark.outboxId mark.outboxId = 0 := by
      rw [newer, countP_eq_zero]
      intro other hother
      simpa using (mem_deliveredUpTo.1 hother).2.1
    rw [hnone]
    decide
  obtain ⟨event, hevent⟩ := inv.event hmem
  have hne : ((recentRows w mark.outboxId).filterMap (eventOf w)).map clamped ≠ [] :=
    ne_nil_of_mem (mem_map_of_mem (mem_filterMap.2 ⟨mark, hrecent, hevent⟩))
  unfold read
  rw [show watermark (Views.at w).watermark (low (Views.at w).waiting) = some mark from hmark]
  cases hinstant : recent w mark.outboxId with
  | none => exact absurd (List.max?_eq_none_iff.1 hinstant) hne
  | some instant =>
    simp only [Views.at, hinstant]
    exact ⟨_, rfl⟩

/-- Rows are told apart by their events. -/
theorem eq_of_eventId (inv : RunnerInv r w) {row row' : OutboxRow} (hrow : row ∈ w.outbox) (hrow' : row' ∈ w.outbox)
    (h : row.eventId = row'.eventId) : row = row' :=
  inj_on_of_nodup_map (inv.events ▸ inv.eventIds) hrow hrow' h

theorem watermark_eq_iff (inv : RunnerInv r d.world) (h : run (execute r) d ls = some d') {mark : OutboxRow}
    (hmark : watermark d.world (low d.world) = some mark) :
    watermark d'.world (low d'.world) = some mark ↔ ¬ Raises (settledRows d.world) (settledRows d'.world) ∧
      ∀ row ∈ d'.world.outbox, waiting row = true → ∀ old ∈ settledRows d.world, old.outboxId ≤ row.outboxId := by
  have inv' : RunnerInv r d'.world := executed_keeps (fun _ _ _ inv hs => inv.step hs) inv h
  obtain ⟨hsettled, hmax⟩ := watermark_settled hmark
  obtain ⟨hmem, hdelivered, -⟩ := mem_settledRows.1 hsettled
  have hmem' : mark ∈ d'.world.outbox := executed_terminal inv h hmem (by rw [hdelivered]; rfl)
  constructor
  · intro hmark'
    obtain ⟨hsettled', hmax'⟩ := watermark_settled hmark'
    refine ⟨?_, ?_⟩
    · rintro ⟨row, hrow, habove⟩
      have hlt := habove mark hsettled
      have hle := hmax' row hrow
      omega
    · intro row hrow hwaits old hold
      have hlt := (mem_settledRows.1 hsettled').2.2 row hrow hwaits
      have hle := hmax old hold
      omega
  · rintro ⟨hnot, hwaits⟩
    have hsettled' : mark ∈ settledRows d'.world := by
      refine mem_settledRows.2 ⟨hmem', hdelivered, ?_⟩
      intro other hother hwaits'
      refine lt_of_le_of_ne (hwaits other hother hwaits' mark hsettled) ?_
      intro heq
      rw [← eq_of_outboxId inv'.ids hmem' hother heq] at hwaits'
      simp [waiting, hdelivered] at hwaits'
    rw [settledRows_markable] at hsettled'
    obtain ⟨mark', hmark'⟩ := exists_leastBy (OrderDual.toDual ·.outboxId) hsettled'
    obtain ⟨hsettled'', hmax'⟩ := watermark_settled (w := d'.world) hmark'
    have hle : mark.outboxId ≤ mark'.outboxId := hmax' mark (settledRows_markable ▸ hsettled')
    have hge : mark'.outboxId ≤ mark.outboxId := by
      by_contra hgt
      refine hnot ⟨mark', hsettled'', fun row hrow => ?_⟩
      have := hmax row hrow
      omega
    have hsame : mark' = mark := eq_of_outboxId inv'.ids (mem_settledRows.1 hsettled'').1 hmem' (le_antisymm hge hle)
    exact hsame ▸ hmark'

/-! ## The token -/

/-- The parts of a token are told apart by its last bar. -/
theorem token_inj {e e' c c' : String} (hc : '|' ∉ c.toList) (hc' : '|' ∉ c'.toList)
    (h : e ++ "|" ++ c = e' ++ "|" ++ c') : e = e' ∧ c = c' := by
  have hlist := congrArg (List.reverse ∘ String.toList) h
  simp only [Function.comp_apply, String.toList_append, reverse_append] at hlist
  have hbar : ∀ text : String, ("|".toList.reverse ++ text.toList.reverse) = '|' :: text.toList.reverse := fun _ => rfl
  have hsplit : ∀ {before after : List Char}, '|' ∉ before →
      partition '|' (before ++ '|' :: after) = (before, after) := fun h => partition_append h
  have hparts := congrArg (partition '|') hlist
  rw [hbar, hbar, hsplit (by simpa using hc), hsplit (by simpa using hc')] at hparts
  obtain ⟨hcs, hes⟩ := Prod.mk.inj hparts
  exact ⟨String.toList_inj.1 (reverse_injective hes), String.toList_inj.1 (reverse_injective hcs)⟩

/-- **When a token changes.**  A cursor issued at `a` binds `a`'s token; at a later `b` the token differs, and no
check of the cursor succeeds, exactly when the rows have moved. -/
theorem delivery_stales_cursor (r : Runner (Stored P) G) (graph : G)
    (digest : List (String × String × Nat × String) → String) (hhex : ∀ entries, '|' ∉ (digest entries).toList)
    (before after : List (Statement (Stored P))) (a b : Database (Stored P) G)
    (ha : run (execute r) (.start graph) before = some a) (hb : run (execute r) a after = some b)
    (projectors : List (String × String)) (projectId repositoryId : Option String) (now now' : Nat)
    (hcollision : digest (projectors.map (material b.world.checkpoints)) =
      digest (projectors.map (material a.world.checkpoints)) →
      projectors.map (material b.world.checkpoints) = projectors.map (material a.world.checkpoints))
    (freshness : Freshness) (hread : read digest (.at a.world) projectors now projectId repositoryId = .ok freshness)
    (codec : CursorCodec) (tool query cursor : String) (position : Int)
    (hissued : codec.encode tool query position (snapshotToken freshness) now = .ok cursor)
    (hloads : codec.loads (canonical ⟨tool, query, position, snapshotToken freshness, timestamp (now + codec.ttl)⟩) =
      some (CursorFields.object ⟨tool, query, position, snapshotToken freshness, timestamp (now + codec.ttl)⟩)) :
    (Delivered r projectors a.world b.world →
      ∀ freshness', read digest (.at b.world) projectors now' projectId repositoryId = .ok freshness' →
        snapshotToken freshness' ≠ snapshotToken freshness ∧ ∀ tool' query' position',
          codec.decode cursor tool' query' (snapshotToken freshness') now' ≠ .ok position') ↔
      (Delivered r projectors a.world b.world → ¬ Unmoved r projectors a.world b.world) := by
  have inv := runnerInv_executed ha
  have inv' : RunnerInv r b.world := executed_keeps (fun _ _ _ inv hs => inv.step hs) inv hb
  obtain ⟨mark, hmark, hevent, -, -, -, hcheckpoint⟩ := read_eq_ok hread
  have hmark : watermark a.world (low a.world) = some mark := hmark
  have hbar : ∀ w : World (Stored P) G, '|' ∉ ("pc1-" ++ digest (projectors.map (material w.checkpoints))).toList := by
    intro w
    rw [String.toList_append, List.mem_append, not_or]
    exact ⟨by decide, hhex _⟩
  -- the two parts of the token, by the rows
  have hsame : ∀ freshness', read digest (.at b.world) projectors now' projectId repositoryId = .ok freshness' →
      (snapshotToken freshness' = snapshotToken freshness ↔ Unmoved r projectors a.world b.world) := by
    intro freshness' hread'
    obtain ⟨mark', hmark', hevent', -, -, -, hcheckpoint'⟩ := read_eq_ok hread'
    have hmark' : watermark b.world (low b.world) = some mark' := hmark'
    have hunmoved : Unmoved r projectors a.world b.world ↔
        projectors.map (material b.world.checkpoints) = projectors.map (material a.world.checkpoints) ∧
          watermark b.world (low b.world) = some mark := by
      rw [materials_eq_iff ha hb, watermark_eq_iff inv hb hmark]
      exact ⟨fun h => ⟨h.handled, h.settled, h.waits⟩, fun h => ⟨h.1, h.2.1, h.2.2⟩⟩
    rw [hunmoved, hmark', snapshotToken, snapshotToken, hevent, hevent', hcheckpoint, hcheckpoint']
    constructor
    · intro heq
      obtain ⟨hevents, hdigests⟩ := token_inj (hbar b.world) (hbar a.world) heq
      refine ⟨hcollision (String.append_right_inj "pc1-" |>.1 hdigests), congrArg some ?_⟩
      have hmem := executed_terminal inv hb (watermark_spec hmark).1 (by rw [(watermark_spec hmark).2.1]; rfl)
      exact eq_of_eventId inv' (watermark_spec hmark').1 hmem hevents
    · rintro ⟨hmaterials, hmarks⟩
      obtain rfl := Option.some.inj hmarks
      rw [show (Views.at b.world).checkpoints.checkpoints = b.world.checkpoints from rfl, hmaterials]
      rfl
  constructor
  · intro hstales hdelivered hunmoved
    -- the watermark's row is still settled, so the later read succeeds
    have hwatermark := (watermark_eq_iff inv hb hmark).2 ⟨hunmoved.settled, hunmoved.waits⟩
    have hread : ∃ freshness', read digest (.at b.world) projectors now' projectId repositoryId = .ok freshness' :=
      exists_read inv' (watermark_settled hwatermark).1
    obtain ⟨freshness', hread'⟩ := hread
    exact (hstales hdelivered freshness' hread').1 ((hsame freshness' hread').2 hunmoved)
  · intro hmoves hdelivered freshness' hread'
    have hne : snapshotToken freshness' ≠ snapshotToken freshness := fun heq =>
      hmoves hdelivered ((hsame freshness' hread').1 heq)
    refine ⟨hne, ?_⟩
    intro tool' query' position' hdecode
    rcases decode_issued hissued hloads tool' query' (snapshotToken freshness') now' with hrefused | hchecked
    · rw [hrefused] at hdecode
      cases hdecode
    · rw [hchecked] at hdecode
      exact hne (check_ok hdecode).2.2.2.1.symm

/-! ## A delivery behind both marks -/

/-- Row 1 is delivered, row 2 waits, row 3 is projected, and another worker has delivered row 4. -/
def overtakenDelivery : List (Statement (Stored Unit)) :=
  (["e1", "e2", "e3", "e4"].flatMap fun id => [.insert "A" (sampleEvent id 1 1) 5, .commit "A"]) ++
    [.work (.claim "u" 1 [] 10), .work (.project "u" .works), .work (.finalize "u" 11),
     .work (.claim "u" 1 [] 12), .work (.claim "v" 1 [] 13), .work (.project "v" .works),
     .work (.claim "w" 1 [] 14), .work (.project "w" .works), .work (.finalize "w" 15)]

/-- **A delivery that leaves the token as it is.** -/
theorem delivery_keeps_token :
    ∃ a b : Database (Stored Unit) (Finset String),
      run (execute sampleRunner) (.start ∅) overtakenDelivery = some a ∧
      run (execute sampleRunner) a [.work (.finalize "v" 16)] = some b ∧
      Delivered sampleRunner [("knowledge", "1")] a.world b.world ∧
      ∀ digest, ∃ freshness freshness',
        read digest (.at a.world) [("knowledge", "1")] 20 none none = .ok freshness ∧
        read digest (.at b.world) [("knowledge", "1")] 21 none none = .ok freshness' ∧
        snapshotToken freshness' = snapshotToken freshness := by
  have hrun : ((run (execute sampleRunner) (.start ∅) overtakenDelivery).bind fun a =>
      (run (execute sampleRunner) a [.work (.finalize "v" 16)]).map fun b =>
        ((settledRows a.world).map (·.eventId), (settledRows b.world).map (·.eventId),
          decide (material a.world.checkpoints ("knowledge", "1") = ("knowledge", "1", 4, "active") ∧
            material b.world.checkpoints ("knowledge", "1") = ("knowledge", "1", 4, "active")) &&
          sampleRunner.projectors.any fun p => p.name = "knowledge" && p.version = "1" &&
            (b.world.handledRows p).any fun row => decide (row ∉ a.world.handledRows p))) =
      some (["e1"], ["e1"], true) := by decide +kernel
  obtain ⟨a, ha, hrest⟩ := Option.bind_eq_some_iff.1 hrun
  obtain ⟨b, hb, heq⟩ := Option.map_eq_some_iff.1 hrest
  simp only [Prod.mk.injEq, Bool.and_eq_true, decide_eq_true_eq] at heq
  obtain ⟨hsettled, hsettled', ⟨hmaterial, hmaterial'⟩, hdelivered⟩ := heq
  refine ⟨a, b, ha, hb, ?_, ?_⟩
  · obtain ⟨p, hp, hrows⟩ := List.any_eq_true.1 hdelivered
    simp only [Bool.and_eq_true, decide_eq_true_eq, List.any_eq_true] at hrows
    obtain ⟨⟨hname, hversion⟩, row, hrow, hnew⟩ := hrows
    exact ⟨p, hp, by simp [hname, hversion], row, hrow, hnew⟩
  intro digest
  have inv := runnerInv_executed ha
  have inv' : RunnerInv sampleRunner b.world := executed_keeps (fun _ _ _ inv hs => inv.step hs) inv hb
  have hfirst : ∀ {w : World (Stored Unit) (Finset String)} {mark : OutboxRow},
      (settledRows w).map (·.eventId) = ["e1"] → mark ∈ settledRows w → mark.eventId = "e1" := by
    intro w mark hids hmem
    have hid := List.mem_map_of_mem (f := (·.eventId)) hmem
    rw [hids] at hid
    exact List.mem_singleton.1 hid
  have hread : ∀ {w : World (Stored Unit) (Finset String)} (_ : RunnerInv sampleRunner w) (now : Nat),
      (settledRows w).map (·.eventId) = ["e1"] → material w.checkpoints ("knowledge", "1") = ("knowledge", "1", 4, "active") →
      ∃ freshness, read digest (.at w) [("knowledge", "1")] now none none = .ok freshness ∧
        snapshotToken freshness = "e1" ++ "|" ++ ("pc1-" ++ digest [("knowledge", "1", 4, "active")]) := by
    intro w inv now hids hmaterial
    obtain ⟨row, hrow, -⟩ := List.mem_map.1 (hids ▸ List.mem_singleton.2 rfl : "e1" ∈ (settledRows w).map (·.eventId))
    have hread : ∃ freshness, read digest (.at w) [("knowledge", "1")] now none none = .ok freshness :=
      exists_read inv hrow
    obtain ⟨freshness, hread⟩ := hread
    obtain ⟨mark, hmark, hevent, -, -, -, hcheckpoint⟩ := read_eq_ok hread
    refine ⟨freshness, hread, ?_⟩
    rw [snapshotToken, hevent, hcheckpoint, hfirst hids (watermark_settled hmark).1]
    show "e1" ++ "|" ++ ("pc1-" ++ digest [material w.checkpoints ("knowledge", "1")]) = _
    rw [hmaterial]
  obtain ⟨freshness, hread₁, htoken⟩ := hread inv 20 hsettled hmaterial
  obtain ⟨freshness', hread₂, htoken'⟩ := hread inv' 21 hsettled' hmaterial'
  exact ⟨freshness, freshness', hread₁, hread₂, htoken'.trans htoken.symm⟩

/-- SHA-256 of the two lists of checkpoints that the sample run reaches. -/
def sampleDigest (entries : List (String × String × Nat × String)) : String :=
  if entries = [("knowledge", "1", 1, "active")] then "5e0418c4c4d12d859df877d262d3d17cc41e9dc2"
  else "17b3179ef300fe72277a032e2769f38ee3280097"

def sampleFields : CursorFields where
  tool := "repository_overview"
  digest := "a8b771920b8319e47251d1360f5e880bc18e8d329b0f0d003ea3c7e615558947"
  position := 1
  asOfEventId := "e1|pc1-5e0418c4c4d12d859df877d262d3d17cc41e9dc2"
  expires := 900

/-- The signature and the reading of the sample cursor's payload, under a key of 32 letters `k`. -/
def sampleCodec : CursorCodec where
  sign _ := [214, 147, 49, 131, 201, 148, 37, 158, 147, 144, 26, 173, 0, 221, 190, 80, 78, 227, 114, 192, 62, 216, 245, 199, 172, 213, 55, 39, 231, 129, 110, 25]
  loads payload := if payload = canonical sampleFields then some sampleFields.object else none
  ttl := 900000000

theorem delivery_stales_cursor_sample :
    ∃ (a b : Database (Stored Unit) (Finset String)) (freshness : Freshness) (cursor : String),
      run (execute sampleRunner) (.start ∅) delivered = some a ∧ run (execute sampleRunner) a deliveredToo = some b ∧
      read sampleDigest (.at a.world) [("knowledge", "1")] 12 none none = .ok freshness ∧
      sampleCodec.encode sampleFields.tool sampleFields.digest 1 (snapshotToken freshness) 12 = .ok cursor ∧
      Delivered sampleRunner [("knowledge", "1")] a.world b.world ∧
      ∀ freshness', read sampleDigest (.at b.world) [("knowledge", "1")] 20 none none = .ok freshness' →
        snapshotToken freshness' ≠ snapshotToken freshness ∧ ∀ tool' query' position',
          sampleCodec.decode cursor tool' query' (snapshotToken freshness') 20 ≠ .ok position' := by
  have hrun : ((run (execute sampleRunner) (.start ∅) delivered).bind fun a =>
      (run (execute sampleRunner) a deliveredToo).bind fun b =>
        (read sampleDigest (.at a.world) [("knowledge", "1")] 12 none none).toOption.map fun freshness =>
          (snapshotToken freshness, decide (material a.world.checkpoints ("knowledge", "1") = ("knowledge", "1", 1, "active") ∧
              material b.world.checkpoints ("knowledge", "1") = ("knowledge", "1", 2, "active")) &&
            sampleRunner.projectors.all fun p => p.name = "knowledge" && p.version = "1" &&
              (b.world.handledRows p).any fun row => (a.world.handledRows p).all (·.outboxId < row.outboxId))) =
      some (sampleFields.asOfEventId, true) := by decide +kernel
  obtain ⟨a, ha, hrest⟩ := Option.bind_eq_some_iff.1 hrun
  obtain ⟨b, hb, hrest⟩ := Option.bind_eq_some_iff.1 hrest
  obtain ⟨freshness, hread, heq⟩ := Option.map_eq_some_iff.1 hrest
  simp only [Prod.mk.injEq, Bool.and_eq_true, decide_eq_true_eq] at heq
  obtain ⟨htoken, ⟨hmaterial, hmaterial'⟩, hhandled⟩ := heq
  have hread := toOption_eq_some hread
  have hp : (sampleRunner.projectors.head (by decide)) ∈ sampleRunner.projectors := List.head_mem _
  have hraises := List.all_eq_true.1 hhandled _ hp
  simp only [Bool.and_eq_true, decide_eq_true_eq, List.any_eq_true, List.all_eq_true] at hraises
  obtain ⟨⟨hname, hversion⟩, row, hrow, habove⟩ := hraises
  have hdelivered : Delivered sampleRunner [("knowledge", "1")] a.world b.world :=
    ⟨_, hp, by simp [hname, hversion], row, hrow, fun hold => lt_irrefl _ (habove row hold)⟩
  have hissued : ∃ cursor,
      sampleCodec.encode sampleFields.tool sampleFields.digest 1 (snapshotToken freshness) 12 = .ok cursor :=
    ⟨_, if_neg (by decide)⟩
  obtain ⟨cursor, hissued⟩ := hissued
  refine ⟨a, b, freshness, cursor, ha, hb, hread, hissued, hdelivered, ?_⟩
  refine (delivery_stales_cursor sampleRunner ∅ sampleDigest ?_ delivered deliveredToo a b ha hb [("knowledge", "1")]
    none none 12 20 ?_ freshness hread sampleCodec sampleFields.tool sampleFields.digest cursor 1 hissued ?_).2 ?_
    hdelivered
  · intro entries
    unfold sampleDigest
    split <;> decide +kernel
  · intro heq
    rw [List.map_singleton, List.map_singleton, hmaterial, hmaterial'] at heq
    exact absurd heq (by decide +kernel)
  · have hfields : CursorFields.mk sampleFields.tool sampleFields.digest 1 (snapshotToken freshness)
        (timestamp (12 + sampleCodec.ttl)) = sampleFields := by
      rw [htoken]
      decide +kernel
    rw [hfields]
    simp only [sampleCodec, if_true]
  · intro _ hunmoved
    exact hunmoved.handled _ hp (by simp [hname, hversion]) ⟨row, hrow, habove⟩

end Retrieval
