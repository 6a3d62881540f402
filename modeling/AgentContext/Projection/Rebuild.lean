import AgentContext.Projection.Replay

/-!
# Rebuilding in place

`_rebuild_projections` with `in_place`, against workers that do not stop: between any two of its statements they
claim, project and finalize.

    _write_checkpoints      every checkpoint to zero, rebuilding
    wipe_graph
    replay_ledger           pages of delivered rows, each row in a graph transaction of its own
    _finalize_checkpoints   locks the checkpoints, catches up, and for each projector compares what the replay
                            projected with the delivered rows up to the last one it projected

The lock keeps a worker from finalizing a row that a locked projector handles.  The comparison is up to the
projector's own last row, so a row that was delivered behind the replay and above that one goes unnoticed.
-/

namespace Projection

open Transition Keyset List

attribute [local instance] lawfulBEq_key

variable {J G : Type} {r : Runner J G} {w w' : World J G}
variable {projected : List ((String × String) × Nat)} {p : Projector J G} {l : Label J}
variable {checkpoints : List ProjectionCheckpointRow}
variable {writes : Option (LedgerEvent J × List (Projector J G))} {now : Nat} {row : ProjectionCheckpointRow}

/-! ## The replay -/

/-- `DEFAULT_PAGE_SIZE`. -/
def defaultPageSize : Nat := 200

def Projector.key (p : Projector J G) : String × String := (p.name, p.version)

/-- Where `replay_ledger` is: `page` holds the ids of its page that are still to come. -/
structure ReplayCursor where
  after : Nat
  page : List Nat
  rows : Nat
  projected : Nat
  progress : List ((String × String) × ReplayProgress)

def ReplayCursor.start (r : Runner J G) : ReplayCursor := ⟨0, [], 0, 0, r.projectors.map fun p => (p.key, ⟨0, none, none⟩)⟩

/-- The head of a replay that goes on from where another one stopped. -/
def ReplayCursor.head (cursor : ReplayCursor) : Option Nat := if cursor.after = 0 then none else some cursor.after

/-- `progress[...]`. -/
def progressOf (progress : List ((String × String) × ReplayProgress)) (key : String × String) : ReplayProgress :=
  (progress.lookup key).getD ⟨0, none, none⟩

def recordProgress (keys : List (String × String)) (outboxId : Nat) (eventId : String)
    (progress : List ((String × String) × ReplayProgress)) : List ((String × String) × ReplayProgress) :=
  progress.map fun (key, step) => if key ∈ keys then (key, ⟨step.count + 1, some outboxId, some eventId⟩) else (key, step)

/-- What one row writes: nothing when no projector matches. -/
def rowWrites (r : Runner J G) (w : World J G) (outboxId : Nat) :
    Except String (Option (LedgerEvent J × List (Projector J G))) := do
  let eventId := (w.outbox.find? (·.outboxId = outboxId)).elim "" (·.eventId)
  let event ← loadEvent r w.events eventId
  let matching ← (matchingProjectors r.projectors event.eventType).mapError (·.2)
  return if matching = [] then none else some (event, matching)

/-- After a row of the page. -/
def ReplayCursor.took (cursor : ReplayCursor) (outboxId : Nat) (rest : List Nat) :
    Option (LedgerEvent J × List (Projector J G)) → ReplayCursor
  | none => { cursor with after := outboxId, page := rest, rows := cursor.rows + 1 }
  | some (event, matching) =>
    { after := outboxId
      page := rest
      rows := cursor.rows + 1
      projected := cursor.projected + 1
      progress := recordProgress (matching.map (·.key)) outboxId event.eventId cursor.progress }

/-- What one row has been projected by. -/
def projections (outboxId : Nat) : Option (LedgerEvent J × List (Projector J G)) → List ((String × String) × Nat)
  | none => []
  | some (_, matching) => matching.map fun p => (p.key, outboxId)

inductive Replayed (J G : Type)
  | finished
  | raised (error : String)
  | on (w : World J G) (cursor : ReplayCursor) (projected : List ((String × String) × Nat))

/-- The next statement of `replay_ledger` with `delivered_only`: a page, or a row of one. -/
def replayNext (r : Runner J G) (w : World J G) (cursor : ReplayCursor) : Replayed J G :=
  match cursor.page with
  | [] =>
    match page (replayIds w true) defaultPageSize cursor.after with
    | [] => .finished
    | ids => .on w { cursor with page := ids } []
  | outboxId :: rest =>
    match rowWrites r w outboxId with
    | .error error => .raised error
    | .ok writes => .on (w.write writes) (cursor.took outboxId rest writes) (projections outboxId writes)

/-! ## `_finalize_checkpoints` -/

inductive RebuildError
  | runnerActive
  | raised (error : String)
deriving DecidableEq, Repr

def upsertCheckpoint (checkpoints : List ProjectionCheckpointRow) (row : ProjectionCheckpointRow) :
    List ProjectionCheckpointRow :=
  if checkpoints.any (·.isFor row.projectorName row.projectorVersion) then
    checkpoints.map fun old => if old.isFor row.projectorName row.projectorVersion then row else old
  else checkpoints ++ [row]

/-- `_write_checkpoints` with no progress. -/
def markRebuilding (projectors : List (Projector J G)) (now : Nat) (checkpoints : List ProjectionCheckpointRow) :
    List ProjectionCheckpointRow :=
  projectors.foldl (fun checkpoints p => upsertCheckpoint checkpoints ⟨p.name, p.version, none, none, 0, .rebuilding, now⟩)
    checkpoints

/-- The delivered events that a projector handles, up to a position. -/
def deliveredCovered (w : World J G) (p : Projector J G) (position : Nat) : Except RebuildError Nat :=
  match handledStats p (eventTypeStats w (some position)) with
  | .ok handled => .ok (sumOf (·.deliveredCovered) handled)
  | .error error => .error (.raised error)

/-- `_require_nothing_missed`. -/
def requireNothingMissed (w : World J G) (p : Projector J G) (step : ReplayProgress) : Except RebuildError Unit :=
  match step.lastOutboxId with
  | none => .ok ()
  | some last => do
    let delivered ← deliveredCovered w p last
    if delivered ≠ step.count then .error .runnerActive else .ok ()

/-- The checkpoint that `_finalize_checkpoints` writes for a projector, over its live one. -/
def finalizeProjector (w : World J G) (p : Projector J G) (live : Option ProjectionCheckpointRow) (step : ReplayProgress)
    (now : Nat) : Except RebuildError ProjectionCheckpointRow := do
  requireNothingMissed w p step
  let replayedAt := step.lastOutboxId
  let position := ([live.bind (·.lastOutboxId), replayedAt].filterMap id).max?
  let eventId := if position = replayedAt then step.lastEventId else live.bind (·.lastEventId)
  let count ← match position with
    | none => .ok 0
    | some position => deliveredCovered w p position
  return ⟨p.name, p.version, position, eventId, count, .active, now⟩

/-! ## The rebuild -/

/-- A projector and its checkpoint when it was locked. -/
abbrev Locked (J G : Type) := Projector J G × Option ProjectionCheckpointRow

inductive Phase (J G : Type)
  | idle
  | marked
  | replaying (cursor : ReplayCursor)
  | locking (rest : List (Projector J G)) (live : List (Locked J G)) (cursor : ReplayCursor)
  | catchingUp (live : List (Locked J G)) (cursor : ReplayCursor)
  | finalizing (rest live : List (Locked J G)) (values : List ProjectionCheckpointRow) (cursor : ReplayCursor)
  | returned (cursor : ReplayCursor)
  | failed (error : RebuildError)

/-- The checkpoint rows that the transaction holds `FOR UPDATE`. -/
def Phase.live : Phase J G → List (Locked J G)
  | .locking _ live _ | .catchingUp live _ | .finalizing _ live _ _ => live
  | _ => []

structure Rebuilding (J G : Type) where
  world : World J G
  phase : Phase J G
  /-- What the replay has projected, by projector and outbox id, for the record: nothing reads it. -/
  projected : List ((String × String) × Nat)

def Rebuilding.start (graph : G) : Rebuilding J G := ⟨World.start graph, .idle, []⟩

/-- The projector's checkpoint row is locked. -/
def Rebuilding.holds (s : Rebuilding J G) (p : Projector J G) : Bool :=
  s.phase.live.any fun (q, row) => q.key = p.key && row.isSome

/-- A worker that would advance a locked checkpoint waits. -/
def Rebuilding.waits (s : Rebuilding J G) : Label J → Bool
  | .finalize id _ =>
    match s.world.workers id with
    | ⟨claimed :: _, some (.success matching)⟩ => s.world.outbox.any (claimed.fence id) && matching.any s.holds
    | _ => false
  | _ => false

inductive Act (J : Type)
  | runner (l : Label J)
  /-- The rebuild's next statement, at a time. -/
  | rebuild (now : Nat)

/-- The rebuild's next statement; `empty` is the graph after `wipe_graph` and `ensure_schema`. -/
def Rebuilding.next (r : Runner J G) (empty : G) (s : Rebuilding J G) (now : Nat) : Option (Rebuilding J G) :=
  match s.phase with
  | .idle => some { s with
      world := { s.world with checkpoints := markRebuilding r.projectors now s.world.checkpoints }
      phase := .marked }
  | .marked => some {
      world := { s.world with graph := empty, written := [] }
      phase := .replaying (.start r)
      projected := [] }
  | .replaying cursor =>
    match replayNext r s.world cursor with
    | .finished => some { s with phase := .locking r.projectors [] cursor }
    | .raised error => some { s with phase := .failed (.raised error) }
    | .on world cursor projected => some ⟨world, .replaying cursor, s.projected ++ projected⟩
  | .locking (p :: rest) live cursor => some { s with
      phase := .locking rest (live ++ [(p, getCheckpoint s.world.checkpoints p.name p.version)]) cursor }
  | .locking [] live cursor => some { s with phase := .catchingUp live { cursor with rows := 0, projected := 0 } }
  | .catchingUp live cursor =>
    match replayNext r s.world cursor with
    | .finished => some { s with phase := .finalizing live live [] cursor }
    | .raised error => some { s with phase := .failed (.raised error) }
    | .on world cursor projected => some ⟨world, .catchingUp live cursor, s.projected ++ projected⟩
  | .finalizing ((p, row) :: rest) live values cursor =>
    -- no row of a locked projector is delivered between its statements, so they see the same counts
    match finalizeProjector s.world p row (progressOf cursor.progress p.key) now with
    | .error error => some { s with phase := .failed error }
    | .ok value => some { s with phase := .finalizing rest live (values ++ [value]) cursor }
  | .finalizing [] _ values cursor =>
    match World.commit { s.world with checkpoints := values.foldl upsertCheckpoint s.world.checkpoints } with
    | none => some { s with phase := .failed (.raised "IntegrityError") }
    | some world => some { s with world := world, phase := .returned cursor }
  | .returned _ | .failed _ => none

def Rebuilding.step (r : Runner J G) (empty : G) (s : Rebuilding J G) : Act J → Option (Rebuilding J G)
  | .runner l => if s.waits l then none else (Projection.step r s.world l).map fun world => { s with world := world }
  | .rebuild now => s.next r empty now

/-! ## What a replay has projected -/

def idsOf (projected : List ((String × String) × Nat)) (key : String × String) : List Nat :=
  (projected.filter (·.1 = key)).map (·.2)

theorem mem_idsOf {key : String × String} {id : Nat} : id ∈ idsOf projected key ↔ (key, id) ∈ projected := by
  simp [idsOf]

theorem idsOf_append (projected more : List ((String × String) × Nat)) (key : String × String) :
    idsOf (projected ++ more) key = idsOf projected key ++ idsOf more key := by
  simp [idsOf]

section Progress

variable {progress : List ((String × String) × ReplayProgress)} {keys : List (String × String)} {key : String × String}
  {outboxId : Nat} {eventId : String}

theorem recordProgress_keys : (recordProgress keys outboxId eventId progress).map (·.1) = progress.map (·.1) := by
  rw [recordProgress, map_map]
  apply map_congr_left
  intro entry _
  simp only [Function.comp_apply]
  split <;> rfl

theorem progressOf_record (hkey : key ∈ progress.map (·.1)) :
    progressOf (recordProgress keys outboxId eventId progress) key =
      if key ∈ keys then ⟨(progressOf progress key).count + 1, some outboxId, some eventId⟩ else progressOf progress key := by
  unfold progressOf recordProgress
  induction progress with
  | nil => cases hkey
  | cons entry progress ih =>
    obtain ⟨other, step⟩ := entry
    by_cases hother : key = other
    · subst hother
      by_cases hmem : key ∈ keys <;> simp [hmem]
    · have hkey' : key ∈ progress.map (·.1) := by simpa [hother] using hkey
      have hne : (key == other) = false := by simpa using hother
      by_cases hmem : other ∈ keys
      · simp only [map_cons, hmem, if_true, lookup_cons, hne]
        exact ih hkey'
      · simp only [map_cons, hmem, if_false, lookup_cons, hne]
        exact ih hkey'

theorem progressOf_start (ps : List (Projector J G)) (key : String × String) :
    progressOf (ps.map fun p => (p.key, (⟨0, none, none⟩ : ReplayProgress))) key = ⟨0, none, none⟩ := by
  unfold progressOf
  induction ps with
  | nil => rfl
  | cons p ps ih =>
    rw [map_cons, lookup_cons]
    split
    · rfl
    · exact ih

end Progress

structure CursorInv (r : Runner J G) (w : World J G) (projected : List ((String × String) × Nat))
    (cursor : ReplayCursor) : Prop where
  keys : cursor.progress.map (·.1) = r.projectors.map (·.key)
  rows : ∀ p ∈ r.projectors, ∀ id ∈ idsOf projected p.key, id ≤ cursor.after ∧ ∃ row ∈ w.handledRows p, row.outboxId = id
  nodup : ∀ p ∈ r.projectors, (idsOf projected p.key).Nodup
  count : ∀ p ∈ r.projectors, (progressOf cursor.progress p.key).count = (idsOf projected p.key).length
  last : ∀ p ∈ r.projectors, (progressOf cursor.progress p.key).lastOutboxId = (idsOf projected p.key).max?
  sorted : cursor.page.Pairwise (· < ·)
  page : ∀ id ∈ cursor.page, cursor.after < id ∧ ∃ row ∈ w.outbox, row.outboxId = id ∧ row.status = .delivered

theorem CursorInv.start (r : Runner J G) (w : World J G) : CursorInv r w [] (.start r) where
  keys := by simp [ReplayCursor.start]
  rows := by simp [idsOf]
  nodup := by simp [idsOf]
  count := fun p _ => congrArg ReplayProgress.count (progressOf_start r.projectors p.key)
  last := fun p _ => congrArg ReplayProgress.lastOutboxId (progressOf_start r.projectors p.key)
  sorted := List.Pairwise.nil
  page := by simp [ReplayCursor.start]

theorem write_handledRows (w : World J G) (writes : Option (LedgerEvent J × List (Projector J G))) (p : Projector J G) :
    (w.write writes).handledRows p = w.handledRows p := by
  obtain ⟨he, ho, -⟩ := write_tables w writes
  unfold World.handledRows
  rw [he, ho]

theorem rowWrites_ok (inv : RunnerInv r w) {row : OutboxRow} (hrow : row ∈ w.outbox)
    (h : rowWrites r w row.outboxId = .ok writes) :
    ∃ event, w.events.find? (·.eventId = row.eventId) = some event ∧
      (writes.elim [] fun writes => writes.2) = r.projectors.filter (·.takes event.eventType) ∧
      ∀ written ∈ writes, written.1 = event := by
  have hfind := find?_unique inv.ids hrow
  simp only [rowWrites, hfind, Option.elim_some] at h
  cases hload : loadEvent r w.events row.eventId with
  | error error =>
    rw [hload] at h
    cases h
  | ok event =>
    rw [hload] at h
    refine ⟨event, (loadEvent_ok.1 hload).1, ?_⟩
    cases hmatch : matchingProjectors r.projectors event.eventType with
    | error error =>
      simp only [bind, Except.bind, hmatch, Except.mapError] at h
      cases h
    | ok matching =>
      simp only [bind, Except.bind, hmatch, Except.mapError, pure, Except.pure, Except.ok.injEq] at h
      rw [← matchingProjectors_ok hmatch]
      subst h
      by_cases hnil : matching = []
      · simp [hnil]
      · simp [hnil]

theorem idsOf_map (outboxId : Nat) (key : String × String) : ∀ {ps : List (Projector J G)}, (ps.map (·.key)).Nodup →
    idsOf (ps.map fun p => (p.key, outboxId)) key = if key ∈ ps.map (·.key) then [outboxId] else []
  | [], _ => rfl
  | p :: ps, hnodup => by
    rw [map_cons, nodup_cons] at hnodup
    have ih := idsOf_map outboxId key hnodup.2
    unfold idsOf at ih ⊢
    by_cases hp : p.key = key
    · subst hp
      rw [map_cons, filter_cons_of_pos (by simp), map_cons, ih, if_neg hnodup.1, if_pos (by simp)]
    · rw [map_cons, filter_cons_of_neg (by simpa using hp), ih]
      simp [Ne.symm hp]

theorem key_mem_filter (hp : p ∈ r.projectors) {eventType : String} :
    p.key ∈ (r.projectors.filter (·.takes eventType)).map (·.key) ↔ p.takes eventType = true := by
  constructor
  · intro hmem
    obtain ⟨q, hq, heq⟩ := mem_map.1 hmem
    obtain ⟨hq, htakes⟩ := mem_filter.1 hq
    rwa [inj_on_of_nodup_map r.identities_nodup hq hp heq] at htakes
  · intro htakes
    exact mem_map_of_mem (mem_filter.2 ⟨hp, htakes⟩)

theorem idsOf_projections {outboxId : Nat} {eventType : String}
    (hmatching : (writes.elim [] fun writes => writes.2) = r.projectors.filter (·.takes eventType))
    (hp : p ∈ r.projectors) :
    idsOf (projections outboxId writes) p.key = if p.takes eventType then [outboxId] else [] := by
  have hproj : projections outboxId writes = (r.projectors.filter (·.takes eventType)).map fun q => (q.key, outboxId) := by
    rw [← hmatching]
    cases writes <;> rfl
  rw [hproj, idsOf_map outboxId p.key (r.identities_nodup.sublist (filter_sublist.map _))]
  simp only [key_mem_filter hp]

theorem max?_append_above {ids : List Nat} {id : Nat} (h : ∀ other ∈ ids, other ≤ id) : (ids ++ [id]).max? = some id := by
  rw [List.max?_eq_some_iff]
  refine ⟨by simp, ?_⟩
  intro other hother
  rcases mem_append.1 hother with hother | hother
  · exact h other hother
  · exact (mem_singleton.1 hother).le

/-- The rebuild's replay keeps its account. -/
theorem CursorInv.next {projected projected' : List ((String × String) × Nat)} {cursor cursor' : ReplayCursor}
    (inv : RunnerInv r w) (hcursor : CursorInv r w projected cursor)
    (h : replayNext r w cursor = .on w' cursor' projected') : CursorInv r w' (projected ++ projected') cursor' := by
  unfold replayNext at h
  split at h
  · -- a page of the delivered rows above the cursor
    split at h
    · cases h
    · next ids hids =>
      obtain ⟨rfl, rfl, rfl⟩ := Replayed.on.inj h
      rw [append_nil]
      have hsorted := (sortedSet_pairwise ((w.outbox.filter (replayed true)).map (·.outboxId)))
      refine ⟨hcursor.keys, hcursor.rows, hcursor.nodup, hcursor.count, hcursor.last, ?_, ?_⟩
      · exact (hsorted.sublist filter_sublist).sublist (take_sublist _ _)
      · intro id hid
        obtain ⟨hmem, habove⟩ := mem_filter.1 (mem_of_mem_take hid)
        obtain ⟨row, hrow, hrowId⟩ := mem_map.1 ((mem_sortedSet _).1 hmem)
        obtain ⟨hrow, hreplayed⟩ := mem_filter.1 hrow
        have hdelivered : decide (row.status = .delivered) = true := hreplayed
        exact ⟨by simpa using habove, row, hrow, hrowId, of_decide_eq_true hdelivered⟩
  · next outboxId rest hpage =>
    split at h
    · cases h
    · next writes hwrites =>
      obtain ⟨rfl, rfl, rfl⟩ := Replayed.on.inj h
      obtain ⟨habove, row, hrow, rfl, hdelivered⟩ := hcursor.page outboxId (by rw [hpage]; exact mem_cons_self)
      obtain ⟨event, hfind, hmatching, hevent⟩ := rowWrites_ok inv hrow hwrites
      have hsorted := hcursor.sorted
      rw [hpage, pairwise_cons] at hsorted
      have hids : ∀ p ∈ r.projectors, idsOf (projected ++ projections row.outboxId writes) p.key =
          idsOf projected p.key ++ if p.takes event.eventType then [row.outboxId] else [] := by
        intro p hp
        rw [idsOf_append, idsOf_projections hmatching hp]
      have htook : ∀ p ∈ r.projectors, progressOf (cursor.took row.outboxId rest writes).progress p.key =
          if p.takes event.eventType then ⟨(progressOf cursor.progress p.key).count + 1, some row.outboxId,
            some event.eventId⟩ else progressOf cursor.progress p.key := by
        intro p hp
        cases writes with
        | none =>
          have hnot : ¬ p.takes event.eventType = true := by
            intro htakes
            have hmem : p ∈ r.projectors.filter (·.takes event.eventType) := mem_filter.2 ⟨hp, htakes⟩
            rw [← hmatching] at hmem
            cases hmem
          rw [if_neg hnot]
          rfl
        | some written =>
          obtain ⟨written, matching⟩ := written
          obtain rfl : written = event := hevent _ rfl
          have hkey : p.key ∈ cursor.progress.map (·.1) := hcursor.keys ▸ mem_map_of_mem hp
          show progressOf (recordProgress (matching.map (·.key)) _ _ _) _ = _
          rw [progressOf_record hkey, show matching = r.projectors.filter (·.takes written.eventType) from hmatching]
          simp only [key_mem_filter hp]
      refine ⟨?_, ?_, ?_, ?_, ?_, ?_, ?_⟩
      · cases writes with
        | none => exact hcursor.keys
        | some writes => exact recordProgress_keys.trans hcursor.keys
      · intro p hp id hid
        have hafter : (cursor.took row.outboxId rest writes).after = row.outboxId := by cases writes <;> rfl
        rw [write_handledRows, hafter]
        rw [hids p hp] at hid
        rcases mem_append.1 hid with hid | hid
        · obtain ⟨hle, hhandled⟩ := hcursor.rows p hp id hid
          exact ⟨by omega, hhandled⟩
        · split at hid
          · next htakes =>
            obtain rfl := mem_singleton.1 hid
            exact ⟨le_refl _, row, mem_handledRows.2 ⟨hrow, hdelivered, by simp [Projector.takesRow, hfind, htakes]⟩, rfl⟩
          · cases hid
      · intro p hp
        rw [hids p hp]
        split
        · rw [nodup_append]
          refine ⟨hcursor.nodup p hp, nodup_singleton _, ?_⟩
          intro id hid other hother
          have := (hcursor.rows p hp id hid).1
          have := mem_singleton.1 hother
          omega
        · rw [append_nil]
          exact hcursor.nodup p hp
      · intro p hp
        rw [hids p hp, htook p hp]
        split
        · rw [length_append, hcursor.count p hp]
          rfl
        · rw [append_nil]
          exact hcursor.count p hp
      · intro p hp
        rw [hids p hp, htook p hp]
        split
        · refine (max?_append_above fun other hother => ?_).symm
          have := (hcursor.rows p hp other hother).1
          omega
        · rw [append_nil]
          exact hcursor.last p hp
      · have hrest : (cursor.took row.outboxId rest writes).page = rest := by cases writes <;> rfl
        rw [hrest]
        exact hsorted.2
      · intro id hid
        have hrest : (cursor.took row.outboxId rest writes).page = rest := by cases writes <;> rfl
        have hafter : (cursor.took row.outboxId rest writes).after = row.outboxId := by cases writes <;> rfl
        rw [hrest] at hid
        rw [hafter, (write_tables w writes).2.1]
        exact ⟨hsorted.1 id hid, (hcursor.page id (by rw [hpage]; exact mem_cons_of_mem _ hid)).2⟩

variable {cursor : ReplayCursor}

theorem CursorInv.runner (inv : RunnerInv r w) (hcursor : CursorInv r w projected cursor) (h : step r w l = some w') :
    CursorInv r w' projected cursor := by
  refine ⟨hcursor.keys, ?_, hcursor.nodup, hcursor.count, hcursor.last, hcursor.sorted, ?_⟩
  · intro p hp id hid
    obtain ⟨hle, row, hrow, hrowId⟩ := hcursor.rows p hp id hid
    exact ⟨hle, row, handledRows_step inv h p hrow, hrowId⟩
  · intro id hid
    obtain ⟨habove, row, hrow, hrowId, hdelivered⟩ := hcursor.page id hid
    exact ⟨habove, row, step_terminal inv h hrow (by rw [hdelivered]; rfl), hrowId, hdelivered⟩

/-! ## What the final check finds -/

/-- The replay has projected every row the projector handles, up to the last one it projected. -/
def Complete (w : World J G) (projected : List ((String × String) × Nat)) (cursor : ReplayCursor)
    (p : Projector J G) : Prop :=
  ∀ row ∈ w.handledRows p, ∀ last ∈ (progressOf cursor.progress p.key).lastOutboxId, row.outboxId ≤ last →
    (p.key, row.outboxId) ∈ projected

theorem deliveredCovered_ok (inv : RunnerInv r w) {position delivered : Nat}
    (h : deliveredCovered w p position = .ok delivered) :
    delivered = ((w.handledRows p).filter (·.outboxId ≤ position)).length := by
  unfold deliveredCovered at h
  cases hhandled : handledStats p (eventTypeStats w (some position)) with
  | error error =>
    rw [hhandled] at h
    cases h
  | ok handled =>
    rw [hhandled] at h
    obtain rfl := Except.ok.inj h
    rw [sumOf_eventTypeStats inv p hhandled _ (fun row => row.outboxId ≤ position && row.status = .delivered)
      fun item hitem => by obtain ⟨t, -, rfl⟩ := mem_map.1 hitem; rfl]
    rw [World.handledRows, filter_filter, ← countP_eq_length_filter]
    apply countP_congr
    intro row _
    simp only [Bool.and_eq_true, decide_eq_true_eq]
    tauto

/-- Distinct ids among the rows' are as many as the rows exactly when they are all of them. -/
theorem length_eq_iff {ids : List Nat} {rows : List OutboxRow} (hids : ids.Nodup) (hrows : (rows.map (·.outboxId)).Nodup)
    (hsub : ∀ id ∈ ids, id ∈ rows.map (·.outboxId)) : rows.length = ids.length ↔ ∀ row ∈ rows, row.outboxId ∈ ids := by
  constructor
  · intro hlen row hrow
    have hperm : ids.Perm (rows.map (·.outboxId)) :=
      (subperm_of_subset hids hsub).perm_of_length_le (by rw [length_map]; omega)
    exact hperm.mem_iff.2 (mem_map_of_mem hrow)
  · intro hall
    have hperm : ids.Perm (rows.map (·.outboxId)) := by
      refine (perm_ext_iff_of_nodup hids hrows).2 fun id => ⟨hsub id, ?_⟩
      intro hid
      obtain ⟨row, hrow, rfl⟩ := mem_map.1 hid
      exact hall row hrow
    rw [hperm.length_eq, length_map]

theorem handledRows_ids (inv : RunnerInv r w) (p : Projector J G) (position : Nat) :
    (((w.handledRows p).filter (·.outboxId ≤ position)).map (·.outboxId)).Nodup :=
  inv.ids.sublist ((filter_sublist.trans filter_sublist).map _)

/-- **The check of a projector** passes only when nothing is missed below its last row, and it is the runner's activity
that it reports. -/
theorem requireNothingMissed_spec (inv : RunnerInv r w) (hcursor : CursorInv r w projected cursor)
    (hp : p ∈ r.projectors) :
    (requireNothingMissed w p (progressOf cursor.progress p.key) = .ok () → Complete w projected cursor p) ∧
      (requireNothingMissed w p (progressOf cursor.progress p.key) = .error .runnerActive →
        ¬ Complete w projected cursor p) := by
  have hlast := hcursor.last p hp
  have hcount := hcursor.count p hp
  cases hstep : (progressOf cursor.progress p.key).lastOutboxId with
  | none =>
    simp only [requireNothingMissed, hstep]
    refine ⟨fun _ row _ last hmem => ?_, fun h => nomatch h⟩
    rw [hstep] at hmem
    cases hmem
  | some last =>
    rw [hstep] at hlast
    obtain ⟨-, hmax⟩ := List.max?_eq_some_iff.1 hlast.symm
    cases hdelivered : deliveredCovered w p last with
    | error error =>
      have hraised : error ≠ .runnerActive := by
        unfold deliveredCovered at hdelivered
        split at hdelivered <;> cases hdelivered
        simp
      simp only [requireNothingMissed, hstep, hdelivered, bind, Except.bind]
      exact ⟨fun h => (nomatch h), fun h => absurd (Except.error.inj h) hraised⟩
    | ok delivered =>
      have hrows := deliveredCovered_ok inv hdelivered
      have hiff := length_eq_iff (hcursor.nodup p hp) (handledRows_ids inv p last) (by
        intro id hid
        obtain ⟨-, row, hrow, rfl⟩ := hcursor.rows p hp id hid
        exact mem_map_of_mem (mem_filter.2 ⟨hrow, by simpa using hmax _ hid⟩))
      have hcomplete : Complete w projected cursor p ↔
          ∀ row ∈ (w.handledRows p).filter (·.outboxId ≤ last), row.outboxId ∈ idsOf projected p.key := by
        unfold Complete
        rw [hstep]
        simp only [Option.mem_some_iff, forall_eq', mem_filter, decide_eq_true_eq, and_imp, mem_idsOf]
      rw [hcomplete, ← hiff, ← hrows, ← hcount]
      simp only [requireNothingMissed, hstep, hdelivered, bind, Except.bind]
      by_cases heq : delivered = (progressOf cursor.progress p.key).count
      · simp [heq]
      · simp [heq]

variable {error : RebuildError}

variable {live : Option ProjectionCheckpointRow}

/-- Every projector has a checkpoint row. -/
def Marked (r : Runner J G) (w : World J G) : Prop :=
  ∀ p ∈ r.projectors, getCheckpoint w.checkpoints p.name p.version ≠ none

theorem getCheckpoint_upsert {name version : String}
    (h : getCheckpoint checkpoints name version ≠ none ∨ row.isFor name version = true) :
    getCheckpoint (upsertCheckpoint checkpoints row) name version ≠ none := by
  have hmem : ∀ {rows : List ProjectionCheckpointRow}, getCheckpoint rows name version ≠ none ↔
      ∃ row ∈ rows, row.isFor name version = true := by
    intro rows
    rw [← Option.isSome_iff_ne_none, getCheckpoint, List.find?_isSome]
  have hself : row.isFor row.projectorName row.projectorVersion = true := isFor_iff.2 ⟨rfl, rfl⟩
  rw [hmem] at h ⊢
  unfold upsertCheckpoint
  split
  · next hany =>
    obtain ⟨old, hold, hfor⟩ := any_eq_true.1 hany
    rcases h with ⟨kept, hkept, hname⟩ | hname
    · by_cases hreplaced : kept.isFor row.projectorName row.projectorVersion = true
      · -- the row of this key is the one replaced
        refine ⟨row, mem_map.2 ⟨kept, hkept, if_pos hreplaced⟩, ?_⟩
        obtain ⟨hn, hv⟩ := isFor_iff.1 hreplaced
        obtain ⟨rfl, rfl⟩ := isFor_iff.1 hname
        exact isFor_iff.2 ⟨hn.symm, hv.symm⟩
      · exact ⟨kept, mem_map.2 ⟨kept, hkept, if_neg hreplaced⟩, hname⟩
    · exact ⟨row, mem_map.2 ⟨old, hold, if_pos hfor⟩, hname⟩
  · rcases h with ⟨kept, hkept, hname⟩ | hname
    · exact ⟨kept, mem_append_left _ hkept, hname⟩
    · exact ⟨row, mem_append_right _ (mem_singleton.2 rfl), hname⟩

theorem marked_markRebuilding (now : Nat) : ∀ (ps : List (Projector J G)) (checkpoints : List ProjectionCheckpointRow)
    {name version : String}, (name, version) ∈ ps.map (·.key) ∨ getCheckpoint checkpoints name version ≠ none →
    getCheckpoint (markRebuilding ps now checkpoints) name version ≠ none
  | [], _, _, _, h => h.resolve_left not_mem_nil
  | p :: ps, checkpoints, name, version, h => by
    refine marked_markRebuilding now ps _ ?_
    rw [map_cons, mem_cons, or_assoc] at h
    rcases h with hkey | hrest | hold
    · obtain ⟨rfl, rfl⟩ := Prod.mk.inj hkey
      exact Or.inr (getCheckpoint_upsert (Or.inr (isFor_iff.2 ⟨rfl, rfl⟩)))
    · exact Or.inl hrest
    · exact Or.inr (getCheckpoint_upsert (Or.inl hold))

theorem advance_ne_none {name version name' version' eventId : String} {outboxId now : Nat}
    (h : getCheckpoint checkpoints name version ≠ none) :
    getCheckpoint (advance checkpoints name' version' outboxId eventId now) name version ≠ none := by
  by_cases hkey : (name, version) = (name', version')
  · obtain ⟨rfl, rfl⟩ := Prod.mk.inj hkey
    rw [getCheckpoint_advance]
    split <;> simp
  · rw [getCheckpoint_advance_other checkpoints outboxId eventId now hkey]
    exact h

theorem foldl_advance_ne_none {name version eventId : String} {outboxId now : Nat} :
    ∀ (ps : List (Projector J G)) {checkpoints : List ProjectionCheckpointRow},
      getCheckpoint checkpoints name version ≠ none →
      getCheckpoint (ps.foldl (fun cs p => advance cs p.name p.version outboxId eventId now) checkpoints) name version ≠ none
  | [], _, hold => hold
  | _ :: ps, _, hold => foldl_advance_ne_none ps (advance_ne_none hold)

/-- No step of the runtime takes a checkpoint away. -/
theorem Marked.step (hmarked : Marked r w) (h : step r w l = some w') : Marked r w' := by
  intro p hp
  have hold := hmarked p hp
  cases step_cases h with
  | project =>
    show getCheckpoint (w.write _).checkpoints p.name p.version ≠ none
    rw [(write_tables w _).2.2.1]
    exact hold
  | finalized hfin =>
    cases hfin with
    | delivered matching => exact foldl_advance_ne_none matching hold
    | retried | deadLettered => exact hold
  | append | claim | lost | release | crash => exact hold

theorem upsertCheckpoint_checked (hold : ∀ old ∈ checkpoints, old.Checked) (hrow : row.Checked) :
    ∀ new ∈ upsertCheckpoint checkpoints row, new.Checked := by
  intro new hnew
  unfold upsertCheckpoint at hnew
  split at hnew
  · obtain ⟨old, hmem, rfl⟩ := mem_map.1 hnew
    split
    · exact hrow
    · exact hold old hmem
  · rcases mem_append.1 hnew with hmem | hmem
    · exact hold new hmem
    · exact mem_singleton.1 hmem ▸ hrow

theorem markRebuilding_checked (now : Nat) : ∀ (ps : List (Projector J G)) {checkpoints : List ProjectionCheckpointRow},
    (∀ old ∈ checkpoints, old.Checked) → ∀ new ∈ markRebuilding ps now checkpoints, new.Checked
  | [], _, hold => hold
  | _ :: ps, _, hold => markRebuilding_checked now ps (upsertCheckpoint_checked hold (Or.inl ⟨rfl, rfl, rfl⟩))

/-! ## Runs of the rebuild -/

def AllLocked (r : Runner J G) (live : List (Locked J G)) (rest : List (Projector J G)) : Prop :=
  live.map (·.1) ++ rest = r.projectors ∧ ∀ locked ∈ live, locked.2.isSome = true

/-- What holds in each phase. -/
def PhaseInv (r : Runner J G) (w : World J G) (projected : List ((String × String) × Nat)) : Phase J G → Prop
  | .idle | .returned _ | .failed _ => True
  | .marked => Marked r w
  | .replaying cursor => Marked r w ∧ CursorInv r w projected cursor
  | .locking rest live cursor => Marked r w ∧ CursorInv r w projected cursor ∧ AllLocked r live rest
  | .catchingUp live cursor => CursorInv r w projected cursor ∧ AllLocked r live []
  | .finalizing rest live _ cursor => CursorInv r w projected cursor ∧ AllLocked r live [] ∧
      ∃ done, done ++ rest = live ∧ ∀ locked ∈ done, Complete w projected cursor locked.1

structure RebuildInv (r : Runner J G) (s : Rebuilding J G) : Prop where
  runner : RunnerInv r s.world
  decided : ∀ id, Decided r s.world.events (s.world.workers id)
  phase : PhaseInv r s.world s.projected s.phase

theorem RebuildInv.start (r : Runner J G) (graph : G) : RebuildInv r (Rebuilding.start graph) :=
  ⟨RunnerInv.start r graph, fun _ _ _ _ h => (nomatch h), trivial⟩

variable {s : Rebuilding J G}

theorem handledRows_locked (inv : RebuildInv r s) (hwaits : s.waits l = false) {w' : World J G}
    (h : Projection.step r s.world l = some w') (hp : p ∈ r.projectors) (hlocked : s.holds p = true)
    {row : OutboxRow} (hrow : row ∈ w'.handledRows p) : row ∈ s.world.handledRows p := by
  rcases handledRows_new inv.runner inv.decided h hp hrow with hold | ⟨id, now, claimed, rest, matching, rfl, hworker, hf, hmem⟩
  · exact hold
  · have hblocked : s.waits (.finalize id now) = true := by
      simp only [Rebuilding.waits, hworker, Bool.and_eq_true]
      exact ⟨hf, any_eq_true.2 ⟨p, hmem, hlocked⟩⟩
    rw [hblocked] at hwaits
    cases hwaits

theorem RebuildInv.runnerStep (inv : RebuildInv r s) (hwaits : s.waits l = false) {w' : World J G}
    (h : Projection.step r s.world l = some w') : RebuildInv r { s with world := w' } := by
  refine ⟨inv.runner.step h, decided_step inv.decided h, ?_⟩
  have hphase := inv.phase
  show PhaseInv r w' s.projected s.phase
  cases hs : s.phase with
  | idle | returned | failed => trivial
  | marked =>
    rw [hs] at hphase
    exact Marked.step hphase h
  | replaying cursor =>
    rw [hs] at hphase
    exact ⟨hphase.1.step h, hphase.2.runner inv.runner h⟩
  | locking rest live cursor =>
    rw [hs] at hphase
    exact ⟨hphase.1.step h, hphase.2.1.runner inv.runner h, hphase.2.2⟩
  | catchingUp live cursor =>
    rw [hs] at hphase
    exact ⟨hphase.1.runner inv.runner h, hphase.2⟩
  | finalizing rest live values cursor =>
    rw [hs] at hphase
    obtain ⟨hcursor, hlive, done, hdone, hcomplete⟩ := hphase
    refine ⟨hcursor.runner inv.runner h, hlive, done, hdone, ?_⟩
    intro locked hlocked row hrow
    have hmem : locked ∈ live := hdone ▸ mem_append_left _ hlocked
    have hp : locked.1 ∈ r.projectors := by
      rw [← hlive.1, append_nil]
      exact mem_map_of_mem hmem
    refine hcomplete locked hlocked row (handledRows_locked inv hwaits h hp ?_ hrow)
    refine any_eq_true.2 ⟨locked, by rw [hs]; exact hmem, ?_⟩
    simp [hlive.2 locked hmem]

theorem replayNext_world {cursor cursor' : ReplayCursor} (h : replayNext r w cursor = .on w' cursor' projected) :
    ∃ writes, w' = w.write writes := by
  unfold replayNext at h
  split at h
  · split at h
    · cases h
    · obtain ⟨rfl, -, -⟩ := Replayed.on.inj h
      exact ⟨none, rfl⟩
  · split at h
    · cases h
    · obtain ⟨rfl, -, -⟩ := Replayed.on.inj h
      exact ⟨_, rfl⟩

theorem RunnerInv.write (inv : RunnerInv r w) (writes : Option (LedgerEvent J × List (Projector J G))) :
    RunnerInv r (w.write writes) := by
  obtain ⟨he, ho, hc, hd, hworkers, hh⟩ := write_tables w writes
  exact inv.memory he ho hc hd hh fun id claimed h => by rwa [hworkers] at h

theorem decided_write (hdecided : ∀ id, Decided r w.events (w.workers id))
    (writes : Option (LedgerEvent J × List (Projector J G))) :
    ∀ id, Decided r (w.write writes).events ((w.write writes).workers id) := by
  obtain ⟨he, -, -, -, hworkers, -⟩ := write_tables w writes
  rw [he, hworkers]
  exact hdecided

theorem Marked.write (hmarked : Marked r w) (writes : Option (LedgerEvent J × List (Projector J G))) :
    Marked r (w.write writes) := by
  unfold Marked
  rw [(write_tables w writes).2.2.1]
  exact hmarked

theorem finalizeProjector_ok {step : ReplayProgress}
    {value : ProjectionCheckpointRow} (h : finalizeProjector w p live step now = .ok value) :
    requireNothingMissed w p step = .ok () := by
  cases hcheck : requireNothingMissed w p step with
  | ok found => rfl
  | error error =>
    simp only [finalizeProjector, hcheck, bind, Except.bind] at h
    cases h

/-- **A statement of the rebuild keeps its account.** -/
theorem RebuildInv.rebuildStep {empty : G} {s s' : Rebuilding J G} (inv : RebuildInv r s)
    (h : s.next r empty now = some s') : RebuildInv r s' := by
  have hphase := inv.phase
  unfold Rebuilding.next at h
  split at h
  · obtain rfl := Option.some.inj h
    refine ⟨inv.runner.tables ?_ rfl rfl rfl rfl fun _ _ h => h, inv.decided, ?_⟩
    · exact ⟨inv.runner.checked.1, markRebuilding_checked now r.projectors inv.runner.checked.2.1, inv.runner.checked.2.2⟩
    · exact fun p hp => marked_markRebuilding now r.projectors _ (Or.inl (mem_map_of_mem hp))
  · next hs =>
    rw [hs] at hphase
    obtain rfl := Option.some.inj h
    refine ⟨inv.runner.memory rfl rfl rfl rfl rfl fun _ _ h => h, inv.decided, ?_⟩
    exact ⟨hphase, CursorInv.start r _⟩
  · next cursor hs =>
    rw [hs] at hphase
    split at h
    · obtain rfl := Option.some.inj h
      exact ⟨inv.runner, inv.decided, hphase.1, hphase.2, rfl, by simp⟩
    · obtain rfl := Option.some.inj h
      exact ⟨inv.runner, inv.decided, trivial⟩
    · next hnext =>
      obtain rfl := Option.some.inj h
      have hcursor := hphase.2.next inv.runner hnext
      obtain ⟨writes, rfl⟩ := replayNext_world hnext
      exact ⟨inv.runner.write writes, decided_write inv.decided writes, hphase.1.write writes, hcursor⟩
  · next p rest live cursor hs =>
    rw [hs] at hphase
    obtain rfl := Option.some.inj h
    obtain ⟨hmarked, hcursor, hlive, hlocked⟩ := hphase
    have hp : p ∈ r.projectors := by
      rw [← hlive]
      exact mem_append_right _ mem_cons_self
    refine ⟨inv.runner, inv.decided, hmarked, hcursor, by simpa using hlive, ?_⟩
    intro locked hmem
    rcases mem_append.1 hmem with hmem | hmem
    · exact hlocked locked hmem
    · rw [mem_singleton.1 hmem]
      exact Option.isSome_iff_ne_none.2 (hmarked p hp)
  · next live cursor hs =>
    rw [hs] at hphase
    obtain rfl := Option.some.inj h
    obtain ⟨-, hcursor, hlive⟩ := hphase
    exact ⟨inv.runner, inv.decided, ⟨hcursor.keys, hcursor.rows, hcursor.nodup, hcursor.count, hcursor.last,
      hcursor.sorted, hcursor.page⟩, hlive⟩
  · next live cursor hs =>
    rw [hs] at hphase
    split at h
    · obtain rfl := Option.some.inj h
      exact ⟨inv.runner, inv.decided, hphase.1, hphase.2, [], rfl, by simp⟩
    · obtain rfl := Option.some.inj h
      exact ⟨inv.runner, inv.decided, trivial⟩
    · next hnext =>
      obtain rfl := Option.some.inj h
      have hcursor := hphase.1.next inv.runner hnext
      obtain ⟨writes, rfl⟩ := replayNext_world hnext
      exact ⟨inv.runner.write writes, decided_write inv.decided writes, hcursor, hphase.2⟩
  · next p row rest live values cursor hs =>
    rw [hs] at hphase
    split at h
    · obtain rfl := Option.some.inj h
      exact ⟨inv.runner, inv.decided, trivial⟩
    · next value hvalue =>
      obtain rfl := Option.some.inj h
      obtain ⟨hcursor, hlive, done, hdone, hcomplete⟩ := hphase
      have hp : p ∈ r.projectors := by
        rw [← hlive.1, append_nil, ← hdone]
        exact mem_map.2 ⟨(p, row), mem_append_right _ mem_cons_self, rfl⟩
      refine ⟨inv.runner, inv.decided, hcursor, hlive, done ++ [(p, row)], by simpa using hdone, ?_⟩
      intro locked hmem
      rcases mem_append.1 hmem with hmem | hmem
      · exact hcomplete locked hmem
      · rw [mem_singleton.1 hmem]
        exact (requireNothingMissed_spec inv.runner hcursor hp).1 (finalizeProjector_ok hvalue)
  · split at h
    · obtain rfl := Option.some.inj h
      exact ⟨inv.runner, inv.decided, trivial⟩
    · next world hworld =>
      obtain rfl := Option.some.inj h
      obtain ⟨hchecked, rfl⟩ := commit_eq_some.1 hworld
      exact ⟨inv.runner.tables hchecked rfl rfl rfl rfl fun _ _ h => h, inv.decided, trivial⟩
  · cases h
  · cases h

theorem RebuildInv.step {empty : G} {s s' : Rebuilding J G} {act : Act J} (inv : RebuildInv r s)
    (h : s.step r empty act = some s') : RebuildInv r s' := by
  cases act with
  | runner l =>
    simp only [Rebuilding.step] at h
    split at h
    · cases h
    · next hwaits =>
      obtain ⟨w', hw', rfl⟩ := Option.map_eq_some_iff.1 h
      exact inv.runnerStep (Bool.eq_false_iff.2 hwaits) hw'
  | rebuild now => exact inv.rebuildStep h

/-- The replay has projected a later row for the projector. -/
def Passed (s : Rebuilding J G) (p : Projector J G) (row : OutboxRow) : Prop :=
  ∃ id, (p.key, id) ∈ s.projected ∧ row.outboxId < id

end Projection
