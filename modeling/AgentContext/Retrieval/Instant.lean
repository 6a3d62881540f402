import AgentContext.Projection.Progress
import AgentContext.Retrieval.Watermark

/-!
# The snapshot's own time

`valid_instant` is a maximum over a window, the newest `recentEvents` delivered rows at or below the watermark.  It
does not decrease from one state to a later one as long as the event that gave it is still in the window; enough
later deliveries push that event out.
-/

namespace Retrieval

open Projection Keyset Transition List

variable {P G : Type} {r : Runner (Stored P) G} {w : World (Stored P) G} {d d' : Database (Stored P) G}
variable {row : OutboxRow}
variable {asOf : Nat} {ls : List (Statement (Stored P))}

/-! ## The window -/

def deliveredUpTo (w : World (Stored P) G) (asOf : Nat) : List OutboxRow :=
  w.outbox.filter fun row => row.outboxId ≤ asOf && row.status = .delivered

theorem mem_deliveredUpTo :
    row ∈ deliveredUpTo w asOf ↔ row ∈ w.outbox ∧ row.outboxId ≤ asOf ∧ row.status = .delivered := by
  simp [deliveredUpTo]

/-- The delivered rows up to the watermark that are newer than a row. -/
def newer (w : World (Stored P) G) (asOf outboxId : Nat) : Nat :=
  (deliveredUpTo w asOf).countP (outboxId < ·.outboxId)

theorem mem_recentRows (ids : (w.outbox.map (·.outboxId)).Nodup) :
    row ∈ recentRows w asOf ↔ row ∈ deliveredUpTo w asOf ∧ newer w asOf row.outboxId < recentEvents := by
  have hnodup : (deliveredUpTo w asOf).Nodup := (List.Nodup.of_map _ ids).filter _
  have hkeyed : KeyedBy (OrderDual.toDual ·.outboxId) (deliveredUpTo w asOf) := by
    intro a ha b hb hab
    exact eq_of_outboxId ids (mem_deliveredUpTo.1 ha).1 (mem_deliveredUpTo.1 hb).1 hab
  have hmem := mem_take_sortBy hkeyed hnodup recentEvents (a := row)
  rw [newer, countP_eq_length_filter]
  exact hmem

theorem recent_eq_some {t : Int} :
    recent w asOf = some t ↔ (∃ row ∈ recentRows w asOf, ∃ e, eventOf w row = some e ∧ clamped e = t) ∧
      ∀ row ∈ recentRows w asOf, ∀ e, eventOf w row = some e → clamped e ≤ t := by
  rw [recent, List.max?_eq_some_iff]
  simp only [mem_map, mem_filterMap]
  constructor
  · rintro ⟨⟨e, ⟨row, hrow, he⟩, ht⟩, hmax⟩
    exact ⟨⟨row, hrow, e, he, ht⟩, fun row hrow e he => hmax _ ⟨e, ⟨row, hrow, he⟩, rfl⟩⟩
  · rintro ⟨⟨row, hrow, e, he, ht⟩, hmax⟩
    refine ⟨⟨e, ⟨row, hrow, he⟩, ht⟩, ?_⟩
    rintro t' ⟨e', ⟨row', hrow', he'⟩, rfl⟩
    exact hmax row' hrow' e' he'

/-! ## Later states -/

theorem executed_events (h : run (execute r) d ls = some d') : ∃ more, d'.world.events = d.world.events ++ more := by
  refine executed_keeps (I := fun w => ∃ more, w.events = d.world.events ++ more) ?_ ⟨[], (append_nil _).symm⟩ h
  rintro w l w' ⟨more, hw⟩ hstep
  obtain ⟨more', hw'⟩ := step_events hstep
  exact ⟨more ++ more', by rw [hw', hw, append_assoc]⟩

theorem eventOf_later {e : LedgerEvent (Stored P)} (he : eventOf d.world row = some e)
    (h : run (execute r) d ls = some d') : eventOf d'.world row = some e := by
  obtain ⟨more, hmore⟩ := executed_events h
  rw [eventOf, hmore, List.find?_append, show d.world.events.find? _ = some e from he]
  rfl

/-! ## The record time of temporal reads -/

/-- `_known`, before the backlog: a revision window's instant is a ceiling. -/
def knownLimit (freshness : Freshness) (ceiling : Option Int) : Int :=
  ceiling.elim freshness.validInstant fun ceiling => min ceiling freshness.validInstant

/-- `_known`. -/
def known (freshness : Freshness) (ceiling : Option Int) : Int :=
  match freshness.knownUntil with
  | none => knownLimit freshness ceiling
  | some knownUntil =>
    if knownLimit freshness ceiling ≤ knownUntil then knownLimit freshness ceiling else knownUntil

theorem known_le_limit (freshness : Freshness) (ceiling : Option Int) :
    known freshness ceiling ≤ knownLimit freshness ceiling := by
  unfold known
  split
  · exact le_refl _
  · split <;> omega

theorem le_known {freshness : Freshness} {ceiling : Option Int} {t : Int} :
    t ≤ known freshness ceiling ↔ t ≤ knownLimit freshness ceiling ∧ ∀ u ∈ freshness.knownUntil, t ≤ u := by
  unfold known
  cases hu : freshness.knownUntil with
  | none => simp
  | some u =>
    simp only [Option.mem_some_iff, forall_eq']
    split <;> omega

/-- **The snapshot's time does not go back** while the event that gave it is in the window, and what temporal reads
could see they still see, unless the later backlog hides it. -/
theorem valid_instant_monotone (r : Runner (Stored P) G) (graph : G)
    (digest : List (String × String × Nat × String) → String) (before after : List (Statement (Stored P)))
    (a b : Database (Stored P) G) (ha : run (execute r) (.start graph) before = some a)
    (hb : run (execute r) a after = some b) (projectors : List (String × String)) (now now' : Nat)
    (projectId repositoryId : Option String) (freshness freshness' : Freshness)
    (hread : read digest (.at a.world) projectors now projectId repositoryId = .ok freshness)
    (hread' : read digest (.at b.world) projectors now' projectId repositoryId = .ok freshness')
    (hlater : freshness.asOfOutboxId ≤ freshness'.asOfOutboxId)
    (hwindow : ∃ row ∈ recentRows a.world freshness.asOfOutboxId,
      (eventOf a.world row).map clamped = some freshness.validInstant ∧
        newer b.world freshness'.asOfOutboxId row.outboxId < recentEvents) :
    freshness.validInstant ≤ freshness'.validInstant ∧
      ∀ (ceiling : Option Int) (observedAt : Int), observedAt ≤ known freshness ceiling →
        (∀ u ∈ freshness'.knownUntil, observedAt ≤ u) → observedAt ≤ known freshness' ceiling := by
  obtain ⟨mark, -, -, hasOf, -, -⟩ := read_eq_ok hread
  obtain ⟨mark', -, -, hasOf', hrecent', -⟩ := read_eq_ok hread'
  have inv := runnerInv_executed ha
  have inv' : RunnerInv r b.world := run_invariant (I := fun d => RunnerInv r d.world)
    (fun _ _ _ inv hs => execute_inv inv hs) inv hb
  obtain ⟨row, hrow, hinstant, hnewer⟩ := hwindow
  obtain ⟨e, he, hclamped⟩ := Option.map_eq_some_iff.1 hinstant
  obtain ⟨hmem, hle, hdelivered⟩ := mem_deliveredUpTo.1 ((mem_recentRows inv.ids).1 hrow).1
  have hmem' : row ∈ b.world.outbox := executed_terminal inv hb hmem (by rw [hdelivered]; rfl)
  have hrow' : row ∈ recentRows b.world freshness'.asOfOutboxId :=
    (mem_recentRows inv'.ids).2 ⟨mem_deliveredUpTo.2 ⟨hmem', by omega, hdelivered⟩, hnewer⟩
  rw [← hasOf'] at hrecent'
  have hmono : freshness.validInstant ≤ freshness'.validInstant := by
    rw [← hclamped]
    exact (recent_eq_some.1 hrecent').2 row hrow' e (eventOf_later he hb)
  refine ⟨hmono, ?_⟩
  intro ceiling observedAt hvisible hbacklog
  have hlimit : observedAt ≤ knownLimit freshness ceiling := le_trans hvisible (known_le_limit freshness ceiling)
  refine le_known.2 ⟨?_, hbacklog⟩
  cases ceiling with
  | none => exact le_trans hlimit hmono
  | some c =>
    simp only [knownLimit, Option.elim_some] at hlimit ⊢
    omega

/-- Another event is appended and delivered. -/
def deliveredToo : List (Statement (Stored Unit)) :=
  appended ++ [.work (.claim "w" 10 [] 13), .work (.project "w" .works), .work (.finalize "w" 14)]

theorem valid_instant_monotone_delivered :
    ∃ a b freshness freshness', run (execute sampleRunner) (.start ∅) delivered = some a ∧
      run (execute sampleRunner) a deliveredToo = some b ∧
      read (fun _ => "") (.at a.world) [("knowledge", "1")] 12 none none = .ok freshness ∧
      read (fun _ => "") (.at b.world) [("knowledge", "1")] 15 none none = .ok freshness' ∧
      freshness.asOfOutboxId < freshness'.asOfOutboxId ∧ freshness.validInstant ≤ freshness'.validInstant := by
  have hrun : ((run (execute sampleRunner) (.start ∅) delivered).bind fun a =>
      (run (execute sampleRunner) a deliveredToo).bind fun b =>
        (read (fun _ => "") (.at a.world) [("knowledge", "1")] 12 none none).toOption.bind fun freshness =>
          (read (fun _ => "") (.at b.world) [("knowledge", "1")] 15 none none).toOption.map fun freshness' =>
            (freshness.asOfOutboxId, freshness'.asOfOutboxId,
              (recentRows a.world freshness.asOfOutboxId).any fun row =>
                (eventOf a.world row).map clamped = some freshness.validInstant &&
                  newer b.world freshness'.asOfOutboxId row.outboxId < recentEvents)) = some (1, 2, true) := by
    decide +kernel
  obtain ⟨a, ha, hrest⟩ := Option.bind_eq_some_iff.1 hrun
  obtain ⟨b, hb, hrest⟩ := Option.bind_eq_some_iff.1 hrest
  obtain ⟨freshness, hread, hrest⟩ := Option.bind_eq_some_iff.1 hrest
  obtain ⟨freshness', hread', heq⟩ := Option.map_eq_some_iff.1 hrest
  obtain ⟨hasOf, hrest⟩ := Prod.mk.inj heq
  obtain ⟨hasOf', hwindow⟩ := Prod.mk.inj hrest
  obtain ⟨row, hrow, hnewest⟩ := List.any_eq_true.1 hwindow
  simp only [Bool.and_eq_true, decide_eq_true_eq] at hnewest
  have hread := toOption_eq_some hread
  have hread' := toOption_eq_some hread'
  refine ⟨a, b, freshness, freshness', ha, hb, hread, hread', by omega, ?_⟩
  exact (valid_instant_monotone sampleRunner ∅ (fun _ => "") delivered deliveredToo a b ha hb [("knowledge", "1")] 12 15
    none none freshness freshness' hread hread' (by omega) ⟨row, hrow, hnewest⟩).1

/-! ## Old events uploaded late -/

section Upload

def oldId (k : Nat) : String := String.ofList (List.replicate k 'a')

theorem oldId_injective {j k : Nat} (h : oldId j = oldId k) : j = k := by
  have hlist := String.ofList_injective h
  simpa using congrArg List.length hlist

/-- An event of long ago, recorded just now. -/
def oldEvent (k : Nat) : LedgerEvent (Stored Unit) := ⟨oldId k, "git.commit.observed", ⟨1, 9, none, none, ()⟩⟩

/-- The event is appended, claimed, projected and delivered. -/
def upload (k : Nat) : List (Statement (Stored Unit)) :=
  [.insert "A" (oldEvent k) 5, .commit "A", .work (.claim "w" 1 [] 6), .work (.project "w" .works),
   .work (.finalize "w" 7)]

variable {w : World (Stored Unit) (Finset String)} {outboxId k : Nat}
variable {rest : List ClaimedOutboxRow}

/-- Everything is delivered; the next row id and the events from the `k`-th on are new. -/
structure Idle (w : World (Stored Unit) (Finset String)) (outboxId k : Nat) : Prop where
  checked : w.Checked
  rows : ∀ row ∈ w.outbox, row.outboxId < outboxId ∧ row.status = .delivered
  next : 0 < outboxId
  claimed : (w.workers "w").claimed = []
  events : ∀ event ∈ w.events, ∀ j, k ≤ j → event.eventId ≠ oldId j

/-- The world with one more row in the outbox. -/
def newest (w : World (Stored Unit) (Finset String)) (outboxId k : Nat) (values : OutboxRow → OutboxRow) :
    World (Stored Unit) (Finset String) :=
  { w with
    events := w.events ++ [oldEvent k]
    outbox := w.outbox ++ [values (outboxRow outboxId (oldId k) 5)] }

theorem updateWhere_newest {matching : OutboxRow → Bool} {values values' : OutboxRow → OutboxRow}
    (hold : ∀ old ∈ w.outbox, matching old = false) (hrow : matching (values (outboxRow outboxId (oldId k) 5)) = true) :
    updateWhere matching values' (newest w outboxId k values).outbox =
      (newest w outboxId k (values' ∘ values)).outbox := by
  have hsame : w.outbox.map (fun row => if matching row then values' row else row) = w.outbox := by
    conv_rhs => rw [← map_id w.outbox]
    exact map_congr_left fun old hmem => by rw [hold old hmem]; rfl
  unfold updateWhere newest
  rw [map_append, hsame]
  simp [hrow]

def leasedValues : OutboxRow → OutboxRow := OutboxRow.lease "w" 36 6

def claimedNewest (outboxId k : Nat) : ClaimedOutboxRow := ⟨outboxId, oldId k, 0, 36⟩

/-- The newest row is claimed. -/
def leasedNewest (w : World (Stored Unit) (Finset String)) (outboxId k : Nat)
    (finalization : Option (Finalization (Stored Unit) (Finset String))) : World (Stored Unit) (Finset String) :=
  { newest w outboxId k leasedValues with
    workers := Function.update w.workers "w" ⟨[claimedNewest outboxId k], finalization⟩
    history := w.history ++ [.claimed "w" outboxId] }

theorem step_project {P G : Type} {r : Runner P G} {w : World P G} {id : String} {attempt : Attempt}
    {row : ClaimedOutboxRow} (hworker : w.workers id = ⟨row :: rest, none⟩) :
    step r w (.project id attempt) = some ((w.write (processClaimedRow r w.events row attempt).2).setWorker id
      ⟨row :: rest, some (processClaimedRow r w.events row attempt).1⟩) := by
  simp [step, hworker]

theorem step_finalize {P G : Type} {r : Runner P G} {w : World P G} {id : String} {now : Nat}
    {row : ClaimedOutboxRow} {finalization : Finalization P G}
    (hworker : w.workers id = ⟨row :: rest, some finalization⟩) :
    step r w (.finalize id now) = ((finalization.apply r id row now w).1.finish id row rest
      (finalization.apply r id row now w).2).commit := by
  simp [step, hworker]

def deliveredNewest (w : World (Stored Unit) (Finset String)) (outboxId k : Nat) : World (Stored Unit) (Finset String) :=
  { newest w outboxId k (OutboxRow.deliver 7 ∘ leasedValues) with
    workers := Function.update w.workers "w" ⟨[], none⟩
    history := w.history ++ [.claimed "w" outboxId] ++ [.finished "w" outboxId .delivered] }

section

variable (idle : Idle w outboxId k)
include idle

theorem Idle.ne {row : OutboxRow} (hrow : row ∈ w.outbox) : row.outboxId ≠ outboxId := ne_of_lt (idle.rows row hrow).1

theorem newest_checked (values : OutboxRow → OutboxRow)
    (hrow : (values (outboxRow outboxId (oldId k) 5)).Checked) {w' : World (Stored Unit) (Finset String)}
    (houtbox : w'.outbox = (newest w outboxId k values).outbox) (hcheckpoints : w'.checkpoints = w.checkpoints)
    (hletters : w'.deadLetters = w.deadLetters) : w'.Checked := by
  refine ⟨?_, ?_, ?_⟩
  · intro row' hrow'
    rw [houtbox] at hrow'
    rcases mem_append.1 hrow' with hold | hnew
    · exact idle.checked.1 row' hold
    · exact mem_singleton.1 hnew ▸ hrow
  · rw [hcheckpoints]
    exact idle.checked.2.1
  · rw [hletters]
    exact idle.checked.2.2

theorem append_newest : step sampleRunner w (.append (oldEvent k) outboxId 5) = some (newest w outboxId k id) := by
  have hfresh : ¬ ((oldEvent k).eventId ∈ w.events.map (·.eventId) ∨ outboxId ∈ w.outbox.map (·.outboxId) ∨
      outboxId = 0) := by
    rintro (hevent | hid | hzero)
    · obtain ⟨event, hevent, heq⟩ := mem_map.1 hevent
      exact idle.events event hevent k (le_refl k) heq
    · obtain ⟨row, hrow, heq⟩ := mem_map.1 hid
      exact idle.ne hrow heq
    · have := idle.next
      omega
  rw [step, if_neg hfresh]
  exact commit_eq_some.2 ⟨newest_checked idle id (outboxRow_checked _ _ _) rfl rfl rfl, rfl⟩

theorem claimableIds_newest : claimableIds 1 [] 6 (newest w outboxId k id).outbox = [outboxId] := by
  have hold : w.outbox.filter (fun row => row.claimable 6 && !([] : List Nat).contains row.outboxId) = [] := by
    rw [filter_eq_nil_iff]
    intro row hrow
    simp [OutboxRow.claimable, (idle.rows row hrow).2]
  have hnew : [id (outboxRow outboxId (oldId k) 5)].filter (fun row => row.claimable 6 &&
      !([] : List Nat).contains row.outboxId) = [outboxRow outboxId (oldId k) 5] := rfl
  unfold claimableIds newest
  rw [filter_append, hold, hnew]
  simp [sortedSet, outboxRow]

theorem claim_newest :
    step sampleRunner (newest w outboxId k id) (.claim "w" 1 [] 6) = some (leasedNewest w outboxId k none) := by
  have hclaimed : ((newest w outboxId k id).workers "w").claimed = [] := idle.claimed
  have hupdate : updateWhere (fun row => [outboxId].contains row.outboxId) (OutboxRow.lease "w" 36 6)
      (newest w outboxId k id).outbox = (newest w outboxId k leasedValues).outbox :=
    updateWhere_newest (fun old hold => by simpa using idle.ne hold) (by simp [outboxRow])
  have hrows : claimedRows [outboxId] 36 (newest w outboxId k id).outbox = [claimedNewest outboxId k] := by
    have hfind : (newest w outboxId k id).outbox.find? (·.outboxId = outboxId) =
        some (outboxRow outboxId (oldId k) 5) := by
      show (w.outbox ++ [outboxRow outboxId (oldId k) 5]).find? _ = _
      rw [List.find?_append, List.find?_eq_none.2 fun row hrow => by simpa using idle.ne hrow]
      simp [outboxRow]
    simp only [claimedRows, filterMap_cons, hfind, filterMap_nil]
    rfl
  rw [step, if_pos ⟨hclaimed, le_refl 1⟩, claimBatch, claimableIds_newest idle]
  show World.commit { newest w outboxId k id with
    outbox := updateWhere (fun row => [outboxId].contains row.outboxId) (OutboxRow.lease "w" 36 6)
      (newest w outboxId k id).outbox
    workers := Function.update w.workers "w" ⟨claimedRows [outboxId] 36 (newest w outboxId k id).outbox, none⟩
    history := w.history ++ [outboxId].map (Action.claimed "w") } = _
  rw [hupdate, hrows]
  refine commit_eq_some.2 ⟨newest_checked idle leasedValues ?_ rfl rfl rfl, rfl⟩
  simp [OutboxRow.Checked, OutboxRow.leaseMatchesStatus, OutboxRow.terminalTimestampMatchesStatus, outboxRow,
    leasedValues, OutboxRow.lease]

/-- No projector handles the event. -/
theorem project_newest : step sampleRunner (leasedNewest w outboxId k none) (.project "w" .works) =
      some (leasedNewest w outboxId k (some (.success []))) := by
  have hfind : (w.events ++ [oldEvent k]).find? (·.eventId = oldId k) = some (oldEvent k) := by
    rw [List.find?_append, List.find?_eq_none.2 fun event hevent => by simpa using idle.events event hevent k (le_refl k)]
    simp [oldEvent]
  have hload : loadEvent sampleRunner (leasedNewest w outboxId k none).events (oldId k) = .ok (oldEvent k) := by
    show loadEvent sampleRunner (w.events ++ [oldEvent k]) (oldId k) = _
    rw [loadEvent, hfind]
    rfl
  have hmatching : matchingProjectors sampleRunner.projectors "git.commit.observed" = .ok [] := by
    have hhandles : "git.commit.observed".startsWith "knowledge." = false := by decide +kernel
    simp [matchingProjectors, sampleRunner, hhandles, Except.mapError, bind, Except.bind, pure, Except.pure]
  have hprocess : processClaimedRow sampleRunner (leasedNewest w outboxId k none).events (claimedNewest outboxId k) .works =
      (.success [], none) := by
    simp only [processClaimedRow, claimedNewest, hload, oldEvent, hmatching]
  have hworker : (leasedNewest w outboxId k none).workers "w" = ⟨[claimedNewest outboxId k], none⟩ := by
    simp [leasedNewest]
  rw [step_project hworker, hprocess]
  simp [leasedNewest, World.write, World.setWorker]

theorem deliveredNewest_checked : (deliveredNewest w outboxId k).Checked := by
  refine newest_checked idle (OutboxRow.deliver 7 ∘ leasedValues) ?_ rfl rfl rfl
  simp [OutboxRow.Checked, OutboxRow.leaseMatchesStatus, OutboxRow.terminalTimestampMatchesStatus, outboxRow,
    leasedValues, OutboxRow.lease, OutboxRow.deliver]

theorem finalize_newest : step sampleRunner (leasedNewest w outboxId k (some (.success []))) (.finalize "w" 7) =
      some (deliveredNewest w outboxId k) := by
  have hold : ∀ old ∈ w.outbox, (claimedNewest outboxId k).fence "w" old = false := by
    intro old hold
    have hne : old.outboxId ≠ (claimedNewest outboxId k).outboxId := idle.ne hold
    simp [ClaimedOutboxRow.fence, hne]
  have hnew : (claimedNewest outboxId k).fence "w" (leasedValues (outboxRow outboxId (oldId k) 5)) = true := by
    simp [ClaimedOutboxRow.fence, claimedNewest, leasedValues, OutboxRow.lease, outboxRow]
  have hfenced : fencedUpdate (claimedNewest outboxId k) "w" (OutboxRow.deliver 7)
      (leasedNewest w outboxId k (some (.success []))).outbox =
      some (newest w outboxId k (OutboxRow.deliver 7 ∘ leasedValues)).outbox := by
    have hany : (leasedNewest w outboxId k (some (.success []))).outbox.any
        ((claimedNewest outboxId k).fence "w") = true := by
      show (w.outbox ++ [_]).any _ = true
      rw [any_append, any_cons, hnew]
      simp
    rw [fencedUpdate, if_pos hany]
    exact congrArg some (updateWhere_newest hold hnew)
  have happly : (Finalization.success []).apply sampleRunner "w" (claimedNewest outboxId k) 7
      (leasedNewest w outboxId k (some (.success []))) =
      ({ leasedNewest w outboxId k (some (.success [])) with
        outbox := (newest w outboxId k (OutboxRow.deliver 7 ∘ leasedValues)).outbox }, .delivered) := by
    simp only [Finalization.apply, finalizeSuccess, hfenced]
    rfl
  have hworker : (leasedNewest w outboxId k (some (.success []))).workers "w" =
      ⟨[claimedNewest outboxId k], some (.success [])⟩ := by
    simp [leasedNewest]
  rw [step_finalize hworker, happly]
  refine commit_eq_some.2 ?_
  have hworld : ({ leasedNewest w outboxId k (some (.success [])) with
      outbox := (newest w outboxId k (OutboxRow.deliver 7 ∘ leasedValues)).outbox } :
        World (Stored Unit) (Finset String)).finish "w" (claimedNewest outboxId k) [] .delivered =
      deliveredNewest w outboxId k := by
    simp [World.finish, leasedNewest, deliveredNewest, newest, claimedNewest]
  rw [hworld]
  exact ⟨deliveredNewest_checked idle, rfl⟩

theorem Idle.delivered : Idle (deliveredNewest w outboxId k) (outboxId + 1) (k + 1) where
  checked := deliveredNewest_checked idle
  rows := by
    intro row hrow
    rcases mem_append.1 hrow with hold | hnew
    · have := idle.rows row hold
      exact ⟨by omega, this.2⟩
    · obtain rfl := mem_singleton.1 hnew
      exact ⟨Nat.lt_succ_self _, rfl⟩
  next := Nat.succ_pos _
  claimed := by simp [deliveredNewest]
  events := by
    intro event hevent j hj
    rcases mem_append.1 hevent with hold | hnew
    · exact idle.events event hold j (by omega)
    · obtain rfl := mem_singleton.1 hnew
      intro h
      have := oldId_injective h
      omega

end

/-- **An upload goes through.** -/
theorem upload_run {d : Database (Stored Unit) (Finset String)} (idle : Idle d.world d.nextId k)
    (hopen : d.open_ "A" = []) :
    run (execute sampleRunner) d (upload k) = some ⟨deliveredNewest d.world d.nextId k, d.nextId + 1, d.open_⟩ := by
  have hinsert : execute sampleRunner d (.insert "A" (oldEvent k) 5) =
      some ⟨d.world, d.nextId + 1, Function.update d.open_ "A" [⟨oldEvent k, d.nextId, 5⟩]⟩ := by
    simp [execute, hopen]
  have hcommit : execute sampleRunner
      ⟨d.world, d.nextId + 1, Function.update d.open_ "A" [⟨oldEvent k, d.nextId, 5⟩]⟩ (.commit "A") =
      some ⟨newest d.world d.nextId k id, d.nextId + 1, d.open_⟩ := by
    have hclosed : Function.update d.open_ "A" [] = d.open_ := by rw [← hopen, Function.update_eq_self]
    simp [execute, commitAll, run, append_newest idle, hclosed]
  have hwork : ∀ {w w' : World (Stored Unit) (Finset String)} {l : Label (Stored Unit)}, l.isAppend = false →
      step sampleRunner w l = some w' →
      execute sampleRunner ⟨w, d.nextId + 1, d.open_⟩ (.work l) = some ⟨w', d.nextId + 1, d.open_⟩ := by
    intro w w' l hl hstep
    simp [execute, hl, hstep]
  exact run_cons.2 ⟨_, hinsert, run_cons.2 ⟨_, hcommit, run_cons.2 ⟨_, hwork rfl (claim_newest idle),
    run_cons.2 ⟨_, hwork rfl (project_newest idle), run_cons.2 ⟨_, hwork rfl (finalize_newest idle), rfl⟩⟩⟩⟩⟩

def uploads (k n : Nat) : List (Statement (Stored Unit)) := (List.range' k n).flatMap upload

theorem uploads_run (n : Nat) : ∀ (k : Nat) (d : Database (Stored Unit) (Finset String)), Idle d.world d.nextId k →
    d.open_ "A" = [] → ∃ d' rows, run (execute sampleRunner) d (uploads k n) = some d' ∧
      Idle d'.world d'.nextId (k + n) ∧ d'.world.outbox = d.world.outbox ++ rows ∧ rows.length = n ∧
      ∀ row ∈ rows, d.nextId ≤ row.outboxId ∧ ∃ j, row.eventId = oldId j ∧ oldEvent j ∈ d'.world.events := by
  induction n with
  | zero =>
    intro k d idle _
    exact ⟨d, [], rfl, idle, by simp, rfl, by simp⟩
  | succ n ih =>
    intro k d idle hopen
    obtain ⟨d', rows, hrun, idle', houtbox, hlength, hrows⟩ :=
      ih (k + 1) ⟨deliveredNewest d.world d.nextId k, d.nextId + 1, d.open_⟩ idle.delivered hopen
    have hevents : ∃ more, d'.world.events = (deliveredNewest d.world d.nextId k).events ++ more := executed_events hrun
    refine ⟨d', (OutboxRow.deliver 7 ∘ leasedValues) (outboxRow d.nextId (oldId k) 5) :: rows, ?_, ?_, ?_, ?_, ?_⟩
    · rw [uploads, List.range'_succ, flatMap_cons]
      exact run_append.2 ⟨_, upload_run idle hopen, hrun⟩
    · rwa [Nat.add_right_comm, Nat.add_assoc] at idle'
    · rw [houtbox]
      simp [deliveredNewest, newest]
    · simp [hlength]
    · intro row hrow
      rcases mem_cons.1 hrow with rfl | hrow
      · obtain ⟨more, hmore⟩ := hevents
        refine ⟨le_refl _, k, rfl, ?_⟩
        rw [hmore]
        simp [deliveredNewest, newest]
      · obtain ⟨hle, hevent⟩ := hrows row hrow
        exact ⟨Nat.le_of_succ_le hle, hevent⟩

end Upload

/-! ## The window slides past the newest event -/

/-- A decision observed and recorded at 5 is delivered. -/
def decided : List (Statement (Stored Unit)) :=
  [.insert "A" (sampleEvent "e1" 5 5) 5, .commit "A", .work (.claim "w" 1 [] 6), .work (.project "w" .works),
   .work (.finalize "w" 7)]

theorem decided_idle {a : Database (Stored Unit) (Finset String)}
    (ha : run (execute sampleRunner) (.start ∅) decided = some a) :
    Idle a.world a.nextId 0 ∧ a.open_ "A" = [] ∧ a.nextId = 2 ∧ a.world.outbox.map (·.outboxId) = [1] := by
  have hrun : (run (execute sampleRunner) (.start ∅) decided).map (fun a =>
      (decide a.world.Checked, a.world.outbox.map fun row => (row.outboxId, row.status))) =
      some (true, [(1, .delivered)]) := by decide +kernel
  have hrun' : (run (execute sampleRunner) (.start ∅) decided).map (fun a =>
      (a.nextId, (a.world.workers "w").claimed.length, (a.open_ "A").length, a.world.events.map (·.eventId))) =
      some (2, 0, 0, ["e1"]) := by decide +kernel
  rw [ha] at hrun hrun'
  simp only [Option.map_some, Option.some.injEq, Prod.mk.injEq] at hrun hrun'
  obtain ⟨hchecked, hrows⟩ := hrun
  obtain ⟨hnext, hclaimed, hopen, hevents⟩ := hrun'
  refine ⟨⟨of_decide_eq_true hchecked, ?_, by omega, length_eq_zero_iff.1 hclaimed, ?_⟩,
    length_eq_zero_iff.1 hopen, hnext, ?_⟩
  · intro row hrow
    have hmem : (row.outboxId, row.status) ∈ [(1, OutboxStatus.delivered)] := hrows ▸ mem_map_of_mem hrow
    obtain ⟨hid, hstatus⟩ := Prod.mk.inj (mem_singleton.1 hmem)
    exact ⟨by omega, hstatus⟩
  · intro event hevent j _ heq
    have hmem : event.eventId ∈ ["e1"] := hevents ▸ mem_map_of_mem hevent
    have hid : oldId j = "e1" := heq.symm.trans (mem_singleton.1 hmem)
    have hchar : 'e' ∈ (oldId j).toList := by rw [hid]; decide
    simp [oldId] at hchar
  · have hids := congrArg (List.map Prod.fst) hrows
    simpa using hids

/-- **The snapshot's time goes back**: a thousand old events push the decision out of the window, and temporal reads
no longer see it. -/
theorem late_uploads_hide_decision :
    ∃ a b freshness freshness', run (execute sampleRunner) (.start ∅) decided = some a ∧
      run (execute sampleRunner) a (uploads 0 recentEvents) = some b ∧
      read (fun _ => "") (.at a.world) [("knowledge", "1")] 8 none none = .ok freshness ∧
      read (fun _ => "") (.at b.world) [("knowledge", "1")] 8 none none = .ok freshness' ∧
      freshness.asOfOutboxId < freshness'.asOfOutboxId ∧ freshness'.validInstant < freshness.validInstant ∧
      freshness'.knownUntil = none ∧ 5 ≤ known freshness none ∧ ¬ 5 ≤ known freshness' none := by
  have hsome : (run (execute sampleRunner) (.start ∅) decided).isSome = true := by decide +kernel
  obtain ⟨a, ha⟩ := Option.isSome_iff_exists.1 hsome
  have hread : (run (execute sampleRunner) (.start ∅) decided).map (fun a =>
      (read (fun _ => "") (.at a.world) [("knowledge", "1")] 8 none none).toOption.map
        fun f => (f.asOfOutboxId, f.validInstant, f.knownUntil)) = some (some (1, 5, none)) := by decide +kernel
  rw [ha] at hread
  obtain ⟨freshness, hfreshness, hvalues⟩ := Option.map_eq_some_iff.1 (Option.some.inj hread)
  obtain ⟨hasOf, hinstant, huntil⟩ : freshness.asOfOutboxId = 1 ∧ freshness.validInstant = 5 ∧
      freshness.knownUntil = none := by simpa using hvalues
  obtain ⟨idle, hopen, hnext, hids⟩ := decided_idle ha
  obtain ⟨b, rows, hb, idle', houtbox, hlength, hrows⟩ := uploads_run recentEvents 0 a idle hopen
  have inv : RunnerInv sampleRunner b.world := runnerInv_executed (run_append.2 ⟨a, ha, hb⟩)
  have hdelivered : ∀ row ∈ b.world.outbox, row.status = .delivered := fun row hrow => (idle'.rows row hrow).2
  have hlow : low b.world = none := by
    rw [low, List.min?_eq_none_iff, List.map_eq_nil_iff, List.filter_eq_nil_iff]
    intro row hrow
    simp [waiting, hdelivered row hrow]
  have hmem : ∀ row ∈ rows, row ∈ b.world.outbox := fun row hrow => houtbox ▸ List.mem_append_right _ hrow
  obtain ⟨first, hfirst⟩ := List.exists_mem_of_length_pos (l := rows) (by rw [hlength]; decide)
  have hbelow : (low b.world).all (first.outboxId < ·) = true := by
    rw [hlow]
    rfl
  obtain ⟨mark, hmark⟩ := exists_watermark (hmem first hfirst) (hdelivered _ (hmem first hfirst)) hbelow
  obtain ⟨hmarkMem, -, -, hmax⟩ := watermark_spec hmark
  have hmax' : ∀ row ∈ b.world.outbox, row.outboxId ≤ mark.outboxId := fun row hrow =>
    hmax row hrow (hdelivered row hrow) (by rw [hlow]; rfl)
  have hupTo : ∀ row ∈ b.world.outbox, row ∈ deliveredUpTo b.world mark.outboxId := fun row hrow =>
    mem_deliveredUpTo.2 ⟨hrow, hmax' row hrow, hdelivered row hrow⟩
  -- the decision's row has a thousand newer rows, so it is not in the window
  have hwindow : ∀ row ∈ recentRows b.world mark.outboxId, row ∈ rows := by
    intro row hrow
    obtain ⟨hrow, hnewer⟩ := (mem_recentRows inv.ids).1 hrow
    have hold := (mem_deliveredUpTo.1 hrow).1
    rw [houtbox] at hold
    refine (List.mem_append.1 hold).resolve_left fun hold => ?_
    have hid : row.outboxId = 1 := by
      have : row.outboxId ∈ [1] := hids ▸ List.mem_map_of_mem hold
      simpa using this
    have hsub : rows.length ≤ newer b.world mark.outboxId row.outboxId := by
      have hcount : (a.world.outbox ++ rows).countP (row.outboxId < ·.outboxId) =
          newer b.world mark.outboxId row.outboxId := by
        rw [newer, ← houtbox, deliveredUpTo, List.filter_eq_self.2]
        intro other hother
        simpa using And.intro (hmax' other hother) (hdelivered other hother)
      rw [← hcount, List.countP_append]
      have hall : rows.countP (row.outboxId < ·.outboxId) = rows.length := by
        rw [List.countP_eq_length]
        intro other hother
        have := (hrows other hother).1
        simp only [decide_eq_true_eq]
        omega
      omega
    omega
  have hold : ∀ row ∈ rows, ∃ e, eventOf b.world row = some e ∧ clamped e = 1 := by
    intro row hrow
    obtain ⟨-, j, hevent, hstored⟩ := hrows row hrow
    have hfound : (eventOf b.world row).isSome = true :=
      List.find?_isSome.2 ⟨oldEvent j, hstored, by simp [hevent, oldEvent]⟩
    obtain ⟨e, he⟩ := Option.isSome_iff_exists.1 hfound
    have hid : e.eventId = row.eventId := by simpa using List.find?_some he
    have hsame : e = oldEvent j := List.inj_on_of_nodup_map inv.eventIds (List.mem_of_find?_eq_some he) hstored
      (hid.trans hevent)
    exact ⟨e, he, by rw [hsame]; rfl⟩
  have hmarkRecent : mark ∈ recentRows b.world mark.outboxId := by
    refine (mem_recentRows inv.ids).2 ⟨hupTo mark hmarkMem, ?_⟩
    have hnone : newer b.world mark.outboxId mark.outboxId = 0 := by
      rw [newer, List.countP_eq_zero]
      intro other hother
      have := (mem_deliveredUpTo.1 hother).2.1
      simp only [decide_eq_true_eq]
      omega
    rw [hnone]
    decide
  have hrecent : recent b.world mark.outboxId = some 1 := by
    refine recent_eq_some.2 ⟨?_, ?_⟩
    · obtain ⟨e, he, hclamped⟩ := hold mark (hwindow mark hmarkRecent)
      exact ⟨mark, hmarkRecent, e, he, hclamped⟩
    · intro row hrow e he
      obtain ⟨e', he', hclamped⟩ := hold row (hwindow row hrow)
      obtain rfl := Option.some.inj (he.symm.trans he')
      exact hclamped.le
  have hbeyond : beyond b.world mark.outboxId none none = none := by
    have hnil : b.world.outbox.filter (fun row => mark.outboxId < row.outboxId && touched row) = [] := by
      rw [List.filter_eq_nil_iff]
      intro row hrow
      have := hmax' row hrow
      simp only [Bool.and_eq_true, decide_eq_true_eq, not_and]
      omega
    rw [beyond, hnil]
    rfl
  have hasOf' : 1 < mark.outboxId := by
    have := (hrows first hfirst).1
    have := hmax' first (hmem first hfirst)
    omega
  let freshness' : Freshness :=
    { asOfEventId := mark.eventId
      asOfOutboxId := mark.outboxId
      validInstant := 1
      knownUntil := none
      projectionCheckpoint := "pc1-"
      stalenessMs := (oldest b.world).elim 0 fun oldest => (8 - oldest) / 1000
      warnings := ([("knowledge", "1")].flatMap
        (projectorWarnings b.world.checkpoints b.world.deadLetters)).eraseDups }
  have hread' : read (fun _ => "") (.at b.world) [("knowledge", "1")] 8 none none = .ok freshness' := by
    unfold read
    dsimp only [Views.at]
    rw [hmark]
    dsimp only
    rw [hrecent]
    show Except.ok _ = _
    simp only [hbeyond, Option.map_none]
    rfl
  refine ⟨a, b, freshness, freshness', ha, hb, ?_, hread', ?_, ?_, rfl, ?_, ?_⟩
  · exact toOption_eq_some hfreshness
  · rw [hasOf]
    exact hasOf'
  · show (1 : Int) < freshness.validInstant
    rw [hinstant]
    decide
  · simp [known, knownLimit, hinstant, huntil]
  · simp [known, knownLimit, freshness']

end Retrieval
