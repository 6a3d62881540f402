import AgentContext.Retrieval.Backlog
import AgentContext.Temporal.Snapshot

/-!
# Temporal reads and the snapshot

A request reads its freshness in one state and the graph in a later one.  Temporal reads are bounded by the record time
of `_known` instead of a snapshot of the graph:

    valid_instant   what the snapshot's own events reach
    known_until     just before the earliest event past the watermark that was handed to a worker

An event past the watermark that nobody had been handed is in neither bound: uploaded with an early `observed_at` and
projected before the graph is read, it is seen.  A run that is reported again past the watermark moves its node.
-/

namespace Temporal

open Table Projection Transition
open Knowledge (Moment)
open Retrieval (Stored Views Freshness known temporalType inScope ReleasedLater WritesLate)

variable {e : Event} {g : Graph}

/-! ## The projectors -/

/-- The runner's projectors, of which two write what temporal reads query. -/
def Registered (r : Runner (Stored Content) Graph) : Prop :=
  ∃ first last, r.projectors = first ++ [knowledgeProjector, qualityProjector] ++ last ∧
    ∀ p ∈ first ++ last, ∀ e g, p.project e g = g

theorem runMatching_silent {ps : List (Projector (Stored Content) Graph)} (hsilent : ∀ p ∈ ps, ∀ e g, p.project e g = g)
    (e : Event) (g : Graph) : runMatching ps e g = g := by
  unfold runMatching
  induction ps with
  | nil => rfl
  | cons p ps ih =>
    rw [List.foldl_cons, hsilent p List.mem_cons_self]
    exact ih fun q hq => hsilent q (List.mem_cons_of_mem _ hq)

/-- A projector writes nothing of the types it does not handle. -/
theorem projectKnowledge_other (h : e.eventType ∉ knowledgeTypes) : projectKnowledge e g = g := by
  simp only [knowledgeTypes, List.mem_cons, not_or] at h
  unfold projectKnowledge
  split
  · exact if_neg h.1
  · exact if_neg h.2.2.1
  · rfl

theorem projectQuality_other (h : e.eventType ∉ qualityTypes) : projectQuality e g = g := by
  simp only [qualityTypes, List.mem_cons, not_or] at h
  unfold projectQuality
  split
  · exact if_neg h.2.1
  · exact if_neg h.1
  · rfl

variable {r : Runner (Stored Content) Graph}

theorem runMatching_append {ps qs : List (Projector (Stored Content) Graph)} :
    runMatching (ps ++ qs) e g = runMatching qs e (runMatching ps e g) := by
  unfold runMatching
  rw [List.foldl_append]

theorem runMatching_both :
    runMatching ([knowledgeProjector, qualityProjector].filter (·.takes e.eventType)) e g = projectEvent g e := by
  have hknowledge : knowledgeProjector.takes e.eventType = decide (e.eventType ∈ knowledgeTypes) := rfl
  have hquality : qualityProjector.takes e.eventType = decide (e.eventType ∈ qualityTypes) := rfl
  unfold projectEvent
  rw [List.filter_cons, List.filter_cons, List.filter_nil, hknowledge, hquality]
  by_cases hk : e.eventType ∈ knowledgeTypes <;> by_cases hq : e.eventType ∈ qualityTypes
  · simp only [hk, hq, decide_true, if_true]
    rfl
  · simp only [hk, hq, decide_true, decide_false, if_true, Bool.false_eq_true, if_false]
    exact (projectQuality_other hq).symm
  · simp only [hk, hq, decide_true, decide_false, if_true, Bool.false_eq_true, if_false]
    rw [projectKnowledge_other hk]
    rfl
  · simp only [hk, hq, decide_false, Bool.false_eq_true, if_false]
    rw [projectKnowledge_other hk, projectQuality_other hq]
    rfl

theorem applyEvent_registered (hregistered : Registered r) {matching : List (Projector (Stored Content) Graph)}
    (hmatch : matchingProjectors r.projectors e.eventType = .ok matching) (g : Graph) :
    applyEvent r g e = projectEvent g e := by
  obtain ⟨first, last, hprojectors, hsilent⟩ := hregistered
  have hkept : ∀ ps : List (Projector (Stored Content) Graph), (∀ p ∈ ps, p ∈ first ++ last) → ∀ g,
      runMatching (ps.filter (·.takes e.eventType)) e g = g := fun ps hps g =>
    runMatching_silent (fun p hp => hsilent p (hps p (List.mem_filter.1 hp).1)) e g
  unfold applyEvent
  rw [hmatch]
  show runMatching matching e g = _
  rw [matchingProjectors_ok hmatch, hprojectors, List.filter_append, List.filter_append, runMatching_append,
    runMatching_append, hkept first (fun p hp => List.mem_append_left _ hp), runMatching_both,
    hkept last (fun p hp => List.mem_append_right _ hp)]

/-! ## The snapshot -/

/-- The outbox row of an event is at or below a row. -/
def upTo (w : World (Stored Content) Graph) (asOf : Nat) (eventId : String) : Bool :=
  w.outbox.any fun row => row.eventId = eventId && row.outboxId ≤ asOf

/-- The events of the graph up to the watermark. -/
def writtenUpTo (w : World (Stored Content) Graph) (asOf : Nat) : List Event :=
  w.written.filter fun e => upTo w asOf e.eventId

/-- The graph that holds those events only. -/
def snapshotGraph (w : World (Stored Content) Graph) (asOf : Nat) : Graph := graphOf (writtenUpTo w asOf)

/-- No run that the read may see is moved by a report past the watermark. -/
def RunsKept (cut : Cut) (w : World (Stored Content) Graph) (asOf : Nat) : Prop :=
  ∀ id, RunKept cut (upTo w asOf) (reportsOf ciReport id w.written) ∧
    RunKept cut (upTo w asOf) (reportsOf testReport id w.written)

instance (cut : Cut) : DecidablePred (Hidden cut) := fun e =>
  inferInstanceAs (Decidable (temporalType e.eventType = true →
    cut.scope.covers e.content.projectId e.content.repositoryId = true → cut.recordedAt < e.content.observedAt))

/-- The live graph is that of its events. -/
theorem graph_eq_graphOf {w : World (Stored Content) Graph} (hregistered : Registered r) (inv : GraphInv r .empty w) :
    w.graph = graphOf w.written ∧ OneEach w.written := by
  constructor
  · rw [inv.graph_eq]
    unfold graphOf
    refine List.foldl_ext _ _ _ fun g e he => ?_
    obtain ⟨-, matching, hmatch, -⟩ := inv.written e he
    exact applyEvent_registered hregistered hmatch g
  · intro a ha b hb hab
    have hload := (inv.written a ha).1
    rw [hab, (inv.written b hb).1] at hload
    exact (Except.ok.inj hload).symm

/-- **A temporal read sees what the graph of the snapshot's events shows**, when
no row past the watermark that nobody had been handed at `_BEYOND` brings an event observed by the record time,
no run it may see is moved by a report past the watermark, and releases are later than the rows they release. -/
theorem reads_snapshot (r : Runner (Stored Content) Graph) (hregistered : Registered r)
    (digest : List (String × String × Nat × String) → String) (before after : List (Statement (Stored Content)))
    (b c : Database (Stored Content) Graph) (hb : run (execute r) (.start .empty) before = some b)
    (hc : run (execute r) b after = some c) (views : Views Content Graph) (hview : views.beyond = b.world)
    (projectors : List (String × String)) (now : Nat) (scope : TemporalScope) (freshness : Freshness)
    (hread : Retrieval.read digest views projectors now scope.projectId scope.repositoryId = .ok freshness)
    (ceiling : Option Int) (validAt : Moment)
    (hreleased : Meets (execute r) (OnWork ReleasedLater) (.start .empty) before)
    (hlate : Meets (execute r) (OnWork (WritesLate r b.world freshness.asOfOutboxId
      (Hidden ⟨scope, validAt, known freshness ceiling⟩))) b after)
    (hruns : RunsKept ⟨scope, validAt, known freshness ceiling⟩ c.world freshness.asOfOutboxId) :
    (∀ includeHistory, ∃ result,
      decisions ⟨scope, validAt, known freshness ceiling⟩ includeHistory c.world.graph = some result ∧
      decisions ⟨scope, validAt, known freshness ceiling⟩ includeHistory (snapshotGraph c.world freshness.asOfOutboxId) =
        some result) ∧
    ∀ includeResolved, ∃ result,
      failures ⟨scope, validAt, known freshness ceiling⟩ includeResolved c.world.graph = some result ∧
      failures ⟨scope, validAt, known freshness ceiling⟩ includeResolved (snapshotGraph c.world freshness.asOfOutboxId) =
        some result := by
  have invb : GraphInv r .empty b.world :=
    executed_keeps (I := GraphInv r .empty) (fun _ _ _ inv hs => inv.step hs) (GraphInv.start r .empty) hb
  have invc : GraphInv r .empty c.world :=
    executed_keeps (I := GraphInv r .empty) (fun _ _ _ inv hs => inv.step hs) invb hc
  obtain ⟨hgraph, hone⟩ := graph_eq_graphOf hregistered invc
  have hhidden : ∀ e ∈ c.world.written, upTo c.world freshness.asOfOutboxId e.eventId = false →
      Hidden ⟨scope, validAt, known freshness ceiling⟩ e := by
    intro e he hpast htype hcovers
    have hevent : e.eventId ∈ c.world.events.map (·.eventId) :=
      List.mem_map_of_mem (List.mem_of_find?_eq_some (loadEvent_ok.1 (invc.written e he).1).1)
    rw [← invc.runner.events] at hevent
    obtain ⟨row, hrow, hid⟩ := List.mem_map.1 hevent
    refine Retrieval.written_observed_later hb hc hreleased hview hread ceiling hlate e he row hrow hid ?_ htype hcovers
    by_contra hle
    have hup : upTo c.world freshness.asOfOutboxId e.eventId = true :=
      List.any_eq_true.2 ⟨row, hrow, by simpa using ⟨hid, not_lt.1 hle⟩⟩
    rw [hpast] at hup
    cases hup
  have hseen : seen ⟨scope, validAt, known freshness ceiling⟩ (snapshotGraph c.world freshness.asOfOutboxId) =
      seen ⟨scope, validAt, known freshness ceiling⟩ c.world.graph := by
    rw [hgraph]
    exact seen_filter hone hhidden (fun id => (hruns id).1) fun id => (hruns id).2
  constructor
  · intro includeHistory
    have hsome : (decisions ⟨scope, validAt, known freshness ceiling⟩ includeHistory c.world.graph).isSome = true := by
      rw [hgraph]
      exact decisions_returns hone includeHistory
    obtain ⟨result, hresult⟩ := Option.isSome_iff_exists.1 hsome
    refine ⟨result, hresult, ?_⟩
    rw [← hresult, decisions, decisions, hseen]
  · intro includeResolved
    have hsome : (failures ⟨scope, validAt, known freshness ceiling⟩ includeResolved c.world.graph).isSome = true := by
      rw [hgraph]
      exact failures_returns hone includeResolved
    obtain ⟨result, hresult⟩ := Option.isSome_iff_exists.1 hsome
    refine ⟨result, hresult, ?_⟩
    rw [← hresult, failures, failures, hseen]

/-! ## A late upload -/

namespace Sample

def runner : Runner (Stored Content) Graph where
  projectors := [knowledgeProjector, qualityProjector]
  verifyEvent := fun _ => true
  leaseDuration := 30
  maxAttempts := 3
  baseRetryDelay := 1
  maxRetryDelay := 60
  leaseDuration_pos := lease_pos
  maxAttempts_pos := attempts_pos
  baseRetryDelay_pos := Nat.one_pos
  maxRetryDelay_le := retry_le
  identities_nodup := by decide

theorem registered : Registered runner := ⟨[], [], rfl, fun _ h => absurd h List.not_mem_nil⟩

def event (eventId eventType : String) (observedAt occurredAt : Moment) (body : Body) : Event :=
  ⟨eventId, eventType, ⟨observedAt, 50, none, some "repo", ⟨occurredAt, body⟩⟩⟩

def completed (eventId runId status : String) (observedAt occurredAt : Moment) : Event :=
  event eventId "quality.ci_run.completed" observedAt occurredAt
    (.ciRun ⟨runId, some "github", some "build", some "test", status, some "c1", none⟩)

/-- A failure of a build, and the run it was observed in. -/
def failing : Event := completed "e1" "r1" "failure" 9 3

def failed : Event :=
  event "e2" "knowledge.failure.observed" 10 3
    (.failure ⟨"f1", "build", "compile", "Error", "1", "sha", none, none, some "r1"⟩)

def scope : TemporalScope := ⟨none, some "repo", Or.inr (by decide)⟩

/-- The failure is delivered, and a later run uploaded. -/
def uploaded (later : Event) : List (Statement (Stored Content)) :=
  [.insert "A" failing 50, .insert "A" failed 50, .commit "A", .work (.claim "w" 10 [] 51),
   .work (.project "w" .works), .work (.finalize "w" 52), .work (.project "w" .works), .work (.finalize "w" 52),
   .insert "B" later 53, .commit "B"]

/-- The upload reaches the graph. -/
def projected : List (Statement (Stored Content)) := [.work (.claim "w" 10 [] 54), .work (.project "w" .works)]

/-- The failures that are read, with their resolution. -/
def resolutions (g : Graph) (known : Moment) : List (String × FixStatus) :=
  (failures ⟨scope, 30, known⟩ true g).elim [] fun result =>
    result.failures.map fun record => (record.failureId, record.resolution.status)

def readIn (d : Database (Stored Content) Graph) : Option Freshness :=
  (Retrieval.read (fun _ => "") (.at d.world) [("knowledge", "2"), ("quality", "2")] 53 scope.projectId
    scope.repositoryId).toOption

/-- What a request reads, and what the snapshot's events show. -/
structure Answers where
  asOf : Nat
  live : List (String × FixStatus)
  snapshot : List (String × FixStatus)
deriving DecidableEq

def answers (freshness : Freshness) (c : Database (Stored Content) Graph) : Answers where
  asOf := freshness.asOfOutboxId
  live := resolutions c.world.graph (known freshness none)
  snapshot := resolutions (snapshotGraph c.world freshness.asOfOutboxId) (known freshness none)

end Sample

open Sample in
/-- **A run uploaded before the read and projected after it is seen**: the failure is answered as resolved, and the
snapshot, which ends at the failure, shows it unresolved. -/
theorem late_upload_seen : ∃ b c freshness,
    run (execute runner) (.start .empty) (uploaded (completed "e3" "r2" "success" 6 5)) = some b ∧
    run (execute runner) b projected = some c ∧
    Retrieval.read (fun _ => "") (.at b.world) [("knowledge", "2"), ("quality", "2")] 53 scope.projectId
      scope.repositoryId = .ok freshness ∧
    answers freshness c = ⟨2, [("f1", .resolved)], [("f1", .unresolved)]⟩ := by
  have hrun : ((run (execute runner) (.start .empty) (uploaded (completed "e3" "r2" "success" 6 5))).bind
      fun b => (run (execute runner) b projected).bind fun c =>
        (readIn b).map fun freshness => answers freshness c) =
      some ⟨2, [("f1", .resolved)], [("f1", .unresolved)]⟩ := rfl
  obtain ⟨b, hb, hrest⟩ := Option.bind_eq_some_iff.1 hrun
  obtain ⟨c, hc, hrest⟩ := Option.bind_eq_some_iff.1 hrest
  obtain ⟨freshness, hfreshness, hanswers⟩ := Option.map_eq_some_iff.1 hrest
  exact ⟨b, c, freshness, hb, hc, Retrieval.toOption_eq_some hfreshness, hanswers⟩

/-- Decidable parts of the condition. -/
def Sample.meets (later : Event) (b c : Database (Stored Content) Graph) (freshness : Freshness) : Bool :=
  decide (Meets (execute Sample.runner) (OnWork ReleasedLater) (.start .empty) (Sample.uploaded later)) &&
    decide (Meets (execute Sample.runner) (OnWork (WritesLate Sample.runner b.world freshness.asOfOutboxId
      (Hidden ⟨Sample.scope, 30, known freshness none⟩))) b Sample.projected) &&
    decide ((c.world.written.filterMap ciReport).map (·.runId)).Nodup &&
    decide ((c.world.written.filterMap testReport).map (·.runId)).Nodup

open Sample in
/-- A run that completed and was observed after the record time of the read. -/
theorem reads_snapshot_sample : ∃ c freshness result,
    run (execute runner) (.start .empty) (uploaded (completed "e3" "r2" "success" 20 5) ++ projected) = some c ∧
    freshness.asOfOutboxId = 2 ∧
    failures ⟨scope, 30, known freshness none⟩ true c.world.graph = some result ∧
    failures ⟨scope, 30, known freshness none⟩ true (snapshotGraph c.world 2) = some result := by
  have hrun : ((run (execute runner) (.start .empty) (uploaded (completed "e3" "r2" "success" 20 5))).bind
      fun b => (run (execute runner) b projected).bind fun c =>
        (readIn b).map fun freshness =>
          (freshness.asOfOutboxId, meets (completed "e3" "r2" "success" 20 5) b c freshness)) = some (2, true) := by
    decide +kernel
  obtain ⟨b, hb, hrest⟩ := Option.bind_eq_some_iff.1 hrun
  obtain ⟨c, hc, hrest⟩ := Option.bind_eq_some_iff.1 hrest
  obtain ⟨freshness, hfreshness, hend⟩ := Option.map_eq_some_iff.1 hrest
  obtain ⟨hasOf, hmeets⟩ := Prod.mk.inj hend
  simp only [meets, Bool.and_eq_true, decide_eq_true_eq] at hmeets
  obtain ⟨⟨⟨hreleased, hlate⟩, hci⟩, htests⟩ := hmeets
  have hreads := reads_snapshot runner registered (fun _ => "") _ projected b c hb hc (.at b.world) rfl
    [("knowledge", "2"), ("quality", "2")] 53 scope freshness (Retrieval.toOption_eq_some hfreshness) none 30 hreleased hlate
    fun id => ⟨runKept_of_nodup hci id, runKept_of_nodup htests id⟩
  obtain ⟨result, hlive, hsnapshot⟩ := hreads.2 true
  exact ⟨c, freshness, result, run_append.2 ⟨b, hb, hc⟩, hasOf, hlive, hasOf ▸ hsnapshot⟩

end Temporal
