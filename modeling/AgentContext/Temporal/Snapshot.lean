import AgentContext.Knowledge.Refinement
import AgentContext.Temporal.Reads

/-!
# A read of part of the events

What the queries of a temporal read match, from the events that the graph holds:

    versions, observations    the nodes of the events themselves, one for each
    runs                      the newest result, the smallest scope and the earliest record time of the reports

Leaving events out of the graph leaves a read as it is when none of them is matched on its own, and none of them moves
the node of a run that is (`RunKept`).
-/

namespace Temporal

open Table PropertyGraph List
open Knowledge (Moment EventOrder Envelope DecisionEvent VersionNode SameIds)

/-! ## What an event writes -/

/-- The graph transaction of an event. -/
def projectEvent (g : Graph) (e : Event) : Graph := projectQuality e (projectKnowledge e g)

def graphOf (es : List Event) : Graph := es.foldl projectEvent .empty

def decisionEvent (e : Event) : Option DecisionEvent :=
  match e.content.payload.body with
  | .decision p => if e.eventType = "knowledge.decision.recorded" then some ⟨envelope e, p⟩ else none
  | _ => none

def observationNode (e : Event) : Option ObservationNode :=
  match e.content.payload.body with
  | .failure p => if e.eventType = "knowledge.failure.observed" then some (observationOf (envelope e) p) else none
  | _ => none

/-- A report of a run. -/
structure Report where
  runId : String
  result : RunResult
  envelope : Envelope
  ordered : result.order = envelope.order

def ciReport (e : Event) : Option Report :=
  match e.content.payload.body with
  | .ciRun p =>
    if e.eventType = "quality.ci_run.completed" then some ⟨p.ciRunId, ciResult (envelope e) p, envelope e, rfl⟩ else none
  | _ => none

def testReport (e : Event) : Option Report :=
  match e.content.payload.body with
  | .testRun p =>
    if e.eventType = "quality.test_run.completed" then some ⟨p.testRunId, testResult (envelope e) p, envelope e, rfl⟩ else none
  | _ => none

def runNode (reports : List Report) : RunNode := reports.foldl (fun n r => n.report r.result r.envelope) .stub

/-- The reports of a run. -/
def reportsOf (report : Event → Option Report) (id : String) (es : List Event) : List Report :=
  (es.filterMap report).filter (·.runId = id)

variable {g : Graph} {e : Event} {es : List Event}
variable {r : Report} {report : Event → Option Report}
variable {runs : Dict String RunNode} {below : String → Bool}

theorem graphOf_concat : graphOf (es ++ [e]) = projectEvent (graphOf es) e := by
  unfold graphOf
  rw [foldl_append, foldl_cons, foldl_nil]

/-- What an event does to each part of the graph. -/
theorem projectEvent_knowledge :
    (projectEvent g e).knowledge = (decisionEvent e).elim g.knowledge fun d => g.knowledge.project d := by
  unfold projectEvent projectQuality projectKnowledge decisionEvent
  cases e.content.payload.body with
  | other => rfl
  | _ => simp only; split <;> rfl

theorem projectEvent_observations : (projectEvent g e).observations =
    (observationNode e).elim g.observations fun w =>
      Table.modify e.eventId (·.fillOnce w) (touch e.eventId .stub g.observations) := by
  unfold projectEvent projectQuality projectKnowledge observationNode
  cases e.content.payload.body with
  | other => rfl
  | _ => simp only; split <;> rfl

/-- The node of a run; the stub that a failure leaves counts as none. -/
def nodeOf (runs : Dict String RunNode) (id : String) : RunNode := (runs.lookup id).getD .stub

theorem nodeOf_touchNamed {named : Option String} {id : String} :
    nodeOf (touchNamed named runs) id = nodeOf runs id := by
  cases named with
  | none => rfl
  | some k =>
    unfold nodeOf touchNamed
    rw [lookup_touch]
    split
    · next h => rw [h, Option.getD_some]
    · rfl

theorem nodeOf_reported {id : String} : nodeOf (reportRun r.runId r.result r.envelope runs) id =
      ((some r).filter (·.runId = id)).elim (nodeOf runs id) fun r => (nodeOf runs id).report r.result r.envelope := by
  unfold nodeOf reportRun
  rw [lookup_modify, lookup_touch, lookup_touch, if_pos rfl]
  by_cases h : id = r.runId
  · rw [if_pos h, Option.map_some, Option.getD_some]
    subst h
    simp [Option.filter]
  · rw [if_neg h, if_neg h]
    simp [Option.filter, Ne.symm h]

theorem projectEvent_ci {id : String} : nodeOf (projectEvent g e).ci id =
    ((ciReport e).filter (·.runId = id)).elim (nodeOf g.ci id) fun r => (nodeOf g.ci id).report r.result r.envelope := by
  unfold projectEvent projectQuality projectKnowledge ciReport
  cases e.content.payload.body with
  | decision | testRun => simp only; split <;> rfl
  | failure p => simp only; split <;> [exact nodeOf_touchNamed; rfl]
  | ciRun p => simp only; split <;> [exact nodeOf_reported (r := ⟨p.ciRunId, ciResult (envelope e) p, envelope e, rfl⟩); rfl]
  | other => rfl

theorem projectEvent_tests {id : String} : nodeOf (projectEvent g e).tests id =
    ((testReport e).filter (·.runId = id)).elim (nodeOf g.tests id)
      fun r => (nodeOf g.tests id).report r.result r.envelope := by
  unfold projectEvent projectQuality projectKnowledge testReport
  cases e.content.payload.body with
  | decision | ciRun => simp only; split <;> rfl
  | failure p => simp only; split <;> [exact nodeOf_touchNamed; rfl]
  | testRun p => simp only; split <;> [exact nodeOf_reported (r := ⟨p.testRunId, testResult (envelope e) p, envelope e, rfl⟩); rfl]
  | other => rfl

/-! ## What the events leave in the graph -/

theorem knowledge_graphOf : (graphOf es).knowledge = Knowledge.projected (es.filterMap decisionEvent) := by
  induction es using List.reverseRecOn with
  | nil => rfl
  | append_singleton es e ih =>
    rw [graphOf_concat, projectEvent_knowledge, ih, filterMap_append]
    cases he : decisionEvent e with
    | none => simp [he]
    | some d =>
      unfold Knowledge.projected
      simp [he]

def OneEach (es : List Event) : Prop := ∀ a ∈ es, ∀ b ∈ es, a.eventId = b.eventId → a = b

theorem OneEach.of_subset {es' : List Event} (h : OneEach es) (hsub : ∀ a ∈ es', a ∈ es) : OneEach es' :=
  fun a ha b hb => h a (hsub a ha) b (hsub b hb)

theorem decisionEvent_id {d : DecisionEvent} (h : decisionEvent e = some d) : d.eventId = e.eventId := by
  unfold decisionEvent at h
  split at h
  · split at h
    · cases h
      rfl
    · cases h
  · cases h

theorem OneEach.decisions (h : OneEach es) : SameIds (es.filterMap decisionEvent) := by
  intro a ha b hb hab
  obtain ⟨e, he, hea⟩ := mem_filterMap.1 ha
  obtain ⟨e', he', heb⟩ := mem_filterMap.1 hb
  have hsame : e = e' := h e he e' he' (by rw [← decisionEvent_id hea, hab, decisionEvent_id heb])
  subst hsame
  exact Option.some.inj (hea.symm.trans heb)

theorem lookup_versions (h : OneEach es) {id : String} {n : VersionNode} :
    (graphOf es).knowledge.versions.lookup id = some n ↔
      ∃ e ∈ es, e.eventId = id ∧ (decisionEvent e).map Knowledge.Graph.versionOf = some n := by
  rw [knowledge_graphOf, (Knowledge.reflects_projected h.decisions).versions, Option.map_eq_some_iff]
  constructor
  · rintro ⟨d, hd, rfl⟩
    obtain ⟨e, he, hed⟩ := mem_filterMap.1 (List.mem_of_find?_eq_some hd)
    have hid : d.eventId = id := by simpa using List.find?_some hd
    exact ⟨e, he, decisionEvent_id hed ▸ hid, by rw [hed]; rfl⟩
  · rintro ⟨e, he, hid, hn⟩
    obtain ⟨d, hd, rfl⟩ := Option.map_eq_some_iff.1 hn
    refine ⟨d, ?_, rfl⟩
    have hmem : d ∈ es.filterMap decisionEvent := mem_filterMap.2 ⟨e, he, hd⟩
    have hdid : d.eventId = id := (decisionEvent_id hd).trans hid
    cases hfind : (es.filterMap decisionEvent).find? (·.eventId = id) with
    | none => exact absurd (List.find?_eq_none.1 hfind d hmem) (by simp [hdid])
    | some d' =>
      have hd' : d'.eventId = id := by simpa using List.find?_some hfind
      exact congrArg some (h.decisions d' (List.mem_of_find?_eq_some hfind) d hmem (hd'.trans hdid.symm))

theorem lookup_observations (h : OneEach es) {id : String} {n : ObservationNode} :
    (graphOf es).observations.lookup id = some n ↔ ∃ e ∈ es, e.eventId = id ∧ observationNode e = some n := by
  induction es using List.reverseRecOn generalizing id n with
  | nil => exact ⟨fun h => (nomatch h), fun ⟨e, he, _⟩ => absurd he not_mem_nil⟩
  | append_singleton es e ih =>
    have hsub : OneEach es := h.of_subset fun a ha => mem_append_left _ ha
    rw [graphOf_concat, projectEvent_observations]
    cases he : observationNode e with
    | none =>
      rw [Option.elim_none, ih hsub]
      constructor
      · rintro ⟨a, ha, hrest⟩
        exact ⟨a, mem_append_left _ ha, hrest⟩
      · rintro ⟨a, ha, hid, hn⟩
        rcases mem_append.1 ha with ha | ha
        · exact ⟨a, ha, hid, hn⟩
        · rw [mem_singleton.1 ha, he] at hn
          cases hn
    | some w =>
      rw [Option.elim_some, lookup_modify, lookup_touch, lookup_touch, if_pos rfl]
      by_cases hid : id = e.eventId
      · -- a second delivery finds the node as it wrote it
        have hown : (((graphOf es).observations.lookup e.eventId).getD .stub).fillOnce w = w := by
          cases hold : (graphOf es).observations.lookup e.eventId with
          | none => exact ObservationNode.fillOnce_stub w
          | some n' =>
            obtain ⟨a, ha, haid, hn'⟩ := (ih hsub).1 hold
            have hsame : a = e := h a (mem_append_left _ ha) e (mem_append_right _ mem_cons_self) haid
            rw [hsame, he] at hn'
            cases hn'
            show w.fillOnce w = w
            exact ObservationNode.fillOnce_self w
        rw [if_pos hid, Option.map_some, hown]
        constructor
        · rintro hw
          exact ⟨e, mem_append_right _ mem_cons_self, hid.symm, he.trans hw⟩
        · rintro ⟨a, ha, haid, hn⟩
          have hsame : a = e := h a ha e (mem_append_right _ mem_cons_self) (haid.trans hid)
          rw [hsame, he] at hn
          exact hn
      · rw [if_neg hid, if_neg hid, ih hsub]
        constructor
        · rintro ⟨a, ha, hrest⟩
          exact ⟨a, mem_append_left _ ha, hrest⟩
        · rintro ⟨a, ha, haid, hn⟩
          rcases mem_append.1 ha with ha | ha
          · exact ⟨a, ha, haid, hn⟩
          · rw [mem_singleton.1 ha] at haid
            exact absurd haid.symm hid

theorem runNode_concat {reports : List Report} :
    runNode (reports ++ [r]) = (runNode reports).report r.result r.envelope := by
  unfold runNode
  rw [foldl_append, foldl_cons, foldl_nil]

theorem nodeOf_fold {runs : Graph → Dict String RunNode} {id : String} (hempty : nodeOf (runs .empty) id = .stub)
    (hstep : ∀ g e, nodeOf (runs (projectEvent g e)) id = ((report e).filter (·.runId = id)).elim (nodeOf (runs g) id)
      fun r => (nodeOf (runs g) id).report r.result r.envelope) :
    nodeOf (runs (graphOf es)) id = runNode (reportsOf report id es) := by
  induction es using List.reverseRecOn with
  | nil => exact hempty
  | append_singleton es e ih =>
    rw [graphOf_concat, hstep, ih]
    unfold reportsOf
    rw [filterMap_append, filter_append]
    cases he : report e with
    | none => simp [he]
    | some r =>
      by_cases hid : r.runId = id
      · simp [he, hid, Option.filter, runNode_concat]
      · simp [he, hid, Option.filter]

theorem nodeOf_ci {id : String} : nodeOf (graphOf es).ci id = runNode (reportsOf ciReport id es) :=
  nodeOf_fold rfl fun _ _ => projectEvent_ci

theorem nodeOf_tests {id : String} : nodeOf (graphOf es).tests id = runNode (reportsOf testReport id es) :=
  nodeOf_fold rfl fun _ _ => projectEvent_tests

/-! ## The node of a run -/

section Node

variable {R : List Report}

theorem runNode_projectId : (runNode R).projectId = leastNonNull (·.envelope.projectId) R := by
  induction R using List.reverseRecOn with
  | nil => rfl
  | append_singleton R r ih => rw [runNode_concat, leastNonNull_concat, ← ih]; rfl

theorem runNode_repositoryId : (runNode R).repositoryId = leastNonNull (·.envelope.repositoryId) R := by
  induction R using List.reverseRecOn with
  | nil => rfl
  | append_singleton R r ih => rw [runNode_concat, leastNonNull_concat, ← ih]; rfl

theorem runNode_recordedAt : (runNode R).recordedAt = leastNonNull (fun r => some r.envelope.observedAt) R := by
  induction R using List.reverseRecOn with
  | nil => rfl
  | append_singleton R r ih => rw [runNode_concat, leastNonNull_concat, ← ih]; rfl

theorem runNode_result : (runNode R).result = (R.argmax (·.result.order)).map (·.result) := by
  induction R using List.reverseRecOn with
  | nil => rfl
  | append_singleton R r ih =>
    rw [runNode_concat, argmax_concat]
    show (if (runNode R).result.all _ then _ else _) = _
    rw [ih]
    cases R.argmax (·.result.order) with
    | none => rfl
    | some best =>
      by_cases h : best.result.order < r.result.order
      · simp [h]
      · simp [h]

/-- The read sees no node of these reports: none names its project or its repository, or each was observed later. -/
def Unseen (cut : Cut) (R : List Report) : Prop :=
  (∃ q ∈ cut.scope.projectId, ∀ r ∈ R, r.envelope.projectId ≠ some q) ∨
  (∃ q ∈ cut.scope.repositoryId, ∀ r ∈ R, r.envelope.repositoryId ≠ some q) ∨
  ∀ r ∈ R, cut.recordedAt < r.envelope.observedAt

theorem Unseen.of_subset {cut : Cut} {R' : List Report} (h : Unseen cut R) (hsub : ∀ r ∈ R', r ∈ R) : Unseen cut R' := by
  rcases h with ⟨q, hq, h⟩ | ⟨q, hq, h⟩ | h
  · exact Or.inl ⟨q, hq, fun r hr => h r (hsub r hr)⟩
  · exact Or.inr (Or.inl ⟨q, hq, fun r hr => h r (hsub r hr)⟩)
  · exact Or.inr (Or.inr fun r hr => h r (hsub r hr))

theorem Unseen.seenResult {cut : Cut} (h : Unseen cut R) : seenResult cut (runNode R) = none := by
  unfold Temporal.seenResult
  refine if_neg fun hsees => ?_
  simp only [TemporalScope.covers, Bool.and_eq_true] at hsees
  obtain ⟨⟨hproject, hrepository⟩, hrecorded⟩ := hsees
  rcases h with ⟨q, hq, h⟩ | ⟨q, hq, h⟩ | h
  · rw [Option.mem_def.1 hq] at hproject
    have hleast : (runNode R).projectId = some q := by simpa using hproject
    rw [runNode_projectId, leastNonNull_eq_some] at hleast
    obtain ⟨r, hr, hrq⟩ := hleast.1
    exact h r hr hrq
  · rw [Option.mem_def.1 hq] at hrepository
    have hleast : (runNode R).repositoryId = some q := by simpa using hrepository
    rw [runNode_repositoryId, leastNonNull_eq_some] at hleast
    obtain ⟨r, hr, hrq⟩ := hleast.1
    exact h r hr hrq
  · obtain ⟨t, ht, hle⟩ := (Option.any_eq_true _ _).1 hrecorded
    rw [runNode_recordedAt, leastNonNull_eq_some] at ht
    obtain ⟨r, hr, hrt⟩ := ht.1
    obtain rfl := Option.some.inj hrt
    have hlt := h r hr
    exact absurd (of_decide_eq_true hle) (not_le.2 hlt)

theorem recorded_any {known : Moment} {r : Report} (hr : r ∈ R) (hle : r.envelope.observedAt ≤ known) :
    (runNode R).recordedAt.any (· ≤ known) = true := by
  rw [runNode_recordedAt, Option.any_eq_true]
  cases hleast : leastNonNull (fun r : Report => some r.envelope.observedAt) R with
  | none =>
    have hmem : r.envelope.observedAt ∈ R.filterMap fun r => some r.envelope.observedAt :=
      mem_filterMap.2 ⟨r, hr, rfl⟩
    rw [argmin_eq_none.1 hleast] at hmem
    exact absurd hmem not_mem_nil
  | some t =>
    have hmin := (leastNonNull_eq_some.1 hleast).2 r hr _ rfl
    exact ⟨t, rfl, by simpa using hmin.trans hle⟩

end Node

/-! ## Reports left out -/

section Left

variable {cut : Cut} {below : String → Bool} {R : List Report}

/-- The reports that stay. -/
def keptReports (below : String → Bool) (R : List Report) : List Report := R.filter fun r => below r.envelope.eventId

/-- The reports left out change nothing of the run's node that the read could see. -/
structure Absorbed (known : Moment) (below : String → Bool) (R : List Report) : Prop where
  recorded : ∃ r ∈ R, below r.envelope.eventId = true ∧ r.envelope.observedAt ≤ known
  result : ∀ r ∈ R, below r.envelope.eventId = false →
    ∃ b ∈ R, below b.envelope.eventId = true ∧ r.result.order < b.result.order
  project : ∀ r ∈ R, below r.envelope.eventId = false → ∀ q, r.envelope.projectId = some q →
    ∃ b ∈ R, below b.envelope.eventId = true ∧ ∃ q' ≤ q, b.envelope.projectId = some q'
  repository : ∀ r ∈ R, below r.envelope.eventId = false → ∀ q, r.envelope.repositoryId = some q →
    ∃ b ∈ R, below b.envelope.eventId = true ∧ ∃ q' ≤ q, b.envelope.repositoryId = some q'

/-- A run that several events report, and that the read may see, is not moved by the reports left out. -/
def RunKept (cut : Cut) (below : String → Bool) (R : List Report) : Prop :=
  (∃ a ∈ R, ∃ b ∈ R, a.envelope.eventId ≠ b.envelope.eventId) → ¬ Unseen cut R → Absorbed cut.recordedAt below R

/-- The nodes agree on what a read takes from them. -/
theorem Absorbed.same_node (habsorbed : Absorbed cut.recordedAt below R)
    (hone : ∀ a ∈ R, ∀ b ∈ R, a.envelope.eventId = b.envelope.eventId → a = b) :
    (runNode (keptReports below R)).result = (runNode R).result ∧
      (runNode (keptReports below R)).projectId = (runNode R).projectId ∧
      (runNode (keptReports below R)).repositoryId = (runNode R).repositoryId ∧
      (runNode (keptReports below R)).recordedAt.any (· ≤ cut.recordedAt) = true ∧
      (runNode R).recordedAt.any (· ≤ cut.recordedAt) = true := by
  have horder : ∀ a ∈ R, ∀ b ∈ R, a.result.order = b.result.order → a = b := by
    intro a ha b hb hab
    rw [a.ordered, b.ordered] at hab
    exact hone a ha b hb (congrArg (fun o => (ofLex o).2) hab)
  obtain ⟨r, hr, hbelow, hle⟩ := habsorbed.recorded
  refine ⟨?_, ?_, ?_, recorded_any (mem_filter.2 ⟨hr, hbelow⟩) hle, recorded_any hr hle⟩
  · rw [runNode_result, runNode_result, keptReports, argmax_filter_of_beaten horder habsorbed.result]
  · rw [runNode_projectId, runNode_projectId, keptReports, leastNonNull_filter habsorbed.project]
  · rw [runNode_repositoryId, runNode_repositoryId, keptReports, leastNonNull_filter habsorbed.repository]

/-- What a read sees of a run's node, without the reports left out. -/
theorem RunKept.same_rows (hkept : RunKept cut below R)
    (hone : ∀ a ∈ R, ∀ b ∈ R, a.envelope.eventId = b.envelope.eventId → a = b)
    (hhidden : ∀ r ∈ R, below r.envelope.eventId = false →
      cut.scope.covers r.envelope.projectId r.envelope.repositoryId = true → cut.recordedAt < r.envelope.observedAt)
    (id : String) : ciRow cut id (runNode (keptReports below R)) = ciRow cut id (runNode R) ∧
      testRow cut id (runNode (keptReports below R)) = testRow cut id (runNode R) := by
  by_cases hunseen : Unseen cut R
  · have hsub : Unseen cut (keptReports below R) := hunseen.of_subset fun r hr => (mem_filter.1 hr).1
    unfold ciRow testRow
    rw [hunseen.seenResult, hsub.seenResult]
    exact ⟨rfl, rfl⟩
  · by_cases hseveral : ∃ a ∈ R, ∃ b ∈ R, a.envelope.eventId ≠ b.envelope.eventId
    · obtain ⟨hresult, hproject, hrepository, hrecorded', hrecorded⟩ := (hkept hseveral hunseen).same_node hone
      unfold ciRow testRow seenResult
      rw [hresult, hproject, hrepository, hrecorded', hrecorded]
      exact ⟨rfl, rfl⟩
    · -- one event reports the run: it stays, or it is hidden
      have hall : ∀ a ∈ R, ∀ b ∈ R, a = b := fun a ha b hb =>
        hone a ha b hb (by_contra fun hne => hseveral ⟨a, ha, b, hb, hne⟩)
      have hfilter : keptReports below R = R := by
        refine filter_eq_self.2 fun r hr => ?_
        by_contra hbelow
        refine hunseen ?_
        by_cases hcovers : cut.scope.covers r.envelope.projectId r.envelope.repositoryId = true
        · refine Or.inr (Or.inr fun r' hr' => ?_)
          rw [hall r' hr' r hr]
          exact hhidden r hr (Bool.eq_false_iff.2 hbelow) hcovers
        · simp only [TemporalScope.covers, Bool.and_eq_true, not_and_or] at hcovers
          have hnamed : ∀ {wanted found : Option String}, ¬ wanted.all (found = some ·) = true →
              ∃ q ∈ wanted, found ≠ some q := by
            intro wanted found hnot
            cases wanted with
            | none => exact absurd rfl hnot
            | some q => exact ⟨q, rfl, by simpa using hnot⟩
          rcases hcovers with hnot | hnot
          · obtain ⟨q, hq, hne⟩ := hnamed hnot
            exact Or.inl ⟨q, hq, fun r' hr' => hall r hr r' hr' ▸ hne⟩
          · obtain ⟨q, hq, hne⟩ := hnamed hnot
            exact Or.inr (Or.inl ⟨q, hq, fun r' hr' => hall r hr r' hr' ▸ hne⟩)
      rw [hfilter]
      exact ⟨rfl, rfl⟩

end Left

/-! ## Events left out -/

theorem ciReport_envelope (h : ciReport e = some r) :
    r.envelope = envelope e ∧ e.eventType = "quality.ci_run.completed" := by
  unfold ciReport at h
  split at h
  · split at h
    · next htype => cases h; exact ⟨rfl, htype⟩
    · cases h
  · cases h

theorem testReport_envelope (h : testReport e = some r) :
    r.envelope = envelope e ∧ e.eventType = "quality.test_run.completed" := by
  unfold testReport at h
  split at h
  · split at h
    · next htype => cases h; exact ⟨rfl, htype⟩
    · cases h
  · cases h

theorem mem_reportsOf {id : String} : r ∈ reportsOf report id es ↔ (∃ e ∈ es, report e = some r) ∧ r.runId = id := by
  simp [reportsOf, mem_filter, mem_filterMap]

theorem runKept_of_nodup {cut : Cut} (honce : ((es.filterMap report).map (·.runId)).Nodup) (id : String) :
    RunKept cut below (reportsOf report id es) := by
  rintro ⟨a, ha, b, hb, hne⟩
  obtain ⟨ha, hrun⟩ := mem_filter.1 ha
  obtain ⟨hb, hrun'⟩ := mem_filter.1 hb
  have hsame : a = b := inj_on_of_nodup_map honce ha hb
    ((of_decide_eq_true hrun).trans (of_decide_eq_true hrun').symm)
  exact absurd (hsame ▸ rfl) hne

theorem reportsOf_filter {id : String} (henvelope : ∀ e r, report e = some r → r.envelope = envelope e) :
    reportsOf report id (es.filter (below ·.eventId)) = keptReports below (reportsOf report id es) := by
  unfold reportsOf keptReports
  induction es with
  | nil => rfl
  | cons e es ih =>
    cases hr : report e with
    | none =>
      rw [filterMap_cons_none hr, ← ih, filter_cons]
      split
      · rw [filterMap_cons_none hr]
      · rfl
    | some r =>
      have hid : r.envelope.eventId = e.eventId := by rw [henvelope e r hr]; rfl
      rw [filterMap_cons_some hr, filter_filter, filter_cons, filter_cons, ← filter_filter, ← ih]
      rw [hid]
      by_cases hbelow : below e.eventId = true
      · rw [if_pos hbelow, filterMap_cons_some hr, filter_cons, hbelow, Bool.true_and]
      · simp [hbelow]

section Filter

variable {cut : Cut} {below : String → Bool}

/-- An event that the read would match on its own is observed later. -/
def Hidden (cut : Cut) (e : Event) : Prop :=
  Retrieval.temporalType e.eventType = true → cut.scope.covers e.content.projectId e.content.repositoryId = true →
    cut.recordedAt < e.content.observedAt

theorem decisionEvent_version {n : VersionNode} (h : (decisionEvent e).map Knowledge.Graph.versionOf = some n) :
    n.projectId = e.content.projectId ∧ n.repositoryId = e.content.repositoryId ∧ n.recordedAt = some e.content.observedAt ∧
      e.eventType = "knowledge.decision.recorded" := by
  obtain ⟨d, hd, rfl⟩ := Option.map_eq_some_iff.1 h
  unfold decisionEvent at hd
  split at hd
  · split at hd
    · next htype => cases hd; exact ⟨rfl, rfl, rfl, htype⟩
    · cases hd
  · cases hd

theorem observationNode_observed {n : ObservationNode} (h : observationNode e = some n) :
    n.projectId = e.content.projectId ∧ n.repositoryId = e.content.repositoryId ∧ n.recordedAt = some e.content.observedAt ∧
      e.eventType = "knowledge.failure.observed" := by
  unfold observationNode at h
  split at h
  · split at h
    · next htype => cases h; exact ⟨rfl, rfl, rfl, htype⟩
    · cases h
  · cases h

/-- The nodes that events write once: what a filter matches of them, without events that it matches none of. -/
theorem select_filter {α : Type} (write : Event → Option α) (nodes : List Event → Dict String α) {sees : α → Bool}
    (hlookup : ∀ es', OneEach es' → ∀ id n, (nodes es').lookup id = some n ↔
      ∃ e ∈ es', e.eventId = id ∧ write e = some n)
    (hunseen : ∀ e ∈ es, below e.eventId = false → ∀ n, write e = some n → sees n = false) (hone : OneEach es) :
    select (fun _ n => sees n) (nodes (es.filter (below ·.eventId))) = select (fun _ n => sees n) (nodes es) := by
  have hsub : OneEach (es.filter (below ·.eventId)) := hone.of_subset fun e he => (mem_filter.1 he).1
  refine Finmap.ext_lookup fun id => Option.ext fun n => ?_
  rw [lookup_select, lookup_select, Option.filter_eq_some_iff, Option.filter_eq_some_iff, hlookup _ hsub, hlookup _ hone]
  simp only [decide_eq_true_eq]
  constructor
  · rintro ⟨⟨e, he, hid, hn⟩, hsees⟩
    exact ⟨⟨e, (mem_filter.1 he).1, hid, hn⟩, hsees⟩
  · rintro ⟨⟨e, he, hid, hn⟩, hsees⟩
    refine ⟨⟨e, mem_filter.2 ⟨he, ?_⟩, hid, hn⟩, hsees⟩
    by_contra hbelow
    have hnot := hunseen e he (Bool.eq_false_iff.2 hbelow) n hn
    rw [hsees] at hnot
    cases hnot

/-- The runs: what a query returns of them, when it returns nothing of a stub. -/
theorem collect_filter {α : Type} {row : String → RunNode → Option α} (runs : List Event → Dict String RunNode)
    (report : Event → Option Report) (hstub : ∀ id, row id .stub = none)
    (hnode : ∀ es' id, nodeOf (runs es') id = runNode (reportsOf report id es'))
    (henvelope : ∀ e r, report e = some r → r.envelope = envelope e)
    (hsame : ∀ id, row id (runNode (keptReports below (reportsOf report id es))) = row id (runNode (reportsOf report id es))) :
    collect row (runs (es.filter (below ·.eventId))) = collect row (runs es) := by
  have hrow : ∀ es' id, ((runs es').lookup id).bind (row id) = row id (runNode (reportsOf report id es')) := by
    intro es' id
    rw [← hnode es' id]
    unfold nodeOf
    cases (runs es').lookup id with
    | none => exact (hstub id).symm
    | some n => rfl
  refine Finmap.ext_lookup fun id => ?_
  rw [lookup_collect, lookup_collect, hrow, hrow, reportsOf_filter henvelope, hsame]

/-- **Events that a read cannot match, and that move no run it sees, leave it as it is.** -/
theorem seen_filter (hone : OneEach es) (hhidden : ∀ e ∈ es, below e.eventId = false → Hidden cut e)
    (hci : ∀ id, RunKept cut below (reportsOf ciReport id es))
    (htests : ∀ id, RunKept cut below (reportsOf testReport id es)) :
    seen cut (graphOf (es.filter (below ·.eventId))) = seen cut (graphOf es) := by
  have hreports : ∀ report : Event → Option Report, (∀ e r, report e = some r → r.envelope = envelope e) → ∀ id,
      ∀ a ∈ reportsOf report id es, ∀ b ∈ reportsOf report id es, a.envelope.eventId = b.envelope.eventId → a = b := by
    intro report henvelope id a ha b hb hab
    obtain ⟨⟨e, he, hea⟩, -⟩ := mem_reportsOf.1 ha
    obtain ⟨⟨e', he', heb⟩, -⟩ := mem_reportsOf.1 hb
    rw [henvelope e a hea, henvelope e' b heb] at hab
    have hsame : e = e' := hone e he e' he' hab
    subst hsame
    exact Option.some.inj (hea.symm.trans heb)
  have hlater : ∀ report : Event → Option Report,
      (∀ e r, report e = some r → r.envelope = envelope e ∧ Retrieval.temporalType e.eventType = true) → ∀ id,
      ∀ r ∈ reportsOf report id es, below r.envelope.eventId = false →
        cut.scope.covers r.envelope.projectId r.envelope.repositoryId = true → cut.recordedAt < r.envelope.observedAt := by
    intro report henvelope id r hr hbelow hcovers
    obtain ⟨⟨e, he, her⟩, -⟩ := mem_reportsOf.1 hr
    obtain ⟨hsame, htype⟩ := henvelope e r her
    rw [hsame] at hbelow hcovers ⊢
    exact hhidden e he hbelow htype hcovers
  have hciEnvelope : ∀ e r, ciReport e = some r → r.envelope = envelope e ∧ Retrieval.temporalType e.eventType = true := by
    intro e r h
    obtain ⟨henvelope, htype⟩ := ciReport_envelope h
    exact ⟨henvelope, htype ▸ by decide +kernel⟩
  have htestEnvelope : ∀ e r, testReport e = some r → r.envelope = envelope e ∧ Retrieval.temporalType e.eventType = true := by
    intro e r h
    obtain ⟨henvelope, htype⟩ := testReport_envelope h
    exact ⟨henvelope, htype ▸ by decide +kernel⟩
  refine Seen.ext ?_ ?_ ?_ ?_
  · refine select_filter (fun e => (decisionEvent e).map Knowledge.Graph.versionOf)
      (fun es => (graphOf es).knowledge.versions) (fun es' h id n => lookup_versions h) ?_ hone
    intro e he hbelow n hn
    obtain ⟨hproject, hrepository, hrecorded, htype⟩ := decisionEvent_version hn
    unfold seesVersion
    rw [hproject, hrepository, hrecorded, Option.any_some]
    cases hcovers : cut.scope.covers e.content.projectId e.content.repositoryId with
    | false => rfl
    | true =>
      have hlt := hhidden e he hbelow (htype ▸ by decide +kernel) hcovers
      simpa using hlt
  · refine select_filter observationNode (fun es => (graphOf es).observations)
      (fun es' h id n => lookup_observations h) ?_ hone
    intro e he hbelow n hn
    obtain ⟨hproject, hrepository, hrecorded, htype⟩ := observationNode_observed hn
    unfold seesObservation
    rw [hproject, hrepository, hrecorded, Option.any_some]
    cases hcovers : cut.scope.covers e.content.projectId e.content.repositoryId with
    | false => rfl
    | true =>
      have hlt := hhidden e he hbelow (htype ▸ by decide +kernel) hcovers
      rw [Bool.true_and, Bool.and_eq_false_iff]
      exact Or.inr (decide_eq_false (not_le.2 hlt))
  · refine collect_filter (fun es => (graphOf es).ci) ciReport (fun _ => ?_) (fun _ _ => nodeOf_ci)
      (fun e r h => (hciEnvelope e r h).1) fun id => ?_
    · rw [ciRow, seenResult_stub, Option.map_none]
    exact ((hci id).same_rows (hreports _ (fun e r h => (hciEnvelope e r h).1) id) (hlater _ hciEnvelope id) id).1
  · refine collect_filter (fun es => (graphOf es).tests) testReport (fun _ => ?_)
      (fun _ _ => nodeOf_tests) (fun e r h => (htestEnvelope e r h).1) fun id => ?_
    · rw [testRow, seenResult_stub, Option.map_none]
    exact ((htests id).same_rows (hreports _ (fun e r h => (htestEnvelope e r h).1) id) (hlater _ htestEnvelope id) id).2

end Filter

/-! ## The reads return -/

theorem isSome_mapM {α β : Type} {f : α → Option β} : ∀ {l : List α}, (∀ a ∈ l, (f a).isSome = true) →
    ∃ bs, l.mapM f = some bs ∧ ∀ b ∈ bs, ∃ a ∈ l, f a = some b
  | [], _ => ⟨[], rfl, fun _ h => absurd h not_mem_nil⟩
  | a :: l, h => by
    obtain ⟨b, hb⟩ := Option.isSome_iff_exists.1 (h a mem_cons_self)
    obtain ⟨bs, hbs, hmem⟩ := isSome_mapM fun a ha => h a (mem_cons_of_mem _ ha)
    refine ⟨b :: bs, by rw [mapM_cons, hb, hbs]; rfl, fun c hc => ?_⟩
    rcases mem_cons.1 hc with rfl | hc
    · exact ⟨a, mem_cons_self, hb⟩
    · obtain ⟨a', ha', hc'⟩ := hmem c hc
      exact ⟨a', mem_cons_of_mem _ ha', hc'⟩

theorem mapM_id {α : Type} {l : List (Option α)} {bs : List α} (h : l.mapM id = some bs) : l = bs.map some := by
  induction l generalizing bs with
  | nil =>
    rw [mapM_nil] at h
    cases h
    rfl
  | cons a l ih =>
    rw [mapM_cons] at h
    obtain ⟨first, hfirst, h⟩ := Option.bind_eq_some_iff.1 h
    obtain ⟨others, hothers, h⟩ := Option.bind_eq_some_iff.1 h
    cases h
    rw [map_cons, ← ih hothers]
    exact congrArg (· :: l) hfirst

section Parsed

variable {α β : Type} {f : String → α → Option β} {s : Dict String α} {bs : List β} {b : β}

/-- The records of a query are those of the nodes it matches. -/
theorem mem_parsed (h : (values (mapValues f s)).mapM id = some bs) :
    b ∈ bs ↔ ∃ id n, s.lookup id = some n ∧ f id n = some b := by
  have hmem : b ∈ bs ↔ some b ∈ values (mapValues f s) := by
    rw [mapM_id h, mem_map_of_injective (Option.some_injective _)]
  rw [hmem, mem_values]
  simp only [lookup_mapValues, Option.map_eq_some_iff]

/-- No node is there twice. -/
theorem parsed_nodup {name : β → String} (hname : ∀ id n b, f id n = some b → name b = id)
    (h : (values (mapValues f s)).mapM id = some bs) : (bs.map name).Nodup := by
  have hkeys : ∀ id b, (mapValues f s).lookup id = some b → b.elim "" name = id := by
    intro id b hb
    have hmem := mem_values.2 ⟨id, hb⟩
    rw [mapM_id h] at hmem
    obtain ⟨b, -, rfl⟩ := mem_map.1 hmem
    rw [lookup_mapValues] at hb
    obtain ⟨n, -, hn⟩ := Option.map_eq_some_iff.1 hb
    exact hname id n b hn
  have hnodup := values_map_nodup hkeys
  rw [mapM_id h, map_map] at hnodup
  exact hnodup

end Parsed

section Returns

variable {cut : Cut}

/-- Every record that events left in the graph parses. -/
theorem versionRows_graphOf (hone : OneEach es) : (versionRows (seen cut (graphOf es))).isSome = true := by
  have hall : ∀ row ∈ values (mapValues (fun id n => versionRow id n) (seen cut (graphOf es)).versions),
      (id row).isSome = true := by
    intro row hrow
    obtain ⟨id, hid⟩ := mem_values.1 hrow
    rw [lookup_mapValues] at hid
    obtain ⟨n, hn, rfl⟩ := Option.map_eq_some_iff.1 hid
    rw [seen, lookup_select] at hn
    obtain ⟨e, -, -, hwrites⟩ := (lookup_versions hone).1 (Option.filter_eq_some_iff.1 hn).1
    obtain ⟨d, -, rfl⟩ := Option.map_eq_some_iff.1 hwrites
    rfl
  obtain ⟨rows, hrows, -⟩ := isSome_mapM hall
  rw [versionRows, hrows]
  rfl

theorem observationRows_graphOf (hone : OneEach es) : (observationRows (seen cut (graphOf es))).isSome = true := by
  have hall : ∀ row ∈ values (mapValues (fun id n => observationRow id n) (seen cut (graphOf es)).observations),
      (id row).isSome = true := by
    intro row hrow
    obtain ⟨id, hid⟩ := mem_values.1 hrow
    rw [lookup_mapValues] at hid
    obtain ⟨n, hn, rfl⟩ := Option.map_eq_some_iff.1 hid
    rw [seen, lookup_select] at hn
    obtain ⟨e, -, -, hwrites⟩ := (lookup_observations hone).1 (Option.filter_eq_some_iff.1 hn).1
    unfold observationNode at hwrites
    split at hwrites
    · split at hwrites
      · cases hwrites
        rfl
      · cases hwrites
    · cases hwrites
  obtain ⟨rows, hrows, -⟩ := isSome_mapM hall
  rw [observationRows, hrows]
  rfl

theorem decisions_returns (hone : OneEach es) (includeHistory : Bool) :
    (decisions cut includeHistory (graphOf es)).isSome = true := by
  have hsome : (versionRows (seen cut (graphOf es))).isSome = true := versionRows_graphOf hone
  obtain ⟨rows, hrows⟩ := Option.isSome_iff_exists.1 hsome
  unfold decisions decisionsOf loadVersions
  rw [hrows]
  rfl

theorem failures_returns (hone : OneEach es) (includeResolved : Bool) :
    (failures cut includeResolved (graphOf es)).isSome = true := by
  have hsome : (observationRows (seen cut (graphOf es))).isSome = true := observationRows_graphOf hone
  obtain ⟨rows, hrows⟩ := Option.isSome_iff_exists.1 hsome
  have hrecords : ∀ failureId ∈ (((readObservations rows).map (·.failureId)).eraseDups).take maxFailures,
      (failureRecord (seen cut (graphOf es)).runs (observationsOf failureId (readObservations rows)).reverse failureId
        (if maxObservations < rows.length then totals rows failureId else none)).isSome = true := by
    intro failureId hid
    obtain ⟨row, hrow, rfl⟩ := mem_map.1 (mem_eraseDups.1 (mem_of_mem_take hid))
    have hmem : row.observation ∈ (observationsOf row.failureId (readObservations rows)).reverse :=
      mem_reverse.2 (mem_map_of_mem (mem_filter.2 ⟨hrow, by simp⟩))
    unfold failureRecord
    rw [Option.isSome_map]
    cases hrows : (observationsOf row.failureId (readObservations rows)).reverse with
    | nil => rw [hrows] at hmem; exact absurd hmem not_mem_nil
    | cons first others => rfl
  obtain ⟨records, hmap, -⟩ := isSome_mapM hrecords
  unfold failures failuresOf readFailures
  rw [hrows, Option.isSome_map]
  simp only [Option.bind_eq_bind, Option.bind_some]
  simp only [hmap, Option.bind_some]
  rfl

end Returns

end Temporal
