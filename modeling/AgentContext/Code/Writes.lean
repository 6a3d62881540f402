import AgentContext.Code.Rows

/-!
# What the events of a history state

Each relationship of the fact graph is written by one kind of event, and every property of it comes from the
events that write it:

    indexed, completed                  run events
    memberOf, coveredIn                 file and coverage events
    definedIn, observedIn               symbol and observation events
    assertion (with a valid_from)       relation and dependency events

Where the events agree on what an identity fixes, the store holds what the events say.
-/

namespace Code

open PropertyGraph List

/-! ## What an event says -/

def Event.fileRevision (e : Event) : Option (String × String) :=
  match e.payload with
  | .fileIndexed p => some (p.fileRevisionId, p.fileId)
  | .fileCoverageReported p => some (p.fileRevisionId, p.fileId)
  | .symbolIndexed p => some (p.fileRevisionId, p.fileId)
  | .assertionObserved p => some (p.fileRevisionId, p.fileId)
  | _ => none

/-- The item an event claims, and the file revision it claims it for. -/
def Event.claim (e : Event) : Option (Item × String) :=
  match e.payload with
  | .symbolIndexed p => some (.symbol p.symbolId, p.fileRevisionId)
  | .assertionObserved p => some (.assertion p.assertionId, p.fileRevisionId)
  | _ => none

/-- The relationship that records the claim of a symbol or an observation event. -/
def Event.claimKey (e : Event) : Option Key :=
  match e.payload with
  | .symbolIndexed p => some (.definedIn p.symbolRevisionId p.fileRevisionId p.indexId)
  | .assertionObserved p => some (.observedIn p.assertionId p.fileRevisionId p.indexId)
  | _ => none

def Event.states (e : Event) : Option (String × AssertionFact) :=
  match e.payload with
  | .relationAsserted p => some (p.assertionId,
      ⟨.relation, p.subjectId, p.predicate, p.objectId, p.validFrom, p.validTo, e.observedAt⟩)
  | .dependencyAsserted p => some (p.assertionId,
      ⟨.dependency, p.dependentId, .dependsOn, some p.dependencyId, p.validFrom, p.validTo, e.observedAt⟩)
  | _ => none

def Event.assertion (e : Event) : Option String := e.states.map (·.1)

def Event.objectId (e : Event) : Option String := e.states.bind (·.2.objectId)

/-- The end an event declares for its assertion. -/
def Event.validTo (e : Event) : Option Moment := e.states.bind (·.2.validTo)

def Event.symbolRevision (e : Event) : Option String :=
  match e.payload with
  | .symbolIndexed p => some p.symbolRevisionId
  | _ => none

def Event.scipSymbol (e : Event) : Option String :=
  match e.payload with
  | .symbolIndexed p => p.scipSymbol
  | _ => none

/-- The events of a history agree on what they fill once. -/
def Agreeing (es : List Event) : Prop := Store.Agree (es.flatMap factWrites)

theorem Agreeing.of_subset {es es' : List Event} (h : Agreeing es) (hsub : ∀ e ∈ es', e ∈ es) : Agreeing es' := by
  refine Store.Agree.of_subset h ?_
  intro w hw
  obtain ⟨e, he, hw⟩ := mem_flatMap.1 hw
  exact mem_flatMap.2 ⟨e, hsub e he, hw⟩

/-! ## Writes of each kind -/

section Kinds

variable {e : Event} {n : Entry}
variable {run : RunKey} {assertionId : String}
variable {revisionId : String}

attribute [local simp] factWrites runStatement completedStatement writeFile writeCoverage writeSymbol writeObservation
  writeRelation writeDependency assertionStatement fileRevisionStub

theorem indexed_written : (Key.indexed run, n) ∈ factWrites e ↔ e.run = some run ∧
        n = factStatement [] [("occurred_at", e.occurredAt), ("observed_at", e.observedAt)] e.eventId := by
  cases hp : e.payload <;> simp [factWrites, hp, Event.run, runStatement, completedStatement, writeFile, writeCoverage, writeSymbol,
      writeObservation, writeRelation, writeDependency, assertionStatement, fileRevisionStub, eq_comm]

theorem completed_written {eventId : String} : (Key.completed run eventId, n) ∈ factWrites e ↔
      ∃ p, e.payload = .indexCompleted p ∧ (Key.completed run eventId, n) = completedStatement e p := by
  cases hp : e.payload <;> simp [hp]

theorem memberOf_written : (Key.memberOf revisionId run, n) ∈ factWrites e ↔
      ∃ p, e.payload = .fileIndexed p ∧ p.fileRevisionId = revisionId ∧ runKey p.indexId p.target = run ∧
        n = factStatement
          [("file_id", some (.text p.fileId)), ("path", some (.text p.path)), ("module_id", some (.text p.moduleId))]
          [("occurred_at", e.occurredAt), ("observed_at", e.observedAt)] e.eventId := by
  cases hp : e.payload <;> simp [hp, eq_comm, and_assoc]

theorem coveredIn_written {eventId : String} : (Key.coveredIn revisionId run eventId, n) ∈ factWrites e ↔
      ∃ p, e.payload = .fileCoverageReported p ∧ p.fileRevisionId = revisionId ∧
        runKey p.indexId p.target = run ∧ e.eventId = eventId ∧
        n = factStatement [("complete", some (.flag p.complete)), ("losses", some (.texts p.losses)),
           ("event_order", some (.order (toLex (e.occurredAt, e.eventId))))]
          [("observed_at", e.observedAt)] e.eventId := by
  cases hp : e.payload <;> simp [hp, eq_comm, and_assoc]

theorem definedIn_written {symbolRevisionId revisionId indexId : String} :
    (Key.definedIn symbolRevisionId revisionId indexId, n) ∈ factWrites e ↔
      ∃ p, e.payload = .symbolIndexed p ∧ p.symbolRevisionId = symbolRevisionId ∧
        p.fileRevisionId = revisionId ∧ p.indexId = indexId ∧ n = claimStatement e p.target := by
  cases hp : e.payload <;> simp [hp, eq_comm, and_assoc]

theorem observedIn_written {assertionId revisionId indexId : String} :
    (Key.observedIn assertionId revisionId indexId, n) ∈ factWrites e ↔
      ∃ p, e.payload = .assertionObserved p ∧ p.assertionId = assertionId ∧
        p.fileRevisionId = revisionId ∧ p.indexId = indexId ∧ n = claimStatement e p.target := by
  cases hp : e.payload <;> simp [hp, eq_comm, and_assoc]

theorem symbolRevision_written {symbolRevisionId : String} (h : (Key.symbolRevision symbolRevisionId, n) ∈ factWrites e) :
    ∃ p, e.payload = .symbolIndexed p ∧ p.symbolRevisionId = symbolRevisionId ∧
      n.fills "symbol_id" = some (.text p.symbolId) ∧ n.fills "scip_symbol" = p.scipSymbol.map .text := by
  revert h
  cases hp : e.payload <;> simp [hp]
  rintro rfl rfl
  simp [fillOnce, lookup_cons]

theorem exists_symbolRevision_written {p : CodeSymbolIndexed} (hp : e.payload = .symbolIndexed p) :
    ∃ n, (Key.symbolRevision p.symbolRevisionId, n) ∈ factWrites e ∧
      n.fills "symbol_id" = some (.text p.symbolId) ∧ n.fills "scip_symbol" = p.scipSymbol.map .text := by
  simp [hp]
  simp [fillOnce, lookup_cons]

theorem assertion_written : (Key.assertion assertionId, n) ∈ factWrites e ↔
      (∃ p, e.payload = .assertionObserved p ∧ p.assertionId = assertionId ∧
        n = fillOnce [("family", some (.family p.assertionFamily))]) ∨
      (∃ p, e.payload = .relationAsserted p ∧ (Key.assertion assertionId, n) =
        assertionStatement e .relation p.subjectId p.predicate p.objectId p.toAsserted none none none) ∨
      (∃ p, e.payload = .dependencyAsserted p ∧ (Key.assertion assertionId, n) =
        assertionStatement e .dependency p.dependentId .dependsOn (some p.dependencyId) p.toAsserted
          (some p.dependencyKind) p.requirement p.resolvedVersion) := by
  cases hp : e.payload <;> simp [hp, eq_comm]

theorem symbol_written {symbolId : String} : (Key.symbol symbolId, n) ∈ factWrites e ↔
      ∃ p, e.payload = .symbolIndexed p ∧ p.symbolId = symbolId ∧ n = nodeStatement := by
  cases hp : e.payload <;> simp [hp, eq_comm]

theorem file_written {fileId : String} : (Key.file fileId, n) ∈ factWrites e ↔ n = nodeStatement ∧
        ((∃ p, e.payload = .fileIndexed p ∧ p.fileId = fileId) ∨
          ∃ p, e.payload = .fileCoverageReported p ∧ p.fileId = fileId) := by
  cases hp : e.payload <;> simp [hp, eq_comm, and_comm]

theorem moduleNode_written {moduleId : String} : (Key.moduleNode moduleId, n) ∈ factWrites e ↔
      ∃ p, e.payload = .fileIndexed p ∧ p.moduleId = moduleId ∧ n = nodeStatement := by
  cases hp : e.payload <;> simp [hp, eq_comm]

theorem exists_fileRevision_written {revisionId fileId : String} (h : e.fileRevision = some (revisionId, fileId)) :
    ∃ n, (Key.fileRevision revisionId, n) ∈ factWrites e ∧ n.fills "file_id" = some (.text fileId) := by
  revert h
  cases hp : e.payload <;>
    simp [hp, Event.fileRevision] <;>
    rintro rfl rfl <;> simp [fillOnce]

/-- What an asserting event writes on the assertion's node. -/
structure WritesFact (n : Entry) (fact : AssertionFact) : Prop where
  family : n.fills "family" = some (.family fact.family)
  subjectId : n.fills "subject_id" = some (.text fact.subjectId)
  predicate : n.fills "predicate" = some (.predicate fact.predicate)
  objectId : n.fills "object_id" = fact.objectId.map .text
  validFrom : n.fills "valid_from" = some (.text fact.validFrom)
  validTo : n.fills "asserted_valid_to" = fact.validTo.map .text
  recordedFrom : n.least "recorded_from" = some fact.observedAt

theorem assertionStatement_fact {family : CodeAssertionFamily} {subjectId : String}
    {predicate : CodeRelationPredicate} {objectId : Option String} {p : Asserted}
    {dependencyKind requirement resolvedVersion : Option String} :
    WritesFact (assertionStatement e family subjectId predicate objectId p dependencyKind requirement resolvedVersion).2
      ⟨family, subjectId, predicate, objectId, p.validFrom, p.validTo, e.observedAt⟩ where
  family := rfl
  subjectId := rfl
  predicate := rfl
  objectId := by simp [assertionStatement, factStatement, lookup_cons]
  validFrom := rfl
  validTo := by simp [assertionStatement, factStatement, lookup_cons]
  recordedFrom := rfl

theorem assertion_cases (h : (Key.assertion assertionId, n) ∈ factWrites e) :
    (∃ fact, e.states = some (assertionId, fact) ∧ WritesFact n fact) ∨
      (e.states = none ∧ (∀ p, p ≠ "family" → n.fills p = none) ∧ n.least "recorded_from" = none) := by
  rcases assertion_written.1 h with ⟨p, hp, rfl, rfl⟩ | ⟨p, hp, hn⟩ | ⟨p, hp, hn⟩
  · right
    refine ⟨by simp [Event.states, hp], ?_, rfl⟩
    intro q hq
    simp [fillOnce, lookup_cons, beq_eq_false_iff_ne.2 hq]
  · left
    obtain ⟨hk, rfl⟩ := Prod.mk.inj hn
    obtain rfl := Key.assertion.inj hk
    exact ⟨_, by rw [Event.states, hp], assertionStatement_fact⟩
  · left
    obtain ⟨hk, rfl⟩ := Prod.mk.inj hn
    obtain rfl := Key.assertion.inj hk
    exact ⟨_, by rw [Event.states, hp], assertionStatement_fact⟩

theorem exists_assertion_written {fact : AssertionFact} (h : e.states = some (assertionId, fact)) :
    ∃ n, (Key.assertion assertionId, n) ∈ factWrites e ∧ WritesFact n fact := by
  revert h
  cases hp : e.payload with
  | relationAsserted p =>
    simp only [Event.states, hp, Option.some.injEq, Prod.mk.injEq]
    rintro ⟨rfl, rfl⟩
    exact ⟨_, assertion_written.2 (Or.inr (Or.inl ⟨p, hp, rfl⟩)), assertionStatement_fact⟩
  | dependencyAsserted p =>
    simp only [Event.states, hp, Option.some.injEq, Prod.mk.injEq]
    rintro ⟨rfl, rfl⟩
    exact ⟨_, assertion_written.2 (Or.inr (Or.inr ⟨p, hp, rfl⟩)), assertionStatement_fact⟩
  | _ => simp [Event.states, hp]

end Kinds

/-! ## Agreement -/

/-- The properties that events fill once. -/
def filledProperties : List String :=
  ["success", "error_class", "event_order", "occurred_at", "observed_at", "file_id", "content_sha256", "language",
   "extractor_name", "extractor_version", "path", "module_id", "complete", "losses", "claim_target", "symbol_id",
   "qualified_name", "kind", "signature_fingerprint_sha256", "semantic_fingerprint_sha256", "scip_symbol", "family",
   "subject_id", "predicate", "object_id", "evidence_kind", "deterministic", "confidence", "valid_from",
   "asserted_valid_to", "review_status", "dependency_kind", "requirement", "resolved_version"]

theorem factWrites_named (e : Event) : ∀ w ∈ factWrites e, ∃ props : List (String × Option Value),
    (w.2.fills = fun p => (props.lookup p).join) ∧ ∀ q ∈ props.map (·.1), q ∈ filledProperties := by
  cases he : e.payload <;>
    simp only [factWrites, he, runStatement, completedStatement, writeFile, writeCoverage, writeSymbol,
      writeObservation, writeRelation, writeDependency, assertionStatement, fileRevisionStub, forall_mem_append,
      forall_mem_cons] <;>
    and_intros <;>
    first
      | exact ⟨_, rfl, by simp [filledProperties]⟩
      | exact ⟨[], rfl, by simp⟩
      | simp

theorem fills_unlisted {e : Event} {w : Key × Entry} {p : String} (h : w ∈ factWrites e)
    (hp : p ∉ filledProperties) : w.2.fills p = none := by
  obtain ⟨props, hfills, hnames⟩ := factWrites_named e w h
  have hlookup : props.lookup p = none := by
    rw [lookup_eq_none_iff]
    intro entry hentry
    have hq := hnames entry.1 (mem_map.2 ⟨entry, hentry, rfl⟩)
    rw [bne_iff_ne]
    rintro rfl
    exact hp hq
  rw [hfills]
  show (props.lookup p).join = none
  rw [hlookup]
  rfl

/-- Two values of a property agree where both are there. -/
def Compatible (v v' : Option Value) : Prop := ∀ u u', v = some u → v' = some u' → u = u'

instance (v v' : Option Value) : Decidable (Compatible v v') :=
  match v, v' with
  | none, _ => isTrue fun _ _ h => nomatch h
  | some _, none => isTrue fun _ _ _ h => nomatch h
  | some u, some u' => decidable_of_iff (u = u')
      ⟨fun h _ _ hu hu' => Option.some.inj hu ▸ Option.some.inj hu' ▸ h, fun h => h u u' rfl rfl⟩

theorem agreeing_iff {es : List Event} : Agreeing es ↔
    ∀ w ∈ es.flatMap factWrites, ∀ w' ∈ es.flatMap factWrites, w.1 = w'.1 →
      ∀ p ∈ filledProperties, Compatible (w.2.fills p) (w'.2.fills p) := by
  constructor
  · rintro h ⟨k, n⟩ hn ⟨k', n'⟩ hn' hk p - u u' hu hu'
    obtain rfl : k = k' := hk
    exact h k n n' hn hn' p u u' hu hu'
  · intro h k n n' hn hn' p u u' hu hu'
    by_cases hp : p ∈ filledProperties
    · exact h (k, n) hn (k, n') hn' rfl p hp u u' hu hu'
    · obtain ⟨e, -, he⟩ := mem_flatMap.1 hn
      have hnone : n.fills p = none := fills_unlisted he hp
      rw [hnone] at hu
      cases hu

instance (es : List Event) : Decidable (Agreeing es) := decidable_of_iff _ agreeing_iff.symm

/-! ## The facts of a history -/

section History

variable {es : List Event} {k : Key} {n : Entry} {e : Event}
variable {p : String}

theorem mem_writes {w : Key × Entry} : w ∈ es.flatMap factWrites ↔ ∃ e ∈ es, w ∈ factWrites e := mem_flatMap

theorem mem_keys_factsOf : k ∈ (factsOf es).keys ↔ ∃ e ∈ es, ∃ n, (k, n) ∈ factWrites e := by
  unfold factsOf
  rw [Store.mem_keys_written]
  simp only [mem_writes]
  constructor
  · rintro ⟨n, e, he, hn⟩
    exact ⟨e, he, n, hn⟩
  · rintro ⟨e, he, n, hn⟩
    exact ⟨n, e, he, hn⟩

theorem exists_of_fills {v : Value} (h : ((factsOf es).read k).fills p = some v) :
    ∃ e ∈ es, ∃ n, (k, n) ∈ factWrites e ∧ n.fills p = some v := by
  obtain ⟨n, hn, hv⟩ := Store.exists_write_of_fills h
  obtain ⟨e, he, hn⟩ := mem_writes.1 hn
  exact ⟨e, he, n, hn, hv⟩

/-- A `min_non_null` property that the writes of a key all state holds the least value they state. -/
theorem momentOf_factsOf {W : Event → Prop} {f : Event → Moment}
    (hwrites : ∀ e n, (k, n) ∈ factWrites e → W e ∧ n.least p = some (f e))
    (hwritten : ∀ e, W e → ∃ n, (k, n) ∈ factWrites e) (hex : ∃ e ∈ es, W e) :
    (∃ e ∈ es, W e ∧ momentOf ((factsOf es).read k) p = f e) ∧
      ∀ e ∈ es, W e → momentOf ((factsOf es).read k) p ≤ f e := by
  have hstate : ∀ e ∈ es, W e → ∃ n, (k, n) ∈ es.flatMap factWrites ∧ n.least p = some (f e) := by
    intro e he hw
    obtain ⟨n, hn⟩ := hwritten e hw
    exact ⟨n, mem_writes.2 ⟨e, he, hn⟩, (hwrites e n hn).2⟩
  cases hleast : ((factsOf es).read k).least p with
  | none =>
    obtain ⟨e, he, hw⟩ := hex
    obtain ⟨n, hn, hv⟩ := hstate e he hw
    exact absurd hv (Store.unstated hleast hn)
  | some t =>
    obtain ⟨⟨n, hn, ht⟩, hle⟩ := Store.least_written.1 hleast
    have hmoment : momentOf ((factsOf es).read k) p = t := by
      unfold momentOf
      rw [hleast]
      rfl
    rw [hmoment]
    constructor
    · obtain ⟨e, he, hn⟩ := mem_writes.1 hn
      obtain ⟨hw, hv⟩ := hwrites e n hn
      exact ⟨e, he, hw, Option.some.inj (ht.symm.trans hv)⟩
    · intro e he hw
      obtain ⟨m, hm, hv⟩ := hstate e he hw
      exact hle m _ hm hv

theorem claimKey_written {k : Key} {n : Entry} {s : FactStore} {item : Item} (hitem : itemOf s k = some item) :
    (k, n) ∈ factWrites e ↔ e.claimKey = some k ∧ n = claimStatement e (e.run.elim "" fun run => (ofLex run).2) := by
  cases k with
  | definedIn sr g i =>
    rw [definedIn_written]
    constructor
    · rintro ⟨p, hp, rfl, rfl, rfl, rfl⟩
      simp [Event.claimKey, Event.run, hp, runKey]
    · rintro ⟨hk, hn⟩
      cases hp : e.payload with
      | symbolIndexed p =>
        simp only [Event.claimKey, hp, Option.some.injEq, Key.definedIn.injEq] at hk
        exact ⟨p, rfl, hk.1, hk.2.1, hk.2.2, by simpa [Event.run, hp, runKey] using hn⟩
      | _ => simp [Event.claimKey, hp] at hk
  | observedIn a g i =>
    rw [observedIn_written]
    constructor
    · rintro ⟨p, hp, rfl, rfl, rfl, rfl⟩
      simp [Event.claimKey, Event.run, hp, runKey]
    · rintro ⟨hk, hn⟩
      cases hp : e.payload with
      | assertionObserved p =>
        simp only [Event.claimKey, hp, Option.some.injEq, Key.observedIn.injEq] at hk
        exact ⟨p, rfl, hk.1, hk.2.1, hk.2.2, by simpa [Event.run, hp, runKey] using hn⟩
      | _ => simp [Event.claimKey, hp] at hk
  | _ => cases hitem

section

variable (agree : Agreeing es) (he : e ∈ es)
include agree he

theorem fills_factsOf (hn : (k, n) ∈ factWrites e) {v : Value}
    (hv : n.fills p = some v) : ((factsOf es).read k).fills p = some v :=
  (Store.fills_written agree).2 ⟨n, mem_writes.2 ⟨e, he, hn⟩, hv⟩

theorem textOf_factsOf (hn : (k, n) ∈ factWrites e) {p text : String}
    (hv : n.fills p = some (.text text)) : textOf ((factsOf es).read k) p = some text := by
  unfold textOf
  rw [fills_factsOf agree he hn hv]
  rfl

/-! ## File revisions and claims -/

theorem fileOf_factsOf {revisionId fileId : String}
    (h : e.fileRevision = some (revisionId, fileId)) : fileOf (factsOf es) revisionId = fileId := by
  obtain ⟨n, hn, hv⟩ := exists_fileRevision_written h
  unfold fileOf
  rw [textOf_factsOf agree he hn hv]
  rfl

theorem symbolOf_factsOf {p : CodeSymbolIndexed} (hp : e.payload = .symbolIndexed p) :
    textOf ((factsOf es).read (.symbolRevision p.symbolRevisionId)) "symbol_id" = some p.symbolId := by
  obtain ⟨n, hn, hv, -⟩ := exists_symbolRevision_written hp
  exact textOf_factsOf agree he hn hv

/-- A claim relationship says what the events that write it say. -/
theorem claimKey_of_event {k : Key} (hk : e.claimKey = some k) :
    ∃ item g c, e.claim = some (item, g) ∧ itemOf (factsOf es) k = some item ∧
      claimOf (factsOf es) k = some c ∧ c.revisionId = g ∧ k ∈ (factsOf es).keys := by
  revert hk
  cases hp : e.payload with
  | symbolIndexed p =>
    simp only [Event.claimKey, hp, Option.some.injEq]
    rintro rfl
    have hsymbol := symbolOf_factsOf agree he hp
    refine ⟨.symbol p.symbolId, p.fileRevisionId, _, by simp [Event.claim, hp], ?_, rfl, rfl, ?_⟩
    · simp [itemOf, hsymbol]
    · exact mem_keys_factsOf.2 ⟨e, he, _, definedIn_written.2 ⟨p, hp, rfl, rfl, rfl, rfl⟩⟩
  | assertionObserved p =>
    simp only [Event.claimKey, hp, Option.some.injEq]
    rintro rfl
    refine ⟨.assertion p.assertionId, p.fileRevisionId, _, by simp [Event.claim, hp], rfl, rfl, rfl, ?_⟩
    exact mem_keys_factsOf.2 ⟨e, he, _, observedIn_written.2 ⟨p, hp, rfl, rfl, rfl, rfl⟩⟩
  | _ => simp [Event.claimKey, hp]

end

/-! ## Nothing hidden -/

/-- A run that a row names is visible when nothing is hidden. -/
theorem run_visible {run : RunKey} (he : e ∈ es) (hrun : e.run = some run) : run ∈ visibleKeys (factsOf es) none := by
  have hkey : Key.indexed run ∈ (factsOf es).keys := mem_keys_factsOf.2 ⟨e, he, _, indexed_written.2 ⟨hrun, rfl⟩⟩
  refine mem_map.2 ⟨_, mem_filter.2 ⟨mem_filterMap.2 ⟨_, hkey, rfl⟩, rfl⟩, rfl⟩

/-- Every row's run is visible when nothing is hidden. -/
theorem visibleMembers_none : visibleMembers (factsOf es) none = (factsOf es).keys.filterMap (memberRow (factsOf es)) := by
  unfold visibleMembers
  rw [filter_eq_self]
  intro row hrow
  obtain ⟨k, hk, hrow⟩ := mem_filterMap.1 hrow
  obtain rfl := memberRow_key hrow
  obtain ⟨e, he, n, hn⟩ := mem_keys_factsOf.1 hk
  obtain ⟨p, hp, -, hrun, -⟩ := memberOf_written.1 hn
  have hrun : e.run = some row.run := by
    rw [Event.run, hp]
    exact congrArg some hrun
  simpa using run_visible he hrun

theorem visibleCoverage_none :
    visibleCoverage (factsOf es) none = (factsOf es).keys.filterMap (coverageRow (factsOf es)) := by
  unfold visibleCoverage
  rw [filter_eq_self]
  intro row hrow
  obtain ⟨k, hk, hrow⟩ := mem_filterMap.1 hrow
  obtain ⟨eventId, rfl⟩ := coverageRow_key hrow
  obtain ⟨e, he, n, hn⟩ := mem_keys_factsOf.1 hk
  obtain ⟨p, hp, -, hrun, -⟩ := coveredIn_written.1 hn
  have hrun : e.run = some row.run := by
    rw [Event.run, hp]
    exact congrArg some hrun
  simpa using run_visible he hrun

/-! ## Histories of the same events -/

theorem read_factsOf_eq {es' : List Event} (agree : Agreeing es) (same : ∀ e, e ∈ es ↔ e ∈ es') :
    (factsOf es).read = (factsOf es').read := by
  refine Store.read_written_eq agree ?_
  intro w
  simp only [mem_writes, same]

theorem sameRows_events {es' : List Event} {recordedAt : Option Moment} (agree : Agreeing es)
    (same : ∀ e, e ∈ es ↔ e ∈ es') : SameRows (factsOf es) recordedAt (factsOf es') recordedAt := by
  have hread := read_factsOf_eq agree same
  have hkeys : ∀ k, k ∈ (factsOf es).keys ↔ k ∈ (factsOf es').keys := by
    intro k
    simp only [mem_keys_factsOf, same]
  have hruns : ∀ r, r ∈ visibleRuns (factsOf es) recordedAt ↔ r ∈ visibleRuns (factsOf es') recordedAt := by
    intro r
    simp only [visibleRuns, mem_filter, mem_filterMap, hkeys, runRow_eq hread]
  have hvisible : ∀ run, run ∈ visibleKeys (factsOf es) recordedAt ↔ run ∈ visibleKeys (factsOf es') recordedAt := by
    intro run
    simp only [visibleKeys, mem_map, hruns]
  refine ⟨hruns, ?_, ?_, ?_, ?_, ?_, ?_, ?_⟩ <;> intro r
  · simp only [visibleOutcomes, mem_filter, mem_filterMap, hkeys, outcomeRow_eq hread]
  · simp only [visibleMembers, mem_filter, mem_filterMap, hkeys, memberRow_eq hread, hvisible]
  · simp only [visibleCoverage, mem_filter, mem_filterMap, hkeys, coverageRow_eq hread, hvisible]
  · simp only [visibleDefs, mem_filter, mem_filterMap, hkeys, defRow_eq hread]
  · simp only [visibleObserved, mem_filter, mem_filterMap, hkeys, observedRow_eq hread]
  · simp only [visibleClaims, mem_filter, mem_filterMap, hkeys, claimOf_eq hread]
  · simp only [assertionFact, hread]

end History

end Code
