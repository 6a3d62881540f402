import AgentContext.Code.AsOf
import AgentContext.Code.Project

/-!
# The derived graph

Everything that is derived from the facts, at once.  A derivation of everything ends in it whatever was derived
before, as long as what was derived has facts (`Grounded`), and it depends on the facts as a set:

    derive_everything       a grounded graph    →   the derived graph of its facts
    derivedGraph_congr      the same facts      →   the same derived graph
-/

namespace Code

open PropertyGraph Keyset

variable {es pre : List Event} {e : Event}
variable {s : FactStore} {a : String} {states : String → Option AssertionState}
variable {fact : AssertionFact} {k : EdgeKey}

/-! ## Recorded assertions -/

theorem fact_none : ((allFacts s none).assertion a).fact = assertionFact s a := by
  show (assertionFact s a).filter _ = _
  cases assertionFact s a <;> rfl

theorem fact_stated (agree : Agreeing es) (he : e ∈ es) {stated : AssertionFact}
    (hstates : e.states = some (a, stated)) :
    ∃ fact, assertionFact (factsOf es) a = some fact ∧ fact.subjectId = stated.subjectId ∧
      fact.predicate = stated.predicate := by
  obtain ⟨n, hn, hwrites⟩ := exists_assertion_written hstates
  have hpredicate := fills_factsOf agree he hn hwrites.predicate
  obtain ⟨fact, hfact⟩ := Option.isSome_iff_exists.1 ((assertionFact_isSome agree).2 ⟨e, he, stated, hstates⟩)
  refine ⟨fact, hfact, ?_⟩
  obtain ⟨validFrom, -, rfl⟩ := Option.map_eq_some_iff.1 hfact
  constructor
  · simp [textOf_factsOf agree he hn hwrites.subjectId]
  · simp [hpredicate, Value.predicate?]

theorem subject_text (agree : Agreeing es) (hfact : assertionFact (factsOf es) a = some fact) :
    textOf ((factsOf es).read (.assertion a)) "subject_id" = some fact.subjectId := by
  obtain ⟨e, he, stated, hstates⟩ := (assertionFact_isSome agree).1 (by rw [hfact]; rfl)
  obtain ⟨n, hn, hwrites⟩ := exists_assertion_written hstates
  obtain ⟨held, hheld, hsubject, -⟩ := fact_stated agree he hstates
  obtain rfl := Option.some.inj (hfact.symm.trans hheld)
  rw [hsubject]
  exact textOf_factsOf agree he hn hwrites.subjectId

/-- A recorded assertion stays recorded. -/
theorem fact_persists (agree : Agreeing es) (hsub : ∀ e ∈ pre, e ∈ es)
    (hfact : assertionFact (factsOf pre) a = some fact) :
    ∃ fact', assertionFact (factsOf es) a = some fact' ∧ fact'.subjectId = fact.subjectId ∧
      fact'.predicate = fact.predicate := by
  obtain ⟨e, he, stated, hstates⟩ := (assertionFact_isSome (agree.of_subset hsub)).1 (by rw [hfact]; rfl)
  obtain ⟨held, hheld, hsubject, hpredicate⟩ := fact_stated (agree.of_subset hsub) he hstates
  obtain rfl := Option.some.inj (hfact.symm.trans hheld)
  obtain ⟨fact', hfact', hsubject', hpredicate'⟩ := fact_stated agree (hsub e he) hstates
  exact ⟨fact', hfact', hsubject'.trans hsubject.symm, hpredicate'.trans hpredicate.symm⟩

/-- A recorded assertion has a node. -/
def Rooted (s : FactStore) : Prop := ∀ a fact, assertionFact s a = some fact → .assertion a ∈ s.keys

theorem rooted_factsOf (agree : Agreeing es) : Rooted (factsOf es) := by
  intro a fact hfact
  obtain ⟨e, he, stated, hstates⟩ := (assertionFact_isSome agree).1 (by rw [hfact]; rfl)
  obtain ⟨n, hn, -⟩ := exists_assertion_written hstates
  exact mem_keys_factsOf.2 ⟨e, he, n, hn⟩

theorem mem_assertionIds : a ∈ assertionIds s ↔ Key.assertion a ∈ s.keys := by
  rw [assertionIds, List.mem_filterMap]
  constructor
  · rintro ⟨k, hk, ha⟩
    cases k with
    | assertion a' => obtain rfl := Option.some.inj ha; exact hk
    | _ => cases ha
  · intro h
    exact ⟨_, h, rfl⟩

theorem currentRow_eq_some {subjectId a : String} {p : AssertionProps} : currentRow s states subjectId a = some p ↔
      ∃ fact state, assertionFact s a = some fact ∧ states a = some state ∧ fact.family = .relation ∧
        state.current = true ∧ fact.subjectId = subjectId ∧ assertionProps (s.read (.assertion a)) a fact state = p := by
  unfold currentRow
  cases assertionFact s a with
  | none => simp
  | some fact =>
    cases states a with
    | none => simp
    | some state => simp [and_assoc]

theorem currentRow_of_other {subjectId a : String}
    (h : ∀ fact, assertionFact s a = some fact → fact.subjectId ≠ subjectId) :
    currentRow s states subjectId a = none := by
  rw [Option.eq_none_iff_forall_ne_some]
  intro p hp
  obtain ⟨fact, -, hfact, -, -, -, hsubject, -⟩ := currentRow_eq_some.1 hp
  exact h fact hfact hsubject

theorem mem_currentBySubject {subjectId : String} {p : AssertionProps} : p ∈ currentBySubject s states subjectId ↔
      ∃ a fact state, Key.assertion a ∈ s.keys ∧ assertionFact s a = some fact ∧ states a = some state ∧
        fact.family = .relation ∧ state.current = true ∧ fact.subjectId = subjectId ∧
        assertionProps (s.read (.assertion a)) a fact state = p := by
  rw [currentBySubject, List.mem_filterMap]
  constructor
  · rintro ⟨a, ha, hp⟩
    obtain ⟨fact, state, h⟩ := currentRow_eq_some.1 hp
    exact ⟨a, fact, state, mem_assertionIds.1 ha, h⟩
  · rintro ⟨a, fact, state, hk, h⟩
    exact ⟨a, mem_assertionIds.2 hk, currentRow_eq_some.2 ⟨fact, state, h⟩⟩

/-! ## Edges -/

theorem edgeOf_eq_some {props : EdgeProps} (h : edgeOf s states k = some props) :
    ∃ label, targetLabel k.predicate = some label ∧ k.source.node k.subjectId ∈ s.keys ∧
      label.node k.objectId ∈ s.keys ∧
      ∃ a fact, a ∈ assertionIds s ∧ assertionFact s a = some fact ∧ fact.family = .relation ∧
        fact.subjectId = k.subjectId ∧ fact.predicate = k.predicate ∧ fact.objectId = some k.objectId := by
  unfold edgeOf at h
  cases hlabel : targetLabel k.predicate with
  | none => simp [hlabel] at h
  | some label =>
    simp only [hlabel, Option.ite_none_right_eq_some] at h
    obtain ⟨⟨hsource, htarget⟩, h⟩ := h
    obtain ⟨winner, hwinner, -⟩ := Option.map_eq_some_iff.1 h
    obtain ⟨hmem, hpicked⟩ := List.mem_filter.1 (leastBy_spec hwinner).1
    obtain ⟨a, fact, state, hk, hfact, -, hfamily, -, hsubject, rfl⟩ := mem_currentBySubject.1 hmem
    have hpicked : fact.predicate = k.predicate ∧ fact.objectId = some k.objectId := of_decide_eq_true hpicked
    exact ⟨label, rfl, hsource, htarget, a, fact, mem_assertionIds.2 hk, hfact, hfamily, hsubject, hpicked.1, hpicked.2⟩

theorem edgeOf_of_no_subject (h : ∀ a fact, assertionFact s a = some fact → fact.subjectId ≠ k.subjectId) :
    edgeOf s states k = none := by
  rw [Option.eq_none_iff_forall_ne_some]
  intro props hprops
  obtain ⟨-, -, -, -, a, fact, -, hfact, -, hsubject, -⟩ := edgeOf_eq_some hprops
  exact h a fact hfact hsubject

/-- Supersessions start at files: no recorded one has a symbol as its subject. -/
def FileSupersessions (s : FactStore) : Prop :=
  ∀ a ∈ assertionIds s, ∀ fact ∈ assertionFact s a, fact.predicate = .possiblySupersedes →
    .symbol fact.subjectId ∉ s.keys

instance (s : FactStore) : Decidable (FileSupersessions s) := by
  unfold FileSupersessions
  infer_instance

theorem edgeOf_undropped (hfiles : FileSupersessions s) (hk : k.dropped = false) : edgeOf s states k = none := by
  rw [Option.eq_none_iff_forall_ne_some]
  intro props hprops
  obtain ⟨-, -, hsource, -, a, fact, ha, hfact, -, hsubject, hpredicate, -⟩ := edgeOf_eq_some hprops
  have hdropped : k.predicate = .possiblySupersedes ∧ k.source = .symbol := by
    rw [EdgeKey.dropped, Bool.or_eq_false_iff, decide_eq_false_iff_not, decide_eq_false_iff_not, not_not] at hk
    refine ⟨hk.1, ?_⟩
    cases hlabel : k.source with
    | symbol => rfl
    | file => exact absurd hlabel hk.2
  refine hfiles a ha fact hfact (hpredicate.trans hdropped.1) ?_
  rw [hdropped.2, ← hsubject] at hsource
  exact hsource

/-- An edge depends on its subject's assertions as a set. -/
theorem resolveEdge_congr {rows rows' : List AssertionProps} {predicate : CodeRelationPredicate} {objectId : String}
    (keyed : KeyedBy (·.assertionId) rows) (same : ∀ p, p ∈ rows ↔ p ∈ rows') :
    resolveEdge rows predicate objectId = resolveEdge rows' predicate objectId := by
  let group := fun rows : List AssertionProps =>
    rows.filter fun p => p.fact.predicate = predicate ∧ p.fact.objectId = some objectId
  have hgroup : ∀ p, p ∈ group rows ↔ p ∈ group rows' := fun p => by rw [List.mem_filter, List.mem_filter, same]
  have hranked : KeyedBy AssertionProps.rank (group rows) := by
    intro p hp q hq hrank
    have hid : p.assertionId = q.assertionId := by
      have := congrArg (fun r => (ofLex (ofLex r).2).2) hrank
      simpa [AssertionProps.rank] using this
    exact keyed p (List.mem_of_mem_filter hp) q (List.mem_of_mem_filter hq) hid
  have hwinner : leastBy AssertionProps.rank (group rows) = leastBy AssertionProps.rank (group rows') :=
    leastBy_eq hranked hgroup
  have hids : ∀ a, a ∈ (group rows).map (·.assertionId) ↔ a ∈ (group rows').map (·.assertionId) := fun a => by
    simp only [List.mem_map, hgroup]
  have hsources : ((group rows).map (·.sourceEventIds)).foldr (· ∪ ·) ∅ =
      ((group rows').map (·.sourceEventIds)).foldr (· ∪ ·) ∅ := by
    have hmem : ∀ (sets : List (Finset String)) x, x ∈ sets.foldr (· ∪ ·) ∅ ↔ ∃ t ∈ sets, x ∈ t := by
      intro sets x
      induction sets with
      | nil => simp
      | cons t sets ih => simp [ih]
    ext x
    simp only [hmem, List.mem_map, hgroup]
  have hlower : ∀ winner, sortedSet (((group rows).map (·.assertionId)).filter (· ≠ winner)) =
      sortedSet (((group rows').map (·.assertionId)).filter (· ≠ winner)) := by
    intro winner
    refine sortedSet_congr fun a => ?_
    rw [List.mem_filter, List.mem_filter, hids]
  unfold resolveEdge
  show (leastBy _ (group rows)).map _ = (leastBy _ (group rows')).map _
  rw [hwinner]
  refine Option.map_congr fun winner _ => ?_
  show EdgeProps.mk (sortedSet ((group rows).map _)) (((group rows).map _).foldr _ _) .. = _
  rw [sortedSet_congr hids, hsources, hlower]

/-! ## The graph of everything that is derived -/

section Graph

variable (isIdentifier : String → Bool)

def derivedAssertions (s : FactStore) (a : String) : Option AssertionState :=
  (assertionFact s a).map fun fact =>
    assertionState (deriveAssertion isIdentifier (allFacts s none) a fact) (allFacts s none).horizon

def derivedGraph (s : FactStore) : Graph where
  facts := s
  files := fun f => if .file f ∈ s.keys then some (fileState s (deriveFile (allFacts s none) f)) else none
  symbols := fun x =>
    if .symbol x ∈ s.keys then some (symbolState (deriveSymbol isIdentifier (allFacts s none) x)) else none
  assertions := derivedAssertions isIdentifier s
  edges := fun k => (edgeOf s (derivedAssertions isIdentifier s) k).toList

/-- What is derived is about nodes, recorded assertions and their subjects. -/
structure Grounded (g : Graph) : Prop where
  files : ∀ f, .file f ∉ g.facts.keys → g.files f = none
  symbols : ∀ x, .symbol x ∉ g.facts.keys → g.symbols x = none
  assertions : ∀ a, assertionFact g.facts a = none → g.assertions a = none
  edges : ∀ k, (∀ a fact, assertionFact g.facts a = some fact → fact.subjectId ≠ k.subjectId) → g.edges k = []
  undropped : ∀ k, k.dropped = false → g.edges k = []

theorem grounded_underived (s : FactStore) : Grounded (.underived s) where
  files := fun _ _ => rfl
  symbols := fun _ _ => rfl
  assertions := fun _ _ => rfl
  edges := fun _ _ => rfl
  undropped := fun _ _ => rfl

section Derive

variable {isIdentifier} {g : Graph} {scope : Scope}

theorem derive_assertion {a : String} (ha : a ∈ (expand g.facts scope).assertions)
    (hnone : assertionFact g.facts a = none → g.assertions a = none) :
    (derive isIdentifier g scope).assertions a = derivedAssertions isIdentifier g.facts a := by
  have hloaded : (loadFacts g.facts none (expand g.facts scope)).assertion a = (allFacts g.facts none).assertion a :=
    loadFacts_assertion ha
  unfold derive
  dsimp only
  rw [hloaded, fact_none, derivedAssertions]
  cases hfact : assertionFact g.facts a with
  | none => exact hnone hfact
  | some fact =>
    have hsame := loadFacts_sameAssertion ha (fact_none.trans hfact)
    simp only [if_pos ha, Option.map_some]
    rw [deriveAssertion_congr loadFacts_runs hsame]
    rfl

theorem derive_assertion_outside {a : String} (ha : a ∉ (expand g.facts scope).assertions) :
    (derive isIdentifier g scope).assertions a = g.assertions a := by
  have hnothing : ((loadFacts g.facts none (expand g.facts scope)).assertion a).fact = none := by
    show (if a ∈ (expand g.facts scope).assertions then _ else AssertionFacts.nothing).fact = none
    rw [if_neg ha]
    rfl
  unfold derive
  dsimp only
  rw [hnothing]

/-- The subjects whose edges are resolved anew. -/
theorem mem_subjects {w : Wanted} {s : FactStore} {subjectId : String} :
    subjectId ∈ w.assertions.filterMap (fun a => ((loadFacts s none w).assertion a).fact.map (·.subjectId)) ↔
      ∃ a fact, a ∈ w.assertions ∧ assertionFact s a = some fact ∧ fact.subjectId = subjectId := by
  rw [List.mem_filterMap]
  constructor
  · rintro ⟨a, ha, h⟩
    obtain ⟨fact, hfact, hsubject⟩ := Option.map_eq_some_iff.1 h
    rw [loadFacts_assertion ha, fact_none] at hfact
    exact ⟨a, fact, ha, hfact, hsubject⟩
  · rintro ⟨a, fact, ha, hfact, rfl⟩
    refine ⟨a, ha, ?_⟩
    rw [loadFacts_assertion ha, fact_none, hfact]
    rfl

theorem derive_file {f : String} (hf : f ∈ (expand g.facts scope).files) (hk : .file f ∈ g.facts.keys) :
    (derive isIdentifier g scope).files f = some (fileState g.facts (deriveFile (allFacts g.facts none) f)) := by
  show (if _ then some (fileState _ (deriveFile _ f)) else _) = _
  rw [if_pos ⟨hf, hk⟩, deriveFile_congr loadFacts_runs (loadFacts_file (mem_widen_file hf))]

theorem derive_symbol {x : String} (hx : x ∈ (expand g.facts scope).symbols) (hk : .symbol x ∈ g.facts.keys) :
    (derive isIdentifier g scope).symbols x =
      some (symbolState (deriveSymbol isIdentifier (allFacts g.facts none) x)) := by
  show (if _ then some (symbolState (deriveSymbol isIdentifier _ x)) else _) = _
  rw [if_pos ⟨hx, hk⟩, deriveSymbol_congr loadFacts_runs (loadFacts_sameSymbol (mem_widen_symbol hx))]

theorem derive_edges {k : EdgeKey}
    (hk : ∃ a fact, a ∈ (expand g.facts scope).assertions ∧ assertionFact g.facts a = some fact ∧
      fact.subjectId = k.subjectId) :
    (derive isIdentifier g scope).edges k = (if k.dropped then [] else g.edges k) ++
      (edgeOf g.facts (derive isIdentifier g scope).assertions k).toList := by
  show (if _ then _ else g.edges k) = _
  rw [if_pos (mem_subjects.2 hk)]
  rfl

theorem derive_edges_outside {k : EdgeKey}
    (hk : ∀ a fact, a ∈ (expand g.facts scope).assertions → assertionFact g.facts a = some fact →
      fact.subjectId ≠ k.subjectId) :
    (derive isIdentifier g scope).edges k = g.edges k := by
  show (if _ then _ else g.edges k) = _
  rw [if_neg]
  intro h
  obtain ⟨a, fact, ha, hfact, hsubject⟩ := mem_subjects.1 h
  exact hk a fact ha hfact hsubject

/-- **A derivation of everything derives everything.** -/
theorem derive_everything (rooted : Rooted g.facts) (grounded : Grounded g) (hscope : scope.everything = true) :
    derive isIdentifier g scope = derivedGraph isIdentifier g.facts := by
  have hexpand : expand g.facts scope =
      { files := scope.files ++ g.facts.keys.filterMap Key.file?
        symbols := scope.symbols ++ g.facts.keys.filterMap Key.symbol?
        assertions := scope.assertions ++ boundedAssertions g.facts ++ assertionIds g.facts } := if_pos hscope
  have hrecorded : ∀ a fact, assertionFact g.facts a = some fact → a ∈ (expand g.facts scope).assertions := by
    intro a fact hfact
    rw [hexpand]
    exact List.mem_append_right _ (mem_assertionIds.2 (rooted a fact hfact))
  have hassertions : (derive isIdentifier g scope).assertions = derivedAssertions isIdentifier g.facts := by
    funext a
    cases hfact : assertionFact g.facts a with
    | some fact => exact derive_assertion (hrecorded a fact hfact) (fun h => grounded.assertions a h)
    | none =>
      by_cases ha : a ∈ (expand g.facts scope).assertions
      · exact derive_assertion ha (fun h => grounded.assertions a h)
      · rw [derive_assertion_outside ha, grounded.assertions a hfact, derivedAssertions, hfact]
        rfl
  have hfiles : (derive isIdentifier g scope).files = (derivedGraph isIdentifier g.facts).files := by
    funext f
    by_cases hk : Key.file f ∈ g.facts.keys
    · have hf : f ∈ (expand g.facts scope).files := by
        rw [hexpand]
        exact List.mem_append_right _ (List.mem_filterMap.2 ⟨_, hk, rfl⟩)
      rw [derive_file hf hk]
      exact (if_pos hk).symm
    · have hleft : (derive isIdentifier g scope).files f = g.files f := if_neg fun h => hk h.2
      rw [hleft, grounded.files f hk]
      exact (if_neg hk).symm
  have hsymbols : (derive isIdentifier g scope).symbols = (derivedGraph isIdentifier g.facts).symbols := by
    funext x
    by_cases hk : Key.symbol x ∈ g.facts.keys
    · have hx : x ∈ (expand g.facts scope).symbols := by
        rw [hexpand]
        exact List.mem_append_right _ (List.mem_filterMap.2 ⟨_, hk, rfl⟩)
      rw [derive_symbol hx hk]
      exact (if_pos hk).symm
    · have hleft : (derive isIdentifier g scope).symbols x = g.symbols x := if_neg fun h => hk h.2
      rw [hleft, grounded.symbols x hk]
      exact (if_neg hk).symm
  have hedges : (derive isIdentifier g scope).edges = (derivedGraph isIdentifier g.facts).edges := by
    funext k
    show _ = (edgeOf g.facts (derivedAssertions isIdentifier g.facts) k).toList
    by_cases hk : ∃ a fact, assertionFact g.facts a = some fact ∧ fact.subjectId = k.subjectId
    · obtain ⟨a, fact, hfact, hsubject⟩ := hk
      have hdropped : (if k.dropped then [] else g.edges k) = [] := by
        cases h : k.dropped with
        | true => rfl
        | false => exact grounded.undropped k h
      rw [derive_edges ⟨a, fact, hrecorded a fact hfact, hfact, hsubject⟩, hdropped, hassertions, List.nil_append]
    · have hnone : ∀ a fact, assertionFact g.facts a = some fact → fact.subjectId ≠ k.subjectId :=
        fun a fact hfact hsubject => hk ⟨a, fact, hfact, hsubject⟩
      rw [derive_edges_outside fun a fact _ => hnone a fact, grounded.edges k hnone, edgeOf_of_no_subject hnone]
      rfl
  show Graph.mk g.facts _ _ _ _ = Graph.mk g.facts _ _ _ _
  exact congr (congr (congr (congrArg (Graph.mk g.facts) hfiles) hsymbols) hassertions) hedges

theorem Grounded.derive (grounded : Grounded g) (hfiles : FileSupersessions g.facts) :
    Grounded (derive isIdentifier g scope) where
  files := fun f hk => (if_neg fun h => hk h.2).trans (grounded.files f hk)
  symbols := fun x hk => (if_neg fun h => hk h.2).trans (grounded.symbols x hk)
  assertions := by
    intro a hfact
    by_cases ha : a ∈ (expand g.facts scope).assertions
    · have hderived : (Code.derive isIdentifier g scope).assertions a = _ :=
        derive_assertion ha fun h => grounded.assertions a h
      rw [hderived, derivedAssertions, show assertionFact g.facts a = none from hfact]
      rfl
    · rw [derive_assertion_outside ha]
      exact grounded.assertions a hfact
  edges := by
    intro k (hnone : ∀ a fact, assertionFact g.facts a = some fact → _)
    rw [derive_edges_outside fun a fact _ => hnone a fact]
    exact grounded.edges k hnone
  undropped := by
    intro k hk
    by_cases hsubject : ∃ a fact, a ∈ (expand g.facts scope).assertions ∧ assertionFact g.facts a = some fact ∧
        fact.subjectId = k.subjectId
    · rw [derive_edges hsubject, edgeOf_undropped hfiles hk, hk]
      simpa using grounded.undropped k hk
    · rw [derive_edges_outside fun a fact ha hfact h => hsubject ⟨a, fact, ha, hfact, h⟩]
      exact grounded.undropped k hk

end Derive

theorem fullDerivation_eq (agree : Agreeing es) :
    fullDerivation isIdentifier (factsOf es) = derivedGraph isIdentifier (factsOf es) :=
  derive_everything (rooted_factsOf agree) (grounded_underived _) rfl

/-! ## The same facts -/

/-- Graphs with the same nodes and relationships, whatever order their facts were written in. -/
structure SameGraph (g g' : Graph) : Prop where
  keys : ∀ k, k ∈ g.facts.keys ↔ k ∈ g'.facts.keys
  read : g.facts.read = g'.facts.read
  files : g.files = g'.files
  symbols : g.symbols = g'.symbols
  assertions : g.assertions = g'.assertions
  edges : g.edges = g'.edges

variable {isIdentifier}
variable {s s' : FactStore}

theorem assertionFact_congr (hread : s.read = s'.read) : assertionFact s = assertionFact s' := by
  funext a
  rw [assertionFact, assertionFact, hread]

theorem edgeOf_congr {states : String → Option AssertionState} (hkeys : ∀ k, k ∈ s.keys ↔ k ∈ s'.keys)
    (hread : s.read = s'.read) (k : EdgeKey) : edgeOf s states k = edgeOf s' states k := by
  have hrows : ∀ p, p ∈ currentBySubject s states k.subjectId ↔ p ∈ currentBySubject s' states k.subjectId := by
    intro p
    rw [mem_currentBySubject, mem_currentBySubject]
    simp only [hkeys, hread, assertionFact_congr hread]
  have hkeyed : KeyedBy (·.assertionId) (currentBySubject s states k.subjectId) := by
    intro p hp q hq hid
    obtain ⟨a, fact, state, -, hfact, hstate, -, -, -, rfl⟩ := mem_currentBySubject.1 hp
    obtain ⟨a', fact', state', -, hfact', hstate', -, -, -, rfl⟩ := mem_currentBySubject.1 hq
    obtain rfl : a = a' := hid
    obtain rfl := Option.some.inj (hfact.symm.trans hfact')
    obtain rfl := Option.some.inj (hstate.symm.trans hstate')
    rfl
  unfold edgeOf
  cases targetLabel k.predicate with
  | none => rfl
  | some label => simp only [hkeys, resolveEdge_congr hkeyed hrows]

theorem derivedGraph_congr (hkeys : ∀ k, k ∈ s.keys ↔ k ∈ s'.keys) (hread : s.read = s'.read)
    (hfacts : allFacts s none = allFacts s' none) :
    SameGraph (derivedGraph isIdentifier s) (derivedGraph isIdentifier s') where
  keys := hkeys
  read := hread
  files := by
    funext f
    show (if _ then some (fileState s _) else none) = if _ then some (fileState s' _) else none
    simp only [fileState, hkeys, hfacts]
  symbols := by
    funext x
    show (if _ then _ else _) = if _ then _ else _
    simp only [hkeys, hfacts]
  assertions := by
    funext a
    show derivedAssertions _ s a = derivedAssertions _ s' a
    rw [derivedAssertions, derivedAssertions, hfacts, assertionFact_congr hread]
  edges := by
    have hassertions : derivedAssertions isIdentifier s = derivedAssertions isIdentifier s' := by
      funext a
      rw [derivedAssertions, derivedAssertions, hfacts, assertionFact_congr hread]
    funext k
    show (edgeOf s _ k).toList = (edgeOf s' _ k).toList
    rw [hassertions, edgeOf_congr hkeys hread]

end Graph

end Code
