import AgentContext.Code.Scope

/-!
# Convergence

The graph of a delivery is one full derivation over its facts, and deliveries of the same events end in the same
graph, where every event after the last start or end of a run is quiet:

    settled_derived       a settled delivery   →   its graph is one full derivation
    deliveries_converge   two settled deliveries of the same events, without ties   →   the same graph

A start or an end of a run re-derives everything, so what comes before it does not matter.
-/

namespace Code

open PropertyGraph Keyset

variable {isIdentifier : String → Bool} {pre es : List Event} {e : Event}

/-! ## One event -/

theorem FileSupersessions.before (agree : Agreeing (pre ++ [e])) (hfiles : FileSupersessions (factsOf (pre ++ [e]))) :
    FileSupersessions (factsOf pre) := by
  intro a ha fact hfact hpredicate hsymbol
  obtain ⟨fact', hfact', hsubject, hpredicate'⟩ := fact_persists agree (fun _ h => mem_snoc_of_mem h) hfact
  have ha' : a ∈ assertionIds (factsOf (pre ++ [e])) :=
    mem_assertionIds.2 (mem_keys_snoc.2 (Or.inl (mem_assertionIds.1 ha)))
  refine hfiles a ha' fact' hfact' (hpredicate'.trans hpredicate) ?_
  rw [hsubject]
  exact mem_keys_snoc.2 (Or.inl hsymbol)

theorem Grounded.write {g : Graph} (grounded : Grounded g) (agree : Agreeing (pre ++ [e])) (hfacts : g.facts = factsOf pre) :
    Grounded { g with facts := factsOf (pre ++ [e]) } where
  files := by
    intro f (hk : _ ∉ (factsOf (pre ++ [e])).keys)
    exact grounded.files f fun h => hk (mem_keys_snoc.2 (Or.inl (hfacts ▸ h)))
  symbols := by
    intro x (hk : _ ∉ (factsOf (pre ++ [e])).keys)
    exact grounded.symbols x fun h => hk (mem_keys_snoc.2 (Or.inl (hfacts ▸ h)))
  assertions := by
    intro a hnone
    refine grounded.assertions a ?_
    rw [hfacts, Option.eq_none_iff_forall_ne_some]
    intro fact hfact
    obtain ⟨fact', hfact', -⟩ := fact_persists agree (fun _ h => mem_snoc_of_mem h) hfact
    exact absurd (hnone.symm.trans hfact') (by simp)
  edges := by
    intro k hnone
    refine grounded.edges k fun a fact hfact => ?_
    rw [hfacts] at hfact
    obtain ⟨fact', hfact', hsubject, -⟩ := fact_persists agree (fun _ h => mem_snoc_of_mem h) hfact
    rw [← hsubject]
    exact hnone a fact' hfact'
  undropped := grounded.undropped

/-- **A quiet event derives what the facts derive.** -/
theorem quiet_step (agree : Agreeing (pre ++ [e])) (hfiles : FileSupersessions (factsOf (pre ++ [e])))
    (hevent : e.everything = false) (quiet : Quiet pre e) :
    project isIdentifier (derivedGraph isIdentifier (factsOf pre)) e =
      derivedGraph isIdentifier (factsOf (pre ++ [e])) := by
  let g : Graph := { derivedGraph isIdentifier (factsOf pre) with facts := factsOf (pre ++ [e]) }
  have hproject : project isIdentifier (derivedGraph isIdentifier (factsOf pre)) e =
      derive isIdentifier g (scopeOf e) := by
    show derive isIdentifier { derivedGraph isIdentifier (factsOf pre) with
      facts := (factsOf pre).putAll (factWrites e) } (scopeOf e) = _
    rw [← factsOf_snoc]
  rw [hproject]
  have hassertions : (derive isIdentifier g (scopeOf e)).assertions =
      derivedAssertions isIdentifier (factsOf (pre ++ [e])) := by
    funext a
    by_cases ha : a ∈ (expand g.facts (scopeOf e)).assertions
    · refine derive_assertion ha fun hnone => ?_
      show derivedAssertions isIdentifier (factsOf pre) a = none
      have hpre : assertionFact (factsOf pre) a = none := by
        rw [Option.eq_none_iff_forall_ne_some]
        intro fact hfact
        obtain ⟨fact', hfact', -⟩ := fact_persists agree (fun _ h => mem_snoc_of_mem h) hfact
        exact absurd (hnone.symm.trans hfact') (by simp)
      rw [derivedAssertions, hpre]
      rfl
    · rw [derive_assertion_outside ha]
      exact quiet_assertion agree hevent quiet ha
  have hfile : (derive isIdentifier g (scopeOf e)).files = (derivedGraph isIdentifier (factsOf (pre ++ [e]))).files := by
    funext f
    by_cases hf : f ∈ (expand g.facts (scopeOf e)).files ∧ Key.file f ∈ g.facts.keys
    · rw [derive_file hf.1 hf.2]
      exact (if_pos hf.2).symm
    · have hleft : (derive isIdentifier g (scopeOf e)).files f = (derivedGraph isIdentifier (factsOf pre)).files f :=
        if_neg hf
      rw [hleft]
      by_cases hscope : f ∈ (scopeOf e).files
      · -- in scope, but there is no such file
        have hk : Key.file f ∉ (factsOf (pre ++ [e])).keys := by
          intro hk
          refine hf ⟨?_, hk⟩
          rw [expand_scoped (scopeOf_everything.trans hevent)]
          exact hscope
        exact (if_neg fun h => hk (mem_keys_snoc.2 (Or.inl h))).trans (if_neg hk).symm
      · exact quiet_file agree hevent quiet hscope
  have hsymbol : (derive isIdentifier g (scopeOf e)).symbols =
      (derivedGraph isIdentifier (factsOf (pre ++ [e]))).symbols := by
    funext x
    by_cases hx : x ∈ (expand g.facts (scopeOf e)).symbols ∧ Key.symbol x ∈ g.facts.keys
    · rw [derive_symbol hx.1 hx.2]
      exact (if_pos hx.2).symm
    · have hleft : (derive isIdentifier g (scopeOf e)).symbols x =
          (derivedGraph isIdentifier (factsOf pre)).symbols x := if_neg hx
      rw [hleft]
      by_cases hscope : x ∈ (expand g.facts (scopeOf e)).symbols
      · have hk : Key.symbol x ∉ (factsOf (pre ++ [e])).keys := fun hk => hx ⟨hscope, hk⟩
        exact (if_neg fun h => hk (mem_keys_snoc.2 (Or.inl h))).trans (if_neg hk).symm
      · exact quiet_symbol agree hevent quiet hscope
  have hedge : (derive isIdentifier g (scopeOf e)).edges = (derivedGraph isIdentifier (factsOf (pre ++ [e]))).edges := by
    funext k
    show _ = (edgeOf (factsOf (pre ++ [e])) (derivedAssertions isIdentifier (factsOf (pre ++ [e]))) k).toList
    by_cases hk : ∃ a fact, a ∈ (expand g.facts (scopeOf e)).assertions ∧ assertionFact g.facts a = some fact ∧
        fact.subjectId = k.subjectId
    · rw [derive_edges hk, hassertions]
      cases hdropped : k.dropped with
      | true => rfl
      | false =>
        show (edgeOf (factsOf pre) _ k).toList ++ (edgeOf (factsOf (pre ++ [e])) _ k).toList = _
        rw [edgeOf_undropped (hfiles.before agree) hdropped]
        rfl
    · rw [derive_edges_outside fun a fact ha hfact h => hk ⟨a, fact, ha, hfact, h⟩]
      show (edgeOf (factsOf pre) (derivedAssertions isIdentifier (factsOf pre)) k).toList = _
      rw [quiet_edge agree hevent quiet fun a fact ha hfact h => hk ⟨a, fact, ha, hfact, h⟩]
  show Graph.mk (factsOf (pre ++ [e])) _ _ _ _ = Graph.mk (factsOf (pre ++ [e])) _ _ _ _
  exact congr (congr (congr (congrArg (Graph.mk _) hfile) hsymbol) hassertions) hedge

/-! ## A delivery -/

theorem project_eq {g : Graph} (hfacts : g.facts = factsOf pre) :
    project isIdentifier g e = derive isIdentifier { g with facts := factsOf (pre ++ [e]) } (scopeOf e) := by
  rw [project, hfacts, ← factsOf_snoc]

theorem deliver_grounded (agree : Agreeing es) (hfiles : FileSupersessions (factsOf es)) :
    Grounded (deliver isIdentifier es) := by
  induction es using List.reverseRecOn with
  | nil => exact grounded_underived _
  | append_singleton pre e ih =>
    rw [deliver_snoc, project_eq (deliver_facts isIdentifier pre)]
    exact ((ih (agree_pre agree) (hfiles.before agree)).write agree (deliver_facts isIdentifier pre)).derive hfiles

/-- Every event after the last start or end of a run is quiet. -/
def Settled (es : List Event) : Prop :=
  ∀ i < es.length, (es.drop i).all (!·.everything) = true → ∀ e ∈ es[i]?, Quiet (es.take i) e

instance (es : List Event) : Decidable (Settled es) := by
  unfold Settled
  infer_instance

theorem Settled.before (h : Settled (pre ++ [e])) (hevent : e.everything = false) : Settled pre := by
  intro i hi hall e' he'
  have hi' : i < (pre ++ [e]).length := by
    rw [List.length_append]
    omega
  have hquiet := h i hi'
  rw [List.drop_append_of_le_length (le_of_lt hi), List.take_append_of_le_length (le_of_lt hi),
    List.getElem?_append_left hi] at hquiet
  refine hquiet ?_ e' he'
  simp [hevent, hall]

theorem Settled.last (h : Settled (pre ++ [e])) (hevent : e.everything = false) : Quiet pre e := by
  have hquiet := h pre.length (by simp)
  rw [List.drop_left, List.take_left] at hquiet
  exact hquiet (by simp [hevent]) e (by simp)

/-- **The graph of a settled delivery is one full derivation.** -/
theorem settled_derived (agree : Agreeing es) (hfiles : FileSupersessions (factsOf es)) (settled : Settled es) :
    deliver isIdentifier es = derivedGraph isIdentifier (factsOf es) := by
  induction es using List.reverseRecOn with
  | nil =>
    have hnone : ∀ a, assertionFact (factsOf []) a = none := fun _ => rfl
    have hedges : (fun _ => []) = (derivedGraph isIdentifier (factsOf [])).edges := by
      funext k
      show [] = (edgeOf (factsOf []) _ k).toList
      rw [edgeOf_of_no_subject fun a fact hfact => absurd ((hnone a).symm.trans hfact) (by simp)]
      rfl
    exact congrArg (Graph.mk (factsOf []) (fun _ => none) (fun _ => none) (fun _ => none)) hedges
  | append_singleton pre e ih =>
    rw [deliver_snoc]
    cases hevent : e.everything with
    | false =>
      rw [ih (agree_pre agree) (hfiles.before agree) (settled.before hevent)]
      exact quiet_step agree hfiles hevent (settled.last hevent)
    | true =>
      have hgrounded : Grounded (deliver isIdentifier pre) := deliver_grounded (agree_pre agree) (hfiles.before agree)
      rw [project_eq (deliver_facts isIdentifier pre)]
      exact derive_everything (rooted_factsOf agree) (hgrounded.write agree (deliver_facts isIdentifier pre))
        (scopeOf_everything.trans hevent)

theorem allFacts_events {es' : List Event} (agree : Agreeing es) (ties : NoTies (factsOf es) none)
    (same : ∀ e, e ∈ es ↔ e ∈ es') : allFacts (factsOf es) none = allFacts (factsOf es') none :=
  allFacts_eq (keyedRows_factsOf agree) ties (sameRows_events agree same) visibleRuns_nodup

/-- **Deliveries converge**: settled deliveries of the same events, in any order and with duplicates, end in the
same graph, and that is one full derivation over all recorded facts. -/
theorem deliveries_converge (isIdentifier : String → Bool) (es es' : List Event) (same : ∀ e, e ∈ es ↔ e ∈ es')
    (agree : Agreeing es) (hfiles : FileSupersessions (factsOf es)) (ties : NoTies (factsOf es) none)
    (settled : Settled es) (settled' : Settled es') :
    SameGraph (deliver isIdentifier es) (deliver isIdentifier es') ∧
      deliver isIdentifier es = fullDerivation isIdentifier (factsOf es) := by
  have agree' : Agreeing es' := agree.of_subset fun e => (same e).2
  have hkeys : ∀ k, k ∈ (factsOf es).keys ↔ k ∈ (factsOf es').keys := by
    intro k
    simp only [mem_keys_factsOf, same]
  have hread := read_factsOf_eq agree same
  have hfiles' : FileSupersessions (factsOf es') := by
    intro a ha fact hfact hpredicate hk
    rw [← assertionFact_congr hread] at hfact
    exact hfiles a (mem_assertionIds.2 ((hkeys _).2 (mem_assertionIds.1 ha))) fact hfact hpredicate ((hkeys _).2 hk)
  constructor
  · rw [settled_derived agree hfiles settled, settled_derived agree' hfiles' settled']
    exact derivedGraph_congr hkeys hread (allFacts_events agree ties same)
  · rw [settled_derived agree hfiles settled, fullDerivation_eq isIdentifier agree]

/-! ## A file that comes late -/

def started : Event := ⟨"e1", "2026-03-01T12:00:00", "2026-03-01T12:00:01", .indexStarted ⟨"i", "commit:c"⟩⟩

def oldFile : Event :=
  ⟨"e2", "2026-03-01T12:00:00", "2026-03-01T12:00:02",
    .fileIndexed ⟨"i", "commit:c", "f", "r", "pkg/a.py", "m", "sha", "python", "indexer", "1"⟩⟩

def newFile : Event :=
  ⟨"e3", "2026-03-01T12:00:00", "2026-03-01T12:00:03",
    .fileIndexed ⟨"i", "commit:c", "g", "q", "pkg/b.py", "n", "sha", "python", "indexer", "1"⟩⟩

def completed : Event :=
  ⟨"e4", "2026-03-01T12:00:00", "2026-03-01T12:00:04", .indexCompleted ⟨"i", "commit:c", true, none⟩⟩

/-- The new file possibly supersedes the old one. -/
def superseded : Event :=
  ⟨"e5", "2026-03-01T12:00:00", "2026-03-01T12:00:05",
    .relationAsserted
      { assertionId := "a", evidenceKind := .git, deterministic := true, extractorName := "indexer",
        extractorVersion := "1", confidence := 1, validFrom := "2026-03-01T12:00:00", validTo := none,
        reviewStatus := "unreviewed", subjectId := "g", predicate := .possiblySupersedes, objectId := some "f" }⟩

/-- In the order of a run. -/
def inOrder : List Event := [started, oldFile, newFile, completed, superseded]

/-- The new file comes after the end of the run and the relation. -/
def fileLast : List Event := [started, completed, oldFile, superseded, newFile]

/-- In any order before the end of the run, and with a duplicate. -/
def shuffled : List Event := [newFile, started, superseded, oldFile, superseded, completed]

/-- **A file that comes late leaves its edge out**: no event after it has the relation in its scope. -/
theorem late_file_loses_edge :
    (∀ e ∈ inOrder, e ∈ fileLast) ∧ (∀ e ∈ fileLast, e ∈ inOrder) ∧ Agreeing inOrder ∧
      NoTies (factsOf inOrder) none ∧ FileSupersessions (factsOf inOrder) ∧
      ((deliver asciiIdentifier inOrder).edges ⟨.file, "g", .possiblySupersedes, "f"⟩).length = 1 ∧
      ((deliver asciiIdentifier fileLast).edges ⟨.file, "g", .possiblySupersedes, "f"⟩).length = 0 ∧
      ((fullDerivation asciiIdentifier (factsOf fileLast)).edges ⟨.file, "g", .possiblySupersedes, "f"⟩).length = 1 := by
  decide +kernel

theorem deliveries_converge_shuffled :
    SameGraph (deliver asciiIdentifier inOrder) (deliver asciiIdentifier shuffled) ∧
      deliver asciiIdentifier inOrder = fullDerivation asciiIdentifier (factsOf inOrder) :=
  deliveries_converge asciiIdentifier inOrder shuffled (fun _ => by simp only [inOrder, shuffled]; grind)
    (by decide +kernel) (by decide +kernel) (by decide +kernel) (by decide +kernel) (by decide +kernel)

end Code
