import AgentContext.Code.AsOf

/-!
# What an event leaves alone

An event that is not a start or an end of a run writes facts of one file, one symbol or one assertion, and may
introduce a run.  The facts of everything outside its scope stay as they are:

    file_frame        a file other than the event's
    symbol_frame      a symbol outside the scope
    assertion_frame   an assertion outside the scope

A run that has no facts but the event's own is unknown to every other entity, so their timelines stay as they are
(`deriveFile_frame`, `deriveSymbol_frame`, `deriveAssertion_frame`).
-/

namespace Code

open PropertyGraph Keyset List

/-! ## Timelines over more runs -/

section Timelines

variable {isIdentifier : String → Bool} {F F' : Facts}
variable {r : Run}

theorem timelineFrom_filter {runs : List Run} {status : Run → Status} {K : Run → Bool}
    (h : ∀ r ∈ runs, K r = false → status r = .unknown) (opened : Option Interval) :
    timelineFrom status opened (runs.filter K) = timelineFrom status opened runs := by
  induction runs generalizing opened with
  | nil => rfl
  | cons r runs ih =>
    have ih := fun opened => ih (fun q hq => h q (mem_cons_of_mem _ hq)) opened
    cases hK : K r with
    | true =>
      rw [filter_cons_of_pos hK]
      unfold timelineFrom
      simp only [ih]
    | false =>
      rw [filter_cons_of_neg (by simp [hK]), ih opened]
      conv_rhs => unfold timelineFrom
      rw [h r mem_cons_self hK]

/-- The runs of `F'` are those of `F` and runs that `F` knows nothing of and that permit no absence. -/
def RunsExtend (F F' : Facts) : Prop :=
  ∃ K : Run → Bool, F.runs = F'.runs.filter K ∧ ∀ r ∈ F'.runs, K r = false →
    r.permitsAbsence = false ∧ ∀ f, (F.file f).member r.key = none ∧ (F.file f).covered r.key = false

structure UnknownRun (F : Facts) (r : Run) : Prop where
  absence : r.permitsAbsence = false
  member : ∀ f, (F.file f).member r.key = none
  covered : ∀ f, (F.file f).covered r.key = false

section

variable (h : UnknownRun F r)
include h

theorem fileStatus_unknown (f : String) : fileStatus F f r = .unknown := by
  simp [fileStatus, h.member, h.covered, h.absence]

theorem ownerStatus_unknown (symbols : List String) (claims : List Claim) :
    ownerStatus isIdentifier F r symbols claims = .unknown := by
  have hlive : live isIdentifier F r symbols claims = [] := by
    unfold live
    rw [filter_eq_nil_iff]
    intro c _
    simp [holds, h.member]
  simp [ownerStatus, hlive, h.absence]

theorem symbolPresent_unknown (x : String) : symbolPresent isIdentifier F x r = .unknown := by
  simp [symbolPresent, ownerStatus_unknown h]

theorem assertionStatus_unknown (a : String) (fact : AssertionFact) :
    assertionStatus isIdentifier F a fact r = .unknown := by
  simp [assertionStatus, ownerStatus_unknown h]

end

section

variable (hruns : RunsExtend F F')
include hruns

theorem timeline_frame {status status' : Run → Status}
    (hunknown : ∀ r, UnknownRun F r → status r = .unknown) (hsame : ∀ r, status r = status' r) :
    timeline F.runs status = timeline F'.runs status' := by
  obtain ⟨K, hfilter, hK⟩ := hruns
  rw [hfilter]
  calc timeline (F'.runs.filter K) status
      = timeline F'.runs status := timelineFrom_filter (fun r hr hKr => hunknown r
          ⟨(hK r hr hKr).1, fun f => ((hK r hr hKr).2 f).1, fun f => ((hK r hr hKr).2 f).2⟩) none
    _ = timeline F'.runs status' := timeline_congr fun r _ => hsame r

theorem deriveFile_frame {f : String} (h : F.file f = F'.file f) :
    deriveFile F f = deriveFile F' f :=
  timeline_frame hruns (fun _ hr => fileStatus_unknown hr f) fun _ => fileStatus_congr h

theorem deriveSymbol_frame {x : String} (h : SameSymbol F F' x) :
    deriveSymbol isIdentifier F x = deriveSymbol isIdentifier F' x :=
  timeline_frame hruns (fun _ hr => symbolPresent_unknown hr x) fun _ => symbolPresent_congr h

theorem deriveAssertion_frame {a : String} {fact : AssertionFact}
    (h : SameAssertion F F' a fact) :
    deriveAssertion isIdentifier F a fact = deriveAssertion isIdentifier F' a fact := by
  unfold deriveAssertion
  rw [timeline_frame hruns (fun _ hr => assertionStatus_unknown hr a fact) fun _ => assertionStatus_congr h]

end

end Timelines

/-! ## Facts outside the scope -/

section Outside

variable {pre : List Event} {e : Event} {k : Key}

theorem factsOf_snoc : factsOf (pre ++ [e]) = (factsOf pre).putAll (factWrites e) := by
  rw [factsOf, factsOf, flatMap_append, flatMap_singleton, Store.written_append]

theorem mem_snoc_of_mem {e' : Event} (h : e' ∈ pre) : e' ∈ pre ++ [e] := mem_append_left _ h

/-- The file revision a relationship ends at, or starts from. -/
def Key.revision : Key → Option String
  | .memberOf g _ => some g
  | .coveredIn g _ _ => some g
  | .definedIn _ g _ => some g
  | .observedIn _ g _ => some g
  | _ => none

theorem revision_written {n : Entry} {g : String} (hn : (k, n) ∈ factWrites e) (hg : k.revision = some g) :
    ∃ f, e.fileRevision = some (g, f) := by
  cases k with
  | memberOf g' run =>
    obtain ⟨p, hp, rfl, -⟩ := memberOf_written.1 hn
    obtain rfl := Option.some.inj hg
    exact ⟨p.fileId, by rw [Event.fileRevision, hp]⟩
  | coveredIn g' run id =>
    obtain ⟨p, hp, rfl, -⟩ := coveredIn_written.1 hn
    obtain rfl := Option.some.inj hg
    exact ⟨p.fileId, by rw [Event.fileRevision, hp]⟩
  | definedIn sr g' i =>
    obtain ⟨p, hp, -, rfl, -⟩ := definedIn_written.1 hn
    obtain rfl := Option.some.inj hg
    exact ⟨p.fileId, by rw [Event.fileRevision, hp]⟩
  | observedIn a g' i =>
    obtain ⟨p, hp, -, rfl, -⟩ := observedIn_written.1 hn
    obtain rfl := Option.some.inj hg
    exact ⟨p.fileId, by rw [Event.fileRevision, hp]⟩
  | _ => cases hg

theorem read_snoc (h : ∀ n, (k, n) ∉ factWrites e) : (factsOf (pre ++ [e])).read k = (factsOf pre).read k := by
  rw [factsOf_snoc]
  exact Store.read_putAll_of_unwritten h

theorem mem_keys_snoc : k ∈ (factsOf (pre ++ [e])).keys ↔ k ∈ (factsOf pre).keys ∨ ∃ n, (k, n) ∈ factWrites e := by
  rw [factsOf_snoc]
  exact Store.mem_keys_putAll

/-- The rows of a query that pick out what an event does not write are the same, in the same order. -/
theorem rows_frame {ρ : Type} {row : FactStore → Key → Option ρ} {picked : ρ → Bool}
    (hnew : ∀ k n x, (k, n) ∈ factWrites e → row (factsOf (pre ++ [e])) k = some x → picked x = false)
    (hold : ∀ k ∈ (factsOf pre).keys, (row (factsOf (pre ++ [e])) k).filter picked = (row (factsOf pre) k).filter picked) :
    ((factsOf (pre ++ [e])).keys.filterMap (row (factsOf (pre ++ [e])))).filter picked =
      ((factsOf pre).keys.filterMap (row (factsOf pre))).filter picked := by
  obtain ⟨new, hkeys, hwritten⟩ := Store.keys_putAll (factsOf pre) (factWrites e)
  rw [← factsOf_snoc] at hkeys
  rw [hkeys, filterMap_append, filter_append]
  have hnil : (new.filterMap (row (factsOf (pre ++ [e])))).filter picked = [] := by
    rw [filter_eq_nil_iff]
    intro x hx
    obtain ⟨k, hk, hx⟩ := mem_filterMap.1 hx
    obtain ⟨n, hn⟩ := hwritten k hk
    simp [hnew k n x hn hx]
  rw [hnil, append_nil, filter_filterMap, filter_filterMap]
  exact filterMap_congr hold

section

variable (agree : Agreeing (pre ++ [e]))
include agree

/-- The file of a revision that a relationship names does not change. -/
theorem fileOf_snoc {g : String} (hk : k ∈ (factsOf pre).keys)
    (hg : k.revision = some g) : fileOf (factsOf (pre ++ [e])) g = fileOf (factsOf pre) g := by
  obtain ⟨e₁, he₁, n, hn⟩ := mem_keys_factsOf.1 hk
  obtain ⟨f, hf⟩ := revision_written hn hg
  rw [fileOf_factsOf agree (mem_snoc_of_mem he₁) hf,
    fileOf_factsOf (agree.of_subset fun _ h => mem_snoc_of_mem h) he₁ hf]

/-- An event leaves the relationships of other files alone. -/
theorem untouched_of_file {f g : String}
    (hout : ∀ g f', e.fileRevision = some (g, f') → f' ≠ f) (hg : k.revision = some g)
    (hk : k ∈ (factsOf pre).keys) (hf : fileOf (factsOf pre) g = f) (n : Entry) : (k, n) ∉ factWrites e := by
  intro hn
  obtain ⟨f', hf'⟩ := revision_written hn hg
  have hfile := fileOf_factsOf agree (mem_append_right pre (mem_singleton_self e)) hf'
  rw [fileOf_snoc agree hk hg, hf] at hfile
  exact hout g f' hf' hfile.symm

/-- A query shows the same rows of another file. -/
theorem file_rows {ρ : Type} {f : String}
    (hout : ∀ g f', e.fileRevision = some (g, f') → f' ≠ f) {row : FactStore → Key → Option ρ} {fileId : ρ → String}
    (hrevision : ∀ s k x, row s k = some x → ∃ g, k.revision = some g ∧ fileId x = fileOf s g)
    (hrow : ∀ k g, k.revision = some g → fileOf (factsOf (pre ++ [e])) g = fileOf (factsOf pre) g →
      (factsOf (pre ++ [e])).read k = (factsOf pre).read k → row (factsOf (pre ++ [e])) k = row (factsOf pre) k) (x : ρ) :
    x ∈ ((factsOf (pre ++ [e])).keys.filterMap (row (factsOf (pre ++ [e])))).filter (fileId · = f) ↔
      x ∈ ((factsOf pre).keys.filterMap (row (factsOf pre))).filter (fileId · = f) := by
  have hsame : ∀ k g, k ∈ (factsOf pre).keys → k.revision = some g → fileOf (factsOf pre) g = f →
      row (factsOf (pre ++ [e])) k = row (factsOf pre) k := fun k g hk hg hf =>
    hrow k g hg (fileOf_snoc agree hk hg) (read_snoc (untouched_of_file agree hout hg hk hf))
  rw [mem_filter, mem_filter, mem_filterMap, mem_filterMap]
  constructor
  · rintro ⟨⟨k, hk, hx⟩, hf⟩
    have hf : fileId x = f := by simpa using hf
    obtain ⟨g, hg, hfile⟩ := hrevision _ k x hx
    rcases mem_keys_snoc.1 hk with hk | ⟨n, hn⟩
    · rw [fileOf_snoc agree hk hg] at hfile
      exact ⟨⟨k, hk, (hsame k g hk hg (hfile.symm.trans hf)) ▸ hx⟩, by simpa using hf⟩
    · obtain ⟨f', hf'⟩ := revision_written hn hg
      rw [fileOf_factsOf agree (mem_append_right pre (mem_singleton_self e)) hf', hf] at hfile
      exact absurd hfile.symm (hout g f' hf')
  · rintro ⟨⟨k, hk, hx⟩, hf⟩
    have hf : fileId x = f := by simpa using hf
    obtain ⟨g, hg, hfile⟩ := hrevision _ k x hx
    refine ⟨⟨k, mem_keys_snoc.2 (Or.inl hk), ?_⟩, by simpa using hf⟩
    rw [hsame k g hk hg (hfile.symm.trans hf), hx]

/-- **The facts of another file stay as they are.** -/
theorem file_frame {f : String} (hout : ∀ g f', e.fileRevision = some (g, f') → f' ≠ f) :
    (allFacts (factsOf pre) none).file f = (allFacts (factsOf (pre ++ [e])) none).file f := by
  have keyed : KeyedRows (factsOf (pre ++ [e])) none := keyedRows_factsOf agree
  refine (fileFacts_eq ?_ ?_ ?_ ?_ ?_).symm
  · rw [visibleMembers_none, visibleMembers_none]
    refine file_rows agree hout ?_ ?_
    · intro s k row h
      obtain rfl := memberRow_key h
      exact ⟨_, rfl, congrArg MemberRow.fileId (Option.some.inj h).symm⟩
    · intro k g hg hfile hread
      cases k with
      | memberOf g' run => obtain rfl := Option.some.inj hg; simp only [memberRow, hfile, hread]
      | _ => rfl
  · rw [visibleCoverage_none, visibleCoverage_none]
    refine file_rows agree hout ?_ ?_
    · intro s k row h
      obtain ⟨id, rfl⟩ := coverageRow_key h
      exact ⟨_, rfl, congrArg CoverageRow.fileId (Option.some.inj h).symm⟩
    · intro k g hg hfile hread
      cases k with
      | coveredIn g' run id => obtain rfl := Option.some.inj hg; simp only [coverageRow, hfile, hread]
      | _ => rfl
  · rw [visibleClaims_none, visibleClaims_none]
    refine file_rows agree hout ?_ ?_
    · intro s k c h
      refine ⟨c.revisionId, ?_, (claimOf_reads h).1⟩
      cases k with
      | definedIn | observedIn => obtain rfl := Option.some.inj h; rfl
      | _ => cases h
    · intro k g hg hfile hread
      cases k with
      | definedIn | observedIn => obtain rfl := Option.some.inj hg; simp only [claimOf, claimRow, hfile, hread]
      | _ => rfl
  · intro a ha b hb
    exact keyed.members a (mem_of_mem_filter ha) b (mem_of_mem_filter hb)
  · intro a ha b hb
    exact keyed.coverage a (mem_of_mem_filter ha) b (mem_of_mem_filter hb)

/-- **The facts of a symbol that the event does not index stay as they are.** -/
theorem symbol_frame {x : String} (hout : ∀ g, e.claim ≠ some (.symbol x, g)) :
    (allFacts (factsOf pre) none).symbol x = (allFacts (factsOf (pre ++ [e])) none).symbol x := by
  have he : e ∈ pre ++ [e] := mem_append_right pre (mem_singleton_self e)
  have hother : ∀ p, e.payload = .symbolIndexed p → p.symbolId ≠ x := by
    rintro p hp rfl
    exact hout p.fileRevisionId (by rw [Event.claim, hp])
  have hrows : ((factsOf (pre ++ [e])).keys.filterMap (defRow (factsOf (pre ++ [e])))).filter (·.symbolId = x) =
      ((factsOf pre).keys.filterMap (defRow (factsOf pre))).filter (·.symbolId = x) := by
    refine rows_frame ?_ ?_
    · intro k n row hn hrow
      cases k with
      | definedIn sr g i =>
        obtain ⟨p, hp, rfl, -⟩ := definedIn_written.1 hn
        obtain rfl := Option.some.inj hrow
        simp [symbolOf_factsOf agree he hp, hother p hp]
      | _ => cases hrow
    · intro k hk
      cases k with
      | definedIn sr g i =>
        obtain ⟨e₁, he₁, n₁, hn₁⟩ := mem_keys_factsOf.1 hk
        obtain ⟨p₁, hp₁, rfl, rfl, rfl, -⟩ := definedIn_written.1 hn₁
        have hsymbol := symbolOf_factsOf agree (mem_snoc_of_mem he₁) hp₁
        have hsymbol' := symbolOf_factsOf (agree.of_subset fun _ h => mem_snoc_of_mem h) he₁ hp₁
        by_cases hx : p₁.symbolId = x
        · -- the event writes neither the relationship nor the symbol revision
          have hsr : ∀ p, e.payload = .symbolIndexed p → p.symbolRevisionId ≠ p₁.symbolRevisionId := by
            intro p hp hsame
            have hp' := symbolOf_factsOf agree he hp
            rw [hsame, hsymbol] at hp'
            exact hother p hp (Option.some.inj hp' ▸ hx)
          have hread : (factsOf (pre ++ [e])).read (.definedIn p₁.symbolRevisionId p₁.fileRevisionId p₁.indexId) =
              (factsOf pre).read (.definedIn p₁.symbolRevisionId p₁.fileRevisionId p₁.indexId) := by
            apply read_snoc
            intro n hn
            obtain ⟨p, hp, hsame, -⟩ := definedIn_written.1 hn
            exact hsr p hp hsame
          have hrevision : (factsOf (pre ++ [e])).read (.symbolRevision p₁.symbolRevisionId) =
              (factsOf pre).read (.symbolRevision p₁.symbolRevisionId) := by
            apply read_snoc
            intro n hn
            obtain ⟨p, hp, hsame, -⟩ := symbolRevision_written hn
            exact hsr p hp hsame
          simp only [defRow, claimRow, hread, hrevision, fileOf_snoc agree hk rfl]
        · simp [defRow, hsymbol, hsymbol', hx, Option.filter_some]
      | _ => rfl
  show symbolFacts _ = symbolFacts _
  rw [visibleDefs_none, visibleDefs_none, hrows]

/-- **The facts of an assertion that the event does not name stay as they are.** -/
theorem assertion_frame {a : String} (hout : ∀ g, e.claim ≠ some (.assertion a, g)) (hout' : e.assertion ≠ some a) :
    (allFacts (factsOf pre) none).assertion a = (allFacts (factsOf (pre ++ [e])) none).assertion a := by
  have hobserved : ∀ p, e.payload = .assertionObserved p → p.assertionId ≠ a := by
    rintro p hp rfl
    exact hout p.fileRevisionId (by rw [Event.claim, hp])
  have hfact : (factsOf (pre ++ [e])).read (.assertion a) = (factsOf pre).read (.assertion a) := by
    apply read_snoc
    intro n hn
    rcases assertion_cases hn with ⟨fact, hstates, -⟩ | ⟨hnone, -⟩
    · exact hout' (by rw [Event.assertion, hstates]; rfl)
    · rcases assertion_written.1 hn with ⟨p, hp, rfl, -⟩ | ⟨p, hp, -⟩ | ⟨p, hp, -⟩
      · exact hobserved p hp rfl
      · simp [Event.states, hp] at hnone
      · simp [Event.states, hp] at hnone
  have hrows : ((factsOf (pre ++ [e])).keys.filterMap (observedRow (factsOf (pre ++ [e])))).filter (·.assertionId = a) =
      ((factsOf pre).keys.filterMap (observedRow (factsOf pre))).filter (·.assertionId = a) := by
    refine rows_frame ?_ ?_
    · intro k n row hn hrow
      cases k with
      | observedIn a' g i =>
        obtain ⟨p, hp, rfl, -⟩ := observedIn_written.1 hn
        obtain rfl := Option.some.inj hrow
        simp [hobserved p hp]
      | _ => cases hrow
    · intro k hk
      cases k with
      | observedIn a' g i =>
        by_cases ha : a' = a
        · have hread : (factsOf (pre ++ [e])).read (.observedIn a' g i) = (factsOf pre).read (.observedIn a' g i) := by
            apply read_snoc
            intro n hn
            obtain ⟨p, hp, hsame, -⟩ := observedIn_written.1 hn
            exact hobserved p hp (hsame.trans ha)
          simp only [observedRow, claimRow, hread, fileOf_snoc agree hk rfl]
        · simp [observedRow, ha, Option.filter_some]
      | _ => rfl
  show AssertionFacts.mk _ _ = AssertionFacts.mk _ _
  rw [visibleObserved_none, visibleObserved_none, hrows, assertionFact, assertionFact, hfact]

end

end Outside

end Code
