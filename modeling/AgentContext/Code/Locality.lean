import AgentContext.Code.Derive

/-!
# What a derivation reads

The derived state of an entity depends on a few facts only:

    file        the file's own
    symbol      the symbol's, and those of the files of its claims
    assertion   the assertion's, those of its ends, and those of the files of its claims and its target's

`loadFacts` loads all of them (`restrict_*`), so it does not matter what else it was asked for.
-/

namespace Code

variable {isIdentifier : String → Bool} {F F' : Facts}
variable {status status' : Run → Status} {a : String}

/-! ## Statuses -/

section Status

variable {run : Run} {symbols : List String} {claims : List Claim} {claim : Claim} {member : Member}
variable {fact : AssertionFact}

theorem symbolPathBound_congr {x path : String} (h : F.symbol x = F'.symbol x) :
    symbolPathBound isIdentifier F x path = symbolPathBound isIdentifier F' x path := by
  unfold symbolPathBound
  rw [h]

theorem pathMatches_congr (hfile : F.file claim.fileId = F'.file claim.fileId)
    (hsymbols : ∀ x ∈ symbols, F.symbol x = F'.symbol x) :
    pathMatches isIdentifier F symbols claim member = pathMatches isIdentifier F' symbols claim member := by
  have hpath : pathOf F claim.fileId = pathOf F' claim.fileId := by
    funext revisionId run
    unfold pathOf
    rw [hfile]
  have hbound : ∀ claimedAt, (symbols.any fun x => symbolPathBound isIdentifier F x claimedAt) =
      symbols.any fun x => symbolPathBound isIdentifier F' x claimedAt := by
    intro claimedAt
    rw [Bool.eq_iff_iff, List.any_eq_true, List.any_eq_true]
    constructor
    · rintro ⟨x, hx, h⟩
      exact ⟨x, hx, symbolPathBound_congr (hsymbols x hx) ▸ h⟩
    · rintro ⟨x, hx, h⟩
      exact ⟨x, hx, symbolPathBound_congr (hsymbols x hx) ▸ h⟩
  unfold pathMatches
  simp only [hpath, hfile, hbound]

theorem holds_congr (hfile : F.file claim.fileId = F'.file claim.fileId)
    (hsymbols : ∀ x ∈ symbols, F.symbol x = F'.symbol x) :
    holds isIdentifier F run symbols claim = holds isIdentifier F' run symbols claim := by
  unfold holds
  rw [hfile]
  cases (F'.file claim.fileId).member run.key with
  | none => rfl
  | some member => simp only [pathMatches_congr hfile hsymbols]

theorem live_congr (hfiles : ∀ c ∈ claims, F.file c.fileId = F'.file c.fileId)
    (hsymbols : ∀ x ∈ symbols, F.symbol x = F'.symbol x) :
    live isIdentifier F run symbols claims = live isIdentifier F' run symbols claims :=
  List.filter_congr fun c hc => holds_congr (hfiles c hc) hsymbols

theorem fileGone_congr {evidence : Moment} {fileId : String} (h : F.file fileId = F'.file fileId) :
    fileGone F run evidence fileId = fileGone F' run evidence fileId := by
  unfold fileGone
  rw [h]

theorem foldlM_fileGone_congr {files : List String} (h : ∀ f ∈ files, F.file f = F'.file f) (evidence : Moment) :
    files.foldlM (fileGone F run) evidence = files.foldlM (fileGone F' run) evidence := by
  induction files generalizing evidence with
  | nil => rfl
  | cons f files ih =>
    rw [List.foldlM_cons, List.foldlM_cons, fileGone_congr (h f List.mem_cons_self)]
    cases fileGone F' run evidence f with
    | none => rfl
    | some evidence => exact ih (fun f hf => h f (List.mem_cons_of_mem _ hf)) evidence

theorem ownerStatus_congr (hfiles : ∀ c ∈ claims, F.file c.fileId = F'.file c.fileId)
    (hsymbols : ∀ x ∈ symbols, F.symbol x = F'.symbol x) :
    ownerStatus isIdentifier F run symbols claims = ownerStatus isIdentifier F' run symbols claims := by
  have hgone : ∀ evidence, (Keyset.sortedSet (claims.map (·.fileId))).foldlM (fileGone F run) evidence =
      (Keyset.sortedSet (claims.map (·.fileId))).foldlM (fileGone F' run) evidence := by
    refine foldlM_fileGone_congr ?_
    intro f hf
    obtain ⟨c, hc, rfl⟩ := List.mem_map.1 ((Keyset.mem_sortedSet _).1 hf)
    exact hfiles c hc
  unfold ownerStatus
  rw [live_congr hfiles hsymbols, hgone]
  cases hlive : live isIdentifier F' run symbols claims with
  | nil => rfl
  | cons c cs =>
    have hc : c ∈ claims := List.mem_of_mem_filter (hlive ▸ List.mem_cons_self)
    simp only [hfiles c hc]

theorem fileStatus_congr {fileId : String} (h : F.file fileId = F'.file fileId) :
    fileStatus F fileId run = fileStatus F' fileId run := by
  unfold fileStatus
  rw [h]

/-- The facts a symbol's status is read from. -/
structure SameSymbol (F F' : Facts) (x : String) : Prop where
  symbol : F.symbol x = F'.symbol x
  file : ∀ c ∈ (F.symbol x).claims, F.file c.fileId = F'.file c.fileId

theorem symbolPresent_congr {x : String} (h : SameSymbol F F' x) :
    symbolPresent isIdentifier F x run = symbolPresent isIdentifier F' x run := by
  have hsymbols : ∀ y ∈ [x], F.symbol y = F'.symbol y := by
    intro y hy
    rw [List.mem_singleton.1 hy]
    exact h.symbol
  unfold symbolPresent
  simp only [ownerStatus_congr h.file hsymbols, live_congr h.file hsymbols]
  simp only [h.symbol]

/-- The facts an assertion's status is read from. -/
structure SameAssertion (F F' : Facts) (a : String) (fact : AssertionFact) : Prop where
  assertion : F.assertion a = F'.assertion a
  ends : ∀ x ∈ fact.ends, F.symbol x = F'.symbol x
  file : ∀ c ∈ (F.assertion a).claims, F.file c.fileId = F'.file c.fileId
  target : ∀ x, fact.family = .relation → fact.objectId = some x →
    ∀ c ∈ (F.symbol x).claims, F.file c.fileId = F'.file c.fileId

theorem SameAssertion.object {a x : String} (h : SameAssertion F F' a fact) (hfamily : fact.family = .relation)
    (hobject : fact.objectId = some x) : SameSymbol F F' x where
  symbol := h.ends x (by simp [AssertionFact.ends, hfamily, hobject])
  file := h.target x hfamily hobject

theorem assertionStatus_congr (h : SameAssertion F F' a fact) :
    assertionStatus isIdentifier F a fact run = assertionStatus isIdentifier F' a fact run := by
  unfold assertionStatus
  rw [ownerStatus_congr h.file h.ends, h.assertion]
  cases hfamily : fact.family with
  | dependency => rfl
  | relation =>
    cases hobject : fact.objectId with
    | none => rfl
    | some x => simp only [symbolPresent_congr (h.object hfamily hobject)]

end Status

/-! ## Derivations -/

theorem timelineFrom_congr {runs : List Run} (h : ∀ r ∈ runs, status r = status' r) (opened : Option Interval) :
    timelineFrom status opened runs = timelineFrom status' opened runs := by
  induction runs generalizing opened with
  | nil => rfl
  | cons r runs ih =>
    have hrest := fun opened => ih (fun q hq => h q (List.mem_cons_of_mem _ hq)) opened
    unfold timelineFrom
    simp only [h r List.mem_cons_self, hrest]

theorem timeline_congr {runs : List Run} (h : ∀ r ∈ runs, status r = status' r) :
    timeline runs status = timeline runs status' :=
  timelineFrom_congr h none

theorem deriveFile_congr {f : String} (hruns : F.runs = F'.runs) (h : F.file f = F'.file f) :
    deriveFile F f = deriveFile F' f := by
  unfold deriveFile
  rw [hruns]
  exact timeline_congr fun _ _ => fileStatus_congr h

theorem deriveSymbol_congr {x : String} (hruns : F.runs = F'.runs) (h : SameSymbol F F' x) :
    deriveSymbol isIdentifier F x = deriveSymbol isIdentifier F' x := by
  unfold deriveSymbol
  rw [hruns]
  exact timeline_congr fun _ _ => symbolPresent_congr h

theorem deriveAssertion_congr {fact : AssertionFact} (hruns : F.runs = F'.runs) (h : SameAssertion F F' a fact) :
    deriveAssertion isIdentifier F a fact = deriveAssertion isIdentifier F' a fact := by
  unfold deriveAssertion
  rw [hruns, timeline_congr fun _ _ => assertionStatus_congr h]

/-! ## What is loaded -/

section Restrict

variable {s : PropertyGraph.Store Key String Value Moment String} {recordedAt : Option Moment} {w : Wanted}
variable {x : String} {fact : AssertionFact}

theorem loadFacts_runs : (loadFacts s recordedAt w).runs = (allFacts s recordedAt).runs := rfl

theorem loadFacts_file {f : String} (h : f ∈ (w.widen s recordedAt).files) :
    (loadFacts s recordedAt w).file f = (allFacts s recordedAt).file f := if_pos h

theorem loadFacts_symbol (h : x ∈ (w.widen s recordedAt).symbols) :
    (loadFacts s recordedAt w).symbol x = (allFacts s recordedAt).symbol x := if_pos h

theorem loadFacts_assertion (h : a ∈ w.assertions) :
    (loadFacts s recordedAt w).assertion a = (allFacts s recordedAt).assertion a := if_pos h

theorem mem_widen_file {f : String} (h : f ∈ w.files) : f ∈ (w.widen s recordedAt).files :=
  List.mem_append_left _ (List.mem_append_left _ h)

theorem mem_widen_symbol (h : x ∈ w.symbols) : x ∈ (w.widen s recordedAt).symbols := List.mem_append_left _ h

theorem loadFacts_sameSymbol (h : x ∈ (w.widen s recordedAt).symbols) :
    SameSymbol (loadFacts s recordedAt w) (allFacts s recordedAt) x where
  symbol := loadFacts_symbol h
  file := by
    intro c hc
    rw [loadFacts_symbol h] at hc
    refine loadFacts_file (List.mem_append_right _ ?_)
    exact List.mem_flatMap.2 ⟨x, h, List.mem_map.2 ⟨c, hc, rfl⟩⟩

theorem mem_widen_end {a x : String} (h : a ∈ w.assertions)
    (hfact : ((allFacts s recordedAt).assertion a).fact = some fact) (hx : x ∈ fact.ends) :
    x ∈ (w.widen s recordedAt).symbols := by
  refine List.mem_append_right _ (List.mem_flatMap.2 ⟨a, h, ?_⟩)
  rw [hfact]
  exact hx

theorem loadFacts_sameAssertion (h : a ∈ w.assertions)
    (hfact : ((allFacts s recordedAt).assertion a).fact = some fact) :
    SameAssertion (loadFacts s recordedAt w) (allFacts s recordedAt) a fact where
  assertion := loadFacts_assertion h
  ends := fun x hx => loadFacts_symbol (mem_widen_end h hfact hx)
  file := by
    intro c hc
    rw [loadFacts_assertion h] at hc
    refine loadFacts_file (List.mem_append_left _ (List.mem_append_right _ ?_))
    exact List.mem_flatMap.2 ⟨a, h, List.mem_map.2 ⟨c, hc, rfl⟩⟩
  target := by
    intro x hfamily hobject
    have hx : x ∈ fact.ends := by simp [AssertionFact.ends, hfamily, hobject]
    exact (loadFacts_sameSymbol (mem_widen_end h hfact hx)).file

end Restrict

end Code
