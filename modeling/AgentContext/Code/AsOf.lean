import AgentContext.Code.Locality
import AgentContext.Code.Project
import AgentContext.Code.Rows
import AgentContext.Code.Writes

/-!
# As of a transaction time

`entity_as_of` at a `recorded_at` derives from the facts that were observed by then.  It is a rollback, the answer of
the graph that holds the earlier events alone, where the events observed later leave alone what the earlier ones
have merged:

    the time of a run or of a claim that is already there is not lowered
    no SCIP symbol, object or declared end is added to what is already there

    as_of_rollback      no later event leaks   →   the as-of answer is the answer of the graph of the earlier events
-/

namespace Code

open PropertyGraph Keyset List

variable {es : List Event} {e : Event} {k : Key} {n : Entry} {recordedAt : Option Moment}

/-! ## The rows of a history are keyed -/

theorem orderOf_factsOf (agree : Agreeing es) (he : e ∈ es) (hn : (k, n) ∈ factWrites e) {o : EventOrder}
    (hv : n.fills "event_order" = some (.order o)) : orderOf ((factsOf es).read k) = o := by
  unfold orderOf
  rw [fills_factsOf agree he hn hv]
  rfl

theorem completed_order (agree : Agreeing es) {run : RunKey} {eventId : String}
    (hk : Key.completed run eventId ∈ (factsOf es).keys) :
    (ofLex (orderOf ((factsOf es).read (.completed run eventId)))).2 = eventId := by
  obtain ⟨e, he, n, hn⟩ := mem_keys_factsOf.1 hk
  obtain ⟨p, hp, heq⟩ := completed_written.1 hn
  obtain ⟨hkey, rfl⟩ := Prod.mk.inj heq
  obtain ⟨-, rfl⟩ := Key.completed.inj hkey
  rw [orderOf_factsOf agree he hn rfl]
  rfl

theorem coveredIn_order (agree : Agreeing es) {g : String} {run : RunKey} {eventId : String}
    (hk : Key.coveredIn g run eventId ∈ (factsOf es).keys) :
    (ofLex (orderOf ((factsOf es).read (.coveredIn g run eventId)))).2 = eventId := by
  obtain ⟨e, he, n, hn⟩ := mem_keys_factsOf.1 hk
  obtain ⟨p, hp, -, -, rfl, rfl⟩ := coveredIn_written.1 hn
  rw [orderOf_factsOf agree he hn rfl]
  rfl

theorem visibleRuns_nodup : (visibleRuns (factsOf es) recordedAt).Nodup := by
  unfold visibleRuns
  refine List.Nodup.filter _ (List.Nodup.filterMap ?_ Store.nodup_written)
  intro k k' row hk hk'
  rw [runRow_key hk, runRow_key hk']

theorem keyedRows_factsOf (agree : Agreeing es) : KeyedRows (factsOf es) recordedAt where
  runs := by
    intro a ha b hb hab
    obtain ⟨k, -, hk⟩ := mem_filterMap.1 (mem_of_mem_filter ha)
    obtain ⟨k', -, hk'⟩ := mem_filterMap.1 (mem_of_mem_filter hb)
    obtain rfl := runRow_key hk
    obtain rfl := runRow_key hk'
    rw [hab] at hk
    exact Option.some.inj (hk.symm.trans hk')
  nodup := visibleRuns_nodup
  outcomes := by
    intro a ha b hb hrun horder
    obtain ⟨k, hmem, hk⟩ := mem_filterMap.1 (mem_of_mem_filter ha)
    obtain ⟨k', hmem', hk'⟩ := mem_filterMap.1 (mem_of_mem_filter hb)
    obtain ⟨id, rfl⟩ := outcomeRow_key hk
    obtain ⟨id', rfl⟩ := outcomeRow_key hk'
    have hid : id = id' := by
      have ha : a.eventOrder = orderOf ((factsOf es).read (.completed a.run id)) := by
        exact congrArg OutcomeRow.eventOrder (Option.some.inj hk).symm
      have hb : b.eventOrder = orderOf ((factsOf es).read (.completed b.run id')) := by
        exact congrArg OutcomeRow.eventOrder (Option.some.inj hk').symm
      rw [← completed_order agree hmem, ← completed_order agree hmem', ← ha, ← hb, horder]
    rw [hrun, hid] at hk
    exact Option.some.inj (hk.symm.trans hk')
  members := by
    intro a ha b hb hrun hrevision
    obtain ⟨k, -, hk⟩ := mem_filterMap.1 (mem_of_mem_filter ha)
    obtain ⟨k', -, hk'⟩ := mem_filterMap.1 (mem_of_mem_filter hb)
    obtain rfl := memberRow_key hk
    obtain rfl := memberRow_key hk'
    rw [hrun, hrevision] at hk
    exact Option.some.inj (hk.symm.trans hk')
  coverage := by
    intro a ha b hb hrun hrevision horder
    obtain ⟨k, hmem, hk⟩ := mem_filterMap.1 (mem_of_mem_filter ha)
    obtain ⟨k', hmem', hk'⟩ := mem_filterMap.1 (mem_of_mem_filter hb)
    obtain ⟨id, rfl⟩ := coverageRow_key hk
    obtain ⟨id', rfl⟩ := coverageRow_key hk'
    have hid : id = id' := by
      have ha : a.eventOrder = orderOf ((factsOf es).read (.coveredIn a.revisionId a.run id)) := by
        exact congrArg CoverageRow.eventOrder (Option.some.inj hk).symm
      have hb : b.eventOrder = orderOf ((factsOf es).read (.coveredIn b.revisionId b.run id')) := by
        exact congrArg CoverageRow.eventOrder (Option.some.inj hk').symm
      rw [← coveredIn_order agree hmem, ← coveredIn_order agree hmem', ← ha, ← hb, horder]
    rw [hrun, hrevision, hid] at hk
    exact Option.some.inj (hk.symm.trans hk')

/-! ## The events observed by a time -/

/-- The events observed by `r`. -/
def observedBy (r : Moment) (es : List Event) : List Event := es.filter (·.observedAt ≤ r)

/-- What the graph knew by `r`. -/
abbrev factsBy (r : Moment) (es : List Event) : FactStore := factsOf (observedBy r es)

theorem mem_observedBy {r : Moment} : e ∈ observedBy r es ↔ e ∈ es ∧ e.observedAt ≤ r := by simp [observedBy]

/-- The events that are observed after `r` change nothing that the derivation reads of what was there by `r`. -/
structure NoLeak (es : List Event) (r : Moment) : Prop where
  run : ∀ e ∈ es, ∀ e₀ ∈ observedBy r es, e.run.isSome → e₀.run = e.run →
    ∃ e₁ ∈ observedBy r es, e₁.run = e.run ∧ e₁.occurredAt ≤ e.occurredAt
  claim : ∀ e ∈ es, ∀ e₀ ∈ observedBy r es, e.claimKey.isSome → e₀.claimKey = e.claimKey →
    ∃ e₁ ∈ observedBy r es, e₁.claimKey = e.claimKey ∧ e₁.occurredAt ≤ e.occurredAt
  scip : ∀ e ∈ es, ∀ e₀ ∈ observedBy r es, e.scipSymbol.isSome → e₀.symbolRevision = e.symbolRevision →
    ∃ e₁ ∈ observedBy r es, e₁.symbolRevision = e.symbolRevision ∧ e₁.scipSymbol.isSome
  object : ∀ e ∈ es, ∀ e₀ ∈ observedBy r es, e.objectId.isSome → e₀.assertion = e.assertion →
    ∃ e₁ ∈ observedBy r es, e₁.assertion = e.assertion ∧ e₁.objectId.isSome
  bound : ∀ e ∈ es, ∀ e₀ ∈ observedBy r es, e.validTo.isSome → e₀.assertion = e.assertion →
    ∃ e₁ ∈ observedBy r es, e₁.assertion = e.assertion ∧ e₁.validTo.isSome

section Early

variable {r : Moment}
variable {p : String}

theorem early_writes_subset : ∀ w ∈ (observedBy r es).flatMap factWrites, w ∈ es.flatMap factWrites := by
  intro w hw
  obtain ⟨e, he, hw⟩ := mem_writes.1 hw
  exact mem_writes.2 ⟨e, (mem_observedBy.1 he).1, hw⟩

theorem early_keys_subset (hk : k ∈ (factsBy r es).keys) : k ∈ (factsOf es).keys := by
  obtain ⟨e, he, n, hn⟩ := mem_keys_factsOf.1 hk
  exact mem_keys_factsOf.2 ⟨e, (mem_observedBy.1 he).1, n, hn⟩

/-- What an early event fills is what the graph of all events holds. -/
theorem fills_early (agree : Agreeing es) (hcover : ∀ e ∈ es, ∀ n v, (k, n) ∈ factWrites e → n.fills p = some v →
      ∃ e₁ ∈ observedBy r es, ∃ n₁ v₁, (k, n₁) ∈ factWrites e₁ ∧ n₁.fills p = some v₁) :
    ((factsBy r es).read k).fills p = ((factsOf es).read k).fills p := by
  refine Store.fills_eq_of_covered agree early_writes_subset ?_
  intro n v hn hv
  obtain ⟨e, he, hn⟩ := mem_writes.1 hn
  obtain ⟨e₁, he₁, n₁, v₁, hn₁, hv₁⟩ := hcover e he n v hn hv
  exact ⟨n₁, v₁, mem_writes.2 ⟨e₁, he₁, hn₁⟩, hv₁⟩

theorem fills_early_of_filled (agree : Agreeing es) {v : Value} (he : e ∈ observedBy r es)
    (hn : (k, n) ∈ factWrites e) (hv : n.fills p = some v) :
    ((factsBy r es).read k).fills p = ((factsOf es).read k).fills p :=
  fills_early agree fun _ _ _ _ _ _ => ⟨e, he, n, v, hn, hv⟩

theorem least_early (hcover : ∀ e ∈ es, ∀ n t, (k, n) ∈ factWrites e → n.least p = some t →
      ∃ e₁ ∈ observedBy r es, ∃ n₁ t₁, (k, n₁) ∈ factWrites e₁ ∧ n₁.least p = some t₁ ∧ t₁ ≤ t) :
    ((factsBy r es).read k).least p = ((factsOf es).read k).least p := by
  refine Store.least_eq_of_covered early_writes_subset ?_
  intro n t hn ht
  obtain ⟨e, he, hn⟩ := mem_writes.1 hn
  obtain ⟨e₁, he₁, n₁, t₁, hn₁, ht₁, hle⟩ := hcover e he n t hn ht
  exact ⟨n₁, t₁, mem_writes.2 ⟨e₁, he₁, hn₁⟩, ht₁, hle⟩

/-- The statements of a key state when the event was observed. -/
def Observes (k : Key) (p : String) : Prop := ∀ e n, (k, n) ∈ factWrites e → n.least p = some e.observedAt

theorem observed_early (h : Observes k p) (hk : k ∈ (factsBy r es).keys) :
    momentOf ((factsBy r es).read k) p = momentOf ((factsOf es).read k) p := by
  obtain ⟨e₀, he₀, n₀, hn₀⟩ := mem_keys_factsOf.1 hk
  unfold momentOf
  rw [least_early]
  intro e he n t hn ht
  obtain rfl : e.observedAt = t := Option.some.inj ((h e n hn).symm.trans ht)
  by_cases hr : e.observedAt ≤ r
  · exact ⟨e, mem_observedBy.2 ⟨he, hr⟩, n, _, hn, ht, le_refl _⟩
  · exact ⟨e₀, he₀, n₀, _, hn₀, h e₀ n₀ hn₀, le_trans (mem_observedBy.1 he₀).2 (le_of_not_ge hr)⟩

/-- A relationship was observed by `r` where an early event writes it. -/
theorem observed_le_iff (h : Observes k p) (hk : k ∈ (factsOf es).keys) :
    momentOf ((factsOf es).read k) p ≤ r ↔ k ∈ (factsBy r es).keys := by
  obtain ⟨⟨e₁, he₁, ⟨n₁, hn₁⟩, hmin⟩, hle⟩ := momentOf_factsOf (W := fun e => ∃ n, (k, n) ∈ factWrites e)
    (f := (·.observedAt)) (fun e n hn => ⟨⟨n, hn⟩, h e n hn⟩) (fun _ hw => hw) (mem_keys_factsOf.1 hk)
  constructor
  · intro hr
    rw [hmin] at hr
    exact mem_keys_factsOf.2 ⟨e₁, mem_observedBy.2 ⟨he₁, hr⟩, n₁, hn₁⟩
  · intro hearly
    obtain ⟨e, he, n, hn⟩ := mem_keys_factsOf.1 hearly
    exact le_trans (hle e (mem_observedBy.1 he).1 ⟨n, hn⟩) (mem_observedBy.1 he).2

/-! ## Rows of the early events -/

section Rows

variable {run : RunKey} {a : String}
variable {fact : AssertionFact}

theorem indexed_observes : Observes (.indexed run) "observed_at" := by
  intro e n hn
  rw [(indexed_written.1 hn).2]
  rfl

theorem memberOf_observes {g : String} : Observes (.memberOf g run) "observed_at" := by
  intro e n hn
  obtain ⟨p, -, -, -, rfl⟩ := memberOf_written.1 hn
  rfl

theorem coveredIn_observes {g eventId : String} : Observes (.coveredIn g run eventId) "observed_at" := by
  intro e n hn
  obtain ⟨p, -, -, -, -, rfl⟩ := coveredIn_written.1 hn
  rfl

theorem claim_observes {c : Claim} {s : FactStore} (hc : claimOf s k = some c) : Observes k "observed_at" := by
  intro e n hn
  cases k with
  | definedIn sr g i =>
    obtain ⟨p, -, -, -, -, rfl⟩ := definedIn_written.1 hn
    rfl
  | observedIn a g i =>
    obtain ⟨p, -, -, -, -, rfl⟩ := observedIn_written.1 hn
    rfl
  | _ => cases hc

/-- A query shows the same rows at `r` as over the graph of the early events. -/
theorem rows_early {ρ : Type} (row : FactStore → Key → Option ρ) (observedAt : ρ → Moment)
    (hearly : ∀ k ∈ (factsBy r es).keys, row (factsBy r es) k = row (factsOf es) k)
    (hseen : ∀ k ∈ (factsOf es).keys, ∀ x, row (factsOf es) k = some x →
      (observedAt x ≤ r ↔ k ∈ (factsBy r es).keys)) (x : ρ) :
    x ∈ ((factsOf es).keys.filterMap (row (factsOf es))).filter (seen (some r) <| observedAt ·) ↔
      x ∈ ((factsBy r es).keys.filterMap (row (factsBy r es))).filter
        (seen none <| observedAt ·) := by
  rw [mem_filter, mem_filter, mem_filterMap, mem_filterMap]
  constructor
  · rintro ⟨⟨k, hk, hx⟩, hr⟩
    have hr : observedAt x ≤ r := by simpa [seen] using hr
    have hkey := (hseen k hk x hx).1 hr
    exact ⟨⟨k, hkey, (hearly k hkey).trans hx⟩, rfl⟩
  · rintro ⟨⟨k, hk, hx⟩, -⟩
    rw [hearly k hk] at hx
    have hkey := early_keys_subset hk
    refine ⟨⟨k, hkey, hx⟩, ?_⟩
    simpa [seen] using (hseen k hkey x hx).2 hk

theorem runRow_early (noLeak : NoLeak es r) (hk : k ∈ (factsBy r es).keys) :
    runRow (factsBy r es) k = runRow (factsOf es) k := by
  cases k with
  | indexed run =>
    have hoccurred : ((factsBy r es).read (.indexed run)).least "occurred_at" =
        ((factsOf es).read (.indexed run)).least "occurred_at" := by
      obtain ⟨e₀, he₀, n₀, hn₀⟩ := mem_keys_factsOf.1 hk
      refine least_early ?_
      intro e he n t hn ht
      obtain ⟨hrun, rfl⟩ := indexed_written.1 hn
      obtain ⟨hrun₀, -⟩ := indexed_written.1 hn₀
      obtain ⟨e₁, he₁, hrun₁, hle⟩ := noLeak.run e he e₀ he₀ (by rw [hrun]; rfl) (hrun₀.trans hrun.symm)
      refine ⟨e₁, he₁, _, _, indexed_written.2 ⟨hrun₁.trans hrun, rfl⟩, rfl, ?_⟩
      obtain rfl : e.occurredAt = t := Option.some.inj ht
      exact hle
    have hobserved := observed_early indexed_observes hk
    show some _ = some _
    simp only [momentOf] at hobserved ⊢
    rw [hoccurred, hobserved]
  | _ => rfl

def DistinctIds (es : List Event) : Prop := ∀ e ∈ es, ∀ e' ∈ es, e.eventId = e'.eventId → e = e'

instance (es : List Event) : Decidable (DistinctIds es) :=
  inferInstanceAs (Decidable (∀ e ∈ es, ∀ e' ∈ es, e.eventId = e'.eventId → e = e'))

section

variable (agree : Agreeing es)
include agree

theorem outcomeRow_early (ids : DistinctIds es) (hk : k ∈ (factsBy r es).keys) :
    outcomeRow (factsBy r es) k = outcomeRow (factsOf es) k := by
  cases k with
  | completed run eventId =>
    -- the one event that writes the relationship is an early one
    obtain ⟨e₀, he₀, n₀, hn₀⟩ := mem_keys_factsOf.1 hk
    have hid : ∀ e n, (Key.completed run eventId, n) ∈ factWrites e → e.eventId = eventId := by
      intro e n hn
      obtain ⟨p, -, heq⟩ := completed_written.1 hn
      exact (Key.completed.inj (congrArg Prod.fst heq)).2.symm
    have hfills : ∀ p, ((factsBy r es).read (.completed run eventId)).fills p =
        ((factsOf es).read (.completed run eventId)).fills p := by
      intro p
      refine fills_early agree ?_
      intro e he n v hn hv
      obtain rfl := ids e he e₀ (mem_observedBy.1 he₀).1 ((hid e n hn).trans (hid e₀ n₀ hn₀).symm)
      exact ⟨e, he₀, n, v, hn, hv⟩
    simp only [outcomeRow, textOf, orderOf, hfills]
  | _ => rfl

theorem outcome_observed (ids : DistinctIds es) (hk : k ∈ (factsOf es).keys) {row : OutcomeRow}
    (hrow : outcomeRow (factsOf es) k = some row) :
    row.observedAt ≤ r ↔ k ∈ (factsBy r es).keys := by
  obtain ⟨eventId, rfl⟩ := outcomeRow_key hrow
  obtain ⟨e, he, n, hn⟩ := mem_keys_factsOf.1 hk
  obtain ⟨p, hp, heq⟩ := completed_written.1 hn
  obtain ⟨hkey, rfl⟩ := Prod.mk.inj heq
  obtain ⟨-, hid⟩ := Key.completed.inj hkey
  have hobserved : row.observedAt = e.observedAt := by
    rw [← Option.some.inj hrow]
    show (textOf _ "observed_at").getD "" = _
    rw [textOf_factsOf agree he hn rfl]
    rfl
  rw [hobserved]
  constructor
  · intro hr
    exact mem_keys_factsOf.2 ⟨e, mem_observedBy.2 ⟨he, hr⟩, _, hn⟩
  · intro hearly
    obtain ⟨e', he', n', hn'⟩ := mem_keys_factsOf.1 hearly
    obtain ⟨p', -, heq'⟩ := completed_written.1 hn'
    have hid' := (Key.completed.inj (congrArg Prod.fst heq')).2
    obtain rfl := ids e he e' (mem_observedBy.1 he').1 (hid.symm.trans hid')
    exact (mem_observedBy.1 he').2

theorem fileOf_early (he : e ∈ observedBy r es) {g f : String}
    (h : e.fileRevision = some (g, f)) : fileOf (factsBy r es) g = fileOf (factsOf es) g := by
  rw [fileOf_factsOf agree (mem_observedBy.1 he).1 h,
    fileOf_factsOf (agree.of_subset fun e he => (mem_observedBy.1 he).1) he h]

theorem memberRow_early (hk : k ∈ (factsBy r es).keys) :
    memberRow (factsBy r es) k = memberRow (factsOf es) k := by
  cases k with
  | memberOf g run =>
    obtain ⟨e₀, he₀, n₀, hn₀⟩ := mem_keys_factsOf.1 hk
    have hn := hn₀
    obtain ⟨p₀, hp₀, hg, -, rfl⟩ := memberOf_written.1 hn
    have hpath := fills_early_of_filled (p := "path") agree he₀ hn₀ rfl
    have hmodule := fills_early_of_filled (p := "module_id") agree he₀ hn₀ rfl
    have hfile : fileOf (factsBy r es) g = fileOf (factsOf es) g :=
      fileOf_early agree he₀ (by rw [Event.fileRevision, hp₀, ← hg])
    have hobserved := observed_early memberOf_observes hk
    simp only [memberRow, textOf, hpath, hmodule, hfile, hobserved]
  | _ => rfl

theorem coverageRow_early (hk : k ∈ (factsBy r es).keys) :
    coverageRow (factsBy r es) k = coverageRow (factsOf es) k := by
  cases k with
  | coveredIn g run eventId =>
    obtain ⟨e₀, he₀, n₀, hn₀⟩ := mem_keys_factsOf.1 hk
    have hn := hn₀
    obtain ⟨p₀, hp₀, hg, -, -, rfl⟩ := coveredIn_written.1 hn
    have hcomplete := fills_early_of_filled (p := "complete") agree he₀ hn₀ rfl
    have horder := fills_early_of_filled (p := "event_order") agree he₀ hn₀ rfl
    have hfile : fileOf (factsBy r es) g = fileOf (factsOf es) g :=
      fileOf_early agree he₀ (by rw [Event.fileRevision, hp₀, ← hg])
    have hobserved := observed_early coveredIn_observes hk
    simp only [coverageRow, orderOf, hcomplete, horder, hfile, hobserved]
  | _ => rfl

theorem claimRow_early (noLeak : NoLeak es r) (he : e ∈ observedBy r es)
    (hk : e.claimKey = some k) {g i f : String} (hfile : e.fileRevision = some (g, f)) :
    claimRow (factsBy r es) k g i = claimRow (factsOf es) k g i := by
  have agree' : Agreeing (observedBy r es) := agree.of_subset fun e he => (mem_observedBy.1 he).1
  obtain ⟨item, g', c, -, hitem, hc, -, hkeys⟩ := claimKey_of_event agree' he hk
  have hsince : momentOf ((factsBy r es).read k) "occurred_at" =
      momentOf ((factsOf es).read k) "occurred_at" := by
    unfold momentOf
    rw [least_early]
    intro e' he' n t hn ht
    obtain ⟨hk', rfl⟩ := (claimKey_written hitem).1 hn
    obtain ⟨e₁, he₁, hk₁, hle⟩ := noLeak.claim e' he' e he (by rw [hk']; rfl) (hk.trans hk'.symm)
    refine ⟨e₁, he₁, _, _, (claimKey_written hitem).2 ⟨hk₁.trans hk', rfl⟩, rfl, ?_⟩
    obtain rfl : e'.occurredAt = t := Option.some.inj ht
    exact hle
  have htarget : textOf ((factsBy r es).read k) "claim_target" =
      textOf ((factsOf es).read k) "claim_target" := by
    unfold textOf
    rw [fills_early_of_filled agree he ((claimKey_written hitem).2 ⟨hk, rfl⟩) rfl]
  have hobserved := observed_early (claim_observes hc) hkeys
  simp only [claimRow, fileOf_early agree he hfile, hsince, htarget, hobserved]

section

variable (noLeak : NoLeak es r) (hk : k ∈ (factsBy r es).keys)
include noLeak hk

theorem defRow_early : defRow (factsBy r es) k = defRow (factsOf es) k := by
  cases k with
  | definedIn sr g i =>
    obtain ⟨e₀, he₀, n₀, hn₀⟩ := mem_keys_factsOf.1 hk
    obtain ⟨p₀, hp₀, rfl, rfl, rfl, -⟩ := definedIn_written.1 hn₀
    have hclaim := claimRow_early (i := p₀.indexId) agree noLeak he₀ (by rw [Event.claimKey, hp₀])
      (by rw [Event.fileRevision, hp₀])
    obtain ⟨n, hn, hsymbol, -⟩ := exists_symbolRevision_written hp₀
    have hsymbol := fills_early_of_filled agree he₀ hn hsymbol
    have hscip : ((factsBy r es).read (.symbolRevision p₀.symbolRevisionId)).fills "scip_symbol" =
        ((factsOf es).read (.symbolRevision p₀.symbolRevisionId)).fills "scip_symbol" := by
      refine fills_early agree ?_
      intro e he n v hn hv
      obtain ⟨p, hp, hsr, -, hscip⟩ := symbolRevision_written hn
      have hsome : p.scipSymbol.isSome := by
        cases hs : p.scipSymbol with
        | none => rw [hscip, hs] at hv; cases hv
        | some _ => rfl
      obtain ⟨e₁, he₁, hsr₁, hsome₁⟩ := noLeak.scip e he e₀ he₀ (by rw [Event.scipSymbol, hp]; exact hsome)
        (by simp only [Event.symbolRevision, hp, hp₀, hsr])
      obtain ⟨p₁, hp₁, hsr₁, hsome₁⟩ : ∃ p₁, e₁.payload = .symbolIndexed p₁ ∧
          p₁.symbolRevisionId = p.symbolRevisionId ∧ p₁.scipSymbol.isSome := by
        revert hsr₁ hsome₁
        cases hp₁ : e₁.payload <;> simp [Event.scipSymbol, Event.symbolRevision, hp, hp₁]
        exact And.intro
      obtain ⟨n₁, hn₁, -, hscip₁⟩ := exists_symbolRevision_written hp₁
      obtain ⟨scip, hscip⟩ := Option.isSome_iff_exists.1 hsome₁
      rw [hsr₁, hsr] at hn₁
      exact ⟨e₁, he₁, n₁, .text scip, hn₁, by rw [hscip₁, hscip]; rfl⟩
    simp only [defRow, textOf, hclaim, hsymbol, hscip]
  | _ => rfl

theorem observedRow_early : observedRow (factsBy r es) k = observedRow (factsOf es) k := by
  cases k with
  | observedIn a g i =>
    obtain ⟨e₀, he₀, n₀, hn₀⟩ := mem_keys_factsOf.1 hk
    obtain ⟨p₀, hp₀, rfl, rfl, rfl, -⟩ := observedIn_written.1 hn₀
    have hclaim := claimRow_early (i := p₀.indexId) agree noLeak he₀ (by rw [Event.claimKey, hp₀])
      (by rw [Event.fileRevision, hp₀])
    simp only [observedRow, hclaim]
  | _ => rfl

theorem claimOf_early : claimOf (factsBy r es) k = claimOf (factsOf es) k := by
  cases k with
  | definedIn sr g i =>
    have h := congrArg (Option.map (·.toClaim)) (defRow_early agree noLeak hk)
    exact h
  | observedIn a g i =>
    have h := congrArg (Option.map (·.toClaim)) (observedRow_early agree noLeak hk)
    exact h
  | _ => rfl

end

/-! ## Assertions of the early events -/

/-- An assertion's node holds what an event asserted. -/
theorem assertionFact_isSome :
    (assertionFact (factsOf es) a).isSome ↔ ∃ e ∈ es, ∃ fact, e.states = some (a, fact) := by
  constructor
  · intro h
    obtain ⟨fact, hfact⟩ := Option.isSome_iff_exists.1 h
    obtain ⟨validFrom, hvalid, -⟩ := Option.map_eq_some_iff.1 hfact
    obtain ⟨v, hv, -⟩ := Option.bind_eq_some_iff.1 hvalid
    obtain ⟨e, he, n, hn, hv⟩ := exists_of_fills hv
    rcases assertion_cases hn with ⟨fact, hstates, -⟩ | ⟨-, hnone, -⟩
    · exact ⟨e, he, fact, hstates⟩
    · rw [hnone _ (by decide)] at hv
      cases hv
  · rintro ⟨e, he, fact, hstates⟩
    obtain ⟨n, hn, hwrites⟩ := exists_assertion_written hstates
    unfold assertionFact
    rw [Option.isSome_map, textOf_factsOf agree he hn hwrites.validFrom]
    rfl

end

theorem recorded_of_written {t : Moment} (hn : (Key.assertion a, n) ∈ factWrites e)
    (ht : n.least "recorded_from" = some t) : e.observedAt = t ∧ ∃ fact, e.states = some (a, fact) := by
  rcases assertion_cases hn with ⟨fact, hstates, hwrites⟩ | ⟨-, -, hnone⟩
  · have hobserved : fact.observedAt = e.observedAt := by
      revert hstates
      cases hp : e.payload <;> simp only [Event.states, hp, Option.some.injEq, Prod.mk.injEq, reduceCtorEq,
        false_implies] <;> rintro ⟨rfl, rfl⟩ <;> rfl
    exact ⟨Option.some.inj ((hobserved ▸ hwrites.recordedFrom).symm.trans ht), fact, hstates⟩
  · rw [hnone] at ht
    cases ht

section

variable (agree : Agreeing es)
include agree

/-- An optional property of an assertion, where later events do not add it. -/
theorem optional_early {a p : String} {f : AssertionFact → Option String} (hp : p ≠ "family")
    (hfills : ∀ n fact, WritesFact n fact → n.fills p = (f fact).map .text)
    (hcover : ∀ e ∈ es, e.assertion = some a → (e.states.bind (f ·.2)).isSome →
      ∃ e₁ ∈ observedBy r es, e₁.assertion = some a ∧ (e₁.states.bind (f ·.2)).isSome) :
    ((factsBy r es).read (.assertion a)).fills p = ((factsOf es).read (.assertion a)).fills p := by
  refine fills_early agree ?_
  intro e he n v hn hv
  rcases assertion_cases hn with ⟨fact, hstates, hwrites⟩ | ⟨-, hnone, -⟩
  · have hsome : (f fact).isSome := by
      rw [hfills n fact hwrites] at hv
      cases hf : f fact with
      | none => rw [hf] at hv; cases hv
      | some _ => rfl
    obtain ⟨e₁, he₁, hassertion₁, hsome₁⟩ := hcover e he (by rw [Event.assertion, hstates]; rfl)
      (by rw [hstates]; exact hsome)
    obtain ⟨fact₁, hstates₁, hsome₁⟩ : ∃ fact₁, e₁.states = some (a, fact₁) ∧ (f fact₁).isSome := by
      obtain ⟨⟨a', fact₁⟩, hstates₁, rfl⟩ := Option.map_eq_some_iff.1 hassertion₁
      rw [hstates₁] at hsome₁
      exact ⟨fact₁, hstates₁, hsome₁⟩
    obtain ⟨n₁, hn₁, hwrites₁⟩ := exists_assertion_written hstates₁
    obtain ⟨o, ho⟩ := Option.isSome_iff_exists.1 hsome₁
    exact ⟨e₁, he₁, n₁, .text o, hn₁, by rw [hfills n₁ fact₁ hwrites₁, ho]; rfl⟩
  · rw [hnone p hp] at hv
    cases hv

theorem assertionFact_early (noLeak : NoLeak es r) (he : e ∈ observedBy r es)
    (hstates : e.states = some (a, fact)) :
    assertionFact (factsBy r es) a = assertionFact (factsOf es) a := by
  obtain ⟨n, hn, hwrites⟩ := exists_assertion_written hstates
  have hfamily := fills_early_of_filled agree he hn hwrites.family
  have hsubject := fills_early_of_filled agree he hn hwrites.subjectId
  have hpredicate := fills_early_of_filled agree he hn hwrites.predicate
  have hvalidFrom := fills_early_of_filled agree he hn hwrites.validFrom
  have hassertion : e.assertion = some a := by rw [Event.assertion, hstates]; rfl
  have hobject : ((factsBy r es).read (.assertion a)).fills "object_id" =
      ((factsOf es).read (.assertion a)).fills "object_id" :=
    optional_early agree (by decide) (fun _ _ h => h.objectId) fun e' he' ha' hsome =>
      ha' ▸ noLeak.object e' he' e he hsome (hassertion.trans ha'.symm)
  have hbound : ((factsBy r es).read (.assertion a)).fills "asserted_valid_to" =
      ((factsOf es).read (.assertion a)).fills "asserted_valid_to" :=
    optional_early agree (by decide) (fun _ _ h => h.validTo) fun e' he' ha' hsome =>
      ha' ▸ noLeak.bound e' he' e he hsome (hassertion.trans ha'.symm)
  have hrecorded : ((factsBy r es).read (.assertion a)).least "recorded_from" =
      ((factsOf es).read (.assertion a)).least "recorded_from" := by
    refine least_early ?_
    intro e' he' n' t hn' ht
    obtain ⟨hobserved, -⟩ := recorded_of_written hn' ht
    by_cases hr : e'.observedAt ≤ r
    · exact ⟨e', mem_observedBy.2 ⟨he', hr⟩, n', t, hn', ht, le_refl _⟩
    · obtain ⟨hobserved₀, -⟩ := recorded_of_written hn hwrites.recordedFrom
      refine ⟨e, he, n, _, hn, hwrites.recordedFrom, ?_⟩
      rw [← hobserved₀, ← hobserved]
      exact le_trans (mem_observedBy.1 he).2 (le_of_not_ge hr)
  simp only [assertionFact, textOf, momentOf, hfamily, hsubject, hpredicate, hvalidFrom, hobject, hbound, hrecorded]

/-- An assertion is recorded by `r` where an early event asserts it. -/
theorem assertion_observed (hfact : assertionFact (factsOf es) a = some fact) :
    fact.observedAt ≤ r ↔ ∃ e ∈ observedBy r es, ∃ fact, e.states = some (a, fact) := by
  have hleast : momentOf ((factsOf es).read (.assertion a)) "recorded_from" = fact.observedAt := by
    obtain ⟨validFrom, -, heq⟩ := Option.map_eq_some_iff.1 hfact
    exact congrArg AssertionFact.observedAt heq
  obtain ⟨e₀, he₀, fact₀, hstates₀⟩ := (assertionFact_isSome agree).1 (by rw [hfact]; rfl)
  cases hrecorded : ((factsOf es).read (.assertion a)).least "recorded_from" with
  | none =>
    obtain ⟨n₀, hn₀, hwrites₀⟩ := exists_assertion_written hstates₀
    exact absurd hwrites₀.recordedFrom (Store.unstated hrecorded (mem_writes.2 ⟨e₀, he₀, hn₀⟩))
  | some t =>
    have ht : fact.observedAt = t := by
      rw [← hleast, momentOf, hrecorded]
      rfl
    obtain ⟨⟨n, hn, hstated⟩, hle⟩ := Store.least_written.1 hrecorded
    rw [ht]
    constructor
    · intro hr
      obtain ⟨e, he, hn⟩ := mem_writes.1 hn
      obtain ⟨hobserved, fact, hstates⟩ := recorded_of_written hn hstated
      exact ⟨e, mem_observedBy.2 ⟨he, hobserved ▸ hr⟩, fact, hstates⟩
    · rintro ⟨e, he, fact', hstates⟩
      obtain ⟨n, hn, hwrites⟩ := exists_assertion_written hstates
      obtain ⟨hobserved, -⟩ := recorded_of_written hn hwrites.recordedFrom
      have hmin := hle n _ (mem_writes.2 ⟨e, (mem_observedBy.1 he).1, hn⟩) hwrites.recordedFrom
      rw [← hobserved] at hmin
      exact le_trans hmin (mem_observedBy.1 he).2

theorem assertions_early (noLeak : NoLeak es r) (a : String) :
    (assertionFact (factsOf es) a).filter (seen (some r) ·.observedAt) =
      (assertionFact (factsBy r es) a).filter (seen none ·.observedAt) := by
  have agree' : Agreeing (observedBy r es) := agree.of_subset fun e he => (mem_observedBy.1 he).1
  by_cases hearly : ∃ e ∈ observedBy r es, ∃ fact, e.states = some (a, fact)
  · obtain ⟨e, he, fact, hstates⟩ := hearly
    rw [assertionFact_early agree noLeak he hstates]
    cases hfact : assertionFact (factsOf es) a with
    | none => rfl
    | some fact' =>
      have hseen := seen_some.2 ((assertion_observed agree hfact).2 ⟨e, he, fact, hstates⟩)
      simp only [Option.filter_some, hseen, seen_none]
  · have hnone : assertionFact (factsBy r es) a = none := by
      by_contra hsome
      exact hearly ((assertionFact_isSome agree').1 (Option.isSome_iff_ne_none.2 hsome))
    rw [hnone]
    cases hfact : assertionFact (factsOf es) a with
    | none => rfl
    | some fact' =>
      have hseen : ¬ seen (some r) fact'.observedAt = true := fun h =>
        hearly ((assertion_observed agree hfact).1 (seen_some.1 h))
      rw [Option.filter_some, if_neg hseen]
      rfl

end

/-! ## The rollback -/

theorem runs_early (noLeak : NoLeak es r) (row : RunRow) :
    row ∈ visibleRuns (factsOf es) (some r) ↔ row ∈ visibleRuns (factsBy r es) none := by
  refine rows_early runRow (·.observedAt) (fun k hk => runRow_early noLeak hk) ?_ row
  intro k hk row hrow
  cases k with
  | indexed => obtain rfl := Option.some.inj hrow; exact observed_le_iff indexed_observes hk
  | _ => cases hrow

theorem visibleKeys_early (noLeak : NoLeak es r) (run : RunKey) :
    run ∈ visibleKeys (factsOf es) (some r) ↔ run ∈ visibleKeys (factsBy r es) none := by
  simp only [visibleKeys, mem_map, runs_early noLeak]

theorem members_early (agree : Agreeing es) (noLeak : NoLeak es r) (row : MemberRow) :
    row ∈ visibleMembers (factsOf es) (some r) ↔ row ∈ visibleMembers (factsBy r es) none := by
  have hrows := rows_early (r := r) memberRow (·.observedAt) (fun k hk => memberRow_early agree hk)
    (fun k hk row hrow => by
      cases k with
      | memberOf => obtain rfl := Option.some.inj hrow; exact observed_le_iff memberOf_observes hk
      | _ => cases hrow) row
  simp only [mem_filter] at hrows
  simp only [visibleMembers, mem_filter, visibleKeys_early noLeak, decide_eq_true_eq]
  rw [and_left_comm, and_left_comm (b := row.run ∈ _), hrows]

theorem coverage_early (agree : Agreeing es) (noLeak : NoLeak es r) (row : CoverageRow) :
    row ∈ visibleCoverage (factsOf es) (some r) ↔ row ∈ visibleCoverage (factsBy r es) none := by
  have hrows := rows_early (r := r) coverageRow (·.observedAt) (fun k hk => coverageRow_early agree hk)
    (fun k hk row hrow => by
      cases k with
      | coveredIn => obtain rfl := Option.some.inj hrow; exact observed_le_iff coveredIn_observes hk
      | _ => cases hrow) row
  simp only [mem_filter] at hrows
  simp only [visibleCoverage, mem_filter, visibleKeys_early noLeak, decide_eq_true_eq]
  rw [and_left_comm, and_left_comm (b := row.run ∈ _), hrows]

theorem claim_observed_iff {c : Claim} (hk : k ∈ (factsOf es).keys) (hc : claimOf (factsOf es) k = some c) :
    c.observedAt ≤ r ↔ k ∈ (factsBy r es).keys := by
  rw [(claimOf_reads hc).2.2]
  exact observed_le_iff (claim_observes hc) hk

/-- **The rows visible at `r` are those of the graph of the early events.** -/
theorem sameRows_early (agree : Agreeing es) (ids : DistinctIds es) (noLeak : NoLeak es r) :
    SameRows (factsOf es) (some r) (factsBy r es) none where
  runs := runs_early noLeak
  outcomes := rows_early outcomeRow (·.observedAt) (fun _ hk => outcomeRow_early agree ids hk)
    fun _ hk _ hrow => outcome_observed agree ids hk hrow
  members := members_early agree noLeak
  coverage := coverage_early agree noLeak
  defs := rows_early defRow (·.observedAt) (fun _ hk => defRow_early agree noLeak hk)
    fun _ hk _ hrow => claim_observed_iff hk (defRow_claim hrow)
  observed := rows_early observedRow (·.observedAt) (fun _ hk => observedRow_early agree noLeak hk)
    fun _ hk _ hrow => claim_observed_iff hk (observedRow_claim hrow)
  claims := rows_early claimOf (·.observedAt) (fun _ hk => claimOf_early agree noLeak hk)
    fun _ hk _ hc => claim_observed_iff hk hc
  assertions := assertions_early agree noLeak

end Rows

end Early

theorem entityAsOf_eq {isIdentifier : String → Bool} {s : FactStore} {kind : EntityKind} {entityId : String}
    {validAt : Moment} :
    entityAsOf isIdentifier s kind entityId validAt recordedAt = (intervalAt
        (match kind with
          | .file => deriveFile (allFacts s recordedAt) entityId
          | .symbol => deriveSymbol isIdentifier (allFacts s recordedAt) entityId
          | .assertion => (((allFacts s recordedAt).assertion entityId).fact.map
              (deriveAssertion isIdentifier (allFacts s recordedAt) entityId)).getD []) validAt).map (·.key) := by
  unfold entityAsOf
  cases kind with
  | file =>
    have hfile : entityId ∈ (EntityKind.file.wanted entityId).files := mem_singleton_self _
    simp only [deriveFile_congr loadFacts_runs (loadFacts_file (mem_widen_file hfile))]
  | symbol =>
    have hsymbol : entityId ∈ (EntityKind.symbol.wanted entityId).symbols := mem_singleton_self _
    simp only [deriveSymbol_congr loadFacts_runs (loadFacts_sameSymbol (mem_widen_symbol hsymbol))]
  | assertion =>
    have hassertion : entityId ∈ (EntityKind.assertion.wanted entityId).assertions := mem_singleton_self _
    simp only [loadFacts_assertion hassertion]
    cases hfact : ((allFacts s recordedAt).assertion entityId).fact with
    | none => rfl
    | some fact =>
      simp only [Option.map_some, deriveAssertion_congr loadFacts_runs (loadFacts_sameAssertion hassertion hfact)]

/-- **The as-of answer is the answer of the graph of the earlier events**, in whichever order either was
delivered. -/
theorem as_of_rollback {isIdentifier : String → Bool} {r : Moment} {earlier : List Event} (agree : Agreeing es)
    (ids : DistinctIds es) (ties : NoTies (factsOf es) (some r)) (noLeak : NoLeak es r)
    (hearlier : ∀ e, e ∈ earlier ↔ e ∈ es ∧ e.observedAt ≤ r) (kind : EntityKind) (entityId : String)
    (validAt : Moment) :
    entityAsOf isIdentifier (deliver isIdentifier es).facts kind entityId validAt (some r) =
      entityAsOf isIdentifier (deliver isIdentifier earlier).facts kind entityId validAt none := by
  have hsame : ∀ e, e ∈ observedBy r es ↔ e ∈ earlier := fun e => by rw [mem_observedBy, hearlier]
  have agree' : Agreeing (observedBy r es) := agree.of_subset fun e he => (mem_observedBy.1 he).1
  have hrollback := sameRows_early agree ids noLeak
  have hfacts : allFacts (factsOf es) (some r) = allFacts (factsOf earlier) none :=
    allFacts_eq (keyedRows_factsOf agree) ties (hrollback.trans (sameRows_events agree' hsame)) visibleRuns_nodup
  rw [deliver_facts, deliver_facts, entityAsOf_eq, entityAsOf_eq, hfacts]

/-! ## A late start -/

/-- A run's start is observed after its file, with an earlier time of its own. -/
def lateStart : List Event :=
  [⟨"e2", "2026-03-01T12:05:00", "2026-03-01T12:05:00",
    .fileIndexed ⟨"i", "commit:c", "f", "r", "pkg/a.py", "m", "sha", "python", "indexer", "1"⟩⟩,
   ⟨"e1", "2026-03-01T12:02:00", "2026-03-01T12:09:00", .indexStarted ⟨"i", "commit:c"⟩⟩]

/-- At a recorded time before it, the file is already valid from the time of the late start. -/
theorem late_start_leaks :
    Agreeing lateStart ∧ DistinctIds lateStart ∧ NoTies (factsOf lateStart) (some "2026-03-01T12:06:00") ∧
      entityAsOf asciiIdentifier (deliver asciiIdentifier lateStart).facts .file "f" "2026-03-01T12:03:00"
        (some "2026-03-01T12:06:00") = some "r" ∧
      entityAsOf asciiIdentifier (deliver asciiIdentifier (observedBy "2026-03-01T12:06:00" lateStart)).facts .file "f"
        "2026-03-01T12:03:00" none = none := by
  refine ⟨by decide +kernel, by decide +kernel, by decide +kernel, by decide +kernel, by decide +kernel⟩

/-- A run, and another that is observed later. -/
def twoRuns : List Event :=
  [⟨"e1", "2026-03-01T12:02:00", "2026-03-01T12:02:00", .indexStarted ⟨"i", "commit:c"⟩⟩,
   ⟨"e2", "2026-03-01T12:02:00", "2026-03-01T12:05:00",
    .fileIndexed ⟨"i", "commit:c", "f", "r", "pkg/a.py", "m", "sha", "python", "indexer", "1"⟩⟩,
   ⟨"e3", "2026-03-01T12:01:00", "2026-03-01T12:09:00",
    .fileIndexed ⟨"j", "commit:d", "f", "q", "pkg/a.py", "m", "sha'", "python", "indexer", "1"⟩⟩]

theorem as_of_rollback_twoRuns :
    entityAsOf asciiIdentifier (deliver asciiIdentifier twoRuns).facts .file "f" "2026-03-01T12:03:00"
        (some "2026-03-01T12:06:00") =
      entityAsOf asciiIdentifier (deliver asciiIdentifier (observedBy "2026-03-01T12:06:00" twoRuns)).facts .file "f"
        "2026-03-01T12:03:00" none :=
  as_of_rollback (by decide +kernel) (by decide +kernel) (by decide +kernel)
    ⟨by decide +kernel, by decide +kernel, by decide +kernel, by decide +kernel, by decide +kernel⟩
    (fun _ => mem_observedBy) _ _ _

end Code
