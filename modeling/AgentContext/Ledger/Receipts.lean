import AgentContext.Ledger.Export
import AgentContext.Lib.Distinct
import AgentContext.Lib.Fallible

/-!
# An export at two receipt times

A retry maps the same export later.  What a record becomes depends on the time only by being refused as future, and
what an export becomes is the first accepted record of each key:

    mapItem_later       a later receipt refuses no more, and changes no draft
    mapExport_drafts    the drafts are the accepted records, the first of each key
    keyed_of_key        a key tells all of its draft but the OTLP time and the trace
    mapExport_stable    together, for any two receipts of an export
-/

namespace Ledger.Otlp

open List

open Distinct (distinctBy distinctBy_concat)
open Fallible (bind_eq_ok)

variable {J D : Type} {py : Python} {models : Models J} {config : MapperConfig J} {record record' : CodexOtelRecord}
  {time time' latest latest' : Nat} {item item' : Option CodexOtelRecord × Nat} {e e' : Envelope J}

/-! ## A record -/

theorem mapReceived_later (h : latest ≤ latest') :
    mapReceived py models config record time latest = .error (.record futureTimestamp) ∨
      mapReceived py models config record time latest' = mapReceived py models config record time latest := by
  unfold mapReceived
  by_cases hlong : (record.attributes.any (·.2 = .tooLong)) = true
  · rw [if_pos hlong, if_pos hlong]
    exact .inr rfl
  rw [if_neg hlong, if_neg hlong]
  cases otlpTime py time with
  | none => exact .inr rfl
  | some received =>
    dsimp only
    by_cases hfuture : received > latest
    · exact .inl (if_pos hfuture)
    rw [if_neg hfuture, if_neg (show ¬received > latest' by omega)]
    cases mapRecord py models config record received with
    | error raised => exact .inr rfl
    | ok found =>
      cases found with
      | none => exact .inr rfl
      | some envelope =>
        dsimp only
        by_cases hoccurred : envelope.occurredAt > latest
        · exact .inl (if_pos hoccurred)
        · rw [if_neg hoccurred, if_neg (show ¬envelope.occurredAt > latest' by omega)]
          exact .inr rfl

/-- A later receipt refuses no more, and changes no draft. -/
theorem mapItem_later (py : Python) (models : Models J) (config : MapperConfig J) (item : Option CodexOtelRecord × Nat)
    (h : latest ≤ latest') :
    mapItem py models config latest item = .error (.record futureTimestamp) ∨
      mapItem py models config latest' item = mapItem py models config latest item := by
  unfold mapItem
  cases item.1 with
  | none => exact .inr rfl
  | some record => exact mapReceived_later h

theorem mapItem_stable (he : mapItem py models config latest item = .ok (some e))
    (he' : mapItem py models config latest' item = .ok (some e')) : e = e' := by
  rcases Nat.le_total latest latest' with h | h
  · rcases mapItem_later py models config item h with hfuture | hsame
    · rw [hfuture] at he
      cases he
    · rw [hsame, he] at he'
      exact Option.some.inj (Except.ok.inj he')
  · rcases mapItem_later py models config item h with hfuture | hsame
    · rw [hfuture] at he'
      cases he'
    · rw [hsame, he'] at he
      exact Option.some.inj (Except.ok.inj he).symm

/-! ## The key of a draft -/

/-- An envelope without what its key does not tell. -/
def keyed (e : Envelope J) : Envelope J := { e with observedAt := 0, trace := none }

/-- What `sessionStarted` makes of the declared attributes. -/
structure Started (py : Python) (models : Models J) (config : MapperConfig J) (attributes : Attributes) (e : Envelope J) where
  found : Declared
  read : sessionDeclared py attributes = .ok (found, e.occurredAt)
  eventType : e.eventType = "agent.session.started"
  schemaVersion : e.schemaVersion = models.schemaVersion
  producer : e.producer = config.producer
  payload : models.sessionStarted sourceLabel found.conversationId found.model found.permissionMode found.sandboxMode = some e.payload
  context : models.eventContext found.conversationId = some e.context
  redaction : models.redactionSummary redactionPolicyVersion .metadataOnly = some e.redaction
  key : e.idempotencyKey =
    idempotencyKey py config.hmacKey eventConversationStarts [found.conversationId] found.rawTimestamp found.fields

theorem valid_eq_ok {built : Option J} {model : J} : valid built = .ok model ↔ built = some model := by
  cases built with
  | none => exact ⟨nofun, nofun⟩
  | some found => exact ⟨fun h => congrArg _ (Except.ok.inj h), fun h => congrArg _ (Option.some.inj h)⟩

theorem sessionStarted_ok (h : sessionStarted py models config record time = .ok e) :
    Nonempty (Started py models config record.attributes e) := by
  unfold sessionStarted at h
  obtain ⟨⟨found, occurredAt⟩, hread, h⟩ := bind_eq_ok.1 h
  obtain ⟨payload, hpayload, h⟩ := bind_eq_ok.1 h
  obtain ⟨context, hcontext, h⟩ := bind_eq_ok.1 h
  obtain ⟨trace, -, h⟩ := bind_eq_ok.1 h
  obtain ⟨redaction, hredaction, h⟩ := bind_eq_ok.1 h
  dsimp only at h
  split at h
  · cases h
    exact ⟨⟨found, hread, rfl, rfl, rfl, valid_eq_ok.1 hpayload, valid_eq_ok.1 hcontext, valid_eq_ok.1 hredaction, rfl⟩⟩
  · cases h

theorem mapRecord_some (h : mapRecord py models config record time = .ok (some e)) :
    sessionStarted py models config record time = .ok e := by
  unfold mapRecord at h
  split at h
  · cases h
  obtain ⟨-, -, h⟩ := bind_eq_ok.1 h
  split at h
  · cases h
  split at h
  · cases h
  obtain ⟨-, -, h⟩ := bind_eq_ok.1 h
  obtain ⟨eventName, -, h⟩ := bind_eq_ok.1 h
  split at h
  · cases hstarted : sessionStarted py models config record time with
    | error raised =>
      rw [hstarted] at h
      cases h
    | ok found =>
      rw [hstarted] at h
      exact congrArg _ (Option.some.inj (Except.ok.inj h))
  · cases h

theorem mapItem_some (h : mapItem py models config latest item = .ok (some e)) :
    ∃ record made received, item.1 = some record ∧ otlpTime py item.2 = some received ∧
      Nonempty (Started py models config record.attributes made) ∧
      e = { made with
        streamId := streamOf py config.producerId ((models.sessionId made.context).filter (· ≠ ""))
        observedAt := max made.occurredAt received } := by
  unfold mapItem at h
  cases hrecord : item.1 with
  | none =>
    rw [hrecord] at h
    cases h
  | some record =>
    rw [hrecord] at h
    dsimp only at h
    unfold mapReceived at h
    split at h
    · cases h
    cases htime : otlpTime py item.2 with
    | none =>
      rw [htime] at h
      cases h
    | some received =>
      rw [htime] at h
      dsimp only at h
      split at h
      · cases h
      cases hmade : mapRecord py models config record received with
      | error raised =>
        rw [hmade] at h
        cases h
      | ok made =>
        rw [hmade] at h
        cases made with
        | none => cases h
        | some made =>
          dsimp only at h
          split at h
          · cases h
          · exact ⟨record, made, received, rfl, rfl, sessionStarted_ok (mapRecord_some hmade),
              (Option.some.inj (Except.ok.inj h)).symm⟩

theorem sessionDeclared_timestamp {attributes : Attributes} {found : Declared}
    (h : sessionDeclared py attributes = .ok (found, time)) : timestamp py found.rawTimestamp = .ok time := by
  unfold sessionDeclared at h
  obtain ⟨conversationId, -, h⟩ := bind_eq_ok.1 h
  obtain ⟨rawTimestamp, -, h⟩ := bind_eq_ok.1 h
  split at h
  · obtain ⟨occurredAt, htime, h⟩ := bind_eq_ok.1 h
    obtain ⟨model, -, h⟩ := bind_eq_ok.1 h
    obtain ⟨approval, -, h⟩ := bind_eq_ok.1 h
    obtain ⟨sandbox, -, h⟩ := bind_eq_ok.1 h
    cases h
    exact htime
  · cases h

theorem toList_idempotencyKey (key : List UInt8) (name id raw : String) (fields : List (String × Option String)) :
    (idempotencyKey py key name [id] raw fields).toList = sourceLabel.toList ++ ':' :: (name.toList ++ ':' ::
      (id.toList ++ ':' :: (raw.toList ++ ':' :: (py.hmacSha256 key (JsonText.dumps fields)).toList))) := by
  unfold idempotencyKey
  show (":".intercalate [sourceLabel, name, id, raw, _]).toList = _
  rw [String.intercalate_cons_cons, String.intercalate_cons_cons, String.intercalate_cons_cons,
    String.intercalate_cons_cons, String.intercalate_singleton]
  simp only [String.toList_append, append_assoc]
  rfl

theorem Declared.fields_perm {found found' : Declared} (h : found.fields.Perm found'.fields) :
    found.conversationId = found'.conversationId ∧ found.model = found'.model ∧
      found.permissionMode = found'.permissionMode ∧ found.sandboxMode = found'.sandboxMode := by
  have hmem : ∀ field ∈ found.fields, field ∈ found'.fields := fun _ => h.mem_iff.1
  unfold Declared.fields at hmem
  have hid := hmem ("conversation.id", some found.conversationId) (by simp)
  have hmodel := hmem ("model", found.model) (by simp)
  have hpermission := hmem ("approval_policy", found.permissionMode) (by simp)
  have hsandbox := hmem ("sandbox_policy", found.sandboxMode) (by simp)
  simp at hid hmodel hpermission hsandbox
  exact ⟨hid, hmodel, hpermission, hsandbox⟩

/-- The texts whose digests are in the keys of an export's drafts. -/
def digested (py : Python) (items : List (Option CodexOtelRecord × Nat)) : Set String :=
  { text | ∃ item ∈ items, ∃ record found time, item.1 = some record ∧
    sessionDeclared py record.attributes = .ok (found, time) ∧ text = JsonText.dumps found.fields }

/-- **A key tells its draft.**  Two accepted records of one key have one draft, but for its id, OTLP time and trace. -/
theorem keyed_of_key {items : List (Option CodexOtelRecord × Nat)}
    (hdigest : Set.InjOn (py.hmacSha256 config.hmacKey) (digested py items))
    (hlength : ∀ text, (py.hmacSha256 config.hmacKey text).length = 64) (hitem : item ∈ items) (hitem' : item' ∈ items)
    (he : mapItem py models config latest item = .ok (some e))
    (he' : mapItem py models config latest' item' = .ok (some e')) (hkey : e.idempotencyKey = e'.idempotencyKey) :
    keyed e = keyed e' := by
  obtain ⟨record, made, received, hrecord, -, ⟨s⟩, rfl⟩ := mapItem_some he
  obtain ⟨record', made', received', hrecord', -, ⟨s'⟩, rfl⟩ := mapItem_some he'
  have htext := congrArg String.toList ((s.key.symm.trans hkey).trans s'.key)
  rw [toList_idempotencyKey, toList_idempotencyKey] at htext
  have hrest := (List.cons.inj (append_cancel_left (List.cons.inj (append_cancel_left htext)).2)).2
  -- The digest has a fixed length, so it is told without telling the identifier and the time apart.
  have hassoc : ∀ (id raw digest : List Char), id ++ ':' :: (raw ++ ':' :: digest) = (id ++ ':' :: (raw ++ [':'])) ++ digest :=
    fun _ _ _ => by simp
  rw [hassoc s.found.conversationId.toList, hassoc s'.found.conversationId.toList] at hrest
  obtain ⟨hhead, hdigests⟩ := append_inj' hrest (by rw [String.length_toList, String.length_toList, hlength, hlength])
  have hdumps := hdigest ⟨item, hitem, record, s.found, _, hrecord, s.read, rfl⟩
    ⟨item', hitem', record', s'.found, _, hrecord', s'.read, rfl⟩ (String.toList_injective hdigests)
  obtain ⟨hid, hmodel, hpermission, hsandbox⟩ := Declared.fields_perm (JsonText.dumps_inj hdumps)
  rw [hid] at hhead
  have hraw := String.toList_injective (append_cancel_right (List.cons.inj (append_cancel_left hhead)).2)
  have htime : made.occurredAt = made'.occurredAt := Except.ok.inj
    ((sessionDeclared_timestamp s.read).symm.trans (hraw ▸ sessionDeclared_timestamp s'.read))
  have hpayload : made.payload = made'.payload := by
    have h := s.payload
    rw [hid, hmodel, hpermission, hsandbox, s'.payload] at h
    exact (Option.some.inj h).symm
  have hcontext : made.context = made'.context := by
    have h := s.context
    rw [hid, s'.context] at h
    exact (Option.some.inj h).symm
  have hredaction : made.redaction = made'.redaction := Option.some.inj (s.redaction.symm.trans s'.redaction)
  have hsame : made.idempotencyKey = made'.idempotencyKey := hkey
  simp only [keyed, s.eventType, s'.eventType, s.schemaVersion, s'.schemaVersion, s.producer, s'.producer, htime, hpayload,
    hcontext, hredaction, hsame]

/-! ## An export -/

variable {ids ids' : Nat → String} {receipt : Receipt} {export_ : List ResourceSpans}
variable {state state' : MapState J D} {mapping : Mapping J D} {found : Nat × EventDraft J D}

abbrev Item : Type := Option CodexOtelRecord × Nat

/-- The records of a span, under its index. -/
def itemsOf (located : Located) (index : Nat) : List (Nat × Item) :=
  if located.refused.isSome then [] else (records located.span located.resource).map (Prod.mk index)

/-- The records of an export in their order, each under the index of its span. -/
def recordsOf (py : Python) (receipt : Receipt) (export_ : List ResourceSpans) : List (Nat × Item) :=
  (spansOf py receipt export_).zipIdx.flatMap fun entry => itemsOf entry.1 entry.2

/-- The draft of the `k`-th record, when it is accepted. -/
def acceptedAt (py : Python) (models : Models J) (config : MapperConfig J) (ids : Nat → String) (latest : Nat)
    (entry : (Nat × Item) × Nat) : Option (Nat × EventDraft J D) :=
  match mapItem py models config latest entry.1.2 with
  | .ok (some envelope) => some (entry.1.1, draftOf envelope (ids entry.2))
  | _ => none

def accepted (py : Python) (models : Models J) (config : MapperConfig J) (ids : Nat → String) (latest : Nat)
    (items : List (Nat × Item)) : List (Nat × EventDraft J D) :=
  items.zipIdx.filterMap (acceptedAt py models config ids latest)

def draftKeyOf (entry : Nat × EventDraft J D) : String := entry.2.idempotencyKey

/-- The state of the loop after the records `done`. -/
structure Mapped (py : Python) (models : Models J) (config : MapperConfig J) (ids : Nat → String) (latest : Nat)
    (state : MapState J D) (done : List (Nat × Item)) : Prop where
  drafts : state.mapping.drafts = distinctBy draftKeyOf (accepted py models config ids latest done)
  seen : ∀ key, key ∈ state.seen ↔ key ∈ (accepted (D := D) py models config ids latest done).map draftKeyOf
  drawn : state.drawn = done.length

variable {done : List (Nat × Item)}
variable {index : Nat} {produced produced' : Bool}

theorem accepted_concat : accepted (D := D) py models config ids latest (done ++ [(index, item)]) =
      accepted py models config ids latest done ++
        (acceptedAt py models config ids latest ((index, item), done.length)).toList := by
  unfold accepted
  rw [zipIdx_append, filterMap_append, Nat.zero_add]
  cases h : acceptedAt (D := D) py models config ids latest ((index, item), done.length) with
  | none | some => simp [h]

theorem mapStep_cases
    (h : mapStep py models config ids latest index (state, produced) item = .ok (state', produced')) :
    (∃ raised reason, mapItem py models config latest item = .error raised ∧ produced' = produced ∧
      state' = { state with mapping := state.mapping.reject index reason, drawn := state.drawn + 1 }) ∨
    (mapItem py models config latest item = .ok none ∧ produced' = produced ∧
      state' = { state with drawn := state.drawn + 1 }) ∨
    ∃ e, mapItem py models config latest item = .ok (some e) ∧ produced' = true ∧
      (e.idempotencyKey ∈ state.seen ∧ state' = { state with drawn := state.drawn + 1 } ∨
        e.idempotencyKey ∉ state.seen ∧ state' = {
          mapping := { state.mapping with
            drafts := state.mapping.drafts ++ [(index, draftOf e (ids state.drawn))] }
          seen := insert e.idempotencyKey state.seen
          drawn := state.drawn + 1 }) := by
  unfold mapStep at h
  dsimp only at h
  cases hitem : mapItem py models config latest item with
  | error raised =>
    rw [hitem] at h
    cases raised with
    | overflow => cases h
    | codex | record =>
      cases h
      exact .inl ⟨_, _, rfl, rfl, rfl⟩
  | ok found =>
    rw [hitem] at h
    cases found with
    | none =>
      cases h
      exact .inr (.inl ⟨rfl, rfl, rfl⟩)
    | some e =>
      dsimp only at h
      split at h
      · next hseen =>
        cases h
        exact .inr (.inr ⟨e, rfl, rfl, .inl ⟨hseen, rfl⟩⟩)
      · next hseen =>
        cases h
        exact .inr (.inr ⟨e, rfl, rfl, .inr ⟨hseen, rfl⟩⟩)

theorem Mapped.step (h : Mapped py models config ids latest state done)
    (hstep : mapStep py models config ids latest index (state, produced) item = .ok (state', produced')) :
    Mapped py models config ids latest state' (done ++ [(index, item)]) := by
  have hlength : (done ++ [(index, item)]).length = done.length + 1 := length_append
  -- A record without a draft only draws its id.
  have hnothing : acceptedAt (D := D) py models config ids latest ((index, item), done.length) = none →
      ∀ state', state'.mapping.drafts = state.mapping.drafts → state'.seen = state.seen → state'.drawn = state.drawn + 1 →
        Mapped py models config ids latest state' (done ++ [(index, item)]) := by
    intro hnone state' hdrafts hseen hdrawn
    constructor
    · rw [accepted_concat, hnone, Option.toList_none, append_nil, hdrafts, h.drafts]
    · rw [accepted_concat, hnone, Option.toList_none, append_nil, hseen]
      exact h.seen
    · rw [hdrawn, h.drawn, hlength]
  rcases mapStep_cases hstep with ⟨raised, reason, hitem, -, rfl⟩ | ⟨hitem, -, rfl⟩ | ⟨e, hitem, -, hcase⟩
  · exact hnothing (by rw [acceptedAt, hitem]) _ rfl rfl rfl
  · exact hnothing (by rw [acceptedAt, hitem]) _ rfl rfl rfl
  · have hsome : acceptedAt py models config ids latest ((index, item), done.length) =
        some (index, (draftOf e (ids done.length) : EventDraft J D)) := by rw [acceptedAt, hitem]
    have hkey : draftKeyOf (index, (draftOf e (ids done.length) : EventDraft J D)) = e.idempotencyKey := rfl
    rcases hcase with ⟨hseen, rfl⟩ | ⟨hseen, rfl⟩
    · have hold := (h.seen _).1 hseen
      constructor
      · rw [accepted_concat, hsome, Option.toList_some, distinctBy_concat, hkey, if_pos hold, ← h.drafts]
      · intro key
        rw [accepted_concat, hsome, Option.toList_some, map_append, mem_append, map_singleton,
          mem_singleton, hkey, ← h.seen]
        exact (or_iff_left_of_imp fun heq => heq ▸ hseen).symm
      · rw [hlength, ← h.drawn]
    · have hnew := fun hmem => hseen ((h.seen _).2 hmem)
      constructor
      · rw [accepted_concat, hsome, Option.toList_some, distinctBy_concat, hkey, if_neg hnew, ← h.drafts, h.drawn]
      · intro key
        rw [accepted_concat, hsome, Option.toList_some, map_append, mem_append, map_singleton,
          mem_singleton, hkey, ← h.seen, Finset.mem_insert]
        exact or_comm
      · rw [hlength, ← h.drawn]

theorem mapSpan_cases {located : Located} (h : mapSpan py models config ids latest state located = .ok state') :
    (∃ reason, located.refused = some reason ∧ state' = { state with mapping :=
      { state.mapping with spanCount := state.mapping.spanCount + 1 }.reject state.mapping.spanCount reason }) ∨
    located.refused = none ∧ ∃ after produced,
      (records located.span located.resource).foldlM (mapStep py models config ids latest state.mapping.spanCount)
        ({ state with mapping := { state.mapping with spanCount := state.mapping.spanCount + 1 } }, false) =
          .ok (after, produced) ∧
      (produced = false ∧ state.mapping.spanCount ∉ after.mapping.rejectedSpans ∧ state' = { after with mapping :=
        { after.mapping with unmappedSpans := after.mapping.unmappedSpans + 1 } } ∨ state' = after) := by
  unfold mapSpan at h
  cases hrefused : located.refused with
  | some reason =>
    rw [hrefused] at h
    cases h
    exact .inl ⟨reason, rfl, rfl⟩
  | none =>
    rw [hrefused] at h
    dsimp only at h
    split at h
    · cases h
    · next after produced hfold =>
      refine .inr ⟨rfl, after, produced, hfold, ?_⟩
      split at h
      · next hquiet =>
        cases h
        simp only [Bool.and_eq_true, Bool.not_eq_true', decide_eq_true_eq] at hquiet
        exact .inl ⟨hquiet.1, hquiet.2, rfl⟩
      · cases h
        exact .inr rfl

theorem Mapped.span {located : Located} (h : Mapped py models config ids latest state done)
    (hspan : mapSpan py models config ids latest state located = .ok state') :
    Mapped py models config ids latest state' (done ++ itemsOf located state.mapping.spanCount) ∧
      state'.mapping.spanCount = state.mapping.spanCount + 1 := by
  rcases mapSpan_cases hspan with ⟨reason, hrefused, rfl⟩ | ⟨hrefused, after, produced, hfold, hafter⟩
  · rw [itemsOf, hrefused, Option.isSome_some, if_pos rfl, append_nil]
    exact ⟨⟨h.drafts, h.seen, h.drawn⟩, rfl⟩
  · have hrun := Fallible.foldlM_run
      (P := fun before (s : MapState J D × Bool) =>
        Mapped py models config ids latest s.1 (done ++ before.map (Prod.mk state.mapping.spanCount)) ∧
          s.1.mapping.spanCount = state.mapping.spanCount + 1)
      (fun {before s item s'} hs hstep => by
        obtain ⟨s, produced⟩ := s
        obtain ⟨s', produced'⟩ := s'
        rw [map_append, map_singleton, ← append_assoc]
        refine ⟨hs.1.step hstep, hs.2.symm ▸ ?_⟩
        rcases mapStep_cases hstep with ⟨_, _, -, -, rfl⟩ | ⟨-, -, rfl⟩ | ⟨_, -, -, ⟨-, rfl⟩ | ⟨-, rfl⟩⟩ <;> rfl)
      ⟨by rw [map_nil, append_nil]; exact ⟨h.drafts, h.seen, h.drawn⟩, rfl⟩ hfold
    rw [itemsOf, hrefused, Option.isSome_none, if_neg Bool.false_ne_true]
    rcases hafter with ⟨-, -, rfl⟩ | rfl
    · exact ⟨⟨hrun.1.drafts, hrun.1.seen, hrun.1.drawn⟩, hrun.2⟩
    · exact hrun

theorem mapExport_ok (h : mapExport py models config ids receipt export_ = .ok mapping) : ∃ state,
    (spansOf py receipt export_).foldlM (mapSpan (D := D) py models config ids (receipt.now + receipt.maxClockSkew)) {} =
      .ok state ∧ state.mapping = mapping := by
  unfold mapExport at h
  dsimp only at h
  cases hfold : (spansOf py receipt export_).foldlM
      (mapSpan (D := D) py models config ids (receipt.now + receipt.maxClockSkew)) {} with
  | error raised =>
    rw [hfold] at h
    cases h
  | ok state =>
    rw [hfold] at h
    exact ⟨state, rfl, Except.ok.inj h⟩

theorem mapExport_drafts (h : mapExport py models config ids receipt export_ = .ok mapping) :
    mapping.drafts = distinctBy draftKeyOf
      (accepted py models config ids (receipt.now + receipt.maxClockSkew) (recordsOf py receipt export_)) := by
  obtain ⟨state, hfold, rfl⟩ := mapExport_ok h
  have hrun := Fallible.foldlM_run
    (P := fun before (s : MapState J D) =>
      Mapped py models config ids (receipt.now + receipt.maxClockSkew) s
        (before.zipIdx.flatMap fun entry => itemsOf entry.1 entry.2) ∧ s.mapping.spanCount = before.length)
    (fun {before s located s'} hs hspan => by
      obtain ⟨hmapped, hcount⟩ := hs.1.span hspan
      rw [hs.2] at hmapped hcount
      rw [zipIdx_append, flatMap_append, Nat.zero_add, length_append]
      refine ⟨?_, hcount⟩
      simpa using hmapped)
    ⟨⟨rfl, by simp [accepted], rfl⟩, rfl⟩ hfold
  exact hrun.1.drafts

/-- The `k`-th record is accepted as `e`, and no record of its key is accepted before it. -/
def Wins (py : Python) (models : Models J) (config : MapperConfig J) (latest : Nat) (items : List (Nat × Item))
    (k index : Nat) (e : Envelope J) : Prop :=
  (∃ item, items[k]? = some (index, item) ∧ mapItem py models config latest item = .ok (some e)) ∧
    ∀ j < k, ∀ entry e', items[j]? = some entry → mapItem py models config latest entry.2 = .ok (some e') →
      e'.idempotencyKey ≠ e.idempotencyKey

theorem acceptedAt_some {entry : (Nat × Item) × Nat} : acceptedAt py models config ids latest entry = some found ↔
      ∃ e, mapItem py models config latest entry.1.2 = .ok (some e) ∧ found = (entry.1.1, draftOf e (ids entry.2)) := by
  unfold acceptedAt
  split
  · next e he =>
    rw [Option.some.injEq]
    constructor
    · intro h
      exact ⟨e, he, h.symm⟩
    · rintro ⟨e', he', rfl⟩
      rw [Option.some.inj (Except.ok.inj (he.symm.trans he'))]
  · next hnot =>
    constructor
    · intro h
      cases h
    · rintro ⟨e, he, -⟩
      exact absurd he (hnot e)

variable {items : List (Nat × Item)}

theorem mem_accepted_keys {key : String} :
    key ∈ (accepted (D := D) py models config ids latest items).map draftKeyOf ↔ ∃ (j : Nat) (entry : Nat × Item) (e : Envelope J),
      items[j]? = some entry ∧ mapItem py models config latest entry.2 = .ok (some e) ∧ e.idempotencyKey = key := by
  simp only [accepted, mem_map, mem_filterMap, acceptedAt_some]
  constructor
  · rintro ⟨_, ⟨⟨entry, j⟩, hmem, e, he, rfl⟩, rfl⟩
    exact ⟨j, entry, e, mk_mem_zipIdx_iff_getElem?.1 hmem, he, rfl⟩
  · rintro ⟨j, entry, e, hmem, he, rfl⟩
    exact ⟨_, ⟨(entry, j), mk_mem_zipIdx_iff_getElem?.2 hmem, e, he, rfl⟩, rfl⟩

/-- Which drafts an export comes to. -/
theorem mem_distinct_accepted : found ∈ distinctBy draftKeyOf (accepted py models config ids latest items) ↔
      ∃ k e, Wins py models config latest items k found.1 e ∧ found.2 = draftOf e (ids k) := by
  induction items using List.reverseRecOn with
  | nil =>
    constructor
    · intro h
      cases h
    · rintro ⟨k, e, ⟨⟨item, hk, -⟩, -⟩, -⟩
      cases hk
  | append_singleton items entry ih =>
    obtain ⟨index, item⟩ := entry
    -- A record in front of the last one wins as it did without it.
    have hfront : ∀ {k i : Nat} {e : Envelope J}, k < items.length →
        (Wins py models config latest (items ++ [(index, item)]) k i e ↔ Wins py models config latest items k i e) := by
      intro k i e hk
      unfold Wins
      rw [List.getElem?_append_left hk]
      refine and_congr_right fun _ => forall₂_congr fun j hj => ?_
      rw [List.getElem?_append_left (Nat.lt_trans hj hk)]
    have hold : (∃ k e, k < items.length ∧ Wins py models config latest (items ++ [(index, item)]) k found.1 e ∧
        found.2 = draftOf e (ids k)) ↔ found ∈ distinctBy draftKeyOf (accepted py models config ids latest items) := by
      rw [ih]
      constructor
      · rintro ⟨k, e, hk, hwins, hfound⟩
        exact ⟨k, e, (hfront hk).1 hwins, hfound⟩
      · rintro ⟨k, e, hwins, hfound⟩
        obtain ⟨_, hget, -⟩ := hwins.1
        have hk := (List.getElem?_eq_some_iff.1 hget).1
        exact ⟨k, e, hk, (hfront hk).2 hwins, hfound⟩
    have hlast : ∀ {i : Nat} {e : Envelope J},
        Wins py models config latest (items ++ [(index, item)]) items.length i e ↔
          i = index ∧ mapItem py models config latest item = .ok (some e) ∧
            e.idempotencyKey ∉ (accepted (D := D) py models config ids latest items).map draftKeyOf := by
      intro i e
      unfold Wins
      rw [List.getElem?_concat_length, mem_accepted_keys]
      constructor
      · rintro ⟨⟨_, hget, he⟩, hfirst⟩
        cases hget
        refine ⟨rfl, he, ?_⟩
        rintro ⟨j, entry, e', hj, he', hkey⟩
        have hlt := (List.getElem?_eq_some_iff.1 hj).1
        exact hfirst j hlt entry e' ((List.getElem?_append_left hlt).trans hj) he' hkey
      · rintro ⟨rfl, he, hfirst⟩
        refine ⟨⟨item, rfl, he⟩, fun j hj entry e' hget he' hkey => hfirst ⟨j, entry, e', ?_, he', hkey⟩⟩
        rwa [List.getElem?_append_left hj] at hget
    have hsplit : (∃ k e, Wins py models config latest (items ++ [(index, item)]) k found.1 e ∧ found.2 = draftOf e (ids k)) ↔
        found ∈ distinctBy draftKeyOf (accepted py models config ids latest items) ∨
          ∃ e, Wins py models config latest (items ++ [(index, item)]) items.length found.1 e ∧
            found.2 = draftOf e (ids items.length) := by
      rw [← hold]
      constructor
      · rintro ⟨k, e, hwins, hfound⟩
        obtain ⟨_, hget, -⟩ := hwins.1
        have hk := (List.getElem?_eq_some_iff.1 hget).1
        rw [length_append, length_singleton] at hk
        rcases Nat.lt_succ_iff_lt_or_eq.1 hk with hlt | rfl
        · exact .inl ⟨k, e, hlt, hwins, hfound⟩
        · exact .inr ⟨e, hwins, hfound⟩
      · rintro (⟨k, e, -, hwins, hfound⟩ | ⟨e, hwins, hfound⟩)
        · exact ⟨k, e, hwins, hfound⟩
        · exact ⟨_, e, hwins, hfound⟩
    rw [hsplit, accepted_concat]
    cases haccepted : acceptedAt (D := D) py models config ids latest ((index, item), items.length) with
    | none =>
      rw [Option.toList_none, append_nil]
      refine (or_iff_left ?_).symm
      rintro ⟨e, hwins, -⟩
      rw [acceptedAt_some.2 ⟨e, (hlast.1 hwins).2.1, rfl⟩] at haccepted
      cases haccepted
    | some draft =>
      obtain ⟨e, he, rfl⟩ := acceptedAt_some.1 haccepted
      rw [Option.toList_some, distinctBy_concat]
      split
      · next hkey =>
        refine (or_iff_left ?_).symm
        rintro ⟨e', hwins, -⟩
        obtain ⟨-, he', hnew⟩ := hlast.1 hwins
        rw [Option.some.inj (Except.ok.inj (he.symm.trans he'))] at hkey
        exact hnew hkey
      · next hkey =>
        rw [mem_append, mem_singleton]
        refine or_congr_right ?_
        constructor
        · rintro rfl
          exact ⟨e, hlast.2 ⟨rfl, he, hkey⟩, rfl⟩
        · rintro ⟨e', hwins, hfound⟩
          obtain ⟨hindex, he', -⟩ := hlast.1 hwins
          rw [← Option.some.inj (Except.ok.inj (he.symm.trans he'))] at hfound
          exact Prod.ext hindex hfound

theorem mem_drafts (h : mapExport py models config ids receipt export_ = .ok mapping) :
    found ∈ mapping.drafts ↔ ∃ k e,
      Wins py models config (receipt.now + receipt.maxClockSkew) (recordsOf py receipt export_) k found.1 e ∧
        found.2 = draftOf e (ids k) := by
  rw [mapExport_drafts h, mem_distinct_accepted]

theorem accepted_ids_nodup (hids : Function.Injective ids) :
    ((accepted (D := D) py models config ids latest items).map (·.2.eventId)).Nodup := by
  have hname : ∀ (entry : (Nat × Item) × Nat) (found : Nat × EventDraft J D),
      acceptedAt py models config ids latest entry = some found → found.2.eventId = (ids ∘ Prod.snd) entry := by
    intro entry found hfound
    obtain ⟨e, -, rfl⟩ := acceptedAt_some.1 hfound
    rfl
  refine (Table.filterMap_map_sublist hname items.zipIdx).nodup ?_
  rw [← map_map, zipIdx_map_snd]
  exact (nodup_range' ..).map hids

/-- **What a retry maps.**  A record of an export is mapped to the same at any two receipt times, unless one of them
refuses it as future; so two drafts of one record differ in their fresh ids only.  An export is mapped to its accepted
records, the first of each key, and what has one key is the same but for the id, the OTLP time and the trace. -/
theorem mapExport_stable {mapping mapping' : Mapping J D} {now' : Nat} (hids : Function.Injective ids)
    (hids' : Function.Injective ids')
    (hdigest : Set.InjOn (py.hmacSha256 config.hmacKey) (digested py ((recordsOf py receipt export_).map Prod.snd)))
    (hlength : ∀ text, (py.hmacSha256 config.hmacKey text).length = 64)
    (h : mapExport py models config ids receipt export_ = .ok mapping)
    (h' : mapExport py models config ids' { receipt with now := now' } export_ = .ok mapping') :
    (∀ entry ∈ recordsOf py receipt export_,
      mapItem py models config (receipt.now + receipt.maxClockSkew) entry.2 =
          mapItem py models config (now' + receipt.maxClockSkew) entry.2 ∨
        mapItem py models config (receipt.now + receipt.maxClockSkew) entry.2 = .error (.record futureTimestamp) ∨
        mapItem py models config (now' + receipt.maxClockSkew) entry.2 = .error (.record futureTimestamp)) ∧
    (∀ k index index' draft draft', (index, draft) ∈ mapping.drafts → (index', draft') ∈ mapping'.drafts →
      draft.eventId = ids k → draft'.eventId = ids' k → index' = index ∧ draft' = { draft with eventId := ids' k }) ∧
    (∀ found, found ∈ mapping.drafts ↔ ∃ k e,
      Wins py models config (receipt.now + receipt.maxClockSkew) (recordsOf py receipt export_) k found.1 e ∧
        found.2 = draftOf e (ids k)) ∧
    ∀ entry ∈ recordsOf py receipt export_, ∀ entry' ∈ recordsOf py receipt export_, ∀ e e',
      mapItem py models config (receipt.now + receipt.maxClockSkew) entry.2 = .ok (some e) →
      mapItem py models config (now' + receipt.maxClockSkew) entry'.2 = .ok (some e') →
      e.idempotencyKey = e'.idempotencyKey → keyed e = keyed e' := by
  refine ⟨?_, ?_, fun found => mem_drafts h, ?_⟩
  · intro entry _
    rcases Nat.le_total receipt.now now' with hle | hle
    · rcases mapItem_later py models config entry.2
        (Nat.add_le_add_right hle receipt.maxClockSkew) with hfuture | hsame
      · exact .inr (.inl hfuture)
      · exact .inl hsame.symm
    · rcases mapItem_later py models config entry.2
        (Nat.add_le_add_right hle receipt.maxClockSkew) with hfuture | hsame
      · exact .inr (.inr hfuture)
      · exact .inl hsame
  · intro k index index' draft draft' hmem hmem' hid hid'
    obtain ⟨j, e, ⟨⟨item, hget, he⟩, -⟩, rfl⟩ := (mem_drafts h).1 hmem
    obtain ⟨j', e', ⟨⟨item', hget', he'⟩, -⟩, rfl⟩ := (mem_drafts h').1 hmem'
    -- The id tells the record the draft was drawn for.
    obtain rfl : j = k := hids hid
    obtain rfl : j' = j := hids' hid'
    cases hget.symm.trans hget'
    rw [mapItem_stable he he']
    exact ⟨rfl, rfl⟩
  · intro entry hmem entry' hmem' e e' he he' hkey
    exact keyed_of_key hdigest hlength (List.mem_map_of_mem hmem) (List.mem_map_of_mem hmem') he he' hkey

/-! ## A sample -/

def sampleModels : Models (List (Option String)) where
  sessionStarted source sessionId model permissionMode sandboxMode :=
    some [some source, some sessionId, model, permissionMode, sandboxMode]
  eventContext sessionId := some [some sessionId]
  sessionId context := context.head?.join
  traceContext traceId spanId := some [some traceId, some spanId]
  redactionSummary policyVersion _ := some [some policyVersion]
  schemaVersion := "1"
  accepts _ := true

/-- The digests of the declared attributes of the sessions `s1` and `s2`. -/
def sampleDigest (text : String) : String :=
  if text = "\x7b\"approval_policy\":null,\"conversation.id\":\"s1\",\"model\":null,\"sandbox_policy\":null\x7d" then
    "395093b3c5fbce8a7fc2a327c56e81d3fefd93d2041aabb5c8f8146a1ed22613"
  else "0fb7fbca223122d8143754ab1b27944c9c371f5ecc05afc1bc25e16f79214071"

theorem sampleDigest_length (text : String) : (sampleDigest text).length = 64 := by
  unfold sampleDigest
  split
  · rfl
  · rfl

def samplePython : Python where
  fromTimestamp n := some (62135596800000000 + n / 1000)
  fromIsoformat raw := if raw = "2026-08-13T13:00:00.124Z" then .instant 63922222800124000 else .invalid
  lower := String.toLower
  hmacSha256 _ := sampleDigest
  sha256 data := if data.getLast? = some 49 then "371d979c74a89df7773e9689b92888de42b2256232e459ff8ce60eee6668974b"
    else "bfe4442860262209ce278bfa86301e14b7c8ddb97baa3161d7ef3a5f7a13b3c6"

def sampleConfig : MapperConfig (List (Option String)) where
  hmacKey := List.replicate 32 107
  producer := [some "agent"]
  producerId := "agent"
  streamId := "codex-otel:"
  acceptedSignal := .trace

def sampleSpan (conversationId : String) (spanByte : UInt8) : Span where
  traceId := List.replicate 16 1
  spanId := List.replicate 8 spanByte
  startTimeUnixNano := 1786626000124000000
  endTimeUnixNano := 1786626000124000000
  attributes := [⟨"event.name", .string "codex.conversation_starts"⟩, ⟨"conversation.id", .string conversationId⟩,
    ⟨"event.timestamp", .string "2026-08-13T13:00:00.124Z"⟩]
  events := []

/-- One session start, told by two spans. -/
def sampleExport : List ResourceSpans :=
  [⟨[⟨"service.name", .string "codex_exec"⟩], [⟨[], [sampleSpan "s1" 1, sampleSpan "s1" 2]⟩]⟩]

def sampleReceipt : Receipt := ⟨63922222801000000, 300000000, 64, 128⟩

def sampleIds (n : Nat) : String := String.ofList (List.replicate n 'x')

theorem sampleIds_injective : Function.Injective sampleIds := by
  intro n m h
  have hlength := congrArg String.length h
  rwa [sampleIds, sampleIds, String.length_ofList, String.length_ofList, length_replicate, length_replicate] at hlength

def sampleEnvelope (spanId : String) : Envelope (List (Option String)) where
  eventType := "agent.session.started"
  schemaVersion := "1"
  streamId := "codex-otel:371d979c74a89df7773e9689b92888de42b22562"
  occurredAt := 63922222800124000
  observedAt := 63922222800124000
  producer := [some "agent"]
  context := [some "s1"]
  trace := some [some "01010101010101010101010101010101", some spanId]
  payload := [some "codex_otel", some "s1", none, none, none]
  redaction := [some "codex-otel-metadata-v1"]
  idempotencyKey := "codex_otel:codex.conversation_starts:s1:2026-08-13T13:00:00.124Z:" ++ sampleDigest (JsonText.dumps
    [("conversation.id", some "s1"), ("model", none), ("approval_policy", none), ("sandbox_policy", none)])

theorem recordsOf_sample : recordsOf samplePython sampleReceipt sampleExport =
    [(0, some (recordOf (sampleSpan "s1" 1) [("service.name", .text "codex_exec")] (sampleSpan "s1" 1).attributes), 1786626000124000000),
      (1, some (recordOf (sampleSpan "s1" 2) [("service.name", .text "codex_exec")] (sampleSpan "s1" 2).attributes),
        1786626000124000000)] := by
  decide +kernel

theorem digested_sample : Set.InjOn (samplePython.hmacSha256 sampleConfig.hmacKey)
    (digested samplePython ((recordsOf samplePython sampleReceipt sampleExport).map Prod.snd)) := by
  have hread : sessionDeclared samplePython (attributes (sampleSpan "s1" 1).attributes) =
      .ok (⟨"s1", "2026-08-13T13:00:00.124Z", none, none, none⟩, 63922222800124000) := rfl
  have hone : ∀ text ∈ digested samplePython ((recordsOf samplePython sampleReceipt sampleExport).map Prod.snd),
      text = JsonText.dumps [("conversation.id", some "s1"), ("model", none), ("approval_policy", none),
        ("sandbox_policy", none)] := by
    rintro text ⟨item, hitem, record, found, time, hrecord, hfound, rfl⟩
    rw [recordsOf_sample] at hitem
    -- Both records have the attributes of the first.
    have hattributes : record.attributes = attributes (sampleSpan "s1" 1).attributes := by
      simp only [map_cons, map_nil, mem_cons, not_mem_nil, or_false] at hitem
      rcases hitem with rfl | rfl
      · cases hrecord
        rfl
      · cases hrecord
        rfl
    rw [hattributes, hread] at hfound
    obtain ⟨rfl, -⟩ := Prod.mk.inj (Except.ok.inj hfound)
    rfl
  intro text htext text' htext' _
  rw [hone text htext, hone text' htext']

theorem mapExport_stable_sample : ∃ mapping mapping' : Mapping (List (Option String)) Nat,
    mapExport samplePython sampleModels sampleConfig sampleIds sampleReceipt sampleExport = .ok mapping ∧
    mapExport samplePython sampleModels sampleConfig (fun n => sampleIds (n + 1)) { sampleReceipt with now := 63922222900000000 }
      sampleExport = .ok mapping' ∧
    ∀ found, found ∈ mapping.drafts ↔ ∃ k e, Wins samplePython sampleModels sampleConfig
      (sampleReceipt.now + sampleReceipt.maxClockSkew) (recordsOf samplePython sampleReceipt sampleExport) k found.1 e ∧
        found.2 = draftOf e (sampleIds k) := by
  have hfirst : (mapExport (D := Nat) samplePython sampleModels sampleConfig sampleIds sampleReceipt
      sampleExport).toOption.isSome = true := by decide +kernel
  have hsecond : (mapExport (D := Nat) samplePython sampleModels sampleConfig (fun n => sampleIds (n + 1))
      { sampleReceipt with now := 63922222900000000 } sampleExport).toOption.isSome = true := by decide +kernel
  cases h : mapExport (D := Nat) samplePython sampleModels sampleConfig sampleIds sampleReceipt sampleExport with
  | error raised =>
    rw [h] at hfirst
    cases hfirst
  | ok mapping =>
    cases h' : mapExport (D := Nat) samplePython sampleModels sampleConfig (fun n => sampleIds (n + 1))
        { sampleReceipt with now := 63922222900000000 } sampleExport with
    | error raised =>
      rw [h'] at hsecond
      cases hsecond
    | ok mapping' =>
      have hstable := mapExport_stable sampleIds_injective
        (fun n m heq => Nat.succ.inj (sampleIds_injective heq)) digested_sample
        sampleDigest_length h h'
      exact ⟨mapping, mapping', rfl, rfl, hstable.2.2.1⟩

/-- The key does not tell the span: two accepted records with one key, and drafts that differ. -/
theorem mapExport_one_key : ¬∀ entry ∈ recordsOf samplePython sampleReceipt sampleExport,
    ∀ entry' ∈ recordsOf samplePython sampleReceipt sampleExport, ∀ e e' : Envelope (List (Option String)),
      mapItem samplePython sampleModels sampleConfig (sampleReceipt.now + sampleReceipt.maxClockSkew) entry.2 = .ok (some e) →
      mapItem samplePython sampleModels sampleConfig (sampleReceipt.now + sampleReceipt.maxClockSkew) entry'.2 = .ok (some e') →
      e.idempotencyKey = e'.idempotencyKey →
      draftIdentity (draftOf e "" : EventDraft _ Nat) = draftIdentity (draftOf e' "" : EventDraft _ Nat) := by
  intro h
  rw [recordsOf_sample] at h
  have hsame := h _ List.mem_cons_self _ (List.mem_cons_of_mem _ List.mem_cons_self) (sampleEnvelope "0101010101010101")
    (sampleEnvelope "0202020202020202") (by decide +kernel) (by decide +kernel) rfl
  have htrace := congrArg (fun identity : DraftIdentity (List (Option String)) Nat => identity.trace) hsame
  revert htrace
  decide

end Ledger.Otlp
