import AgentContext.Search.Replay

/-!
# When the check is exact

The check and the replay read the same references except those of events that the projector does not index: events of
an unhandled type, and `content.purged` events with references of their own.

    Sound    all available, and one identity for each content id

    the check raises    ↔ the references of delivered events are not sound                     (check_error_iff)
    the replay fails    ↔ those that the projector indexes are not                             (replay_error_iff)
    the check is exact  ↔ the others are harmless, or the indexed ones are not sound           (check_exact_iff)
-/

namespace Search

open Keyset Bindings Projection List

/-! ## Sound readings -/

section Sound

variable {U : Type}

def Reading.document? : Reading U → Option (Stated U)
  | .text document => some document
  | _ => none

/-- The documents among the readings. -/
def texts (readings : List (Reading U)) : List (Stated U) := readings.filterMap Reading.document?

/-- All available, and one identity for each content id. -/
structure Sound (readings : List (Reading U)) : Prop where
  available : .unavailable ∉ readings
  agree : Agree (·.contentId) identityOf (texts readings)

variable {readings readings' : List (Reading U)} {document : Stated U}

@[simp] theorem texts_append : texts (readings ++ readings') = texts readings ++ texts readings' := filterMap_append ..

theorem mem_texts : document ∈ texts readings ↔ .text document ∈ readings := by
  unfold texts
  rw [mem_filterMap]
  constructor
  · rintro ⟨reading, hreading, heq⟩
    cases reading with
    | unavailable | blank => cases heq
    | text d =>
      cases heq
      exact hreading
  · exact fun h => ⟨.text document, h, rfl⟩

theorem Sound.of_subset (h : Sound readings) (hsub : ∀ r ∈ readings', r ∈ readings) : Sound readings' where
  available := fun hmem => h.available (hsub _ hmem)
  agree := h.agree.of_subset fun _ hd => mem_texts.2 (hsub _ (mem_texts.1 hd))

theorem sound_congr (hmem : ∀ r, r ∈ readings ↔ r ∈ readings') : Sound readings ↔ Sound readings' :=
  ⟨fun h => h.of_subset fun r hr => (hmem r).2 hr, fun h => h.of_subset fun r hr => (hmem r).1 hr⟩

theorem sound_nil : Sound ([] : List (Reading U)) := ⟨not_mem_nil, fun _ h => nomatch h⟩

end Sound

section Exact

variable {U T V : Type} (source : Source U T V)

/-- The references that the check reads of an event. -/
def readings (u : U) : List (Reading U) :=
  match scopeOf (source.event u) with
  | none => []
  | some scope =>
    ((source.event u).contentRefs.filter fun ref => indexable ref && !ledgerPurged source ref.contentId).map
      (readDocument source u scope)

/-- The events whose references the projector indexes. -/
def indexes (u : U) : Bool :=
  handles source (source.event u).eventType && (source.event u).eventType ≠ contentPurgedType

def allReadings (outbox : Outbox source) : List (Reading U) := (deliveredEvents source outbox).flatMap (readings source)

def indexedReadings (outbox : Outbox source) : List (Reading U) :=
  ((deliveredEvents source outbox).filter (indexes source)).flatMap (readings source)

def otherReadings (outbox : Outbox source) : List (Reading U) :=
  ((deliveredEvents source outbox).filter fun u => !indexes source u).flatMap (readings source)

/-- What is read of the events that are not indexed is available, and names no content id otherwise than another
reading does. -/
def Harmless (outbox : Outbox source) : Prop :=
  .unavailable ∉ otherReadings source outbox ∧
    ∀ d ∈ texts (otherReadings source outbox), ∀ d' ∈ texts (allReadings source outbox), d.contentId = d'.contentId →
      identityOf d = identityOf d'

variable {source} {u : U} {scope : String × String} {ref : ContentRef} {d : Stated U}
variable {outbox : Outbox source} {rs : List (Reading U)}

theorem readDocument_text (h : readDocument source u scope ref = .text d) :
    d.contentId = ref.contentId ∧ identityOf d = (scope.1, scope.2, ref.contentSha256, ref.mediaType) := by
  unfold readDocument at h
  dsimp only at h
  split at h
  · cases h
  · split at h
    · cases h
    · cases h
      exact ⟨rfl, rfl⟩

theorem mem_allReadings {r : Reading U} :
    r ∈ allReadings source outbox ↔ r ∈ indexedReadings source outbox ∨ r ∈ otherReadings source outbox := by
  simp only [allReadings, indexedReadings, otherReadings, mem_flatMap, mem_filter]
  constructor
  · rintro ⟨u, hu, hr⟩
    cases hindexes : indexes source u with
    | true => exact Or.inl ⟨u, ⟨hu, hindexes⟩, hr⟩
    | false => exact Or.inr ⟨u, ⟨hu, by simp [hindexes]⟩, hr⟩
  · rintro (⟨u, ⟨hu, -⟩, hr⟩ | ⟨u, ⟨hu, -⟩, hr⟩)
    · exact ⟨u, hu, hr⟩
    · exact ⟨u, hu, hr⟩

theorem sound_all_iff (h : Sound (indexedReadings source outbox)) :
    Sound (allReadings source outbox) ↔ Harmless source outbox := by
  constructor
  · intro hall
    refine ⟨fun hmem => hall.available (mem_allReadings.2 (Or.inr hmem)), fun d hd d' hd' => ?_⟩
    exact hall.agree d (mem_texts.2 (mem_allReadings.2 (Or.inr (mem_texts.1 hd)))) d' hd'
  · rintro ⟨havailable, hagree⟩
    refine ⟨fun hmem => (mem_allReadings.1 hmem).elim h.available havailable, fun d hd d' hd' hid => ?_⟩
    rcases mem_allReadings.1 (mem_texts.1 hd) with hindexed | hother
    · rcases mem_allReadings.1 (mem_texts.1 hd') with hindexed' | hother'
      · exact h.agree d (mem_texts.2 hindexed) d' (mem_texts.2 hindexed') hid
      · exact (hagree d' (mem_texts.2 hother') d hd hid.symm).symm
    · exact hagree d (mem_texts.2 hother) d' hd' hid

/-! ## The check -/

def checkReading (state : CheckState) : Reading U → CheckState
  | .unavailable => { state with unreadable := state.unreadable + 1 }
  | .blank => state
  | .text document =>
    match state.identities document.contentId with
    | none =>
      { state with
        identities := Function.update state.identities document.contentId (some (identityOf document))
        checked := state.checked + 1 }
    | some identity =>
      if identity = identityOf document then { state with checked := state.checked + 1 }
      else { state with conflicting := state.conflicting + 1 }

theorem checkRef_eq (state : CheckState) : checkRef source u scope state ref =
    if indexable ref && !ledgerPurged source ref.contentId then checkReading state (readDocument source u scope ref)
    else state := by
  unfold checkRef
  cases hindexable : indexable ref with
  | false => rfl
  | true =>
    cases hpurged : ledgerPurged source ref.contentId with
    | true => rfl
    | false =>
      cases hread : readDocument source u scope ref with
      | unavailable | blank => rfl
      | text d =>
        simp only [checkReading, (readDocument_text hread).1]
        rfl

theorem checkEvent_eq (state : CheckState) (u : U) :
    checkEvent source state u = (readings source u).foldl checkReading state := by
  unfold checkEvent readings
  cases hscope : scopeOf (source.event u) with
  | none => rfl
  | some scope =>
    dsimp only
    rw [foldl_map, foldl_filter]
    congr 1
    funext state ref
    exact checkRef_eq state

/-- The check so far: nothing counted, and the identities bound are those of the documents read; or they are unsound. -/
structure CheckInv (state : CheckState) (rs : List (Reading U)) : Prop where
  clean : state.unreadable = 0 → state.conflicting = 0 →
    Sound rs ∧ Binds (·.contentId) identityOf state.identities (texts rs)
  counted : state.unreadable ≠ 0 ∨ state.conflicting ≠ 0 → ¬ Sound rs

theorem CheckInv.next {state : CheckState} (h : CheckInv state rs) (r : Reading U) :
    CheckInv (checkReading state r) (rs ++ [r]) := by
  have hmono : Sound (rs ++ [r]) → Sound rs := fun hs => hs.of_subset fun _ => mem_append_left _
  cases r with
  | unavailable =>
    have hnot : ¬ Sound (rs ++ [Reading.unavailable]) := fun hs =>
      hs.available (mem_append_right _ (mem_singleton_self _))
    exact ⟨fun hu => absurd hu (Nat.succ_ne_zero _), fun _ => hnot⟩
  | blank =>
    have htexts : texts (rs ++ [Reading.blank]) = texts rs := by
      rw [texts_append]
      exact append_nil _
    refine ⟨fun hu hc => ?_, fun hcount hs => h.counted hcount (hmono hs)⟩
    obtain ⟨hs, hbinds⟩ := h.clean hu hc
    rw [htexts]
    refine ⟨⟨fun hmem => ?_, htexts ▸ hs.agree⟩, hbinds⟩
    rcases mem_append.1 hmem with hmem | hmem
    · exact hs.available hmem
    · cases mem_singleton.1 hmem
  | text d =>
    have htexts : texts (rs ++ [Reading.text d]) = texts rs ++ [d] := texts_append
    have hsound : Sound rs → Agree (·.contentId) identityOf (texts rs ++ [d]) → Sound (rs ++ [Reading.text d]) := by
      intro hs hagree
      refine ⟨fun hmem => ?_, htexts ▸ hagree⟩
      rcases mem_append.1 hmem with hmem | hmem
      · exact hs.available hmem
      · cases mem_singleton.1 hmem
    unfold checkReading
    dsimp only
    split
    · rename_i hfree
      refine ⟨fun hu hc => ?_, fun hcount hs => h.counted hcount (hmono hs)⟩
      obtain ⟨hs, hbinds⟩ := h.clean hu hc
      have hsame : ∀ i, state.identities d.contentId = some i → i = identityOf d := fun i hi => by
        rw [hfree] at hi
        cases hi
      rw [htexts]
      exact ⟨hsound hs (hbinds.agree_snoc.2 hsame), hbinds.snoc hsame (Function.update_self ..)
        fun k hk => Function.update_of_ne hk ..⟩
    · rename_i identity hbound
      split
      · rename_i hsame
        refine ⟨fun hu hc => ?_, fun hcount hs => h.counted hcount (hmono hs)⟩
        obtain ⟨hs, hbinds⟩ := h.clean hu hc
        have hsame' : ∀ i, state.identities d.contentId = some i → i = identityOf d := fun i hi => by
          rw [hbound] at hi
          exact (Option.some.inj hi).symm.trans hsame
        rw [htexts]
        exact ⟨hsound hs (hbinds.agree_snoc.2 hsame'), hbinds.snoc hsame' (hbound.trans (congrArg some hsame)) fun _ _ => rfl⟩
      · rename_i hdiffer
        refine ⟨fun _ hc => absurd hc (Nat.succ_ne_zero _), fun _ hs => ?_⟩
        by_cases hclean : state.unreadable = 0 ∧ state.conflicting = 0
        · obtain ⟨-, hbinds⟩ := h.clean hclean.1 hclean.2
          exact hdiffer (hbinds.agree_snoc.1 (htexts ▸ hs.agree) identity hbound)
        · exact h.counted (by omega) (hmono hs)

theorem CheckInv.run : ∀ {state : CheckState} {before : List (Reading U)}, CheckInv state before →
    CheckInv (rs.foldl checkReading state) (before ++ rs) := by
  induction rs with
  | nil =>
    intro state before h
    rw [append_nil]
    exact h
  | cons r rs ih =>
    intro state before h
    rw [foldl_cons, ← singleton_append, ← append_assoc]
    exact ih (h.next r)

theorem check_error_iff (outbox : Outbox source) :
    (∃ e, checkReplay source outbox = .error e) ↔ ¬ Sound (allReadings source outbox) := by
  have hfold : (deliveredEvents source outbox).foldl (checkEvent source) ⟨fun _ => none, 0, 0, 0⟩ =
      (allReadings source outbox).foldl checkReading ⟨fun _ => none, 0, 0, 0⟩ := by
    unfold allReadings
    rw [foldl_flatMap]
    congr 1
    funext state u
    exact checkEvent_eq state u
  have hstart : CheckInv ⟨fun _ => none, 0, 0, 0⟩ ([] : List (Reading U)) :=
    ⟨fun _ _ => ⟨sound_nil, binds_nil⟩, fun h => by simp at h⟩
  have hinv : CheckInv ((allReadings source outbox).foldl checkReading ⟨fun _ => none, 0, 0, 0⟩)
      ([] ++ allReadings source outbox) := hstart.run
  rw [nil_append] at hinv
  unfold checkReplay
  rw [hfold]
  dsimp only
  split
  · rename_i hcount
    exact ⟨fun _ => hinv.counted hcount, fun _ => ⟨_, rfl⟩⟩
  · rename_i hclean
    have hs := (hinv.clean (by omega) (by omega)).1
    exact ⟨fun ⟨_, h⟩ => (nomatch h), fun hnot => absurd hs hnot⟩

/-! ## The replay -/

section Replay

variable [LinearOrder U] {tables : Tables U T V} {entries ds : List (Stated U)}
variable {rs : List (Reading U)}

def rowIdentity (row : Document U T) : Identity := (row.projectId, row.repositoryId, row.contentSha256, row.mediaType)

def nodeIdentity (node : EmbeddingNode U V) : Identity :=
  (node.projectId, node.repositoryId, node.contentSha256, node.mediaType)

def Tables.identities (tables : Tables U T V) (contentId : String) : Option Identity :=
  (tables.documents contentId).map rowIdentity

/-- The tables and the graph after some readings. -/
structure ReplayInv (source : Source U T V) (tables : Tables U T V) (entries : List (Stated U)) : Prop where
  tombstones : ∀ c, (tables.tombstones c).isSome = ledgerPurged source c
  unpurged : ∀ d ∈ entries, ledgerPurged source d.contentId = false
  documents : Binds (·.contentId) identityOf tables.identities entries
  nodes : ∀ c node, tables.nodes c = some node → tables.identities c = some (nodeIdentity node)

omit [LinearOrder U] in
theorem sameIdentity_iff {row : Document U T} : SameIdentity row d ↔ rowIdentity row = identityOf d := by
  simp [SameIdentity, rowIdentity, identityOf]

theorem upsert_identity {toTsvector : String → T} {row : Option (Document U T)} {row' : Document U T}
    (h : upsert toTsvector row d = some row') : rowIdentity row' = identityOf d := by
  cases row with
  | none =>
    cases h
    rfl
  | some row =>
    obtain ⟨hsame, ⟨⟩⟩ := Option.ite_none_right_eq_some.1 h
    exact sameIdentity_iff.1 hsame

theorem writeDocument_spec (source : Source U T V) (hfree : tables.tombstones d.contentId = none) :
    ((∀ i, tables.identities d.contentId = some i → i = identityOf d) ∧ ∃ row, rowIdentity row = identityOf d ∧
      writeDocument source tables d =
        .ok { tables with documents := Function.update tables.documents d.contentId (some row) }) ∨
    (¬ (∀ i, tables.identities d.contentId = some i → i = identityOf d) ∧ ∃ e, writeDocument source tables d = .error e) := by
  have hnot : ¬ (tables.tombstones d.contentId).isSome = true := by simp [hfree]
  unfold writeDocument
  dsimp only
  rw [if_neg hnot]
  cases hupsert : upsert source.toTsvector (tables.documents d.contentId) d with
  | none =>
    refine Or.inr ⟨fun hsame => ?_, _, rfl⟩
    cases hrow : tables.documents d.contentId with
    | none => simp [hrow, upsert] at hupsert
    | some row =>
      have hidentity := hsame (rowIdentity row) (by simp [Tables.identities, hrow])
      simp [hrow, upsert, sameIdentity_iff, hidentity] at hupsert
  | some row =>
    refine Or.inl ⟨fun i hi => ?_, row, upsert_identity hupsert, rfl⟩
    obtain ⟨old, hold, rfl⟩ := Option.map_eq_some_iff.1 hi
    rw [hold] at hupsert
    simp only [upsert, Option.ite_none_right_eq_some] at hupsert
    exact sameIdentity_iff.1 hupsert.1

theorem writeDocuments_spec (source : Source U T V) : ∀ {ds : List (Stated U)} {tables : Tables U T V} {entries : List (Stated U)},
    Binds (·.contentId) identityOf tables.identities entries → (∀ d ∈ ds, tables.tombstones d.contentId = none) →
    (∃ tables', ds.foldlM (writeDocument source) tables = .ok tables' ∧ tables'.tombstones = tables.tombstones ∧
      tables'.nodes = tables.nodes ∧ Binds (·.contentId) identityOf tables'.identities (entries ++ ds)) ∨
    (¬ Agree (·.contentId) identityOf (entries ++ ds) ∧ ∃ e, ds.foldlM (writeDocument source) tables = .error e)
  | [], tables, entries, h, _ => Or.inl ⟨tables, rfl, rfl, rfl, by rwa [append_nil]⟩
  | d :: ds, tables, entries, h, hfree => by
    have hcons : entries ++ d :: ds = (entries ++ [d]) ++ ds := by simp
    rw [foldlM_cons, hcons]
    rcases writeDocument_spec source (hfree d mem_cons_self) with ⟨hsame, row, hrow, hwrite⟩ | ⟨hdiffer, e, hwrite⟩
    · have hbinds : Binds (·.contentId) identityOf
          ({ tables with documents := Function.update tables.documents d.contentId (some row) } : Tables U T V).identities
          (entries ++ [d]) := by
        refine h.snoc hsame ?_ fun k hk => ?_
        · simp [Tables.identities, hrow]
        · simp [Tables.identities, Function.update_of_ne hk]
      rw [hwrite]
      exact writeDocuments_spec source hbinds fun d' hd' => hfree d' (mem_cons_of_mem _ hd')
    · rw [hwrite]
      refine Or.inr ⟨fun hagree => hdiffer (h.agree_snoc.1 ?_), e, rfl⟩
      exact hagree.of_subset fun _ => mem_append_left _

omit [LinearOrder U] in
theorem nodeIdentity_iff {node : EmbeddingNode U V} : nodeIdentity node = identityOf d ↔
    (node.projectId = d.projectId ∧ node.repositoryId = d.repositoryId) ∧ node.contentSha256 = d.contentSha256 ∧
      node.mediaType = d.mediaType := by
  simp [nodeIdentity, identityOf, and_assoc]

theorem writeEmbeddings_spec (embedder : Embedder V) : ∀ {ds : List (Stated U)} {tables : Tables U T V},
    (∀ c node, tables.nodes c = some node → tables.identities c = some (nodeIdentity node)) →
    (∀ d ∈ ds, tables.identities d.contentId = some (identityOf d)) →
    ∃ tables', ds.foldlM (writeEmbedding embedder) tables = .ok tables' ∧ tables'.tombstones = tables.tombstones ∧
      tables'.documents = tables.documents ∧
      ∀ c node, tables'.nodes c = some node → tables'.identities c = some (nodeIdentity node)
  | [], tables, h, _ => ⟨tables, rfl, rfl, rfl, h⟩
  | d :: ds, tables, h, hbound => by
    have hd := hbound d mem_cons_self
    have hexisting : ∀ node, tables.nodes d.contentId = some node → nodeIdentity node = identityOf d := fun node hnode =>
      Option.some.inj ((h _ _ hnode).symm.trans hd)
    have hwrite : writeEmbedding embedder tables d = .ok { tables with
        nodes := Function.update tables.nodes d.contentId (some (embeddingNode embedder (tables.nodes d.contentId) d)) } := by
      unfold writeEmbedding
      dsimp only
      cases hnode : tables.nodes d.contentId with
      | none => rfl
      | some node =>
        obtain ⟨⟨hproject, hrepository⟩, hsha, hmedia⟩ := nodeIdentity_iff.1 (hexisting node hnode)
        simp [hproject, hrepository, hsha, hmedia]
    have hself : nodeIdentity (embeddingNode embedder (tables.nodes d.contentId) d) = identityOf d := by
      refine nodeIdentity_iff.2 ⟨?_, rfl, rfl⟩
      cases hnode : tables.nodes d.contentId with
      | none => exact ⟨rfl, rfl⟩
      | some node => exact (nodeIdentity_iff.1 (hexisting node hnode)).1
    rw [foldlM_cons, hwrite]
    refine writeEmbeddings_spec embedder (fun c node hnode => ?_) fun d' hd' => hbound d' (mem_cons_of_mem _ hd')
    by_cases hc : c = d.contentId
    · subst hc
      simp only [Function.update_self, Option.some.injEq] at hnode
      rw [← hnode, hself]
      exact hd
    · dsimp only at hnode
      rw [Function.update_of_ne hc] at hnode
      exact h c node hnode

/-- The readings of an event's references by the projector. -/
def projectedReadings (source : Source U T V) (u : U) (scope : String × String) (refs : List ContentRef) : List (Reading U) :=
  (refs.filter fun ref => !ledgerPurged source ref.contentId).map (readDocument source u scope)

omit [LinearOrder U] in
theorem readDocuments_spec (u : U) (scope : String × String) (htombstones : ∀ c, (tables.tombstones c).isSome = ledgerPurged source c) :
    ∀ refs, (.unavailable ∉ projectedReadings source u scope refs ∧
        readDocuments source tables u scope refs = .ok (texts (projectedReadings source u scope refs))) ∨
      (.unavailable ∈ projectedReadings source u scope refs ∧ ∃ e, readDocuments source tables u scope refs = .error e)
  | [] => Or.inl ⟨not_mem_nil, rfl⟩
  | ref :: refs => by
    have ih := readDocuments_spec u scope htombstones refs
    unfold readDocuments
    rw [htombstones]
    cases hpurged : ledgerPurged source ref.contentId with
    | true =>
      have hsame : projectedReadings source u scope (ref :: refs) = projectedReadings source u scope refs := by
        simp [projectedReadings, hpurged]
      rw [hsame]
      exact ih
    | false =>
      have hsame : projectedReadings source u scope (ref :: refs) =
          readDocument source u scope ref :: projectedReadings source u scope refs := by
        simp [projectedReadings, hpurged]
      rw [hsame]
      cases hread : readDocument source u scope ref with
      | unavailable => exact Or.inr ⟨mem_cons_self, _, rfl⟩
      | blank =>
        rcases ih with ⟨hnone, hok⟩ | ⟨hsome, herror⟩
        · exact Or.inl ⟨by simpa using hnone, hok⟩
        · exact Or.inr ⟨mem_cons_of_mem _ hsome, herror⟩
      | text d =>
        rcases ih with ⟨hnone, hok⟩ | ⟨hsome, e, herror⟩
        · refine Or.inl ⟨by simpa using hnone, ?_⟩
          simp only [Bool.false_eq_true, if_false, hok]
          rfl
        · refine Or.inr ⟨mem_cons_of_mem _ hsome, e, ?_⟩
          simp only [Bool.false_eq_true, if_false, herror]
          rfl

/-- The transaction and the graph statements of one event. -/
theorem indexEvent_spec {refs : List ContentRef} (h : ReplayInv source tables (texts rs)) (hs : Sound rs) :
    (Sound (rs ++ projectedReadings source u scope refs) ∧ ∃ tables', indexEvent source tables u scope refs = .ok tables' ∧
      ReplayInv source tables' (texts (rs ++ projectedReadings source u scope refs))) ∨
    (¬ Sound (rs ++ projectedReadings source u scope refs) ∧ ∃ e, indexEvent source tables u scope refs = .error e) := by
  unfold indexEvent
  rcases readDocuments_spec u scope h.tombstones refs with ⟨havailable, hread⟩ | ⟨hlost, e, hread⟩
  · rw [hread]
    have hunpurged : ∀ d ∈ texts (projectedReadings source u scope refs), ledgerPurged source d.contentId = false := by
      intro d hd
      obtain ⟨ref, href, hreading⟩ := mem_map.1 (mem_texts.1 hd)
      have hkept := (mem_filter.1 href).2
      rw [(readDocument_text hreading).1]
      simpa using hkept
    have hfree : ∀ d ∈ texts (projectedReadings source u scope refs), tables.tombstones d.contentId = none := fun d hd =>
      Option.not_isSome_iff_eq_none.1 (by rw [h.tombstones, hunpurged d hd]; exact nofun)
    rcases writeDocuments_spec source h.documents hfree with ⟨tables', hwrite, htombstones, hnodes, hbinds⟩ | ⟨hdiffer, e, hwrite⟩
    · have hsound : Sound (rs ++ projectedReadings source u scope refs) :=
        ⟨fun hmem => (mem_append.1 hmem).elim hs.available havailable, by rw [texts_append]; exact hbinds.agree⟩
      have htombstones' : ∀ c, (tables'.tombstones c).isSome = ledgerPurged source c := fun c => htombstones ▸ h.tombstones c
      have hunpurged' : ∀ d ∈ texts (rs ++ projectedReadings source u scope refs), ledgerPurged source d.contentId = false := by
        rw [texts_append]
        exact fun d hd => (mem_append.1 hd).elim (h.unpurged d) (hunpurged d)
      -- what a node has is what an earlier document has
      have hnodes' : ∀ c node, tables'.nodes c = some node → tables'.identities c = some (nodeIdentity node) := by
        intro c node hnode
        rw [hnodes] at hnode
        obtain ⟨d, hd, hid, hidentity⟩ := (h.documents _ _).1 (h.nodes c node hnode)
        exact (hbinds _ _).2 ⟨d, mem_append_left _ hd, hid, hidentity⟩
      refine Or.inl ⟨hsound, ?_⟩
      simp only [bind, Except.bind, hwrite]
      cases hembeddings : source.embeddings with
      | none => exact ⟨tables', rfl, htombstones', hunpurged', by rw [texts_append]; exact hbinds, hnodes'⟩
      | some embedder =>
        have hwritten : ∀ d ∈ (texts (projectedReadings source u scope refs)).filter
            (fun d => (tables.tombstones d.contentId).isNone), tables'.identities d.contentId = some (identityOf d) :=
          fun d hd => hbinds.bound (mem_append_right _ (mem_filter.1 hd).1)
        obtain ⟨tables'', hok, htombs, hdocs, hn⟩ := writeEmbeddings_spec embedder hnodes' hwritten
        refine ⟨tables'', hok, fun c => htombs ▸ htombstones' c, hunpurged', ?_, hn⟩
        have hidentities : tables''.identities = tables'.identities := by
          unfold Tables.identities
          rw [hdocs]
        rw [texts_append, hidentities]
        exact hbinds
    · refine Or.inr ⟨fun hsound => hdiffer (by rw [← texts_append]; exact hsound.agree), e, ?_⟩
      simp only [bind, Except.bind, hwrite]
  · refine Or.inr ⟨fun hsound => hsound.available (mem_append_right _ hlost), e, ?_⟩
    simp only [bind, Except.bind, hread]

/-- The readings of an event by the projector: those of the check, in the order of the content ids. -/
def projected (source : Source U T V) (u : U) : List (Reading U) :=
  if (source.event u).eventType = contentPurgedType then []
  else
    match scopeOf (source.event u) with
    | none => []
    | some scope => projectedReadings source u scope (sortBy (·.contentId) ((source.event u).contentRefs.filter indexable))

omit [LinearOrder U] in
theorem mem_projected (hu : handles source (source.event u).eventType = true) {r : Reading U} :
    r ∈ projected source u ↔ indexes source u = true ∧ r ∈ readings source u := by
  unfold projected indexes readings
  rw [hu]
  by_cases hpurge : (source.event u).eventType = contentPurgedType
  · simp [hpurge]
  · rw [if_neg hpurge]
    cases hscope : scopeOf (source.event u) with
    | none => simp
    | some scope =>
      simp only [projectedReadings, mem_map, mem_filter, mem_sortBy, Bool.and_eq_true, Bool.true_and,
        decide_eq_true_eq, hpurge, ne_eq, not_false_eq_true, true_and, and_assoc]

theorem project_spec (hledger : u ∈ source.ledger) (h : ReplayInv source tables (texts rs)) (hs : Sound rs) :
    (Sound (rs ++ projected source u) ∧ ∃ tables', project source tables u = .ok tables' ∧
      ReplayInv source tables' (texts (rs ++ projected source u))) ∨
    (¬ Sound (rs ++ projected source u) ∧ ∃ e, project source tables u = .error e) := by
  unfold project projected
  dsimp only
  by_cases hpurge : (source.event u).eventType = contentPurgedType
  · rw [if_pos hpurge, if_pos hpurge, append_nil]
    refine Or.inl ⟨hs, _, rfl, ?_⟩
    have hpurged : ∀ c ∈ (source.event u).purgedContents, ledgerPurged source c = true :=
      fun _ hc => ledgerPurged_of hledger hpurge hc
    -- a purged content has no document and no node to lose
    have hnone : ∀ c ∈ (source.event u).purgedContents, tables.identities c = none := fun c hc =>
      h.documents.free fun d hd hid => by
        have hunpurged := h.unpurged d hd
        rw [hid, hpurged c hc] at hunpurged
        cases hunpurged
    have hidentities : (purge tables u (source.event u)).identities = tables.identities := by
      funext c
      by_cases hc : c ∈ (source.event u).purgedContents
      · rw [hnone c hc]
        simp [Tables.identities, purge, hc]
      · simp [Tables.identities, purge, hc]
    refine ⟨fun c => ?_, h.unpurged, by rw [hidentities]; exact h.documents, fun c node hnode => ?_⟩
    · by_cases hc : c ∈ (source.event u).purgedContents
      · simp [purge, hc, hpurged c hc]
      · simp [purge, hc, h.tombstones c]
    · rw [hidentities]
      by_cases hc : c ∈ (source.event u).purgedContents
      · simp [purge, hc] at hnode
      · exact h.nodes c node (by simpa [purge, hc] using hnode)
  · rw [if_neg hpurge, if_neg hpurge]
    cases hscope : scopeOf (source.event u) with
    | none =>
      dsimp only
      rw [append_nil]
      exact Or.inl ⟨hs, tables, rfl, h⟩
    | some scope => exact indexEvent_spec h hs

theorem replay_spec : ∀ {us : List U} {tables : Tables U T V} {rs : List (Reading U)},
    (∀ u ∈ us, u ∈ source.ledger) → ReplayInv source tables (texts rs) → Sound rs →
    ((∃ e, us.foldlM (project source) tables = .error e) ↔ ¬ Sound (rs ++ us.flatMap (projected source)))
  | [], tables, rs, _, _, hs => by
    rw [flatMap_nil, append_nil]
    exact ⟨fun ⟨_, h⟩ => (nomatch h), fun hnot => absurd hs hnot⟩
  | u :: us, tables, rs, hledger, h, hs => by
    rw [foldlM_cons, flatMap_cons, ← append_assoc]
    rcases project_spec (hledger u mem_cons_self) h hs with ⟨hs', tables', hproject, h'⟩ | ⟨hnot, e, hproject⟩
    · rw [hproject]
      exact replay_spec (fun u' hu' => hledger u' (mem_cons_of_mem _ hu')) h' hs'
    · rw [hproject]
      refine ⟨fun _ hs' => hnot (hs'.of_subset fun _ => mem_append_left _), fun _ => ⟨e, rfl⟩⟩

theorem reset_inv (tables : Tables U T V) : ReplayInv source (reset source tables) [] where
  tombstones := fun c => by
    unfold reset
    dsimp only
    cases hpurged : ledgerPurged source c with
    | false => rfl
    | true =>
      cases htombstone : tables.tombstones c with
      | some tombstone => rfl
      | none =>
        have hne : purgesOf source c ≠ [] := by simpa [ledgerPurged] using hpurged
        obtain ⟨u, hu⟩ := exists_mem_of_ne_nil _ hne
        obtain ⟨least, hleast⟩ := exists_leastBy (fun u => toLex ((source.event u).recordedAt, u)) hu
        simp [hleast]
  unpurged := fun _ hd => nomatch hd
  documents := binds_nil
  nodes := fun _ _ hnode => nomatch hnode

omit [LinearOrder U] in
theorem deliveredEvents_ledger (outbox : Outbox source) : ∀ u ∈ deliveredEvents source outbox, u ∈ source.ledger := by
  intro u hu
  obtain ⟨row, hrow, rfl⟩ := mem_map.1 hu
  exact outbox.references row (mem_filter.1 (mem_sortBy.1 hrow)).1

theorem replay_error_iff (outbox : Outbox source) (tables : Tables U T V) :
    (∃ e, replay source outbox (reset source tables) = .error e) ↔ ¬ Sound (indexedReadings source outbox) := by
  have hledger : ∀ u ∈ (deliveredEvents source outbox).filter fun u => handles source (source.event u).eventType,
      u ∈ source.ledger := fun u hu => deliveredEvents_ledger outbox u (mem_filter.1 hu).1
  unfold replay
  rw [replay_spec hledger (reset_inv tables) sound_nil, nil_append]
  refine not_congr (sound_congr fun r => ?_)
  simp only [indexedReadings, mem_flatMap, mem_filter]
  constructor
  · rintro ⟨u, ⟨hu, hhandles⟩, hr⟩
    obtain ⟨hindexes, hr⟩ := (mem_projected hhandles).1 hr
    exact ⟨u, ⟨hu, hindexes⟩, hr⟩
  · rintro ⟨u, ⟨hu, hindexes⟩, hr⟩
    have hhandles : handles source (source.event u).eventType = true := (Bool.and_eq_true _ _ ▸ hindexes).1
    exact ⟨u, ⟨hu, hhandles⟩, (mem_projected hhandles).2 ⟨hindexes, hr⟩⟩

/-- **When the check is exact.**  `check_replay` raises where the replay would be refused, and nowhere else, exactly if
what it reads of the events that the projector does not index is harmless, or the replay would be refused already. -/
theorem check_exact_iff (source : Source U T V) (outbox : Outbox source) (tables : Tables U T V) :
    ((∃ e, checkReplay source outbox = .error e) ↔ ∃ e, replay source outbox (reset source tables) = .error e) ↔
      Harmless source outbox ∨ ¬ Sound (indexedReadings source outbox) := by
  rw [check_error_iff, replay_error_iff]
  by_cases hindexed : Sound (indexedReadings source outbox)
  · rw [sound_all_iff hindexed]
    simp [hindexed]
  · have hall : ¬ Sound (allReadings source outbox) := fun hs => hindexed (hs.of_subset fun r hr => mem_allReadings.2 (Or.inl hr))
    simp [hindexed, hall]

end Replay

end Exact

/-! ## A check that is stricter -/

/-- The start of a session names content that is gone; the projector indexes turns only. -/
def sessionSource : Source Nat String Nat where
  ledger := [0, 1]
  event u :=
    if u = 0 then
      ⟨"agent.turn.started", some "p", some "r", some "s", 10, 10, [⟨"a", "sha-a", "text/plain", "sanitized"⟩], [], 0⟩
    else
      ⟨"agent.session.started", some "p", some "r", some "s", 5, 11, [⟨"b", "sha-b", "text/plain", "sanitized"⟩], [], 0⟩
  indexedEventTypes := ["agent.turn.started"]
  readable _ ref := ref.contentId = "a"
  text sha _ := sha
  toTsvector body := body
  embeddings := some ⟨"model", "1", fun body => (body.length, false)⟩

def sessionOutbox : Outbox sessionSource where
  rows := [(1, 0, .delivered), (2, 1, .delivered)]
  references := by decide

def noTables : Tables Nat String Nat := ⟨fun _ => none, fun _ => none, fun _ => none⟩

/-- The replay would succeed, and the check stops the rebuild. -/
theorem check_stricter :
    ¬ ((∃ e, checkReplay sessionSource sessionOutbox = .error e) ↔
      ∃ e, replay sessionSource sessionOutbox (reset sessionSource noTables) = .error e) := by
  have hcheck : checkReplay sessionSource sessionOutbox = .error ⟨1, 0⟩ := by rfl
  have hreplay : (match replay sessionSource sessionOutbox (reset sessionSource noTables) with
      | .ok _ => true
      | .error _ => false) = true := by
    decide +kernel
  intro h
  obtain ⟨e, he⟩ := h.1 ⟨_, hcheck⟩
  rw [he] at hreplay
  cases hreplay

end Search
