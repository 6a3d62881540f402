import AgentContext.Search.ReplayCheck
import AgentContext.Search.Workers

/-!
# Answers survive a rebuild

A row of the live table is of every event whose transaction was committed, delivered or not; a row of the rebuilt table
is of the delivered events alone.  The query looks at the delivered sources of a row only, and they are the same.

    Inv.current      the live row describes what the committed events state
    replay_shows     the rebuilt row describes what the delivered events state
    hit_eq           the two give one hit
-/

namespace Search

open Keyset Bindings Transition Projection List

variable {U T V Q S : Type}

/-! ## The query -/

/-- PostgreSQL text search: `websearch_to_tsquery`, `@@` and `ts_rank_cd`. -/
structure TextSearch (T Q S : Type) where
  tsquery : String → Q
  isMatch : T → Q → Bool
  rank : T → Q → S

structure SearchScope where
  projectId : String
  repositoryId : String

structure SearchHit (U S : Type) where
  contentId : String
  score : S
  projectId : String
  repositoryId : String
  sessionId : Option String
  eventId : U
  eventType : String
  occurredAt : Int
  sourceEventIds : List U
  redaction : String
deriving DecidableEq, Repr

def maxLimit : Nat := 100

def maxQueryChars : Nat := 1000

section Query

variable [LinearOrder U] [LinearOrder S] (source : Source U T V) (search : TextSearch T Q S) (status : U → OutboxStatus)

/-- `delivered.ids` of `_DELIVERED_PROVENANCE`. -/
def deliveredIds (row : Document U T) : List U := sortedSet (row.sourceEventIds.filter fun u => status u = .delivered)

/-- `first` of `_DELIVERED_PROVENANCE`. -/
def firstDelivered (row : Document U T) : Option U :=
  leastBy (fun u => toLex ((source.event u).occurredAt, u)) (deliveredIds status row)

/-- The row of `_LEXICAL` for a document, if it has one. -/
def hitOf (tsq : Q) (scope : SearchScope) (row : Document U T) : Option (SearchHit U S) :=
  if row.projectId = scope.projectId ∧ row.repositoryId = scope.repositoryId ∧ search.isMatch row.tsv tsq then
    (firstDelivered source status row).map fun first =>
      { contentId := row.contentId
        score := search.rank row.tsv tsq
        projectId := row.projectId
        repositoryId := row.repositoryId
        sessionId := (source.event first).sessionId
        eventId := first
        eventType := (source.event first).eventType
        occurredAt := (source.event first).occurredAt
        sourceEventIds := deliveredIds status row
        redaction := row.redaction }
  else none

/-- The content ids that the ledger names. -/
def contentIds : List String := sortedSet (source.ledger.flatMap fun u => (source.event u).contentRefs.map (·.contentId))

/-- `_LEXICAL`. -/
def lexicalRows (documents : String → Option (Document U T)) (tsq : Q) (scope : SearchScope) (limit : Nat) :
    List (SearchHit U S) :=
  (sortBy (fun hit => toLex (OrderDual.toDual hit.score, hit.contentId))
    ((contentIds source).filterMap fun c => (documents c).bind (hitOf source search status tsq scope))).take limit

/-- `lexical`: none where the request is refused. -/
def lexical (documents : String → Option (Document U T)) (query : String) (scope : SearchScope) (limit : Nat) :
    Option (List (SearchHit U S)) :=
  let cleaned := Text.strip query.toList
  if Text.strip scope.projectId.toList = [] ∨ Text.strip scope.repositoryId.toList = [] ∨ cleaned = [] ∨
      maxQueryChars < cleaned.length ∨ limit = 0 ∨ maxLimit < limit then none
  else some (lexicalRows source search status documents (search.tsquery (String.ofList cleaned)) scope limit)

end Query

variable {d : Stated U} {tables : Tables U T V}

/-! ## What the replay leaves -/

section Replayed

variable [LinearOrder U] {source : Source U T V} {lockHash : String → Int} {u : U} {scope : String × String} {ref : ContentRef}

section

omit [LinearOrder U]

theorem corpus_event (htype : (source.event u).eventType ≠ contentPurgedType) : (source.corpus lockHash).event u =
    .content (source.event u).eventType (source.event u).projectId (source.event u).repositoryId (source.event u).sessionId
      (source.event u).occurredAt (source.event u).contentRefs := by
  simp only [Source.corpus, if_neg htype]

theorem scopeOf_some {event : LedgerEvent} (h : scopeOf event = some scope) :
    event.projectId = some scope.1 ∧ event.repositoryId = some scope.2 := by
  unfold scopeOf at h
  split at h
  · rename_i hproject hrepository
    cases h
    exact ⟨hproject, hrepository⟩
  · cases h

theorem readDocument_stated (htype : (source.event u).eventType ≠ contentPurgedType)
    (hscope : scopeOf (source.event u) = some scope) (hread : source.readable u ref = true) :
    (readDocument source u scope ref).document? = stated (source.corpus lockHash) u ref := by
  obtain ⟨hproject, hrepository⟩ := scopeOf_some hscope
  have htext : (source.corpus lockHash).text = source.text := rfl
  unfold stated readDocument
  rw [corpus_event htype, hproject, hrepository, htext]
  dsimp only
  rw [if_neg (by rw [hread]; exact nofun)]
  by_cases hblank : Text.strip (source.text ref.contentSha256 ref.mediaType).toList = []
  · rw [if_pos hblank, if_pos hblank]
    rfl
  · rw [if_neg hblank, if_neg hblank]
    rfl

theorem readable_of_text (h : readDocument source u scope ref = .text d) : source.readable u ref = true := by
  unfold readDocument at h
  dsimp only at h
  split at h
  · cases h
  · rename_i hread
    simpa using hread

theorem inCorpus_readDocument (htype : (source.event u).eventType ≠ contentPurgedType)
    (hscope : scopeOf (source.event u) = some scope) (hindexable : indexable ref = true)
    (h : readDocument source u scope ref = .text d) : InCorpus (source.corpus lockHash) d :=
  ⟨u, ref, hindexable, by rw [← readDocument_stated htype hscope (readable_of_text h), h]; rfl⟩

end

theorem writeDocument_shows {tables tables' : Tables U T V} {entries : List (Stated U)}
    (hcorpus : ∀ s ∈ entries ++ [d], InCorpus (source.corpus lockHash) s)
    (hfree : tables.tombstones d.contentId = none) (hwrite : writeDocument source tables d = .ok tables')
    (hshows : ∀ c, Shows (source.corpus lockHash) (about c entries) (tables.documents c)) :
    ∀ c, Shows (source.corpus lockHash) (about c (entries ++ [d])) (tables'.documents c) := by
  intro c
  unfold writeDocument at hwrite
  dsimp only at hwrite
  rw [if_neg (by rw [hfree]; exact nofun)] at hwrite
  split at hwrite
  · rename_i row hupsert
    cases hwrite
    dsimp only
    by_cases hc : c = d.contentId
    · subst hc
      have habout : about d.contentId (entries ++ [d]) = about d.contentId entries ++ [d] := by simp [about]
      rw [Function.update_self, habout]
      have hbefore := hshows d.contentId
      cases hrow : tables.documents d.contentId with
      | none =>
        rw [hrow] at hupsert hbefore
        cases hupsert
        rw [show about d.contentId entries = [] from hbefore]
        exact describes_insert d
      | some old =>
        rw [hrow] at hupsert hbefore
        obtain ⟨hidentity, ⟨⟩⟩ := Option.ite_none_right_eq_some.1 hupsert
        obtain ⟨s, hs, -⟩ := hbefore.least
        have hid : d.contentId = old.contentId :=
          (of_decide_eq_true (List.mem_filter.1 hs).2).symm.trans (hbefore.content s hs).1
        have hall : ∀ s' ∈ about d.contentId entries ++ [d], InCorpus (source.corpus lockHash) s' := fun s' hs' => by
          rcases List.mem_append.1 hs' with hs' | hs'
          · exact hcorpus s' (List.mem_append_left _ (List.mem_filter.1 hs').1)
          · exact hcorpus s' (List.mem_append_right _ hs')
        exact Describes.update hbefore (coherent_of_inCorpus hall) hid hidentity
    · have hnil : about c [d] = [] := about_eq_nil fun s hs => by
        rw [List.mem_singleton.1 hs]
        exact fun heq => hc heq.symm
      have habout : about c (entries ++ [d]) = about c entries := by rw [about_append, hnil, List.append_nil]
      rw [Function.update_of_ne hc, habout]
      exact hshows c
  · cases hwrite

theorem writeDocuments_shows : ∀ {ds : List (Stated U)} {tables tables' : Tables U T V} {entries : List (Stated U)},
    (∀ s ∈ entries ++ ds, InCorpus (source.corpus lockHash) s) → (∀ d ∈ ds, tables.tombstones d.contentId = none) →
    ds.foldlM (writeDocument source) tables = .ok tables' →
    (∀ c, Shows (source.corpus lockHash) (about c entries) (tables.documents c)) →
    ∀ c, Shows (source.corpus lockHash) (about c (entries ++ ds)) (tables'.documents c)
  | [], tables, tables', entries, _, _, hfold, hshows => by
    cases hfold
    rw [append_nil]
    exact hshows
  | d :: ds, tables, tables', entries, hcorpus, hfree, hfold, hshows => by
    have hcons : entries ++ d :: ds = (entries ++ [d]) ++ ds := by simp
    rw [hcons] at hcorpus ⊢
    rw [foldlM_cons] at hfold
    cases hwrite : writeDocument source tables d with
    | error e =>
      rw [hwrite] at hfold
      cases hfold
    | ok tables'' =>
      rw [hwrite] at hfold
      have hd := hfree d mem_cons_self
      have htombstones : tables''.tombstones = tables.tombstones := by
        unfold writeDocument at hwrite
        dsimp only at hwrite
        rw [if_neg (by rw [hd]; exact nofun)] at hwrite
        split at hwrite <;> cases hwrite
        rfl
      have hone : ∀ s ∈ entries ++ [d], InCorpus (source.corpus lockHash) s := fun s hs => hcorpus s (mem_append_left _ hs)
      exact writeDocuments_shows hcorpus (fun d' hd' => htombstones ▸ hfree d' (mem_cons_of_mem _ hd')) hfold
        (writeDocument_shows hone hd hwrite hshows)

omit [LinearOrder U] in
theorem about_projected {c : String} (hc : ledgerPurged source c = false)
    (hread : ∀ ref ∈ indexedRefs (source.corpus lockHash) u, ledgerPurged source ref.contentId = true ∨ source.readable u ref = true) :
    about c (texts (projected source u)) = about c (statements (source.corpus lockHash) u) := by
  unfold projected statements indexedRefs at *
  by_cases htype : (source.event u).eventType = contentPurgedType
  · rw [if_pos htype]
    simp only [Source.corpus, if_pos htype]
    rfl
  · rw [if_neg htype]
    rw [corpus_event htype] at hread ⊢
    cases hscope : scopeOf (source.event u) with
    | none =>
      have hnone : ∀ project repository, ¬ ((source.event u).projectId = some project ∧
          (source.event u).repositoryId = some repository) := by
        rintro project repository ⟨hproject, hrepository⟩
        simp [scopeOf, hproject, hrepository] at hscope
      cases hproject : (source.event u).projectId with
      | none => rfl
      | some project =>
        cases hrepository : (source.event u).repositoryId with
        | none => rfl
        | some repository => exact absurd ⟨hproject, hrepository⟩ (hnone project repository)
    | some scope =>
      obtain ⟨hproject, hrepository⟩ := scopeOf_some hscope
      rw [hproject, hrepository] at hread ⊢
      dsimp only at hread ⊢
      unfold projectedReadings texts about
      rw [filterMap_map, filterMap_filter, filter_filterMap, filter_filterMap]
      refine filterMap_congr fun ref href => ?_
      cases hpurged : ledgerPurged source ref.contentId with
      | false =>
        have hreadable := (hread ref href).resolve_left (by rw [hpurged]; exact Bool.false_ne_true)
        have hdocument : (readDocument source u scope ref).document? = stated (source.corpus lockHash) u ref :=
          readDocument_stated htype hscope hreadable
        simp [hdocument]
      | true =>
        -- a purged content is another one
        cases hstated : stated (source.corpus lockHash) u ref with
        | none => simp
        | some s =>
          have hne : s.contentId ≠ c := by
            rw [stated_contentId hstated]
            rintro rfl
            rw [hpurged] at hc
            cases hc
          simp [Option.filter, hne]

structure Rebuilt (source : Source U T V) (lockHash : String → Int) (tables : Tables U T V) (rs : List (Reading U)) : Prop where
  inv : ReplayInv source tables (texts rs)
  sound : Sound rs
  corpus : ∀ s ∈ texts rs, InCorpus (source.corpus lockHash) s
  shows : ∀ c, Shows (source.corpus lockHash) (about c (texts rs)) (tables.documents c)

omit [LinearOrder U] in
theorem inCorpus_projected (h : d ∈ texts (projected source u)) : InCorpus (source.corpus lockHash) d := by
  have hmem := mem_texts.1 h
  unfold projected at hmem
  split at hmem
  · cases hmem
  · rename_i htype
    split at hmem
    · cases hmem
    · rename_i scope hscope
      obtain ⟨ref, href, hread⟩ := mem_map.1 hmem
      have hindexable := (mem_filter.1 (mem_sortBy.1 (mem_filter.1 href).1)).2
      exact inCorpus_readDocument htype hscope hindexable hread

theorem writeEmbeddings_documents {embedder : Embedder V} : ∀ {ds : List (Stated U)} {tables tables' : Tables U T V},
    ds.foldlM (writeEmbedding embedder) tables = .ok tables' → tables'.documents = tables.documents
  | [], tables, tables', h => by
    cases h
    rfl
  | d :: ds, tables, tables', h => by
    rw [foldlM_cons] at h
    cases hwrite : writeEmbedding embedder tables d with
    | error e =>
      rw [hwrite] at h
      cases h
    | ok tables'' =>
      rw [hwrite] at h
      have hsame : tables''.documents = tables.documents := by
        unfold writeEmbedding at hwrite
        dsimp only at hwrite
        split at hwrite
        · cases hwrite
        · split at hwrite <;> cases hwrite
          rfl
      exact (writeEmbeddings_documents h).trans hsame

/-- One event of the replay: it is not refused where its readings are sound, and its documents are in the table. -/
theorem Rebuilt.project {rs : List (Reading U)} (h : Rebuilt source lockHash tables rs)
    (hledger : u ∈ source.ledger) (hsound : Sound (rs ++ projected source u)) :
    ∃ tables', project source tables u = .ok tables' ∧ Rebuilt source lockHash tables' (rs ++ projected source u) := by
  rcases project_spec hledger h.inv h.sound with ⟨hs, tables', hproject, hinv⟩ | ⟨hnot, -⟩
  · have hcorpus : ∀ s ∈ texts (rs ++ projected source u), InCorpus (source.corpus lockHash) s := fun s hs => by
      rw [texts_append] at hs
      exact (mem_append.1 hs).elim (h.corpus s) inCorpus_projected
    refine ⟨tables', hproject, hinv, hs, hcorpus, ?_⟩
    unfold Search.project at hproject
    unfold projected at hsound hcorpus ⊢
    dsimp only at hproject
    split at hproject
    · rename_i htype
      cases hproject
      rw [if_pos htype, append_nil]
      intro c
      by_cases hc : c ∈ (source.event u).purgedContents
      · have hpurged := ledgerPurged_of hledger htype hc
        have hnil : about c (texts rs) = [] := about_eq_nil fun s hs heq => by
          have hunpurged := h.inv.unpurged s hs
          rw [heq, hpurged] at hunpurged
          cases hunpurged
        simp only [purge, if_pos hc]
        exact hnil
      · simp only [purge, if_neg hc]
        exact h.shows c
    · rename_i htype
      rw [if_neg htype] at hsound hcorpus ⊢
      cases hscope : scopeOf (source.event u) with
      | none =>
        rw [hscope] at hproject
        cases hproject
        simp only [append_nil]
        exact h.shows
      | some scope =>
        rw [hscope] at hproject hsound hcorpus
        dsimp only at hproject hsound hcorpus ⊢
        unfold indexEvent at hproject
        have htombstones := h.inv.tombstones
        rcases readDocuments_spec u scope htombstones
            (sortBy (·.contentId) ((source.event u).contentRefs.filter indexable)) with ⟨-, hread⟩ | ⟨hlost, -⟩
        · rw [hread] at hproject
          simp only [bind, Except.bind] at hproject
          cases hwrite : (texts (projectedReadings source u scope (sortBy (·.contentId)
              ((source.event u).contentRefs.filter indexable)))).foldlM (writeDocument source) tables with
          | error e => simp [hwrite] at hproject
          | ok tables'' =>
            rw [hwrite] at hproject
            have hfree : ∀ d ∈ texts (projectedReadings source u scope (sortBy (·.contentId)
                ((source.event u).contentRefs.filter indexable))), tables.tombstones d.contentId = none := by
              intro d hd
              obtain ⟨ref, href, hreading⟩ := mem_map.1 (mem_texts.1 hd)
              have hkept := (mem_filter.1 href).2
              rw [← (readDocument_text hreading).1] at hkept
              exact Option.not_isSome_iff_eq_none.1 (by rw [htombstones]; simpa using hkept)
            rw [texts_append] at hcorpus ⊢
            have hshows := writeDocuments_shows hcorpus hfree hwrite h.shows
            have hsame : tables'.documents = tables''.documents := by
              cases hembeddings : source.embeddings with
              | none =>
                simp only [hembeddings] at hproject
                cases hproject
                rfl
              | some embedder =>
                simp only [hembeddings] at hproject
                exact writeEmbeddings_documents hproject
            rw [hsame]
            exact hshows
        · exact absurd (mem_append_right _ hlost) hsound.available
  · exact absurd hsound hnot

theorem Rebuilt.replay : ∀ {us : List U} {tables : Tables U T V} {rs : List (Reading U)}, Rebuilt source lockHash tables rs →
    (∀ u ∈ us, u ∈ source.ledger) → Sound (rs ++ us.flatMap (projected source)) →
    ∃ tables', us.foldlM (Search.project source) tables = .ok tables' ∧
      Rebuilt source lockHash tables' (rs ++ us.flatMap (projected source))
  | [], tables, rs, h, _, _ => ⟨tables, rfl, by rwa [flatMap_nil, append_nil]⟩
  | u :: us, tables, rs, h, hledger, hsound => by
    rw [flatMap_cons, ← append_assoc] at hsound ⊢
    obtain ⟨tables', hproject, h'⟩ := h.project (hledger u mem_cons_self)
      (hsound.of_subset fun _ => mem_append_left _)
    rw [foldlM_cons, hproject]
    exact h'.replay (fun u' hu' => hledger u' (mem_cons_of_mem _ hu')) hsound

end Replayed

/-! ## The same answers -/

/-- The outbox has one row for each event of the ledger. -/
structure Queue (source : Source U T V) where
  rows : List (Nat × U)
  covers : ∀ u, u ∈ source.ledger ↔ ∃ n, (n, u) ∈ rows

def Queue.outbox {source : Source U T V} (queue : Queue source) (status : U → OutboxStatus) : Outbox source where
  rows := queue.rows.map fun row => (row.1, row.2, status row.2)
  references := fun row hrow => by
    obtain ⟨⟨n, u⟩, hmem, rfl⟩ := List.mem_map.1 hrow
    exact (queue.covers u).2 ⟨n, hmem⟩

section Answers

variable [LinearOrder U] [LinearOrder S] {source : Source U T V} {lockHash : String → Int} {s : Workers U T}
variable {queue : Queue source}
variable {c : String}

omit [LinearOrder U] in
theorem mem_deliveredEvents {queue : Queue source} {status : U → OutboxStatus} {u : U} :
    u ∈ deliveredEvents source (queue.outbox status) ↔ u ∈ source.ledger ∧ status u = .delivered := by
  unfold deliveredEvents Queue.outbox
  rw [mem_map]
  constructor
  · rintro ⟨row, hrow, rfl⟩
    obtain ⟨hrow, hstatus⟩ := mem_filter.1 (mem_sortBy.1 hrow)
    obtain ⟨⟨n, u⟩, hmem, rfl⟩ := mem_map.1 hrow
    exact ⟨(queue.covers u).2 ⟨n, hmem⟩, of_decide_eq_true hstatus⟩
  · rintro ⟨hledger, hstatus⟩
    obtain ⟨n, hmem⟩ := (queue.covers u).1 hledger
    refine ⟨(n, u, status u), mem_sortBy.2 (mem_filter.2 ⟨mem_map.2 ⟨(n, u), hmem, rfl⟩, ?_⟩), rfl⟩
    exact decide_eq_true hstatus

theorem WorkInv.tombstone_iff (h : WorkInv source lockHash s)
    (hpurges : ∀ u ∈ source.ledger, (source.event u).eventType = contentPurgedType → s.status u = .delivered) (c : String) :
    (s.tables.tombstones c).isSome = true ↔ ledgerPurged source c = true := by
  refine ⟨h.tables.purged c, fun hc => ?_⟩
  have hne : purgesOf source c ≠ [] := by simpa [ledgerPurged] using hc
  obtain ⟨u, hu⟩ := exists_mem_of_ne_nil _ hne
  obtain ⟨hledger, hnames⟩ := mem_filter.1 hu
  simp only [Bool.and_eq_true, decide_eq_true_eq, contains_iff_mem] at hnames
  have hhandles : handles source (source.event u).eventType = true := by simp [handles, hnames.1]
  have hindexed := h.delivered u (hpurges u hledger hnames.1) hhandles
  rw [if_pos hnames.1] at hindexed
  exact hindexed c hnames.2

/-- The delivered events that the projector handles. -/
def replayed (queue : Queue source) (s : Workers U T) : List U :=
  (deliveredEvents source (queue.outbox s.status)).filter fun u => handles source (source.event u).eventType

omit [LinearOrder U] in
theorem mem_replayed {queue : Queue source} {u : U} : u ∈ replayed queue s ↔ Given source u ∧ s.status u = .delivered := by
  unfold replayed Given
  rw [mem_filter, mem_deliveredEvents]
  tauto

omit [LinearOrder U] in
theorem statements_nil {u : U} (htype : (source.event u).eventType = contentPurgedType) :
    statements (source.corpus lockHash) u = [] := by
  simp [statements, indexedRefs, Source.corpus, htype]

theorem WorkInv.committed_of_states (h : WorkInv source lockHash s) {u : U}
    (hgiven : Given source u) (hstatus : s.status u = .delivered) (hd : d ∈ statements (source.corpus lockHash) u) :
    u ∈ s.tables.delivered := by
  have hindexed := h.delivered u hstatus hgiven.2
  split at hindexed
  · rename_i htype
    rw [statements_nil htype] at hd
    cases hd
  · exact hindexed

/-- What the replay reads of a delivered event is what the event states. -/
theorem WorkInv.about_replayed (h : WorkInv source lockHash s) {u : U} (hu : u ∈ replayed queue s)
    (hc : ledgerPurged source c = false) :
    about c (texts (projected source u)) = about c (statements (source.corpus lockHash) u) := by
  obtain ⟨hgiven, hstatus⟩ := mem_replayed.1 hu
  by_cases htype : (source.event u).eventType = contentPurgedType
  · rw [statements_nil htype]
    simp [projected, htype, texts, about]
  · have hindexed := h.delivered u hstatus hgiven.2
    rw [if_neg htype] at hindexed
    have hall := (h.tables.committed u hindexed).2
    exact about_projected hc fun ref href => (hall ref href).imp_left (h.tables.purged _)

omit [LinearOrder U] in
theorem mem_about_history {c : String} {us : List U} :
    d ∈ history (source.corpus lockHash) c us ↔ ∃ u ∈ us, d ∈ about c (statements (source.corpus lockHash) u) := by
  unfold history
  rw [mem_flatMap]

omit [LinearOrder U] in
theorem unpurged_projected {u : U} (h : d ∈ texts (projected source u)) :
    ledgerPurged source d.contentId = false := by
  have hmem := mem_texts.1 h
  unfold projected at hmem
  split at hmem
  · cases hmem
  · split at hmem
    · cases hmem
    · obtain ⟨ref, href, hread⟩ := mem_map.1 hmem
      rw [(readDocument_text hread).1]
      simpa using (mem_filter.1 href).2

/-- What the delivered events state of a content is among what the committed ones do. -/
theorem WorkInv.mem_history (h : WorkInv source lockHash s) (hc : ledgerPurged source c = false) :
    d ∈ about c (texts ((replayed queue s).flatMap (projected source))) ↔
      d ∈ history (source.corpus lockHash) c s.tables.delivered ∧ s.status d.eventId = .delivered := by
  have heventId : ∀ {u}, d ∈ about c (statements (source.corpus lockHash) u) → d.eventId = u := by
    intro u hd
    obtain ⟨ref, -, hstated⟩ := mem_filterMap.1 (mem_filter.1 hd).1
    unfold stated at hstated
    split at hstated
    · dsimp only at hstated
      split at hstated
      · cases hstated
      · cases hstated
        rfl
    · cases hstated
  have hsplit : d ∈ about c (texts ((replayed queue s).flatMap (projected source))) ↔
      ∃ u ∈ replayed queue s, d ∈ about c (statements (source.corpus lockHash) u) := by
    have hone : ∀ u ∈ replayed queue s, d ∈ about c (texts (projected source u)) ↔
        d ∈ about c (statements (source.corpus lockHash) u) := fun u hu => by rw [h.about_replayed hu hc]
    simp only [about, texts, filterMap_flatMap, filter_flatMap, mem_flatMap]
    exact exists_congr fun u => and_congr_right fun hu => hone u hu
  rw [hsplit, mem_about_history]
  constructor
  · rintro ⟨u, hu, hd⟩
    obtain ⟨hgiven, hstatus⟩ := mem_replayed.1 hu
    exact ⟨⟨u, h.committed_of_states hgiven hstatus (mem_filter.1 hd).1, hd⟩, heventId hd ▸ hstatus⟩
  · rintro ⟨⟨u, hu, hd⟩, hstatus⟩
    exact ⟨u, mem_replayed.2 ⟨(h.tables.committed u hu).1, heventId hd ▸ hstatus⟩, hd⟩

/-- The row of a content that is not purged describes what the committed events state. -/
theorem WorkInv.shows (h : WorkInv source lockHash s) (hc : ledgerPurged source c = false) :
    Shows (source.corpus lockHash) (history (source.corpus lockHash) c s.tables.delivered) (s.tables.documents c) := by
  refine h.tables.inv.current c ?_
  cases htombstone : s.tables.tombstones c with
  | none => rfl
  | some tombstone =>
    have hpurged := h.tables.purged c (by rw [htombstone]; rfl)
    rw [hc] at hpurged
    cases hpurged

/-- The replay reads what can be read, and one identity for each content. -/
theorem WorkInv.sound (h : WorkInv source lockHash s) (queue : Queue source) :
    Sound ((replayed queue s).flatMap (projected source)) where
  available := fun hmem => by
    obtain ⟨u, hu, hr⟩ := mem_flatMap.1 hmem
    obtain ⟨hgiven, hstatus⟩ := mem_replayed.1 hu
    have hindexed := h.delivered u hstatus hgiven.2
    unfold projected at hr
    split at hr
    · cases hr
    · rename_i htype
      rw [if_neg htype] at hindexed
      split at hr
      · cases hr
      · rename_i scope hscope
        obtain ⟨ref, href, hread⟩ := mem_map.1 hr
        obtain ⟨href, hunpurged⟩ := mem_filter.1 href
        obtain ⟨hproject, hrepository⟩ := scopeOf_some hscope
        have hindexedRef : ref ∈ indexedRefs (source.corpus lockHash) u := by
          unfold indexedRefs
          rw [corpus_event htype, hproject, hrepository]
          exact href
        rcases (h.tables.committed u hindexed).2 ref hindexedRef with htombstone | hreadable
        · rw [h.tables.purged _ htombstone] at hunpurged
          cases hunpurged
        · unfold readDocument at hread
          dsimp only at hread
          rw [if_neg (by rw [hreadable]; exact nofun)] at hread
          split at hread <;> cases hread
  agree := fun d hd d' hd' hid => by
    have hmem : ∀ {d : Stated U}, d ∈ texts ((replayed queue s).flatMap (projected source)) →
        ledgerPurged source d.contentId = false ∧ d ∈ about d.contentId (texts ((replayed queue s).flatMap (projected source))) := by
      intro d hd
      have hsplit := hd
      rw [texts, filterMap_flatMap] at hsplit
      obtain ⟨u, -, hu⟩ := mem_flatMap.1 hsplit
      exact ⟨unpurged_projected hu, mem_filter.2 ⟨hd, decide_eq_true rfl⟩⟩
    obtain ⟨hc, hd⟩ := hmem hd
    have hd' := (hmem hd').2
    have hsame : d.contentId = d'.contentId := hid
    rw [← hsame] at hd'
    have hhistory := ((h.mem_history hc).1 hd).1
    have hhistory' := ((h.mem_history hc).1 hd').1
    have hshows := h.shows hc
    cases hrow : s.tables.documents d.contentId with
    | none =>
      rw [hrow] at hshows
      rw [show history _ _ _ = [] from hshows] at hhistory
      cases hhistory
    | some row =>
      rw [hrow] at hshows
      have hrow := sameIdentity_iff.1 (hshows.content d hhistory).2.1
      have hrow' := sameIdentity_iff.1 (hshows.content d' hhistory').2.1
      exact hrow.symm.trans hrow'

omit [LinearOrder U] in
theorem inCorpus_redaction (h : InCorpus (source.corpus lockHash) d) : d.redaction = "sanitized" := by
  obtain ⟨u, ref, hindexable, hstated⟩ := h
  simp only [indexable, Bool.and_eq_true, decide_eq_true_eq] at hindexable
  unfold stated at hstated
  split at hstated
  · dsimp only at hstated
    split at hstated
    · cases hstated
    · cases hstated
      exact hindexable.1
  · cases hstated

section Hits

variable {search : TextSearch T Q S} {status : U → OutboxStatus} {tsq : Q} {scope : SearchScope}
  {stated stated' : List (Stated U)} {row row' : Document U T}

section

omit [LinearOrder S]

section

variable (h : Describes source.toTsvector stated row)
include h

theorem mem_deliveredIds {u : U} :
    u ∈ deliveredIds status row ↔ (∃ d ∈ stated, d.eventId = u) ∧ status u = .delivered := by
  unfold deliveredIds
  rw [mem_sortedSet, mem_filter, h.sources, mem_sortedSet, mem_map, decide_eq_true_eq]

theorem hitOf_none (hnone : ∀ d ∈ stated, status d.eventId ≠ .delivered) :
    hitOf source search status tsq scope row = none := by
  have hids : deliveredIds status row = [] := eq_nil_iff_forall_not_mem.2 fun u hu => by
    obtain ⟨⟨d, hd, rfl⟩, hstatus⟩ := (mem_deliveredIds h).1 hu
    exact hnone d hd hstatus
  have hfirst : firstDelivered source status row = none := by
    unfold firstDelivered
    rw [hids]
    rfl
  unfold hitOf
  rw [hfirst]
  split <;> rfl

theorem hitOf_eq (h' : Describes source.toTsvector stated' row')
    (hcorpus : ∀ d ∈ stated, InCorpus (source.corpus lockHash) d)
    (hmem : ∀ d, d ∈ stated' ↔ d ∈ stated ∧ status d.eventId = .delivered) :
    hitOf source search status tsq scope row = hitOf source search status tsq scope row' := by
  have hids : deliveredIds status row = deliveredIds status row' := by
    refine sortedSet_congr fun u => ?_
    have hleft : u ∈ deliveredIds status row ↔ _ := mem_deliveredIds h
    have hright : u ∈ deliveredIds status row' ↔ _ := mem_deliveredIds h'
    unfold deliveredIds at hleft hright
    rw [mem_sortedSet] at hleft hright
    rw [hleft, hright]
    constructor
    · rintro ⟨⟨d, hd, rfl⟩, hstatus⟩
      exact ⟨⟨d, (hmem d).2 ⟨hd, hstatus⟩, rfl⟩, hstatus⟩
    · rintro ⟨⟨d, hd, rfl⟩, hstatus⟩
      exact ⟨⟨d, ((hmem d).1 hd).1, rfl⟩, hstatus⟩
  have hfirst : firstDelivered source status row = firstDelivered source status row' := by
    unfold firstDelivered
    rw [hids]
  obtain ⟨d', hd', -, -, -, -, -, hredaction'⟩ := h'.least
  obtain ⟨d, hd, -, -, -, -, -, hredaction⟩ := h.least
  have hboth := ((hmem d').1 hd').1
  obtain ⟨hcontent, ⟨hproject, hrepository, -, -⟩, htsv⟩ := h.content d' hboth
  obtain ⟨hcontent', ⟨hproject', hrepository', -, -⟩, htsv'⟩ := h'.content d' hd'
  have hsanitized : row.redaction = row'.redaction := by
    rw [hredaction, hredaction', inCorpus_redaction (hcorpus d hd), inCorpus_redaction (hcorpus d' hboth)]
  unfold hitOf
  rw [hfirst, hids, hsanitized, hproject.trans hproject'.symm, hrepository.trans hrepository'.symm, htsv.trans htsv'.symm,
    hcontent.symm.trans hcontent']

end

end

end Hits

omit [LinearOrder S] in
theorem WorkInv.hit_eq (h : WorkInv source lockHash s)
    (hpurges : ∀ u ∈ source.ledger, (source.event u).eventType = contentPurgedType → s.status u = .delivered)
    (hrebuilt : Rebuilt source lockHash tables ((replayed queue s).flatMap (projected source)))
    (search : TextSearch T Q S) (tsq : Q) (scope : SearchScope) (c : String) :
    (s.tables.documents c).bind (hitOf source search s.status tsq scope) =
      (tables.documents c).bind (hitOf source search s.status tsq scope) := by
  have hshows' := hrebuilt.shows c
  cases hc : ledgerPurged source c with
  | true =>
    have hgone := h.tables.inv.exclusive c ((h.tombstone_iff hpurges c).2 hc)
    have hnil : about c (texts ((replayed queue s).flatMap (projected source))) = [] := about_eq_nil fun d hd heq => by
      rw [texts, filterMap_flatMap] at hd
      obtain ⟨u, -, hu⟩ := mem_flatMap.1 hd
      have hunpurged := unpurged_projected hu
      rw [heq, hc] at hunpurged
      cases hunpurged
    rw [hnil] at hshows'
    cases hrow : tables.documents c with
    | none => rw [hgone]
    | some row =>
      rw [hrow] at hshows'
      obtain ⟨d, hd, -⟩ := hshows'.least
      cases hd
  | false =>
    have hshows := h.shows hc
    have hmem : ∀ d, d ∈ about c (texts ((replayed queue s).flatMap (projected source))) ↔
        d ∈ history (source.corpus lockHash) c s.tables.delivered ∧ s.status d.eventId = .delivered :=
      fun _ => h.mem_history hc
    cases hrow : s.tables.documents c with
    | none =>
      rw [hrow] at hshows
      cases hrow' : tables.documents c with
      | none => rfl
      | some row' =>
        rw [hrow'] at hshows'
        obtain ⟨d, hd, -⟩ := hshows'.least
        have hcommitted := ((hmem d).1 hd).1
        rw [show history _ _ _ = [] from hshows] at hcommitted
        cases hcommitted
    | some row =>
      rw [hrow] at hshows
      cases hrow' : tables.documents c with
      | none =>
        rw [hrow'] at hshows'
        refine hitOf_none hshows fun d hd hstatus => ?_
        have hdelivered := (hmem d).2 ⟨hd, hstatus⟩
        rw [show about _ _ = [] from hshows'] at hdelivered
        cases hdelivered
      | some row' =>
        rw [hrow'] at hshows'
        exact hitOf_eq hshows hshows' (fun d hd => (inCorpus_history hd).1) hmem

omit [LinearOrder S] in
theorem hitOf_delivered {search : TextSearch T Q S} {status : U → OutboxStatus} {tsq : Q} {scope : SearchScope}
    {row : Document U T} {hit : SearchHit U S} (h : hitOf source search status tsq scope row = some hit) :
    status hit.eventId = .delivered ∧ ∀ u ∈ hit.sourceEventIds, status u = .delivered := by
  have hids : ∀ u ∈ deliveredIds status row, status u = .delivered := fun u hu =>
    of_decide_eq_true (mem_filter.1 ((mem_sortedSet _).1 hu)).2
  unfold hitOf at h
  split at h
  · obtain ⟨first, hfirst, rfl⟩ := Option.map_eq_some_iff.1 h
    exact ⟨hids first (leastBy_spec hfirst).1, hids⟩
  · cases h

/-- **Answers survive a rebuild.**  In whatever state the workers leave the tables once the purges of the ledger are
delivered, the replay of the delivered events into reset tables succeeds, and every query answers as before; a hit rests
on delivered events only. -/
theorem answers_survive_rebuild (source : Source U T V) (lockHash : String → Int) (search : TextSearch T Q S)
    (queue : Queue source) (works : List (Work U)) (s : Workers U T)
    (hrun : run (workStep source lockHash) Workers.start works = some s)
    (hpurges : ∀ u ∈ source.ledger, (source.event u).eventType = contentPurgedType → s.status u = .delivered)
    (nodes : String → Option (EmbeddingNode U V)) :
    ∃ tables, replay source (queue.outbox s.status) (reset source ⟨s.tables.documents, s.tables.tombstones, nodes⟩) = .ok tables ∧
      ∀ query scope limit,
        lexical source search s.status s.tables.documents query scope limit =
          lexical source search s.status tables.documents query scope limit ∧
        ∀ hits, lexical source search s.status s.tables.documents query scope limit = some hits → ∀ hit ∈ hits,
          s.status hit.eventId = .delivered ∧ ∀ u ∈ hit.sourceEventIds, s.status u = .delivered := by
  have h : WorkInv source lockHash s := work_run hrun
  have hstart : Rebuilt source lockHash (reset source ⟨s.tables.documents, s.tables.tombstones, nodes⟩) [] :=
    ⟨reset_inv _, sound_nil, fun _ hd => (nomatch hd), fun _ => rfl⟩
  obtain ⟨tables, hreplay, hrebuilt⟩ := hstart.replay
    (fun u (hu : u ∈ replayed queue s) => (mem_replayed.1 hu).1.1) (h.sound queue)
  refine ⟨tables, hreplay, fun query scope limit => ⟨?_, fun hits hhits hit hmem => ?_⟩⟩
  · unfold lexical lexicalRows
    simp only [h.hit_eq hpurges hrebuilt]
  · unfold lexical lexicalRows at hhits
    dsimp only at hhits
    split at hhits
    · cases hhits
    · cases hhits
      obtain ⟨c, -, hhit⟩ := List.mem_filterMap.1 (mem_sortBy.1 (List.mem_of_mem_take hmem))
      obtain ⟨row, -, hhit⟩ := Option.bind_eq_some_iff.1 hhit
      exact hitOf_delivered hhit

end Answers

/-- Two events of one content, one of a content that is purged, and its purge. -/
def ledgerSource : Source Nat String Nat where
  ledger := [0, 1, 2, 3]
  event u :=
    if u = 0 then
      ⟨"agent.turn.started", some "p", some "r", some "s", 10, 10, [⟨"a", "sha-a", "text/plain", "sanitized"⟩], [], 0⟩
    else if u = 1 then
      ⟨"agent.turn.started", some "p", some "r", some "s", 5, 11, [⟨"a", "sha-a", "text/plain", "sanitized"⟩], [], 0⟩
    else if u = 2 then
      ⟨"agent.turn.started", some "p", some "r", some "s", 12, 12, [⟨"b", "sha-b", "text/plain", "sanitized"⟩], [], 0⟩
    else ⟨"content.purged", some "p", some "r", none, 20, 20, [], ["b"], 20⟩
  indexedEventTypes := ["agent.turn.started"]
  readable _ _ := true
  text sha _ := sha
  toTsvector body := body
  embeddings := some ⟨"model", "1", fun body => (body.length, false)⟩

def ledgerQueue : Queue ledgerSource where
  rows := [(1, 0), (2, 1), (3, 2), (4, 3)]
  covers := fun u => by
    simp only [ledgerSource, List.mem_cons, List.not_mem_nil, or_false, Prod.mk.injEq]
    constructor
    · intro h
      exact ⟨u + 1, by omega⟩
    · rintro ⟨n, h⟩
      omega

/-- The transactions of an event with one reference. -/
def indexOne (id u : Nat) : List (Work Nat) :=
  [.claim id u, .search (.deliver id u), .search (.read id), .search (.read id), .search (.lock id), .search (.check id),
    .search (.write id), .search (.commit id)]

/-- The second event is dead-lettered after its transaction; the others are delivered. -/
def ledgerWorks : List (Work Nat) :=
  indexOne 0 1 ++ [.deadLetter 0] ++ indexOne 1 0 ++ [.graph 1, .finalize 1] ++ indexOne 2 2 ++ [.graph 2, .finalize 2] ++
    [.claim 3 3, .search (.deliver 3 3), .search (.lock 3), .search (.check 3), .search (.tombstone 3), .search (.delete 3),
      .search (.commit 3), .graph 3, .finalize 3]

theorem answers_survive_rebuild_sample : ∃ s tables,
    run (workStep ledgerSource fun key => key.length) Workers.start ledgerWorks = some s ∧
    (s.tables.documents "a").map (·.sourceEventIds) = some [0, 1] ∧ s.status 1 = .deadLettered ∧
    replay ledgerSource (ledgerQueue.outbox s.status)
      (reset ledgerSource ⟨s.tables.documents, s.tables.tombstones, fun _ => none⟩) = .ok tables ∧
    lexical ledgerSource ⟨id, fun tsv tsq => tsv = tsq, fun tsv _ => tsv.length⟩ s.status s.tables.documents "sha-a" ⟨"p", "r"⟩ 10 =
      lexical ledgerSource ⟨id, fun tsv tsq => tsv = tsq, fun tsv _ => tsv.length⟩ s.status tables.documents "sha-a" ⟨"p", "r"⟩ 10 := by
  have hrun : (run (workStep ledgerSource fun key => key.length) Workers.start ledgerWorks).map (fun s =>
      ((s.tables.documents "a").map (·.sourceEventIds), s.status 1, s.status 3)) =
        some (some [0, 1], .deadLettered, .delivered) := by
    decide +kernel
  obtain ⟨s, hs, hfacts⟩ := Option.map_eq_some_iff.1 hrun
  rw [Prod.mk.injEq, Prod.mk.injEq] at hfacts
  obtain ⟨hsources, hdead, hpurge⟩ := hfacts
  have hpurges : ∀ u ∈ ledgerSource.ledger, (ledgerSource.event u).eventType = contentPurgedType → s.status u = .delivered := by
    intro u hu htype
    have hthree : u = 3 := by
      revert htype
      revert u
      decide
    rw [hthree, hpurge]
  obtain ⟨tables, hreplay, hanswers⟩ := answers_survive_rebuild ledgerSource (fun key => key.length)
    ⟨id, fun tsv tsq => tsv = tsq, fun tsv _ => tsv.length⟩ ledgerQueue ledgerWorks s hs hpurges fun _ => none
  exact ⟨s, tables, hs, hsources, hdead, hreplay, (hanswers "sha-a" ⟨"p", "r"⟩ 10).1⟩

end Search
