import AgentContext.Search.System

/-!
# A purge is final

What any interleaving of index and purge deliveries leaves in the tables.

    Inv         no content has a tombstone and a document; a document of a content without a tombstone is the row of
                the events delivered
    StageInv    a delivery holds the locks of the contents it writes; no tombstone is set on them meanwhile

Others' commits do not change what a delivery holds (`StageInv.mono`).
-/

namespace Search

open Keyset Locking Transition List

variable {U T : Type} [LinearOrder U] {corpus : Corpus U T}

/-! ## What the events state -/

def about (contentId : String) (statements : List (Stated U)) : List (Stated U) :=
  statements.filter fun s => s.contentId = contentId

/-- What the delivered events state of a content. -/
def history (corpus : Corpus U T) (contentId : String) (delivered : List U) : List (Stated U) :=
  delivered.flatMap fun u => about contentId (statements corpus u)

def Shows (corpus : Corpus U T) (stated : List (Stated U)) : Option (Document U T) → Prop
  | none => stated = []
  | some row => Describes corpus.toTsvector stated row

/-- A statement of an event, of a reference it indexes. -/
def InCorpus (corpus : Corpus U T) (s : Stated U) : Prop := ∃ u ref, indexable ref = true ∧ stated corpus u ref = some s

section

omit [LinearOrder U]

@[simp] theorem about_append (c : String) (l l' : List (Stated U)) : about c (l ++ l') = about c l ++ about c l' :=
  filter_append ..

theorem about_eq_nil {c : String} {l : List (Stated U)} (h : ∀ s ∈ l, s.contentId ≠ c) : about c l = [] :=
  filter_eq_nil_iff.2 fun s hs => by simpa using h s hs

theorem history_append (c : String) (delivered : List U) (u : U) :
    history corpus c (delivered ++ [u]) = history corpus c delivered ++ about c (statements corpus u) := by
  simp [history]

theorem inCorpus_statements {u : U} {s : Stated U} (h : s ∈ statements corpus u) : InCorpus corpus s := by
  obtain ⟨ref, href, hstated⟩ := mem_filterMap.1 h
  refine ⟨u, ref, ?_, hstated⟩
  unfold indexedRefs at href
  split at href
  · exact (mem_filter.1 (mem_sortBy.1 href)).2
  · cases href

theorem inCorpus_history {c : String} {delivered : List U} {s : Stated U} (h : s ∈ history corpus c delivered) :
    InCorpus corpus s ∧ s.contentId = c := by
  obtain ⟨u, -, hs⟩ := mem_flatMap.1 h
  obtain ⟨hs, hc⟩ := mem_filter.1 hs
  exact ⟨inCorpus_statements hs, of_decide_eq_true hc⟩

theorem coherent_of_inCorpus {l : List (Stated U)} (h : ∀ s ∈ l, InCorpus corpus s) : Coherent l := by
  have hfields : ∀ {u ref s}, stated corpus u ref = some s →
      (∃ project repository refs, corpus.event u =
        .content s.eventType (some project) (some repository) s.sessionId s.occurredAt refs) ∧ s.eventId = u ∧
        s.redaction = ref.disposition ∧ s.body = corpus.text s.contentSha256 s.mediaType := by
    intro u ref s hs
    unfold stated at hs
    split at hs
    · rename_i hevent
      dsimp only at hs
      split at hs
      · cases hs
      · cases hs
        exact ⟨⟨_, _, _, hevent⟩, rfl, rfl, rfl⟩
    · cases hs
  have hsanitized : ∀ {ref : ContentRef}, indexable ref = true → ref.disposition = "sanitized" := fun href => by
    simp only [indexable, Bool.and_eq_true, decide_eq_true_eq] at href
    exact href.1
  constructor
  · intro s hs s' hs' hid
    obtain ⟨u, ref, href, hstated⟩ := h s hs
    obtain ⟨u', ref', href', hstated'⟩ := h s' hs'
    obtain ⟨⟨_, _, _, hevent⟩, hu, hredaction, -⟩ := hfields hstated
    obtain ⟨⟨_, _, _, hevent'⟩, hu', hredaction', -⟩ := hfields hstated'
    obtain rfl : u = u' := hu.symm.trans (hid.trans hu')
    rw [hevent] at hevent'
    injection hevent' with htype _ _ hsession hoccurred _
    exact ⟨htype, hsession, hoccurred, hredaction.trans ((hsanitized href).trans ((hsanitized href').symm.trans
      hredaction'.symm))⟩
  · intro s hs s' hs' hsha hmedia
    obtain ⟨u, ref, -, hstated⟩ := h s hs
    obtain ⟨u', ref', -, hstated'⟩ := h s' hs'
    rw [(hfields hstated).2.2.2, (hfields hstated').2.2.2, hsha, hmedia]

end

/-! ## The invariant -/

/-- A delivery holds the lock of a content. -/
def Locked (corpus : Corpus U T) (w : World U T) (id : Nat) (contentId : String) : Prop :=
  w.locks.Holds id (lockKey corpus contentId)

/-- All that an event states of the contents that are not purged. -/
def Complete (corpus : Corpus U T) (w : World U T) (event : U) (documents : List (Stated U)) : Prop :=
  ∀ c, w.tombstones c = none → about c documents = about c (statements corpus event)

def StageInv (corpus : Corpus U T) (w : World U T) (id : Nat) (event : U) : Stage U T → Prop
  | .reading left kept =>
    (∀ ref ∈ kept ++ left, indexable ref = true) ∧ Complete corpus w event ((kept ++ left).filterMap (stated corpus event))
  | .locking left documents =>
    (∀ s ∈ documents, InCorpus corpus s ∧ (s.contentId ∈ left ∨ Locked corpus w id s.contentId)) ∧
      Complete corpus w event documents
  | .writing left written pending =>
    (∀ s ∈ written ++ left, InCorpus corpus s ∧ Locked corpus w id s.contentId ∧ w.tombstones s.contentId = none ∧
      Shows corpus (history corpus s.contentId w.delivered ++ about s.contentId written) (w.seen pending s.contentId)) ∧
      Complete corpus w event (written ++ left) ∧ ∀ c, pending.lookup c ≠ none → ∃ s ∈ written, s.contentId = c
  | .purgeLocking left contentIds => ∀ c ∈ contentIds, c ∈ left ∨ Locked corpus w id c
  | .tombstoning _ contentIds => ∀ c ∈ contentIds, Locked corpus w id c
  | .deleted contentIds => ∀ c ∈ contentIds, Locked corpus w id c

def Fits (corpus : Corpus U T) (event : U) : Stage U T → Prop
  | .reading .. | .locking .. | .writing .. => ∀ contentIds purgedAt, corpus.event event ≠ .purged contentIds purgedAt
  | .purgeLocking _ contentIds | .tombstoning _ contentIds | .deleted contentIds =>
    ∃ purgedAt, corpus.event event = .purged contentIds purgedAt

structure Inv (corpus : Corpus U T) (w : World U T) : Prop where
  /-- No content has both. -/
  exclusive : ∀ c, (w.tombstones c).isSome = true → w.documents c = none
  /-- The table shows what was delivered. -/
  current : ∀ c, w.tombstones c = none → Shows corpus (history corpus c w.delivered) (w.documents c)
  deliveries : ∀ id delivery, w.deliveries id = some delivery →
    Fits corpus delivery.event delivery.stage ∧ StageInv corpus w id delivery.event delivery.stage

/-- What a step leaves to a delivery that does not take it. -/
structure Frame (corpus : Corpus U T) (w w' : World U T) (id : Nat) : Prop where
  tombstones : ∀ c, w'.tombstones c = none → w.tombstones c = none
  locks : ∀ k, w.locks.Holds id k → w'.locks.Holds id k
  kept : ∀ c, Locked corpus w id c → w.tombstones c = none →
    w'.tombstones c = none ∧ w'.documents c = w.documents c ∧ history corpus c w'.delivered = history corpus c w.delivered

variable {w w' : World U T} {id : Nat} {event : U}
variable {act : Act U} {stage stage' : Stage U T} {c : String}
variable {locks : Locks Int Nat} {pending : List (String × Document U T)} {contentIds : List String}

omit [LinearOrder U] in
theorem Complete.mono {documents : List (Stated U)} (h : Complete corpus w event documents) (hframe : Frame corpus w w' id) :
    Complete corpus w' event documents := fun c hc => h c (hframe.tombstones c hc)

theorem StageInv.mono (hframe : Frame corpus w w' id) : ∀ {stage : Stage U T}, StageInv corpus w id event stage →
    StageInv corpus w' id event stage
  | .reading _ _, h => ⟨h.1, h.2.mono hframe⟩
  | .locking _ _, h => ⟨fun s hs => ⟨(h.1 s hs).1, (h.1 s hs).2.imp_right (hframe.locks _)⟩, h.2.mono hframe⟩
  | .writing left written pending, h => by
    refine ⟨fun s hs => ?_, h.2.1.mono hframe, h.2.2⟩
    obtain ⟨hin, hlocked, htombstone, hshows⟩ := h.1 s hs
    obtain ⟨htombstone', hdocument, hhistory⟩ := hframe.kept _ hlocked htombstone
    refine ⟨hin, hframe.locks _ hlocked, htombstone', ?_⟩
    have hseen : w'.seen pending s.contentId = w.seen pending s.contentId := by
      unfold World.seen
      rw [hdocument]
    rw [hhistory, hseen]
    exact hshows
  | .purgeLocking _ _, h => fun c hc => (h c hc).imp_right (hframe.locks _)
  | .tombstoning _ _, h => fun c hc => hframe.locks _ (h c hc)
  | .deleted _, h => fun c hc => hframe.locks _ (h c hc)

theorem Inv.start : Inv corpus (World.start : World U T) where
  exclusive := fun _ _ => rfl
  current := fun _ _ => rfl
  deliveries := fun _ _ h => nomatch h

theorem Inv.next (h : Inv corpus w) (hexclusive : ∀ c, (w'.tombstones c).isSome = true → w'.documents c = none)
    (hcurrent : ∀ c, w'.tombstones c = none → Shows corpus (history corpus c w'.delivered) (w'.documents c))
    (hothers : ∀ id', id' ≠ id → w'.deliveries id' = w.deliveries id' ∧ Frame corpus w w' id')
    (hmine : ∀ delivery, w'.deliveries id = some delivery →
      Fits corpus delivery.event delivery.stage ∧ StageInv corpus w' id delivery.event delivery.stage) :
    Inv corpus w' where
  exclusive := hexclusive
  current := hcurrent
  deliveries := fun id' delivery hget => by
    by_cases hid : id' = id
    · subst hid
      exact hmine delivery hget
    · obtain ⟨hsame, hframe⟩ := hothers id' hid
      exact (h.deliveries id' delivery (hsame ▸ hget)).imp_right fun hstage => hstage.mono hframe

/-- A step that leaves the tables alone. -/
theorem Inv.quiet {delivery : Option (Delivery U T)} (h : Inv corpus w)
    (hlocks : ∀ id' k, id' ≠ id → w.locks.Holds id' k → locks.Holds id' k)
    (hmine : ∀ d, delivery = some d → Fits corpus d.event d.stage ∧ StageInv corpus { w with locks } id d.event d.stage) :
    Inv corpus (({ w with locks } : World U T).setDelivery id delivery) := by
  refine h.next h.exclusive h.current (fun id' hid => ⟨Function.update_of_ne hid .., ?_⟩) fun d hd => ?_
  · exact ⟨fun _ hc => hc, fun k hk => hlocks id' k hid hk, fun _ _ hc => ⟨hc, rfl, rfl⟩⟩
  · have hget : (({ w with locks } : World U T).setDelivery id delivery).deliveries id = delivery := Function.update_self ..
    have hd' : delivery = some d := hget.symm.trans hd
    exact (hmine d hd').imp_right (StageInv.mono ⟨fun _ hc => hc, fun _ hk => hk, fun _ _ hc => ⟨hc, rfl, rfl⟩⟩)

/-! ## Steps -/

theorem firstStage_inv (w : World U T) (id : Nat) (event : U) :
    Fits corpus event (firstStage corpus event) ∧ StageInv corpus w id event (firstStage corpus event) := by
  unfold firstStage
  split
  · rename_i hevent
    refine ⟨fun _ _ hpurged => ?_, fun ref href => ?_, fun _ _ => rfl⟩
    · rw [hevent] at hpurged
      cases hpurged
    · unfold indexedRefs at href
      split at href
      · exact (mem_filter.1 (mem_sortBy.1 href)).2
      · cases href
  · rename_i contentIds purgedAt hevent
    exact ⟨⟨purgedAt, hevent⟩, fun c hc => Or.inl ((mem_sortedSet contentIds).2 hc)⟩

omit [LinearOrder U] in
theorem stated_contentId {u : U} {ref : ContentRef} {s : Stated U} (h : stated corpus u ref = some s) :
    s.contentId = ref.contentId := by
  unfold stated at h
  split at h
  · dsimp only at h
    split at h
    · cases h
    · cases h
      rfl
  · cases h

theorem reading_skip {ref : ContentRef} {left kept : List ContentRef} (hpurged : (w.tombstones ref.contentId).isSome = true)
    (h : StageInv corpus w id event (.reading (ref :: left) kept)) : StageInv corpus w id event (.reading left kept) := by
  obtain ⟨hindexable, hcomplete⟩ := h
  refine ⟨fun r hr => hindexable r ?_, fun c hc => ?_⟩
  · rcases mem_append.1 hr with hr | hr
    · exact mem_append_left _ hr
    · exact mem_append_right _ (mem_cons_of_mem _ hr)
  · rw [← hcomplete c hc, filterMap_append, filterMap_append, about_append, about_append, filterMap_cons]
    congr 1
    cases hstated : stated corpus event ref with
    | none => rfl
    | some s =>
      have hne : s.contentId ≠ c := fun heq => by
        rw [← stated_contentId hstated, heq, hc] at hpurged
        cases hpurged
      exact (filter_cons_of_neg (by simpa using hne)).symm

theorem writing_next {document : Stated U} {left written : List (Stated U)} {row : Document U T}
    (hrow : upsert corpus.toTsvector (w.seen pending document.contentId) document = some row)
    (h : StageInv corpus w id event (.writing (document :: left) written pending)) :
    StageInv corpus w id event (.writing left (written ++ [document]) ((document.contentId, row) :: pending)) := by
  obtain ⟨hdocuments, hcomplete, hpending⟩ := h
  have hmem : ∀ s, s ∈ written ++ [document] ++ left ↔ s ∈ written ++ document :: left := fun s => by
    rw [append_assoc, singleton_append]
  refine ⟨fun s hs => ?_, fun c hc => ?_, fun c hc => ?_⟩
  · obtain ⟨hin, hlocked, htombstone, hshows⟩ := hdocuments s ((hmem s).1 hs)
    refine ⟨hin, hlocked, htombstone, ?_⟩
    by_cases hsame : document.contentId = s.contentId
    · have hseen : w.seen ((document.contentId, row) :: pending) s.contentId = some row := by simp [World.seen, hsame]
      have habout : about s.contentId (written ++ [document]) = about s.contentId written ++ [document] := by
        simp [about, hsame]
      rw [hseen, habout, ← append_assoc]
      rw [hsame] at hrow
      have hlist : ∀ s' ∈ history corpus s.contentId w.delivered ++ about s.contentId written ++ [document],
          InCorpus corpus s' := fun s' hs' => by
        rcases mem_append.1 hs' with hs' | hs'
        · rcases mem_append.1 hs' with hs' | hs'
          · exact (inCorpus_history hs').1
          · exact (hdocuments s' (mem_append_left _ (mem_filter.1 hs').1)).1
        · exact (hdocuments s' (mem_append_right _ (by rw [mem_singleton.1 hs']; exact mem_cons_self))).1
      cases hget : w.seen pending s.contentId with
      | none =>
        rw [hget] at hrow hshows
        cases hrow
        rw [show history corpus s.contentId w.delivered ++ about s.contentId written = [] from hshows]
        exact describes_insert document
      | some old =>
        rw [hget] at hrow hshows
        obtain ⟨hidentity, ⟨⟩⟩ := Option.ite_none_right_eq_some.1 hrow
        refine Describes.update hshows (coherent_of_inCorpus hlist) ?_ hidentity
        obtain ⟨s', hs', -⟩ := hshows.least
        rw [← (hshows.content s' hs').1, hsame]
        rcases mem_append.1 hs' with hs' | hs'
        · exact (inCorpus_history hs').2.symm
        · exact (of_decide_eq_true (mem_filter.1 hs').2).symm
    · have hbeq : (s.contentId == document.contentId) = false := beq_false_of_ne (Ne.symm hsame)
      have hseen : w.seen ((document.contentId, row) :: pending) s.contentId = w.seen pending s.contentId := by
        simp [World.seen, lookup_cons, hbeq]
      have habout : about s.contentId (written ++ [document]) = about s.contentId written := by simp [about, hsame]
      rw [hseen, habout]
      exact hshows
  · rw [← hcomplete c hc, append_assoc, singleton_append]
  · by_cases hsame : document.contentId = c
    · exact ⟨document, mem_append_right _ (mem_singleton_self _), hsame⟩
    · have hbeq : (c == document.contentId) = false := beq_false_of_ne (Ne.symm hsame)
      have hlookup : pending.lookup c ≠ none := fun hnone => hc (by simp [lookup_cons, hbeq, hnone])
      obtain ⟨s, hs, hcontent⟩ := hpending c hlookup
      exact ⟨s, mem_append_left _ hs, hcontent⟩

/-- The second check of the tombstones, with the locks held. -/
theorem writing_start {documents : List (Stated U)} (hinv : Inv corpus w)
    (h : StageInv corpus w id event (.locking [] documents)) :
    StageInv corpus w id event (.writing (documents.filter fun s => (w.tombstones s.contentId).isNone) [] []) := by
  obtain ⟨hdocuments, hcomplete⟩ := h
  refine ⟨fun s hs => ?_, fun c hc => ?_, fun c hc => absurd rfl hc⟩
  · obtain ⟨hs, hnone⟩ := mem_filter.1 hs
    obtain ⟨hin, hlocked⟩ := hdocuments s hs
    have htombstone : w.tombstones s.contentId = none := Option.isNone_iff_eq_none.1 hnone
    refine ⟨hin, hlocked.resolve_left (not_mem_nil), htombstone, ?_⟩
    rw [show about s.contentId ([] : List (Stated U)) = [] from rfl, append_nil]
    exact hinv.current _ htombstone
  · rw [nil_append, ← hcomplete c hc]
    unfold about
    rw [filter_filter]
    refine filter_congr fun s _ => ?_
    by_cases hsame : s.contentId = c <;> simp [hsame, hc]

theorem advance_fits (hadvance : advance corpus w event act stage = some stage') (h : Fits corpus event stage) :
    Fits corpus event stage' := by
  unfold advance at hadvance
  split at hadvance
  · split at hadvance <;> cases hadvance <;> exact h
  · dsimp only at hadvance
    split at hadvance
    · cases hadvance
    · cases hadvance
      exact h
  · cases hadvance
    exact h
  · obtain ⟨row, -, rfl⟩ := Option.map_eq_some_iff.1 hadvance
    exact h
  · cases hadvance
    exact h
  · cases hadvance
    exact h
  · cases hadvance
    exact h
  · cases hadvance

theorem advance_inv (hinv : Inv corpus w) (hadvance : advance corpus w event act stage = some stage')
    (h : StageInv corpus w id event stage) : StageInv corpus w id event stage' := by
  unfold advance at hadvance
  split at hadvance
  · rename_i ref left kept
    split at hadvance
    · rename_i hpurged
      cases hadvance
      exact reading_skip hpurged h
    · cases hadvance
      have hsame : kept ++ [ref] ++ left = kept ++ ref :: left := by rw [append_assoc, singleton_append]
      show _ ∧ Complete _ _ _ _
      rw [hsame]
      exact h
  · rename_i kept
    obtain ⟨hindexable, hcomplete⟩ := h
    rw [append_nil] at hindexable hcomplete
    dsimp only at hadvance
    split at hadvance
    · cases hadvance
    · cases hadvance
      refine ⟨fun s hs => ⟨?_, Or.inl ((mem_sortedSet _).2 (mem_map_of_mem hs))⟩, hcomplete⟩
      obtain ⟨ref, href, hstated⟩ := mem_filterMap.1 hs
      exact ⟨event, ref, hindexable ref href, hstated⟩
  · cases hadvance
    exact writing_start hinv h
  · obtain ⟨row, hrow, rfl⟩ := Option.map_eq_some_iff.1 hadvance
    exact writing_next hrow h
  · cases hadvance
    exact fun c hc => (h c hc).resolve_left not_mem_nil
  · cases hadvance
    exact h
  · cases hadvance
    exact h
  · cases hadvance

omit [LinearOrder U] in
theorem nextLock_fits {stage stage' : Stage U T} {contentId : String} (hnext : nextLock stage = some (contentId, stage'))
    (h : Fits corpus event stage) : Fits corpus event stage' := by
  unfold nextLock at hnext
  split at hnext
  · cases hnext
    exact h
  · cases hnext
    exact h
  · cases hnext

theorem nextLock_inv {contentId : String} (hnext : nextLock stage = some (contentId, stage'))
    (hlocks : w.locks.acquire (lockKey corpus contentId) id = some locks) (h : StageInv corpus w id event stage) :
    StageInv corpus { w with locks } id event stage' := by
  have hkeep : ∀ c, Locked corpus w id c → Locked corpus { w with locks } id c := fun c hc => Locks.Holds.acquire hlocks hc
  have hleft : ∀ {left : List String} {c : String}, c ∈ contentId :: left ∨ Locked corpus w id c →
      c ∈ left ∨ Locked corpus { w with locks } id c := fun {left c} hc => by
    rcases hc with hc | hc
    · rcases mem_cons.1 hc with rfl | hc
      · exact Or.inr (Locks.acquire_holds hlocks)
      · exact Or.inl hc
    · exact Or.inr (hkeep c hc)
  unfold nextLock at hnext
  split at hnext
  · cases hnext
    exact ⟨fun s hs => ⟨(h.1 s hs).1, hleft (h.1 s hs).2⟩, h.2⟩
  · cases hnext
    exact fun c hc => hleft (h c hc)
  · cases hnext

section

variable (h : Inv corpus w)
include h

/-- A commit: only contents that the delivery holds change. -/
theorem Inv.commit (hdeliveries : w'.deliveries = w.deliveries) (hlocks : w'.locks = w.locks)
    (hexclusive : ∀ c, (w'.tombstones c).isSome = true → w'.documents c = none)
    (hcurrent : ∀ c, w'.tombstones c = none → Shows corpus (history corpus c w'.delivered) (w'.documents c))
    (htombstones : ∀ c, w'.tombstones c = none → w.tombstones c = none)
    (hkept : ∀ c, ¬ Locked corpus w id c → w.tombstones c = none → w'.tombstones c = none ∧
      w'.documents c = w.documents c ∧ history corpus c w'.delivered = history corpus c w.delivered) :
    Inv corpus ((w'.setDelivery id none).release id) := by
  refine Inv.next h hexclusive hcurrent (fun id' (hid : id' ≠ id) => ⟨?_, htombstones, fun k hk => ?_, fun c hc => ?_⟩) ?_
  · exact (Function.update_of_ne hid ..).trans (congrFun hdeliveries id')
  · exact Locks.Holds.releaseAll (hlocks ▸ hk : w'.locks.Holds id' k) hid
  · exact hkept c fun hmine => hid (Locks.Holds.unique hc hmine)
  · intro d hd
    have hget : ((w'.setDelivery id none).release id).deliveries id = none := Function.update_self ..
    rw [hget] at hd
    cases hd

theorem inv_commitIndex {written : List (Stated U)}
    (hstage : StageInv corpus w id event (.writing [] written pending)) :
    Inv corpus (((w.commitIndex event pending).setDelivery id none).release id) := by
  obtain ⟨hdocuments, hcomplete, hpending⟩ := hstage
  rw [append_nil] at hdocuments hcomplete
  have huntouched : ∀ c, (∀ s ∈ written, s.contentId ≠ c) → w.seen pending c = w.documents c := fun c hc => by
    have hnone : pending.lookup c = none := by
      by_contra hsome
      obtain ⟨s, hs, heq⟩ := hpending c hsome
      exact hc s hs heq
    rw [World.seen, hnone, Option.none_or]
  have hhistory : ∀ c, w.tombstones c = none →
      history corpus c (w.delivered ++ [event]) = history corpus c w.delivered ++ about c written := fun c hc => by
    rw [history_append, hcomplete c hc]
  refine h.commit rfl rfl (fun c hc => ?_) (fun c hc => ?_) (fun _ hc => hc) fun c hfree hc => ⟨hc, ?_, ?_⟩
  · have hnot : ∀ s ∈ written, s.contentId ≠ c := fun s hs heq => by
      rw [← heq] at hc
      exact absurd (hdocuments s hs).2.2.1 (Option.isSome_iff_ne_none.1 hc)
    exact (huntouched c hnot).trans (h.exclusive c hc)
  · show Shows corpus (history corpus c (w.delivered ++ [event])) (w.seen pending c)
    rw [hhistory c hc]
    by_cases hwritten : ∃ s ∈ written, s.contentId = c
    · obtain ⟨s, hs, rfl⟩ := hwritten
      exact (hdocuments s hs).2.2.2
    · have hnot : ∀ s ∈ written, s.contentId ≠ c := fun s hs heq => hwritten ⟨s, hs, heq⟩
      rw [huntouched c hnot, about_eq_nil hnot, append_nil]
      exact h.current c hc
  · exact huntouched c fun s hs heq => hfree (heq ▸ (hdocuments s hs).2.1)
  · have hnot : ∀ s ∈ written, s.contentId ≠ c := fun s hs heq => hfree (heq ▸ (hdocuments s hs).2.1)
    show history corpus c (w.delivered ++ [event]) = _
    rw [hhistory c hc, about_eq_nil hnot, append_nil]

theorem inv_commitPurge {purgedAt : Int} (hlocked : ∀ c ∈ contentIds, Locked corpus w id c) :
    Inv corpus (((w.commitPurge event purgedAt contentIds).setDelivery id none).release id) := by
  have htombstones : ∀ c, (w.commitPurge event purgedAt contentIds).tombstones c = none →
      c ∉ contentIds ∧ w.tombstones c = none := fun c hc => by
    by_cases hmem : c ∈ contentIds
    · simp [World.commitPurge, hmem] at hc
    · simp only [World.commitPurge, hmem, if_false] at hc
      exact ⟨hmem, hc⟩
  refine h.commit rfl rfl (fun c hc => ?_) (fun c hc => ?_) (fun c hc => (htombstones c hc).2) fun c hfree hc => ?_
  · by_cases hmem : c ∈ contentIds
    · exact if_pos hmem
    · simp only [World.commitPurge, hmem, if_false] at hc ⊢
      exact h.exclusive c hc
  · obtain ⟨hmem, hnone⟩ := htombstones c hc
    simp only [World.commitPurge, hmem, if_false]
    exact h.current c hnone
  · have hmem : c ∉ contentIds := fun hmem => hfree (hlocked c hmem)
    simp only [World.commitPurge, hmem, if_false]
    exact ⟨hc, trivial, trivial⟩

theorem inv_commitStage {stage : Stage U T} (hstage : StageInv corpus w id event stage)
    (hcommit : commitStage corpus w event stage = some w') : Inv corpus ((w'.setDelivery id none).release id) := by
  unfold commitStage at hcommit
  split at hcommit
  · rename_i kept
    split at hcommit
    · rename_i hempty
      cases hcommit
      have hhistory : ∀ c, w.tombstones c = none →
          history corpus c (w.delivered ++ [event]) = history corpus c w.delivered := fun c hc => by
        rw [history_append, ← hstage.2 c hc, append_nil, List.isEmpty_iff.1 hempty]
        exact append_nil _
      refine h.commit rfl rfl h.exclusive (fun c hc => ?_) (fun _ hc => hc) fun c _ hc => ⟨hc, rfl, hhistory c hc⟩
      show Shows corpus (history corpus c (w.delivered ++ [event])) (w.documents c)
      rw [hhistory c hc]
      exact h.current c hc
    · cases hcommit
  · cases hcommit
    exact inv_commitIndex h hstage
  · split at hcommit
    · cases hcommit
      exact inv_commitPurge h hstage
    · cases hcommit
  · cases hcommit

theorem inv_proceed (hstep : proceed corpus w id act = some w') : Inv corpus w' := by
  obtain ⟨delivery, hget, rfl⟩ := Option.map_eq_some_iff.1 hstep
  cases hadvance : advance corpus w delivery.event act delivery.stage with
  | none => exact h.commit rfl rfl h.exclusive h.current (fun _ hc => hc) fun c _ hc => ⟨hc, rfl, rfl⟩
  | some stage =>
    refine h.quiet (fun _ _ _ hk => hk) fun d hd => ?_
    cases hd
    obtain ⟨hfits, hstage⟩ := h.deliveries id delivery hget
    exact ⟨advance_fits hadvance hfits, advance_inv h hadvance hstage⟩

/-- **Step lemma.** -/
theorem inv_step (hstep : step corpus w act = some w') : Inv corpus w' := by
  cases act with
  | deliver id event =>
    obtain ⟨-, ⟨⟩⟩ := Option.ite_none_left_eq_some.1 hstep
    refine h.quiet (fun _ _ _ hk => hk) fun d hd => ?_
    cases hd
    exact firstStage_inv _ id event
  | lock id =>
    simp only [step] at hstep
    split at hstep
    · rename_i delivery hget
      split at hstep
      · rename_i contentId stage hnext
        obtain ⟨locks, hlocks, rfl⟩ := Option.map_eq_some_iff.1 hstep
        refine h.quiet (fun _ _ _ hk => Locks.Holds.acquire hlocks hk) fun d hd => ?_
        cases hd
        obtain ⟨hfits, hstage⟩ := h.deliveries id delivery hget
        exact ⟨nextLock_fits hnext hfits, nextLock_inv hnext hlocks hstage⟩
      · cases hstep
    · cases hstep
  | commit id =>
    simp only [step] at hstep
    split at hstep
    · rename_i delivery hget
      obtain ⟨w'', hcommit, rfl⟩ := Option.map_eq_some_iff.1 hstep
      exact inv_commitStage h (h.deliveries id delivery hget).2 hcommit
    · cases hstep
  | fail id =>
    obtain ⟨delivery, -, rfl⟩ := Option.map_eq_some_iff.1 hstep
    exact h.commit rfl rfl h.exclusive h.current (fun _ hc => hc) fun c _ hc => ⟨hc, rfl, rfl⟩
  | read | check | write | tombstone | delete => exact inv_proceed h hstep

end

/-! ## Runs -/

theorem inv_run {acts : List (Act U)} (hrun : run (step corpus) World.start acts = some w) : Inv corpus w :=
  run_invariant (fun _ _ _ h hstep => inv_step h hstep) Inv.start hrun

theorem tombstones_proceed (h : proceed corpus w id act = some w') : w'.tombstones = w.tombstones := by
  obtain ⟨delivery, -, rfl⟩ := Option.map_eq_some_iff.1 h
  split <;> rfl

theorem tombstone_step (hc : (w.tombstones c).isSome = true) (hstep : step corpus w act = some w') :
    (w'.tombstones c).isSome = true := by
  cases act with
  | deliver id event =>
    obtain ⟨-, ⟨⟩⟩ := Option.ite_none_left_eq_some.1 hstep
    exact hc
  | lock id =>
    simp only [step] at hstep
    split at hstep
    · split at hstep
      · obtain ⟨locks, -, rfl⟩ := Option.map_eq_some_iff.1 hstep
        exact hc
      · cases hstep
    · cases hstep
  | commit id =>
    simp only [step] at hstep
    split at hstep
    · rename_i delivery hget
      obtain ⟨w'', hcommit, rfl⟩ := Option.map_eq_some_iff.1 hstep
      show (w''.tombstones c).isSome = true
      unfold commitStage at hcommit
      split at hcommit
      · split at hcommit
        · cases hcommit
          exact hc
        · cases hcommit
      · cases hcommit
        exact hc
      · split at hcommit
        · cases hcommit
          simp only [World.commitPurge]
          split
          · rw [Option.isSome_or, hc, Bool.true_or]
          · exact hc
        · cases hcommit
      · cases hcommit
    · cases hstep
  | fail id =>
    obtain ⟨delivery, -, rfl⟩ := Option.map_eq_some_iff.1 hstep
    exact hc
  | read | check | write | tombstone | delete => exact (tombstones_proceed hstep).symm ▸ hc

theorem no_document_after {later : List (Act U)} (h : Inv corpus w) (hc : (w.tombstones c).isSome = true)
    (hrun : run (step corpus) w later = some w') : w'.documents c = none := by
  have hboth : Inv corpus w' ∧ (w'.tombstones c).isSome = true :=
    run_invariant (I := fun w => Inv corpus w ∧ (w.tombstones c).isSome = true)
      (fun _ _ _ h hstep => ⟨inv_step h.1 hstep, tombstone_step h.2 hstep⟩) ⟨h, hc⟩ hrun
  exact hboth.1.exclusive c hboth.2

theorem tombstone_of_purge {delivery : Delivery U T} {purgedAt : Int} (h : Inv corpus w)
    (hget : w.deliveries id = some delivery) (hevent : corpus.event delivery.event = .purged contentIds purgedAt)
    (hstep : step corpus w (.commit id) = some w') (hc : c ∈ contentIds) : (w'.tombstones c).isSome = true := by
  have hfits := (h.deliveries id delivery hget).1
  simp only [step, hget] at hstep
  obtain ⟨w'', hcommit, rfl⟩ := Option.map_eq_some_iff.1 hstep
  show (w''.tombstones c).isSome = true
  unfold commitStage at hcommit
  split at hcommit
  · rename_i hstage
    rw [hstage] at hfits
    exact absurd hevent (hfits _ _)
  · rename_i hstage
    rw [hstage] at hfits
    exact absurd hevent (hfits _ _)
  · rename_i hstage
    rw [hstage] at hfits
    obtain ⟨_, hpurged⟩ := hfits
    rw [hevent] at hpurged
    injection hpurged with hcontents _
    rw [hevent] at hcommit
    simp only [Option.some.injEq] at hcommit
    subst hcommit hcontents
    simp [World.commitPurge, hc]
  · cases hcommit

/-- The rows of two runs that delivered the same events of a content. -/
theorem documents_eq (h : Shows corpus (history corpus c w.delivered) (w.documents c))
    (h' : Shows corpus (history corpus c w'.delivered) (w'.documents c))
    (hsame : ∀ u, (∃ s ∈ statements corpus u, s.contentId = c) → (u ∈ w.delivered ↔ u ∈ w'.delivered)) :
    w.documents c = w'.documents c := by
  have hmem : ∀ s, s ∈ history corpus c w.delivered ↔ s ∈ history corpus c w'.delivered := fun s => by
    have hone : ∀ u, (u ∈ w.delivered ∧ s ∈ about c (statements corpus u)) ↔
        (u ∈ w'.delivered ∧ s ∈ about c (statements corpus u)) := fun u => by
      refine and_congr_left fun hs => hsame u ⟨s, (mem_filter.1 hs).1, of_decide_eq_true (mem_filter.1 hs).2⟩
    simp only [history, mem_flatMap, hone]
  have hcoherent : Coherent (history corpus c w.delivered) := coherent_of_inCorpus fun s hs => (inCorpus_history hs).1
  cases hrow : w.documents c with
  | none =>
    rw [hrow] at h
    cases hrow' : w'.documents c with
    | none => rfl
    | some row' =>
      rw [hrow'] at h'
      obtain ⟨s, hs, -⟩ := h'.least
      rw [← hmem s, show history corpus c w.delivered = [] from h] at hs
      cases hs
  | some row =>
    rw [hrow] at h
    cases hrow' : w'.documents c with
    | none =>
      rw [hrow'] at h'
      obtain ⟨s, hs, -⟩ := h.least
      rw [hmem s, show history corpus c w'.delivered = [] from h'] at hs
      cases hs
    | some row' =>
      rw [hrow'] at h'
      exact congrArg some (h.unique h' hcoherent hmem)

/-- **A purge is final.**  No content has a tombstone and a document, whatever deliveries run at once; what is purged is
not indexed again; what is not purged has the row of the events delivered, in whatever order. -/
theorem purge_is_final (corpus : Corpus U T) (acts : List (Act U)) (w : World U T)
    (hrun : run (step corpus) World.start acts = some w) :
    (∀ c, ¬ ((w.tombstones c).isSome = true ∧ (w.documents c).isSome = true)) ∧
    (∀ c, (w.tombstones c).isSome = true → ∀ later w', run (step corpus) w later = some w' → w'.documents c = none) ∧
    (∀ id delivery contentIds purgedAt purged, w.deliveries id = some delivery →
      corpus.event delivery.event = .purged contentIds purgedAt → step corpus w (.commit id) = some purged →
        ∀ c ∈ contentIds, ∀ later w', run (step corpus) purged later = some w' → w'.documents c = none) ∧
    (∀ c, w.tombstones c = none → Shows corpus (history corpus c w.delivered) (w.documents c)) ∧
    ∀ acts' w', run (step corpus) World.start acts' = some w' → ∀ c, w.tombstones c = none → w'.tombstones c = none →
      (∀ u, (∃ s ∈ statements corpus u, s.contentId = c) → (u ∈ w.delivered ↔ u ∈ w'.delivered)) →
        w.documents c = w'.documents c := by
  have hinv : Inv corpus w := inv_run hrun
  refine ⟨fun c hboth => ?_, fun c hc later w' hlater => no_document_after hinv hc hlater, ?_, hinv.current, ?_⟩
  · rw [hinv.exclusive c hboth.1] at hboth
    cases hboth.2
  · intro id delivery contentIds purgedAt purged hget hevent hstep c hc later w' hlater
    exact no_document_after (inv_step hinv hstep) (tombstone_of_purge hinv hget hevent hstep hc) hlater
  · intro acts' w' hrun' c hc hc' hsame
    exact documents_eq (hinv.current c hc) ((inv_run hrun').current c hc') hsame

def sampleCorpus : Corpus Nat String where
  event u :=
    if u = 0 then .content "message.recorded" (some "p") (some "r") none 10 [⟨"a", "sha-a", "text/plain", "sanitized"⟩]
    else if u = 1 then
      .content "message.recorded" (some "p") (some "r") (some "s") 5
        [⟨"b", "sha-b", "text/plain", "sanitized"⟩, ⟨"a", "sha-a", "text/plain", "sanitized"⟩]
    else .purged ["a"] 20
  text sha _ := sha
  toTsvector body := body
  lockHash key := key.length

/-- Two events index contents while one of them is purged. -/
def sampleActs : List (Act Nat) :=
  [.deliver 0 0, .read 0, .read 0, .deliver 1 1, .read 1, .deliver 2 2, .lock 0, .check 0, .write 0, .commit 0, .read 1,
    .read 1, .lock 2, .check 2, .tombstone 2, .delete 2, .commit 2, .lock 1, .lock 1, .check 1, .write 1, .commit 1]

theorem purge_is_final_sample : ∃ w, run (step sampleCorpus) World.start sampleActs = some w ∧
    (w.tombstones "a").isSome = true ∧ w.documents "a" = none ∧ (w.documents "b").map (·.sourceEventIds) = some [1] := by
  have hrun : (run (step sampleCorpus) World.start sampleActs).map
      (fun w => ((w.tombstones "a").isSome, (w.documents "b").map (·.sourceEventIds))) = some (true, some [1]) := by
    decide +kernel
  obtain ⟨w, hw, hrows⟩ := Option.map_eq_some_iff.1 hrun
  obtain ⟨hpurged, hsources⟩ := Prod.mk.inj hrows
  exact ⟨w, hw, hpurged, (purge_is_final sampleCorpus sampleActs w hw).2.1 "a" hpurged [] w rfl, hsources⟩

end Search
