import AgentContext.Ledger.Concurrent

/-!
# What concurrent appends guarantee

The two results callers rely on, for every reachable state of any number of interleaved transactions:

    ledger_chained      every stream is a gapless hash chain under its head row, keys and event ids are
                        unique, each event has one outbox row, and a quarantined stream gains no event
    append_idempotent   a committed append returned and did what AppendSpec says; one that raises had a
                        reason and leaves the ledger as it was
-/

namespace Ledger

open HashChain Transition

variable {J D : Type}

/-! ## The chain of every stream -/

/-- The ledger's contract on its tables, read off position by position. -/
structure LedgerChain (db : Db J D) : Prop where
  sequence : ∀ (sid : String) (k : Nat) (h : k < (streamEvents db.events sid).length),
    (streamEvents db.events sid)[k].streamSequence = k + 1
  first : ∀ (sid : String) (h : 0 < (streamEvents db.events sid).length),
    (streamEvents db.events sid)[0].previousEventSha256 = none
  previous : ∀ (sid : String) (k : Nat) (h : k + 1 < (streamEvents db.events sid).length),
    (streamEvents db.events sid)[k + 1].previousEventSha256 = some (streamEvents db.events sid)[k].eventSha256
  head : ∀ (sid : String) (e : EventRow J D), (streamEvents db.events sid).getLast? = some e →
    ∃ row ∈ db.streams, row.streamId = sid ∧
      row.head = ⟨e.streamSequence, some e.eventId, some e.eventSha256⟩
  headUnique : (db.streams.map (·.streamId)).Nodup
  emptyHead : ∀ row ∈ db.streams, streamEvents db.events row.streamId = [] → row.head = ⟨0, none, none⟩
  eventIds : (db.events.map (·.eventId)).Nodup
  keys : (db.events.map (·.key)).Nodup
  outbox : ∀ e ∈ db.events, (db.outbox.filter (·.eventId = e.eventId)).length = 1

theorem filter_length_one {α : Type} {f : α → String} : ∀ {xs : List α} {a : String}, (xs.map f).Nodup → a ∈ xs.map f →
    (xs.filter (f · = a)).length = 1
  | [], _, _, h => by simp at h
  | x :: xs, a, hnodup, hmem => by
    rw [List.map_cons, List.nodup_cons] at hnodup
    rw [List.map_cons, List.mem_cons] at hmem
    by_cases hx : f x = a
    · have hnone : xs.filter (f · = a) = [] := by
        rw [List.filter_eq_nil_iff]
        intro y hy
        rw [decide_eq_true_eq]
        intro heq
        exact hnodup.1 (hx ▸ heq ▸ List.mem_map.2 ⟨y, hy, rfl⟩)
      rw [List.filter_cons, if_pos (by simpa using hx), hnone]
      rfl
    · rw [List.filter_cons, if_neg (by simpa using hx)]
      exact filter_length_one hnodup.2 (hmem.resolve_left fun h => hx h.symm)

theorem LedgerInv.chain {sdk : Sdk J D} {db : Db J D} (inv : LedgerInv sdk db) : LedgerChain db where
  sequence := fun sid k h => ((chained_iff_getElem links _).1 (inv.chained sid) k h).1
  first := fun sid h => ((chained_iff_getElem links _).1 (inv.chained sid) 0 h).2
  previous := by
    intro sid k h
    have hlink := ((chained_iff_getElem links _).1 (inv.chained sid) (k + 1) h).2
    rw [if_neg (Nat.succ_ne_zero k), Nat.add_sub_cancel, List.getElem?_eq_getElem (by omega)] at hlink
    exact hlink
  head := by
    intro sid e he
    have hmem : e ∈ streamEvents db.events sid := List.mem_of_getLast? he
    obtain ⟨row, hrow, hid⟩ := inv.homes e (mem_streamEvents.1 hmem).1
    rw [(mem_streamEvents.1 hmem).2] at hid
    refine ⟨row, hrow, hid, ?_⟩
    rw [inv.heads row hrow, hid]
    obtain ⟨front, hfront⟩ := List.getLast?_eq_some_iff.1 he
    rw [hfront, headState_snoc]
  headUnique := inv.streamIds
  emptyHead := fun row hrow hnil => by rw [inv.heads row hrow, hnil, headState_nil]
  eventIds := inv.eventIds
  keys := inv.keys
  outbox := by
    intro e he
    apply filter_length_one
    · rw [inv.outbox]
      exact inv.eventIds
    · rw [inv.outbox]
      exact List.mem_map.2 ⟨e, he, rfl⟩

section Runs

variable [DecidableEq J] [DecidableEq D] {sdk : Sdk J D} {lockKey : String × String → Int} {w w' : World J D}
variable {l : Label J D}

theorem reachable_inv (law : sdk.Lawful) (h : Reachable (step sdk lockKey) World.init w) : WorldInv sdk lockKey w :=
  h.invariant WorldInv.init fun _ _ _ inv hs => inv.step law hs

theorem step_db (h : step sdk lockKey w l = some w') :
    w'.db = w.db ∨ (∃ t txn, l = .commit t ∧ w.txns[t]? = some txn ∧ txn.status = .running ∧ txn.next = none ∧
      w'.db = commit w.db txn.session) ∨ ∃ sid, l = .quarantine sid ∧ w'.db = w.db.quarantine sid := by
  rcases step_cases h with ⟨batch, stamps, rfl, rfl⟩ | ⟨t, txn, statement, rfl, ht, hrun, hnext, hfree, rfl⟩ |
    ⟨t, txn, rfl, ht, hrun, hnext, rfl⟩ | ⟨t, txn, rfl, ht, hopen, rfl⟩ | ⟨sid, rfl, hfree, rfl⟩
  · exact Or.inl rfl
  · exact Or.inl rfl
  · exact Or.inr (Or.inl ⟨t, txn, rfl, ht, hrun, hnext, rfl⟩)
  · exact Or.inl rfl
  · exact Or.inr (Or.inr ⟨sid, rfl, rfl⟩)

/-- A stream that is not active, and its events. -/
def Frozen (sid : String) (events : List (EventRow J D)) (w : World J D) : Prop :=
  (∃ row ∈ w.db.streams, row.streamId = sid ∧ row.status ≠ .active) ∧ streamEvents w.db.events sid = events

theorem Frozen.step (inv : WorldInv sdk lockKey w) {sid : String} {events : List (EventRow J D)}
    (hf : Frozen sid events w) (h : step sdk lockKey w l = some w') : Frozen sid events w' := by
  obtain ⟨⟨row, hrow, hid, hstatus⟩, hevents⟩ := hf
  rcases step_db h with hdb | ⟨t, txn, -, ht, hrun, -, hdb⟩ | ⟨sid', -, hdb⟩
  · unfold Frozen
    rw [hdb]
    exact ⟨⟨row, hrow, hid, hstatus⟩, hevents⟩
  · have htxn := inv.txn ht hrun
    have hunlocked : sid ∉ txn.session.locked := by
      intro hlocked
      obtain ⟨row', hrow', hid', hactive⟩ := htxn.session.active sid hlocked
      have hview : row ∈ (w.db ++ txn.session.writes).streams := List.mem_append_left _ hrow
      have : row' = row := List.inj_on_of_nodup_map htxn.session.rows.streamIds hrow' hview (hid'.trans hid.symm)
      exact hstatus (this ▸ hactive)
    unfold Frozen
    rw [hdb]
    refine ⟨⟨updateStreamHead txn.session row, ?_, by simpa using hid, by simpa using hstatus⟩, ?_⟩
    · exact List.mem_map.2 ⟨row, List.mem_append_left _ hrow, rfl⟩
    · show streamEvents (w.db.events ++ txn.session.writes.events) sid = events
      rw [streamEvents_append, htxn.session.unlocked hunlocked, List.append_nil, hevents]
  · unfold Frozen
    rw [hdb]
    refine ⟨?_, hevents⟩
    obtain ⟨row', hrow', hid', -, hsame⟩ := mem_quarantine sid' hrow
    by_cases hs : row.streamId = sid'
    · refine ⟨_, List.mem_map.2 ⟨row, hrow, rfl⟩, ?_, ?_⟩ <;> simp [hs, ← hid]
    · exact ⟨row', hrow', hid'.trans hid, by rw [hsame hs]; exact hstatus⟩

/-- **Every stream of a reachable ledger is a gapless hash chain.**  From a state in which a stream is not
active, no run adds an event to it. -/
theorem ledger_chained (law : sdk.Lawful) (h : Reachable (step sdk lockKey) World.init w) :
    LedgerChain w.db ∧ ∀ row ∈ w.db.streams, row.status ≠ .active → ∀ ls w', run (step sdk lockKey) w ls = some w' →
      streamEvents w'.db.events row.streamId = streamEvents w.db.events row.streamId := by
  have inv := reachable_inv law h
  refine ⟨inv.ledger.chain, ?_⟩
  intro row hrow hstatus ls w' hrun
  have hkeep := run_invariant
    (I := fun u => WorldInv sdk lockKey u ∧ Frozen row.streamId (streamEvents w.db.events row.streamId) u)
    (fun _ _ _ hI hs => ⟨hI.1.step law hs, hI.2.step hI.1 hs⟩)
    ⟨inv, ⟨row, hrow, rfl, hstatus⟩, rfl⟩ hrun
  exact hkeep.2.2

/-- A batch of three drafts, the last a repeat of the first. -/
def sampleBatch : List (ResolvedEvent Unit Nat) :=
  [sampleEvent "e1" "s" "k1", sampleEvent "e2" "s" "k2", sampleEvent "e3" "s" "k1"]

def sampleAppend : List (Label Unit Nat) :=
  [.start sampleBatch sampleStamps, .exec 0, .exec 0, .exec 0, .exec 0, .exec 0]

theorem ledger_chained_sample : ∃ w, run (Ledger.step sampleSdk fun _ => 0) World.init (sampleAppend ++ [.commit 0]) = some w ∧
    w.db.events.length = 2 ∧ LedgerChain w.db := by
  have heval : (run (Ledger.step sampleSdk fun _ => 0) World.init (sampleAppend ++ [.commit 0])).map (·.db.events.length) =
      some 2 := by decide
  obtain ⟨w, hw, hlen⟩ := Option.map_eq_some_iff.1 heval
  exact ⟨w, hw, hlen, (ledger_chained sampleSdk_lawful ⟨_, hw⟩).1⟩

/-! ## Idempotent appends -/

theorem stored_step (inv : WorldInv sdk lockKey w) (h : step sdk lockKey w l = some w') {row : EventRow J D}
    {e : StoredEvent J D} (hrow : row ∈ w.db.events) (he : StoredAs sdk w.db row e) :
    row ∈ w'.db.events ∧ StoredAs sdk w'.db row e := by
  rcases step_db h with hdb | ⟨t, txn, -, ht, hrun, -, hdb⟩ | ⟨sid, -, hdb⟩
  · rw [hdb]
    exact ⟨hrow, he⟩
  · rw [hdb]
    have hview := ((inv.txn ht hrun).session.stored_base hrow).2 he
    exact ⟨List.mem_append_left _ hrow, hview.origin, hview.row_eq, hview.refs⟩
  · rw [hdb]
    exact ⟨hrow, he.origin, he.row_eq, he.refs⟩

/-- Once the call raised, the transaction never runs again. -/
theorem raised_step {t : Nat} (h : step sdk lockKey w l = some w')
    (hstop : ∃ txn, w.txns[t]? = some txn ∧ txn.status ≠ .running) :
    ∃ txn, w'.txns[t]? = some txn ∧ txn.status ≠ .running := by
  obtain ⟨txn, ht, hstatus⟩ := hstop
  have hother : ∀ {u : Nat} {other next : Txn J D}, w.txns[u]? = some other → next.status ≠ .running ∨
      other.status = .running → ∃ txn, (w.txns.set u next)[t]? = some txn ∧ txn.status ≠ .running := by
    intro u other next hu hnext
    by_cases hut : u = t
    · subst hut
      rw [ht] at hu
      cases hu
      exact ⟨next, List.getElem?_set_self (List.getElem?_eq_some_iff.1 ht).1, hnext.resolve_right hstatus⟩
    · exact ⟨txn, by rw [List.getElem?_set_ne hut, ht], hstatus⟩
  rcases step_cases h with ⟨batch, stamps, rfl, rfl⟩ | ⟨u, other, statement, rfl, hu, hrun, hnext, hfree, rfl⟩ |
    ⟨u, other, rfl, hu, hrun, hnext, rfl⟩ | ⟨u, other, rfl, hu, hopen, rfl⟩ | ⟨sid, rfl, hfree, rfl⟩
  · exact ⟨txn, (List.getElem?_append_left (List.getElem?_eq_some_iff.1 ht).1).trans ht, hstatus⟩
  · exact hother hu (Or.inr hrun)
  · exact hother hu (Or.inl (by simp))
  · exact hother hu (Or.inl (by simp))
  · exact ⟨txn, ht, hstatus⟩

theorem commit_spec (law : sdk.Lawful) (inv : WorldInv sdk lockKey w) {t : Nat} {txn : Txn J D} (ht : w.txns[t]? = some txn)
    (hs : step sdk lockKey w (.commit t) = some w') : AppendSpec sdk w.db txn.batch txn.session.results w'.db := by
  rcases step_cases hs with ⟨_, _, hl, -⟩ | ⟨_, _, _, hl, -⟩ | ⟨u, other, hl, hu, hrun, hnext, rfl⟩ |
    ⟨_, _, hl, -⟩ | ⟨_, hl, -⟩
  · cases hl
  · cases hl
  · cases hl
    rw [ht] at hu
    cases hu
    have htxn := inv.txn ht hrun
    have hdone := (Txn.next_none hnext).2.2
    exact htxn.outcomes.appendSpec law inv.ledger htxn.session
      (Nat.le_antisymm htxn.outcomes.count hdone) htxn.locked_batch
  · cases hl
  · cases hl

/-- **Appends are idempotent and all or nothing.**  In every reachable state: an append that commits did
what `AppendSpec` says on the ledger it commits to; a call that raises does so for a reason, and is never
committed; nothing but a commit or a quarantine changes the ledger; and a stored event is never changed. -/
theorem append_idempotent (law : sdk.Lawful) (h : Reachable (step sdk lockKey) World.init w) :
    (∀ t txn w', w.txns[t]? = some txn → step sdk lockKey w (.commit t) = some w' →
      AppendSpec sdk w.db txn.batch txn.session.results w'.db) ∧
    (∀ batch stamps error, (Txn.start sdk lockKey batch stamps).status = .raised error →
      Raised sdk w.db batch stamps error) ∧
    (∀ t txn w' txn' error, w.txns[t]? = some txn → step sdk lockKey w (.exec t) = some w' →
      w'.txns[t]? = some txn' → txn'.status = .raised error →
        Raised sdk (w.db ++ txn.session.writes) txn.batch txn.stamps error) ∧
    (∀ t txn, w.txns[t]? = some txn → txn.status ≠ .running → ∀ ls w', run (step sdk lockKey) w ls = some w' →
      step sdk lockKey w' (.commit t) = none) ∧
    (∀ l w', step sdk lockKey w l = some w' → (∀ t, l ≠ .commit t) → (∀ sid, l ≠ .quarantine sid) →
      w'.db = w.db) ∧
    ∀ row ∈ w.db.events, ∀ e, StoredAs sdk w.db row e → ∀ ls w', run (step sdk lockKey) w ls = some w' →
      row ∈ w'.db.events ∧ StoredAs sdk w'.db row e := by
  have inv := reachable_inv law h
  refine ⟨?_, ?_, ?_, ?_, ?_, ?_⟩
  · intro t txn w' ht hs
    exact commit_spec law inv ht hs
  · intro batch stamps error hraised
    rcases Txn.start_cases sdk lockKey inv.ledger batch stamps with ⟨error', hraised', hreason⟩ | ⟨hrun, -⟩
    · rw [hraised'] at hraised
      cases hraised
      exact hreason
    · rw [hrun] at hraised
      cases hraised
  · intro t txn w' txn' error ht hs ht' hraised
    rcases step_cases hs with ⟨_, _, hl, -⟩ | ⟨u, other, statement, hl, hu, hrun, hnext, -, rfl⟩ |
      ⟨_, _, hl, -⟩ | ⟨_, _, hl, -⟩ | ⟨_, hl, -⟩
    · cases hl
    · cases hl
      rw [ht] at hu
      cases hu
      rw [List.getElem?_set_self (List.getElem?_eq_some_iff.1 ht).1] at ht'
      cases ht'
      rcases (inv.txn ht hrun).exec law inv.ledger hrun hnext with ⟨error', hraised', hreason⟩ | ⟨hrun', -⟩
      · rw [hraised'] at hraised
        cases hraised
        exact hreason
      · rw [hrun'] at hraised
        cases hraised
    · cases hl
    · cases hl
    · cases hl
  · intro t txn ht hstatus ls w' hrun
    obtain ⟨txn', ht', hstop⟩ := run_invariant
      (I := fun u => ∃ txn, u.txns[t]? = some txn ∧ txn.status ≠ .running)
      (fun _ _ _ hI hs => raised_step hs hI) ⟨txn, ht, hstatus⟩ hrun
    simp [step, ht', hstop]
  · intro l w' hs hcommit hquarantine
    rcases step_db hs with hdb | ⟨t, -, hl, -⟩ | ⟨sid, hl, -⟩
    · exact hdb
    · exact absurd hl (hcommit t)
    · exact absurd hl (hquarantine sid)
  · intro row hrow e he ls w' hrun
    have hkeep := run_invariant
      (I := fun u => WorldInv sdk lockKey u ∧ row ∈ u.db.events ∧ StoredAs sdk u.db row e)
      (fun _ _ _ hI hs => ⟨hI.1.step law hs, stored_step hI.1 hs hI.2.1 hI.2.2⟩) ⟨inv, hrow, he⟩ hrun
    exact hkeep.2

theorem append_idempotent_sample : ∃ w txn w', run (Ledger.step sampleSdk fun _ => 0) World.init sampleAppend = some w ∧
    w.txns[0]? = some txn ∧ Ledger.step sampleSdk (fun _ => 0) w (.commit 0) = some w' ∧
    AppendSpec sampleSdk w.db txn.batch txn.session.results w'.db := by
  have heval : (run (Ledger.step sampleSdk fun _ => 0) World.init sampleAppend).map (fun w =>
      (w.txns[0]?.isSome, (Ledger.step sampleSdk (fun _ => 0) w (.commit 0)).isSome)) = some (true, true) := by decide
  obtain ⟨w, hw, hsome⟩ := Option.map_eq_some_iff.1 heval
  obtain ⟨txn, htxn⟩ := Option.isSome_iff_exists.1 (congrArg Prod.fst hsome)
  obtain ⟨w', hw'⟩ := Option.isSome_iff_exists.1 (congrArg Prod.snd hsome)
  exact ⟨w, txn, w', hw, htxn, hw', (append_idempotent sampleSdk_lawful ⟨_, hw⟩).1 0 txn w' htxn hw'⟩

end Runs

end Ledger
