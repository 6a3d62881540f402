import AgentContext.Ledger.Outcomes
import AgentContext.Lib.Transition

/-!
# Concurrent appends

Any number of transactions over one ledger.  A transaction runs `append_with_outcome` statement by
statement: it locks its streams in order, then its idempotency keys in lock-key order, then inserts its
drafts in batch order, and its caller commits or rolls back.  A statement is not enabled while another
transaction holds the row lock or advisory lock it asks for, or an uncommitted event row it would clash
with; a transaction keeps what it holds until it commits or rolls back, also after it raised.

    step       one statement, commit, rollback, arrival, or quarantine of a stream
    WorldInv   the ledger invariant, the invariant of every running transaction, and that they are apart
-/

namespace Ledger

open Keyset List

variable {J D : Type}

/-! ## Transactions -/

inductive TxnStatus
  | running
  /-- The call raised; the caller has not rolled back yet. -/
  | raised (error : AppendError)
  | committed
  | rolledBack
deriving DecidableEq, Repr

structure Txn (J D : Type) where
  batch : List (ResolvedEvent J D)
  plan : List Nat
  stamps : Nat → Stamp
  streamsTodo : List String
  keysTodo : List Int
  heldStreams : List String
  heldKeys : List Int
  session : Session J D
  status : TxnStatus

/-- The next statement of a transaction. -/
inductive Statement
  | lockStream (streamId : String)
  | lockKey (key : Int)
  | insert (i : Nat)
deriving DecidableEq, Repr

def Txn.next (txn : Txn J D) : Option Statement :=
  match txn.streamsTodo, txn.keysTodo with
  | sid :: _, _ => some (.lockStream sid)
  | [], key :: _ => some (.lockKey key)
  | [], [] =>
    if txn.session.results.length < txn.batch.length then some (.insert txn.session.results.length) else none

/-- Running, or raised and not rolled back yet: its locks and rows are still there. -/
def Txn.isOpen (txn : Txn J D) : Bool :=
  match txn.status with
  | .running | .raised _ => true
  | .committed | .rolledBack => false

section System

variable [DecidableEq J] [DecidableEq D]

/-- What `append_with_outcome` does before its first statement.  `lockKey` is `_idempotency_lock_key`. -/
def Txn.start (sdk : Sdk J D) (lockKey : String × String → Int) (batch : List (ResolvedEvent J D))
    (stamps : Nat → Stamp) : Txn J D :=
  let checked := do
    batch.forM validateResolvedEvent
    planBatch sdk batch
  match checked with
  | .error error => ⟨batch, [], stamps, [], [], [], [], Session.start, .raised error⟩
  | .ok plan => ⟨batch, plan, stamps, sortedSet (batch.map (·.draft.streamId)),
      sortedSet (batch.map (lockKey <| sdk.draftKey ·.draft)), [], [], Session.start, .running⟩

/-- One statement of a running transaction on the committed tables `db`. -/
def Txn.exec (sdk : Sdk J D) (db : Db J D) (txn : Txn J D) : Statement → Txn J D
  | .lockStream sid =>
    let held := { txn with streamsTodo := txn.streamsTodo.tail, heldStreams := txn.heldStreams ++ [sid] }
    match lockStream db sid txn.session with
    | .error error => { held with status := .raised error }
    | .ok session => { held with session := session }
  | .lockKey key => { txn with keysTodo := txn.keysTodo.tail, heldKeys := txn.heldKeys ++ [key] }
  | .insert i =>
    match insertAt sdk db txn.batch txn.plan txn.stamps i txn.session with
    | .error error => { txn with status := .raised error }
    | .ok session => { txn with session := session }

/-- Two event rows that cannot both be in `ledger.events`. -/
def EventRow.clash (row row' : EventRow J D) : Bool :=
  row.eventId = row'.eventId ∨ row.key = row'.key ∨
    (row.streamId = row'.streamId ∧ row.streamSequence = row'.streamSequence)

/-- `holder` holds what the statement of `txn` needs: the stream's head row, the key's advisory lock, or
an uncommitted event that clashes with the row to insert. -/
def Txn.waitsOn (sdk : Sdk J D) (txn : Txn J D) (statement : Statement) (holder : Txn J D) : Bool :=
  match statement with
  | .lockStream sid => sid ∈ holder.heldStreams
  | .lockKey key => key ∈ holder.heldKeys
  | .insert i =>
    match insertedRow sdk txn.batch txn.plan txn.stamps i txn.session with
    | some row => holder.session.writes.events.any row.clash
    | none => false

/-! ## The system -/

structure World (J D : Type) where
  db : Db J D
  txns : List (Txn J D)

def World.init : World J D := ⟨Db.empty, []⟩

inductive Label (J D : Type)
  | start (batch : List (ResolvedEvent J D)) (stamps : Nat → Stamp)
  | exec (t : Nat)
  | commit (t : Nat)
  | rollback (t : Nat)
  | quarantine (streamId : String)

/-- Transaction `t` waits for transaction `u`. -/
def World.waitsFor (sdk : Sdk J D) (w : World J D) (t u : Nat) : Bool :=
  match w.txns[t]?, w.txns[u]? with
  | some txn, some holder => t ≠ u && txn.status = .running && holder.isOpen &&
      match txn.next with
      | some statement => txn.waitsOn sdk statement holder
      | none => false
  | _, _ => false

/-- Mark a stream's head row quarantined. -/
def Db.quarantine (db : Db J D) (streamId : String) : Db J D :=
  { db with streams := db.streams.map fun row =>
      if row.streamId = streamId then { row with status := .quarantined } else row }

def step (sdk : Sdk J D) (lockKey : String × String → Int) (w : World J D) : Label J D → Option (World J D)
  | .start batch stamps => some { w with txns := w.txns ++ [Txn.start sdk lockKey batch stamps] }
  | .exec t =>
    match w.txns[t]? with
    | none => none
    | some txn =>
      match txn.next with
      | none => none
      | some statement =>
        if txn.status = .running ∧ (List.range w.txns.length).all (fun u => ! w.waitsFor sdk t u) then
          some { w with txns := w.txns.set t (txn.exec sdk w.db statement) }
        else none
  | .commit t =>
    match w.txns[t]? with
    | none => none
    | some txn =>
      if txn.status = .running ∧ txn.next = none then
        some ⟨commit w.db txn.session, w.txns.set t { txn with status := .committed }⟩
      else none
  | .rollback t =>
    match w.txns[t]? with
    | none => none
    | some txn =>
      if txn.isOpen then some { w with txns := w.txns.set t { txn with status := .rolledBack } } else none
  | .quarantine sid =>
    if w.txns.all fun txn => ! txn.isOpen || sid ∉ txn.heldStreams then some { w with db := w.db.quarantine sid }
    else none

end System

/-! ## The invariant of a running transaction -/

structure TxnInv (sdk : Sdk J D) (lockKey : String × String → Int) (db : Db J D) (txn : Txn J D) : Prop where
  planned : Planned txn.batch txn.plan
  planLength : txn.plan.length = txn.batch.length
  session : SessionInv sdk db txn.session
  outcomes : Outcomes sdk db txn.batch txn.session
  locked : txn.session.locked = txn.heldStreams
  streams : txn.heldStreams ++ txn.streamsTodo = sortedSet (txn.batch.map (·.draft.streamId))
  keys : txn.heldKeys ++ txn.keysTodo = sortedSet (txn.batch.map (lockKey <| sdk.draftKey ·.draft))
  /-- Keys are locked after the streams, and nothing is inserted before both are. -/
  keyPhase : txn.streamsTodo ≠ [] → txn.heldKeys = []
  insertPhase : txn.streamsTodo ≠ [] ∨ txn.keysTodo ≠ [] → txn.session.results = []

section TxnInv

variable {sdk : Sdk J D} {lockKey : String × String → Int} {db : Db J D} {txn : Txn J D}
variable {txn' : Txn J D}

theorem validateResolvedEvent_error {resolved : ResolvedEvent J D} {error : AppendError}
    (h : validateResolvedEvent resolved = .error error) : ∃ ids, error = .unknownContentIds ids ∧ ids ≠ [] ∧
      ∀ id ∈ ids, id ∈ resolved.redactionReports.map Prod.fst ∧ id ∉ resolved.contentRefs.map (·.contentId) := by
  unfold validateResolvedEvent at h
  simp only at h
  split at h
  · cases h
  · next hne =>
    cases h
    refine ⟨_, rfl, ?_, ?_⟩
    · intro hnil
      apply hne
      have hlen := (perm_insertionSort (· ≤ ·) ((resolved.redactionReports.map Prod.fst).dedup.filter
        fun contentId => contentId ∉ resolved.contentRefs.map (·.contentId))).length_eq
      rw [hnil, length_nil] at hlen
      exact length_eq_zero_iff.1 hlen.symm
    · intro id hid
      rw [mem_insertionSort, mem_filter, mem_dedup, decide_eq_true_eq] at hid
      exact hid

theorem forM_validate_error : ∀ {batch : List (ResolvedEvent J D)} {error : AppendError},
    batch.forM validateResolvedEvent = .error error → ∃ resolved ∈ batch, validateResolvedEvent resolved = .error error
  | [], _, h => by cases h
  | resolved :: rest, error, h => by
    change (validateResolvedEvent resolved).bind (fun _ => rest.forM validateResolvedEvent) = .error error at h
    cases hv : validateResolvedEvent resolved with
    | error error' =>
      rw [hv] at h
      cases h
      exact ⟨resolved, mem_cons_self, hv⟩
    | ok _ =>
      rw [hv] at h
      obtain ⟨other, hmem, hother⟩ := forM_validate_error h
      exact ⟨other, mem_cons_of_mem _ hmem, hother⟩

section

variable (inv : TxnInv sdk lockKey db txn)
include inv

theorem TxnInv.all_locked (hs : txn.streamsTodo = []) :
    ∀ resolved ∈ txn.batch, resolved.draft.streamId ∈ txn.session.locked := by
  intro resolved hmem
  have hstreams := inv.streams
  rw [hs, append_nil] at hstreams
  rw [inv.locked, hstreams, mem_sortedSet]
  exact mem_map.2 ⟨resolved, hmem, rfl⟩

theorem TxnInv.locked_batch :
    ∀ sid ∈ txn.session.locked, ∃ resolved ∈ txn.batch, resolved.draft.streamId = sid := by
  intro sid hsid
  rw [inv.locked] at hsid
  have hmem : sid ∈ sortedSet (txn.batch.map (·.draft.streamId)) := inv.streams ▸ mem_append_left _ hsid
  rw [mem_sortedSet] at hmem
  exact mem_map.1 hmem

theorem TxnInv.writes_keys :
    ∀ e ∈ txn.session.writes.events, lockKey e.key ∈ txn.heldKeys := by
  intro e he
  obtain ⟨j, outcome, hr, -, hstored⟩ := inv.outcomes.created_of_row he
  have hne : txn.session.results ≠ [] := ne_nil_of_mem (mem_of_getElem? hr)
  have hdone : txn.keysTodo = [] := by
    by_contra h
    exact hne (inv.insertPhase (Or.inr h))
  have hj := (List.getElem?_eq_some_iff.1 hr).1
  have hjb : j < txn.batch.length := Nat.lt_of_lt_of_le hj inv.outcomes.count
  have hkeys := inv.keys
  rw [hdone, append_nil] at hkeys
  rw [hkeys, mem_sortedSet, hstored.key,
    storedIdentity_key sdk (inv.outcomes.identity (List.getElem?_eq_getElem hjb) hr)]
  exact mem_map.2 ⟨_, getElem_mem hjb, rfl⟩

end

theorem Txn.next_lockStream {sid : String} (h : txn.next = some (.lockStream sid)) :
    ∃ rest, txn.streamsTodo = sid :: rest := by
  unfold Txn.next at h
  split at h
  · next rest _ _ hs =>
    cases h
    exact ⟨_, hs⟩
  · cases h
  · split at h <;> cases h

theorem Txn.next_lockKey {key : Int} (h : txn.next = some (.lockKey key)) :
    txn.streamsTodo = [] ∧ ∃ rest, txn.keysTodo = key :: rest := by
  unfold Txn.next at h
  split at h
  · cases h
  · next hs hk =>
    cases h
    exact ⟨hs, _, hk⟩
  · split at h <;> cases h

theorem Txn.next_insert {i : Nat} (h : txn.next = some (.insert i)) :
    txn.streamsTodo = [] ∧ txn.keysTodo = [] ∧ i = txn.session.results.length ∧ i < txn.batch.length := by
  unfold Txn.next at h
  split at h
  · cases h
  · cases h
  · next hs hk =>
    split at h
    · next hlt =>
      cases h
      exact ⟨hs, hk, rfl, hlt⟩
    · cases h

theorem Txn.next_none (h : txn.next = none) :
    txn.streamsTodo = [] ∧ txn.keysTodo = [] ∧ txn.batch.length ≤ txn.session.results.length := by
  unfold Txn.next at h
  split at h
  · cases h
  · cases h
  · next hs hk =>
    split at h
    · cases h
    · next hge => exact ⟨hs, hk, Nat.le_of_not_lt hge⟩

/-- Two transactions that hold no lock in common and whose uncommitted events differ in event id. -/
structure HeldApart (txn txn' : Txn J D) : Prop where
  streams : ∀ sid ∈ txn.heldStreams, sid ∉ txn'.heldStreams
  keys : ∀ key ∈ txn.heldKeys, key ∉ txn'.heldKeys
  eventIds : ∀ e ∈ txn.session.writes.events, ∀ f ∈ txn'.session.writes.events, e.eventId ≠ f.eventId

theorem HeldApart.symm (h : HeldApart txn txn') : HeldApart txn' txn where
  streams := fun sid hs hs' => h.streams sid hs' hs
  keys := fun key hk hk' => h.keys key hk' hk
  eventIds := fun e he f hf heq => h.eventIds f hf e he heq.symm

theorem HeldApart.apart (h : HeldApart txn txn') (inv : TxnInv sdk lockKey db txn)
    (inv' : TxnInv sdk lockKey db txn') : Apart txn.session txn'.session where
  locked := by
    intro sid hs hs'
    rw [inv.locked] at hs
    rw [inv'.locked] at hs'
    exact h.streams sid hs hs'
  eventIds := h.eventIds
  keys := by
    intro e he f hf heq
    exact h.keys _ (inv.writes_keys e he) (heq ▸ inv'.writes_keys f hf)

/-- Another transaction's commit keeps the invariant of a running one. -/
theorem TxnInv.stable (inv : TxnInv sdk lockKey db txn) (inv' : TxnInv sdk lockKey db txn') (h : HeldApart txn txn') :
    TxnInv sdk lockKey (commit db txn.session) txn' :=
  { inv' with
    session := inv.session.stable inv'.session (h.apart inv inv')
    outcomes := inv'.outcomes.stable inv.session (h.apart inv inv') }

variable [DecidableEq J] [DecidableEq D]

/-- A new transaction either raises before its first statement or starts with the invariant. -/
theorem Txn.start_cases (sdk : Sdk J D) (lockKey : String × String → Int) (base : LedgerInv sdk db)
    (batch : List (ResolvedEvent J D)) (stamps : Nat → Stamp) :
    (∃ error, (Txn.start sdk lockKey batch stamps).status = .raised error ∧ Raised sdk db batch stamps error) ∨
      ((Txn.start sdk lockKey batch stamps).status = .running ∧
        TxnInv sdk lockKey db (Txn.start sdk lockKey batch stamps) ∧
        ∀ holder : Txn J D, HeldApart (Txn.start sdk lockKey batch stamps) holder) := by
  unfold Txn.start
  cases hv : batch.forM validateResolvedEvent with
  | error error =>
    obtain ⟨resolved, hmem, herr⟩ := forM_validate_error hv
    obtain ⟨ids, rfl, hne, hids⟩ := validateResolvedEvent_error herr
    exact Or.inl ⟨_, rfl, .unknownContentIds hmem hne hids⟩
  | ok _ =>
    rcases planBatch_cases sdk batch with ⟨plan, hplan, hlen, planned⟩ | ⟨error, hplan, hc⟩
    · refine Or.inr ?_
      simp only [bind, Except.bind, hplan]
      refine ⟨trivial, ?_, fun holder => ⟨by simp, by simp, by simp [Session.start, Db.empty]⟩⟩
      exact ⟨planned, hlen, SessionInv.start base, Outcomes.start, rfl, rfl, rfl, fun _ => rfl, fun _ => rfl⟩
    · refine Or.inl ⟨error, ?_, .batchConflict hc⟩
      simp only [bind, Except.bind, hplan]

/-- **What a statement of a running transaction can do**: raise for a reason, or keep the invariant and
stay apart from every transaction it did not wait on. -/
theorem TxnInv.exec (law : sdk.Lawful) (base : LedgerInv sdk db) (inv : TxnInv sdk lockKey db txn)
    (hrun : txn.status = .running) {statement : Statement} (hnext : txn.next = some statement) :
    (∃ error, (txn.exec sdk db statement).status = .raised error ∧
      Raised sdk (db ++ txn.session.writes) txn.batch txn.stamps error) ∨
    ((txn.exec sdk db statement).status = .running ∧ TxnInv sdk lockKey db (txn.exec sdk db statement) ∧
      ∀ holder : Txn J D, txn.waitsOn sdk statement holder = false → HeldApart txn holder →
        HeldApart (txn.exec sdk db statement) holder) := by
  cases statement with
  | lockStream sid =>
    obtain ⟨rest, hs⟩ := Txn.next_lockStream hnext
    have hstreams := inv.streams
    rw [hs] at hstreams
    have hsorted : (txn.heldStreams ++ sid :: rest).Nodup := hstreams ▸ sortedSet_nodup _
    have hsid : sid ∉ txn.session.locked := by
      rw [inv.locked]
      intro hmem
      exact (nodup_append.1 hsorted).2.2 sid hmem sid mem_cons_self rfl
    have hbatch : ∃ resolved ∈ txn.batch, resolved.draft.streamId = sid := by
      have hmem : sid ∈ sortedSet (txn.batch.map (·.draft.streamId)) := hstreams ▸ by simp
      rw [mem_sortedSet] at hmem
      exact mem_map.1 hmem
    rcases lockStream_cases db sid txn.session with ⟨row, hrow, hq, herr⟩ | hok
    · left
      obtain ⟨resolved, hmem, hstream⟩ := hbatch
      obtain ⟨hin, hid⟩ := streamRow_mem hrow
      refine ⟨.streamQuarantined sid, by simp [Txn.exec, herr], ?_⟩
      exact hid ▸ Raised.streamQuarantined hmem hin (hid.trans hstream.symm) hq
    · right
      obtain ⟨s', hs'⟩ : ∃ s', lockStream db sid txn.session = .ok s' := by
        rcases hok with ⟨row, -, -, h⟩ | ⟨-, h⟩
        · exact ⟨_, h⟩
        · exact ⟨_, h⟩
      obtain ⟨hinv, hlocked, hresults, hevents, hrefs⟩ := lockStream_inv base inv.session hsid hs'
      have hexec : txn.exec sdk db (.lockStream sid) = { txn with
          streamsTodo := txn.streamsTodo.tail
          heldStreams := txn.heldStreams ++ [sid]
          session := s' } := by
        simp [Txn.exec, hs']
      rw [hexec]
      refine ⟨hrun, ?_, ?_⟩
      · refine ⟨inv.planned, inv.planLength, hinv, inv.outcomes.frame hresults hevents hrefs, ?_, ?_, inv.keys, ?_, ?_⟩
        · show s'.locked = _
          rw [hlocked, inv.locked]
        · show (txn.heldStreams ++ [sid]) ++ txn.streamsTodo.tail = _
          rw [hs, tail_cons, append_assoc]
          exact hstreams
        · intro _
          exact inv.keyPhase (by simp [hs])
        · intro _
          show s'.results = []
          rw [hresults]
          exact inv.insertPhase (Or.inl (by simp [hs]))
      · intro holder hfree hapart
        refine ⟨?_, hapart.keys, ?_⟩
        · intro sid' hmem
          rcases mem_append.1 hmem with hmem | hmem
          · exact hapart.streams sid' hmem
          · rw [mem_singleton] at hmem
            subst hmem
            simpa [Txn.waitsOn] using hfree
        · show ∀ e ∈ s'.writes.events, _
          rw [hevents]
          exact hapart.eventIds
  | lockKey key =>
    obtain ⟨hs, rest, hk⟩ := Txn.next_lockKey hnext
    right
    refine ⟨hrun, ?_, ?_⟩
    · refine ⟨inv.planned, inv.planLength, inv.session, inv.outcomes, inv.locked, inv.streams, ?_, ?_, ?_⟩
      · show (txn.heldKeys ++ [key]) ++ txn.keysTodo.tail = _
        rw [hk, tail_cons, append_assoc]
        exact (congrArg (txn.heldKeys ++ ·) hk.symm).trans inv.keys
      · exact fun h => absurd hs h
      · intro _
        exact inv.insertPhase (Or.inr (by simp [hk]))
    · intro holder hfree hapart
      refine ⟨hapart.streams, ?_, hapart.eventIds⟩
      intro key' hmem
      rcases mem_append.1 hmem with hmem | hmem
      · exact hapart.keys key' hmem
      · rw [mem_singleton] at hmem
        subst hmem
        simpa [Txn.waitsOn] using hfree
  | insert i =>
    obtain ⟨hs, hk, rfl, hlt⟩ := Txn.next_insert hnext
    rcases insertAt_cases txn.stamps law inv.planned inv.planLength inv.session inv.outcomes hlt
        (inv.all_locked hs) with ⟨s', hs', hinv, hout, hlocked, hgain⟩ | ⟨error, herr, hraised⟩
    · right
      have hexec : txn.exec sdk db (.insert txn.session.results.length) = { txn with session := s' } := by
        simp [Txn.exec, hs']
      rw [hexec]
      refine ⟨hrun, ?_, ?_⟩
      · refine ⟨inv.planned, inv.planLength, hinv, hout, hlocked.trans inv.locked, inv.streams, inv.keys,
          inv.keyPhase, ?_⟩
        rintro (h | h)
        · exact absurd hs h
        · exact absurd hk h
      · intro holder hfree hapart
        refine ⟨hapart.streams, hapart.keys, ?_⟩
        show ∀ e ∈ s'.writes.events, _
        rcases hgain with hsame | ⟨row, hrow, hgain⟩
        · rw [hsame]
          exact hapart.eventIds
        · rw [hgain]
          intro e he f hf
          rcases mem_append.1 he with he | he
          · exact hapart.eventIds e he f hf
          · rw [mem_singleton] at he
            subst he
            simp only [Txn.waitsOn, hrow, any_eq_false] at hfree
            have := hfree f hf
            simp only [EventRow.clash, decide_eq_true_eq, not_or] at this
            exact this.1
    · left
      exact ⟨error, by simp [Txn.exec, herr], hraised⟩

end TxnInv

/-! ## The invariant of the system -/

/-- **The ledger invariant, with every running transaction's own and their separation.** -/
structure WorldInv (sdk : Sdk J D) (lockKey : String × String → Int) (w : World J D) : Prop where
  ledger : LedgerInv sdk w.db
  txn : ∀ {t : Nat} {txn : Txn J D}, w.txns[t]? = some txn → txn.status = .running → TxnInv sdk lockKey w.db txn
  apart : ∀ {t u : Nat} {txn txn' : Txn J D}, t ≠ u → w.txns[t]? = some txn → w.txns[u]? = some txn' →
    txn.status = .running → txn'.status = .running → HeldApart txn txn'

section Quarantine

variable {sdk : Sdk J D} {db : Db J D} {s : Session J D} {sid : String}

theorem quarantine_streamIds (rows : List (EventStreamRow D)) : (rows.map fun row =>
    if row.streamId = sid then { row with status := .quarantined } else row).map (·.streamId) =
      rows.map (·.streamId) := by
  rw [map_map]
  apply map_congr_left
  intro row _
  by_cases h : row.streamId = sid <;> simp [h]

theorem mem_quarantine (sid : String) {row : EventStreamRow D} (h : row ∈ db.streams) :
    ∃ row' ∈ (db.quarantine sid).streams, row'.streamId = row.streamId ∧ row'.head = row.head ∧
      (row.streamId ≠ sid → row' = row) := by
  refine ⟨_, mem_map.2 ⟨row, h, rfl⟩, ?_⟩
  by_cases hid : row.streamId = sid <;> simp [hid, EventStreamRow.head]

theorem LedgerInv.quarantine (base : LedgerInv sdk db) : LedgerInv sdk (db.quarantine sid) where
  eventIds := base.eventIds
  keys := base.keys
  outbox := base.outbox
  streamIds := by
    show (List.map _ (List.map _ _)).Nodup
    rw [quarantine_streamIds]
    exact base.streamIds
  chained := base.chained
  homes := by
    intro e he
    obtain ⟨row, hrow, hid⟩ := base.homes e he
    obtain ⟨row', hrow', hid', -⟩ := mem_quarantine sid hrow
    exact ⟨row', hrow', hid'.trans hid⟩
  stored := fun row hrow => (base.stored row hrow).imp fun _ he => ⟨he.origin, he.row_eq, he.refs⟩
  refHomes := base.refHomes
  heads := by
    intro row hrow
    obtain ⟨old, hold, rfl⟩ := mem_map.1 hrow
    have hhead := base.heads old hold
    by_cases hid : old.streamId = sid
    · simp only [hid, if_true] at hhead ⊢
      exact hhead
    · simp only [hid, if_false]
      exact hhead

theorem SessionInv.quarantine (inv : SessionInv sdk db s) (hsid : sid ∉ s.locked) :
    SessionInv sdk (db.quarantine sid) s where
  rows := {
    eventIds := inv.rows.eventIds
    keys := inv.rows.keys
    outbox := inv.rows.outbox
    streamIds := by
      show (List.map _ (List.map _ _ ++ s.writes.streams)).Nodup
      rw [map_append, quarantine_streamIds, ← map_append]
      exact inv.rows.streamIds
    chained := inv.rows.chained
    homes := by
      intro e he
      obtain ⟨row, hrow, hid⟩ := inv.rows.homes e he
      rcases mem_append.1 hrow with hrow | hrow
      · obtain ⟨row', hrow', hid', -⟩ := mem_quarantine sid hrow
        exact ⟨row', mem_append_left _ hrow', hid'.trans hid⟩
      · exact ⟨row, mem_append_right _ hrow, hid⟩
    stored := fun row hrow => (inv.rows.stored row hrow).imp fun _ he => ⟨he.origin, he.row_eq, he.refs⟩
    refHomes := inv.rows.refHomes }
  outbox := inv.outbox
  refHomes := inv.refHomes
  locked := inv.locked
  states := inv.states
  active := by
    intro sid' h
    obtain ⟨row, hrow, hid, hactive⟩ := inv.active sid' h
    rcases mem_append.1 hrow with hrow | hrow
    · obtain ⟨row', hrow', hid', -, hsame⟩ := mem_quarantine sid hrow
      have hne : row.streamId ≠ sid := by
        rw [hid]
        rintro rfl
        exact hsid h
      exact ⟨row', mem_append_left _ hrow', hid'.trans hid, by rw [hsame hne, hactive]⟩
    · exact ⟨row, mem_append_right _ hrow, hid, hactive⟩
  touched := inv.touched
  writesLocked := inv.writesLocked
  seeds := inv.seeds

theorem TxnInv.quarantine {lockKey : String × String → Int} {txn : Txn J D} (inv : TxnInv sdk lockKey db txn)
    (hsid : sid ∉ txn.heldStreams) : TxnInv sdk lockKey (db.quarantine sid) txn :=
  { inv with
    session := inv.session.quarantine (inv.locked ▸ hsid)
    outcomes := { inv.outcomes with
      events := inv.outcomes.events.imp fun _ _ h => ⟨h.origin, h.row_eq, h.refs⟩
      replay := fun hr hc => (inv.outcomes.replay hr hc).imp_left fun ⟨row, hrow, h⟩ =>
        ⟨row, hrow, h.origin, h.row_eq, h.refs⟩ } }

end Quarantine

section WorldInv

variable {sdk : Sdk J D} {lockKey : String × String → Int} {w w' : World J D}
variable {txn : Txn J D}

theorem WorldInv.init : WorldInv sdk lockKey World.init where
  ledger := LedgerInv.empty sdk
  txn := by simp [World.init]
  apart := by simp [World.init]

theorem World.waitsFor_false {t u : Nat} {txn holder : Txn J D} {statement : Statement} (htu : t ≠ u)
    (ht : w.txns[t]? = some txn) (hu : w.txns[u]? = some holder) (hrun : txn.status = .running)
    (hopen : holder.isOpen = true) (hnext : txn.next = some statement) (h : w.waitsFor sdk t u = false) :
    txn.waitsOn sdk statement holder = false := by
  simpa [World.waitsFor, ht, hu, htu, hrun, hopen, hnext] using h

/-- Replacing a transaction by one that no longer runs keeps the invariant. -/
theorem WorldInv.retire (inv : WorldInv sdk lockKey w) {t : Nat} (hstop : txn.status ≠ .running) :
    WorldInv sdk lockKey { w with txns := w.txns.set t txn } := by
  have hold : ∀ {u : Nat} {other : Txn J D}, (w.txns.set t txn)[u]? = some other → other.status = .running →
      w.txns[u]? = some other := by
    intro u other hu hrun
    rw [List.getElem?_set] at hu
    split at hu
    · split at hu
      · cases hu
        exact absurd hrun hstop
      · cases hu
    · exact hu
  exact ⟨inv.ledger, fun hu hrun => inv.txn (hold hu hrun) hrun,
    fun hne hu hu' hrun hrun' => inv.apart hne (hold hu hrun) (hold hu' hrun') hrun hrun'⟩

/-- Adding or replacing a running transaction that has its invariant and is apart from the others. -/
theorem WorldInv.update (inv : WorldInv sdk lockKey w) {txns : List (Txn J D)} {t : Nat}
    (hold : ∀ {u : Nat}, u ≠ t → txns[u]? = w.txns[u]?)
    (hnew : ∀ {other : Txn J D}, txns[t]? = some other → other = txn) (htxn : TxnInv sdk lockKey w.db txn)
    (hapart : ∀ {u : Nat} {other : Txn J D}, u ≠ t → w.txns[u]? = some other → other.status = .running →
      HeldApart txn other) : WorldInv sdk lockKey { w with txns := txns } where
  ledger := inv.ledger
  txn := by
    intro u other hu hrun
    by_cases h : u = t
    · subst h
      exact hnew hu ▸ htxn
    · exact inv.txn (hold h ▸ hu) hrun
  apart := by
    intro u v a b huv hu hv hra hrb
    by_cases h : u = t
    · subst h
      have hvt : v ≠ u := fun h => huv h.symm
      exact hnew hu ▸ hapart hvt (hold hvt ▸ hv) hrb
    · by_cases h' : v = t
      · subst h'
        exact hnew hv ▸ (hapart h (hold h ▸ hu) hra).symm
      · exact inv.apart huv (hold h ▸ hu) (hold h' ▸ hv) hra hrb

theorem isOpen_of_running (h : txn.status = .running) : txn.isOpen = true := by simp [Txn.isOpen, h]

variable [DecidableEq J] [DecidableEq D]

/-- What one step of the system can do. -/
theorem step_cases {l : Label J D} (h : step sdk lockKey w l = some w') : (∃ batch stamps, l = .start batch stamps ∧
      w' = { w with txns := w.txns ++ [Txn.start sdk lockKey batch stamps] }) ∨
    (∃ t txn statement, l = .exec t ∧ w.txns[t]? = some txn ∧ txn.status = .running ∧
      txn.next = some statement ∧ (∀ u, w.waitsFor sdk t u = false) ∧
      w' = { w with txns := w.txns.set t (txn.exec sdk w.db statement) }) ∨
    (∃ t txn, l = .commit t ∧ w.txns[t]? = some txn ∧ txn.status = .running ∧ txn.next = none ∧
      w' = ⟨commit w.db txn.session, w.txns.set t { txn with status := .committed }⟩) ∨
    (∃ t txn, l = .rollback t ∧ w.txns[t]? = some txn ∧ txn.isOpen = true ∧
      w' = { w with txns := w.txns.set t { txn with status := .rolledBack } }) ∨
    (∃ sid, l = .quarantine sid ∧ (∀ txn ∈ w.txns, txn.isOpen = true → sid ∉ txn.heldStreams) ∧
      w' = { w with db := w.db.quarantine sid }) := by
  cases l with
  | start batch stamps =>
    simp only [step, Option.some.injEq] at h
    exact Or.inl ⟨batch, stamps, rfl, h.symm⟩
  | exec t =>
    simp only [step] at h
    split at h
    · cases h
    · next txn ht =>
      split at h
      · cases h
      · next statement hnext =>
        split at h
        · next hok =>
          simp only [Option.some.injEq] at h
          refine Or.inr (Or.inl ⟨t, txn, statement, rfl, ht, hok.1, hnext, ?_, h.symm⟩)
          intro u
          by_cases hu : u < w.txns.length
          · simpa using all_eq_true.1 hok.2 u (mem_range.2 hu)
          · unfold World.waitsFor
            rw [List.getElem?_eq_none (Nat.le_of_not_lt hu), ht]
        · cases h
  | commit t =>
    simp only [step] at h
    split at h
    · cases h
    · next txn ht =>
      split at h
      · next hok =>
        simp only [Option.some.injEq] at h
        exact Or.inr (Or.inr (Or.inl ⟨t, txn, rfl, ht, hok.1, hok.2, h.symm⟩))
      · cases h
  | rollback t =>
    simp only [step] at h
    split at h
    · cases h
    · next txn ht =>
      split at h
      · next hok =>
        simp only [Option.some.injEq] at h
        exact Or.inr (Or.inr (Or.inr (Or.inl ⟨t, txn, rfl, ht, hok, h.symm⟩)))
      · cases h
  | quarantine sid =>
    simp only [step] at h
    split at h
    · next hok =>
      simp only [Option.some.injEq] at h
      refine Or.inr (Or.inr (Or.inr (Or.inr ⟨sid, rfl, ?_, h.symm⟩)))
      intro txn hmem hopen
      simpa [hopen] using all_eq_true.1 hok txn hmem
    · cases h

/-- **Every step keeps the invariant of the system.** -/
theorem WorldInv.step (law : sdk.Lawful) (inv : WorldInv sdk lockKey w) {l : Label J D}
    (h : step sdk lockKey w l = some w') : WorldInv sdk lockKey w' := by
  rcases step_cases h with ⟨batch, stamps, rfl, rfl⟩ | ⟨t, txn, statement, rfl, ht, hrun, hnext, hfree, rfl⟩ |
    ⟨t, txn, rfl, ht, hrun, hnext, rfl⟩ | ⟨t, txn, rfl, ht, hopen, rfl⟩ | ⟨sid, rfl, hfree, rfl⟩
  · have hold : ∀ {u : Nat}, u ≠ w.txns.length → (w.txns ++ [Txn.start sdk lockKey batch stamps])[u]? = w.txns[u]? := by
      intro u hu
      rw [List.getElem?_append]
      split
      · rfl
      · next hge => rw [List.getElem?_eq_none (by simp; omega), List.getElem?_eq_none (by omega)]
    have hnew : ∀ {other : Txn J D}, (w.txns ++ [Txn.start sdk lockKey batch stamps])[w.txns.length]? = some other →
        other = Txn.start sdk lockKey batch stamps := by
      intro other h
      simpa using h.symm
    rcases Txn.start_cases sdk lockKey inv.ledger batch stamps with ⟨error, hraised, -⟩ |
      ⟨-, htxn, hapart⟩
    · have hskip : ∀ {u : Nat} {other : Txn J D}, (w.txns ++ [Txn.start sdk lockKey batch stamps])[u]? = some other →
          other.status = .running → w.txns[u]? = some other := by
        intro u other hu hrun
        by_cases h : u = w.txns.length
        · subst h
          rw [hnew hu, hraised] at hrun
          cases hrun
        · exact hold h ▸ hu
      exact ⟨inv.ledger, fun hu hrun => inv.txn (hskip hu hrun) hrun,
        fun hne hu hu' hrun hrun' => inv.apart hne (hskip hu hrun) (hskip hu' hrun') hrun hrun'⟩
    · exact inv.update hold hnew htxn fun _ _ _ => hapart _
  · have hlt := (List.getElem?_eq_some_iff.1 ht).1
    rcases (inv.txn ht hrun).exec law inv.ledger hrun hnext with ⟨error, hraised, -⟩ | ⟨-, htxn, hapart⟩
    · exact inv.retire (by rw [hraised]; simp)
    · refine inv.update (t := t) ?_ ?_ htxn ?_
      · intro u hu
        exact List.getElem?_set_ne (Ne.symm hu)
      · intro other h
        rw [List.getElem?_set_self hlt] at h
        exact (Option.some.inj h).symm
      · intro u other hut hu hrunu
        refine hapart other ?_ (inv.apart (Ne.symm hut) ht hu hrun hrunu)
        exact World.waitsFor_false (Ne.symm hut) ht hu hrun (isOpen_of_running hrunu) hnext (hfree u)
  · have htxn := inv.txn ht hrun
    have hkeep : WorldInv sdk lockKey { w with txns := w.txns.set t { txn with status := .committed } } :=
      inv.retire (by simp)
    have hother : ∀ {u : Nat} {other : Txn J D}, (w.txns.set t { txn with status := .committed })[u]? = some other →
        other.status = .running → u ≠ t ∧ w.txns[u]? = some other := by
      intro u other hu hrunu
      by_cases h : u = t
      · subst h
        rw [List.getElem?_set_self (List.getElem?_eq_some_iff.1 ht).1] at hu
        cases hu
        cases hrunu
      · exact ⟨h, by rwa [List.getElem?_set_ne (Ne.symm h)] at hu⟩
    refine ⟨htxn.session.commit inv.ledger, ?_, hkeep.apart⟩
    intro u other hu hrunu
    obtain ⟨hne, hu'⟩ := hother hu hrunu
    exact htxn.stable (inv.txn hu' hrunu) (inv.apart (Ne.symm hne) ht hu' hrun hrunu)
  · exact inv.retire (by simp)
  · refine ⟨inv.ledger.quarantine, ?_, inv.apart⟩
    intro u other hu hrunu
    exact (inv.txn hu hrunu).quarantine (hfree other (mem_of_getElem? hu) (isOpen_of_running hrunu))

end WorldInv

/-! ## A sample system -/

def sampleSdk : Sdk Unit Nat := Sdk.plain (fun _ => "agent") (fun _ => "") (fun _ => 0) (·.streamSequence)

def sampleEvent (eventId streamId idempotencyKey : String) : ResolvedEvent Unit Nat where
  draft := {
    eventType := "session.started"
    schemaVersion := "1.0"
    streamId := streamId
    occurredAt := 0
    observedAt := 0
    producer := ()
    context := ()
    trace := none
    payload := ()
    redaction := ()
    idempotencyKey := idempotencyKey
    eventId := eventId
    contentClaims := [] }
  contentRefs := []
  redactionReports := []

def sampleStamps : Nat → Stamp := fun i => ⟨i, i, false⟩

theorem sampleSdk_lawful : sampleSdk.Lawful := Sdk.plain_lawful _ _ _ _

end Ledger
