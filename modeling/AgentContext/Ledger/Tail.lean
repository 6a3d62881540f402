import AgentContext.Ledger.Verify

/-!
# `verify_ledger` from a later sequence

A run with `since_sequence = n` walks the events of a stream numbered `n` and up.  It takes the digest before them
from the stored event numbered `n - 1`, and when there is nothing to walk it checks the head against the stream's
real last event.  The rows of a full run are those before `n` and then those of the tail:

    rowsFrom_split        rowsFrom events sid 0 = (its rows before n) ++ rowsFrom events sid n
    walkStream_eq         the batches do not matter
    walkStream_covers     a full walk fails before n, or at the same gap, or just as the tail does
    tail_verification     so a tail run is ok whenever the full run is, and finds nothing the full run is silent about
-/

namespace Ledger

open HashChain Keyset List

variable {J D : Type}

/-! ## The rows of a tail -/

section Rows

variable {events : List (EventRow J D)} {sid : String}
variable {rows : List (EventRow J D)} {row : EventRow J D}
variable {p : EventRow J D → Bool}

theorem filter_orderedInsert (hrow : p row = true) (hsorted : rows.Pairwise (·.streamSequence ≤ ·.streamSequence)) :
    (rows.orderedInsert (·.streamSequence ≤ ·.streamSequence) row).filter p =
      (rows.filter p).orderedInsert (·.streamSequence ≤ ·.streamSequence) row := by
  induction rows with
  | nil => simp [hrow]
  | cons r rows ih =>
    rw [pairwise_cons] at hsorted
    by_cases hle : row.streamSequence ≤ r.streamSequence
    · have hall : ∀ r' ∈ (r :: rows).filter p, row.streamSequence ≤ r'.streamSequence := by
        intro r' hr'
        rcases mem_cons.1 (mem_filter.1 hr').1 with rfl | hmem
        · exact hle
        · exact le_trans hle (hsorted.1 r' hmem)
      rw [orderedInsert_cons, if_pos hle, filter_cons, if_pos hrow]
      cases hrest : (r :: rows).filter p with
      | nil => rfl
      | cons r' rest => rw [orderedInsert_cons, if_pos (hall r' (by rw [hrest]; exact mem_cons_self))]
    · rw [orderedInsert_cons, if_neg hle, filter_cons, ih hsorted.2]
      by_cases hp : p r = true
      · rw [if_pos hp, filter_cons, if_pos hp, orderedInsert_cons, if_neg hle]
      · rw [if_neg hp, filter_cons, if_neg hp]

theorem filter_orderedInsert_neg (hrow : ¬ p row = true) :
    (rows.orderedInsert (·.streamSequence ≤ ·.streamSequence) row).filter p = rows.filter p := by
  induction rows with
  | nil => simp [hrow]
  | cons r rows ih =>
    by_cases hle : row.streamSequence ≤ r.streamSequence
    · rw [orderedInsert_cons, if_pos hle, filter_cons, if_neg hrow]
    · rw [orderedInsert_cons, if_neg hle, filter_cons, ih, filter_cons]

theorem rowsFrom_sorted (events : List (EventRow J D)) (sid : String) (since : Nat) :
    (rowsFrom events sid since).Pairwise (·.streamSequence ≤ ·.streamSequence) := by
  have : Std.Total fun a b : EventRow J D => a.streamSequence ≤ b.streamSequence :=
    ⟨fun a b => le_total a.streamSequence b.streamSequence⟩
  have : IsTrans (EventRow J D) fun a b => a.streamSequence ≤ b.streamSequence := ⟨fun _ _ _ h h' => le_trans h h'⟩
  exact pairwise_insertionSort _ _

/-- Sorting keeps the order of rows with one sequence, so it does not matter whether it comes before the filter. -/
theorem filter_insertionSort (p : EventRow J D → Bool) (rows : List (EventRow J D)) :
    (rows.insertionSort (·.streamSequence ≤ ·.streamSequence)).filter p =
      (rows.filter p).insertionSort (·.streamSequence ≤ ·.streamSequence) := by
  have : Std.Total fun a b : EventRow J D => a.streamSequence ≤ b.streamSequence :=
    ⟨fun a b => le_total a.streamSequence b.streamSequence⟩
  have : IsTrans (EventRow J D) fun a b => a.streamSequence ≤ b.streamSequence := ⟨fun _ _ _ h h' => le_trans h h'⟩
  induction rows with
  | nil => rfl
  | cons row rows ih =>
    have hsorted := pairwise_insertionSort (fun a b : EventRow J D => a.streamSequence ≤ b.streamSequence) rows
    rw [insertionSort_cons]
    by_cases hp : p row = true
    · rw [filter_orderedInsert hp hsorted, ih, filter_cons, if_pos hp, insertionSort_cons]
    · rw [filter_orderedInsert_neg hp, ih, filter_cons, if_neg hp]

theorem rowsFrom_eq_filter (events : List (EventRow J D)) (sid : String) (since : Nat) :
    rowsFrom events sid since = (rowsFrom events sid 0).filter (since ≤ ·.streamSequence) := by
  have hall : (streamEvents events sid).filter (0 ≤ ·.streamSequence) = streamEvents events sid := by
    rw [filter_eq_self]
    exact fun row _ => decide_eq_true (Nat.zero_le _)
  unfold rowsFrom
  rw [hall, filter_insertionSort]

/-- The rows before `since`. -/
def rowsBefore (events : List (EventRow J D)) (sid : String) (since : Nat) : List (EventRow J D) :=
  (rowsFrom events sid 0).filter (·.streamSequence < since)

theorem since_split (since : Nat) (hsorted : rows.Pairwise (·.streamSequence ≤ ·.streamSequence)) :
    rows = rows.filter (·.streamSequence < since) ++ rows.filter (since ≤ ·.streamSequence) := by
  induction rows with
  | nil => rfl
  | cons row rows ih =>
    rw [pairwise_cons] at hsorted
    by_cases hlt : row.streamSequence < since
    · rw [filter_cons, if_pos (by simpa using hlt), filter_cons, if_neg (by simpa using hlt),
        cons_append, ← ih hsorted.2]
    · have hnone : rows.filter (·.streamSequence < since) = [] := by
        rw [filter_eq_nil_iff]
        intro r hr
        have := hsorted.1 r hr
        rw [decide_eq_true_eq]
        omega
      have hall : rows.filter (since ≤ ·.streamSequence) = rows := by
        rw [filter_eq_self]
        intro r hr
        have := hsorted.1 r hr
        exact decide_eq_true (by omega)
      rw [filter_cons, if_neg (by simpa using hlt), hnone, filter_cons,
        if_pos (by simpa using Nat.le_of_not_lt hlt), hall]
      rfl

/-- **A tail is the rest of the rows.** -/
theorem rowsFrom_split (events : List (EventRow J D)) (sid : String) (since : Nat) :
    rowsFrom events sid 0 = rowsBefore events sid since ++ rowsFrom events sid since := by
  rw [rowsFrom_eq_filter events sid since]
  exact since_split since (rowsFrom_sorted events sid 0)

theorem mem_rowsBefore {since : Nat} : row ∈ rowsBefore events sid since ↔
    row ∈ streamEvents events sid ∧ row.streamSequence < since := by
  unfold rowsBefore rowsFrom
  simp [mem_filter]

theorem mem_rowsFrom {since : Nat} : row ∈ rowsFrom events sid since ↔
    row ∈ streamEvents events sid ∧ since ≤ row.streamSequence := by
  unfold rowsFrom
  simp [mem_filter]

/-- Sequences are positive, so a full run walks every row. -/
theorem rowsFrom_one (hpos : ∀ row ∈ events, 0 < row.streamSequence) (sid : String) :
    rowsFrom events sid 1 = rowsFrom events sid 0 := by
  rw [rowsFrom_eq_filter, filter_eq_self]
  intro row hrow
  exact decide_eq_true (hpos row (mem_streamEvents.1 (mem_rowsFrom.1 hrow).1).1)

end Rows

/-! ## A walk without its batches -/

section Walks

variable [DecidableEq D] {sdk : Sdk J D} {db : Db J D} {head : EventStreamRow D} {since batchSize : Nat}
variable {w : Walk J D}
variable {refs : String → List (EventContentRefRow D)} {rows : List (EventRow J D)}
variable {failure : IntegrityFailure D}

/-- The digest a walk starts from. -/
def predecessorDigest (db : Db J D) (head : EventStreamRow D) (since : Nat) : Option D :=
  if 1 < since then
    ((streamEvents db.events head.streamId).find? (·.streamSequence + 1 = since)).map (·.eventSha256)
  else none

/-- The first row of a tail whose predecessor is missing. -/
def orphan (db : Db J D) (head : EventStreamRow D) (since : Nat) : Option (EventRow J D) :=
  if 1 < since ∧ predecessorDigest db head since = none then (rowsFrom db.events head.streamId since).head? else none

/-- The event the head is checked against. -/
def headEvent (db : Db J D) (head : EventStreamRow D) (since : Nat) (last : Option (EventRow J D)) :
    Option (EventRow J D) :=
  if last.isNone ∧ 1 < since then (rowsFrom db.events head.streamId 0).getLast? else last

def finishWalk (db : Db J D) (head : EventStreamRow D) (since : Nat) :
    Option (IntegrityFailure D) × Walk J D → StreamVerification D
  | (some failure, w) => { w.result with failure := some failure }
  | (none, w) => { w.result with failure := checkHead head (headEvent db head since w.last) }

def startWalk (db : Db J D) (head : EventStreamRow D) (since : Nat) : Walk J D :=
  ⟨since, predecessorDigest db head since, none, { streamId := head.streamId }⟩

/-- **The batches of a walk do not matter.** -/
theorem walkStream_eq (hb : 0 < batchSize) : (walkStream sdk db head since batchSize).1 =
    match orphan db head since with
    | some later => { streamId := head.streamId, failure := some {
        check := .sequence
        streamSequence := some later.streamSequence
        expected := some (.number (since - 1))
        actual := some (.number later.streamSequence) } }
    | none => finishWalk db head since
        (walkRows sdk (refsOf db) (rowsFrom db.events head.streamId since) (startWalk db head since)) := by
  have hbatches := walkBatches_eq sdk db (partitions batchSize (rowsFrom db.events head.streamId since).length
    (rowsFrom db.events head.streamId since)) (startWalk db head since) 0
  rw [partitions_flatten hb (Nat.le_refl _)] at hbatches
  cases horphan : orphan db head since with
  | some later =>
    unfold orphan predecessorDigest at horphan
    unfold walkStream
    dsimp only
    rw [horphan]
  | none =>
    unfold orphan predecessorDigest at horphan
    rw [← hbatches]
    unfold walkStream startWalk predecessorDigest
    dsimp only
    rw [horphan]
    dsimp only
    split
    · next failure w batches hwalk => rw [hwalk]; rfl
    · next w batches hwalk => rw [hwalk]; rfl

theorem walkRows_start {w w' : Walk J D} (hsequence : w.expectedSequence = w'.expectedSequence)
    (hdigest : w.previousDigest = w'.previousDigest) :
    (walkRows sdk refs rows w).1 = (walkRows sdk refs rows w').1 := by
  induction rows generalizing w w' with
  | nil => rfl
  | cons row rows ih =>
    unfold walkRows
    rw [hsequence, hdigest]
    cases checkEvent sdk row w'.expectedSequence w'.previousDigest (refs row.eventId) with
    | some failure => rfl
    | none => exact ih rfl rfl

theorem checkEvent_sequence {row : EventRow J D} {n : Nat} {p : Option D} {refs : List (EventContentRefRow D)}
    (h : checkEvent sdk row n p refs = some failure) : failure.streamSequence = some row.streamSequence := by
  have hfail : ∀ (check : Check) (expected actual : Option (Shown D)), some failure =
      some (IntegrityFailure.mk check (some row.streamSequence) (some row.eventId) expected actual) →
        failure.streamSequence = some row.streamSequence := fun _ _ _ heq => by rw [Option.some.inj heq]
  unfold checkEvent at h
  split_ifs at h with hseq hprev
  · exact hfail _ _ _ h.symm
  · exact hfail _ _ _ h.symm
  · cases hread : rowToStoredEvent sdk row refs with
    | none =>
      rw [hread] at h
      exact hfail _ _ _ h.symm
    | some event =>
      rw [hread] at h
      simp only at h
      split_ifs at h
      · exact hfail _ _ _ h.symm
      · exact hfail _ _ _ h.symm
      · exact hfail _ _ _ h.symm
      · exact hfail _ _ _ h.symm

theorem walkRows_failure {w w' : Walk J D} (h : walkRows sdk refs rows w = (some failure, w')) :
    ∃ row ∈ rows, failure.streamSequence = some row.streamSequence := by
  induction rows generalizing w with
  | nil => cases h
  | cons row rows ih =>
    unfold walkRows at h
    cases hcheck : checkEvent sdk row w.expectedSequence w.previousDigest (refs row.eventId) with
    | some found =>
      rw [hcheck] at h
      cases h
      exact ⟨row, mem_cons_self, checkEvent_sequence hcheck⟩
    | none =>
      rw [hcheck] at h
      obtain ⟨row', hrow', hseq⟩ := ih h
      exact ⟨row', mem_cons_of_mem _ hrow', hseq⟩

theorem walkRows_gap (sdk : Sdk J D) (refs : String → List (EventContentRefRow D)) {row : EventRow J D}
    (rows : List (EventRow J D)) (h : row.streamSequence ≠ w.expectedSequence) :
    ∃ failure, (walkRows sdk refs (row :: rows) w).1 = some failure ∧ failure.check = .sequence ∧
      failure.streamSequence = some row.streamSequence := by
  unfold walkRows checkEvent
  simp only [if_pos h]
  exact ⟨_, rfl, rfl, rfl⟩

theorem finishWalk_failure (walked : Option (IntegrityFailure D) × Walk J D) :
    (finishWalk db head since walked).failure =
      walked.1.or (checkHead head (headEvent db head since walked.2.last)) := by
  rcases walked with ⟨_ | failure, w⟩
  · rfl
  · rfl

/-! ## A full walk and a tail of it -/

/-- What the rows before a tail are once they passed their checks. -/
structure Passed (db : Db J D) (head : EventStreamRow D) (since : Nat) (w : Walk J D) : Prop where
  seqs : (rowsBefore db.events head.streamId since).map (·.streamSequence) =
    List.range' 1 (rowsBefore db.events head.streamId since).length
  expected : w.expectedSequence = (rowsBefore db.events head.streamId since).length + 1
  digest : w.previousDigest = (rowsBefore db.events head.streamId since).getLast?.map (·.eventSha256)
  last : w.last = (rowsBefore db.events head.streamId since).getLast?

omit [DecidableEq D] in
theorem foldl_advance_state (rows : List (EventRow J D)) (w : Walk J D) :
    (rows.foldl Walk.advance w).previousDigest = (rows.getLast?.map (·.eventSha256)).or w.previousDigest ∧
      (rows.foldl Walk.advance w).expectedSequence =
        (rows.getLast?.map (·.streamSequence + 1)).getD w.expectedSequence := by
  induction rows generalizing w with
  | nil => simp
  | cons row rows ih =>
    obtain ⟨hdigest, hexpected⟩ := ih (w.advance row)
    rw [foldl_cons, hdigest, hexpected]
    cases rows with
    | nil => simp [Walk.advance]
    | cons row' rows => simp [List.getLast?_eq_some_getLast]

/-- A full walk over the rows before a tail. -/
theorem walkRows_before (hw : w = startWalk db head 1)
    (h : (walkRows sdk (refsOf db) (rowsBefore db.events head.streamId since) w).1 = none) :
    Passed db head since (walkRows sdk (refsOf db) (rowsBefore db.events head.streamId since) w).2 := by
  have hstart : w.expectedSequence = 0 + 1 := by rw [hw]; rfl
  have hnone : w.previousDigest = none := by rw [hw]; rfl
  have hlast : w.last = none := by rw [hw]; rfl
  have hchain := (walkRows_none hstart).1 h
  rw [hnone] at hchain
  have hseqs := Chained.seqs links hchain.1
  obtain ⟨hdigest, hexpected⟩ := foldl_advance_state (rowsBefore db.events head.streamId since) w
  have hfold := walkRows_advance h
  rw [← hfold] at hdigest hexpected
  have hlastRow := (foldl_advance (rowsBefore db.events head.streamId since) w).1
  rw [← hfold] at hlastRow
  refine ⟨hseqs, ?_, ?_, ?_⟩
  · have hlen := Chained.lastSeq links hchain.1
    rw [hexpected]
    unfold lastSeq at hlen
    cases hget : (rowsBefore db.events head.streamId since).getLast? with
    | none =>
      rw [List.getLast?_eq_none_iff.1 hget]
      exact hstart
    | some row =>
      rw [hget] at hlen
      exact congrArg (· + 1) hlen
  · rw [hdigest, hnone, Option.or_none]
  · rw [hlastRow, hlast, Option.or_none]

section

omit [DecidableEq D]

section

variable (passed : Passed db head since w)
include passed

/-- Rows that passed are fewer than the sequence the tail starts from. -/
theorem Passed.length_lt (hsince : 0 < since) :
    (rowsBefore db.events head.streamId since).length < since := by
  rcases Nat.eq_zero_or_pos (rowsBefore db.events head.streamId since).length with h0 | hpos
  · omega
  · have hmem : (rowsBefore db.events head.streamId since).length ∈
        (rowsBefore db.events head.streamId since).map (·.streamSequence) := by
      rw [passed.seqs, mem_range'_1]
      omega
    obtain ⟨row, hrow, heq⟩ := mem_map.1 hmem
    have := (mem_rowsBefore.1 hrow).2
    omega

/-- The tail starts right after the rows that passed: its digest is theirs. -/
theorem Passed.predecessor
    (hnext : (rowsBefore db.events head.streamId since).length + 1 = since) :
    predecessorDigest db head since = w.previousDigest := by
  rw [passed.digest, predecessorDigest]
  have hnodup : ((rowsBefore db.events head.streamId since).map (·.streamSequence)).Nodup := by
    rw [passed.seqs]
    exact nodup_range'
  by_cases hone : 1 < since
  · obtain ⟨front, last, hfront⟩ : ∃ front last, rowsBefore db.events head.streamId since = front ++ [last] := by
      refine ⟨_, _, (dropLast_append_getLast (l := rowsBefore db.events head.streamId since) ?_).symm⟩
      intro hnil
      rw [hnil] at hnext
      simp only [length_nil] at hnext
      omega
    have hlastSeq : last.streamSequence + 1 = since := by
      have hseqs := passed.seqs
      rw [hfront, map_append, length_append, length_singleton, List.range'_concat] at hseqs
      have hlast := (append_inj' hseqs rfl).2
      simp only [map_cons, map_nil, List.cons.injEq, and_true] at hlast
      rw [hfront, length_append, length_singleton] at hnext
      omega
    have hlastMem : last ∈ rowsBefore db.events head.streamId since := by
      rw [hfront]
      simp
    rw [if_pos hone]
    cases hfind : (streamEvents db.events head.streamId).find? (·.streamSequence + 1 = since) with
    | none =>
      have hnot := List.find?_eq_none.1 hfind last (mem_rowsBefore.1 hlastMem).1
      rw [decide_eq_true_eq] at hnot
      exact absurd hlastSeq hnot
    | some row =>
      have hseq : row.streamSequence + 1 = since := by simpa using List.find?_some hfind
      have hrow : row ∈ rowsBefore db.events head.streamId since :=
        mem_rowsBefore.2 ⟨List.mem_of_find?_eq_some hfind, by omega⟩
      have hsame : row = last := inj_on_of_nodup_map hnodup hrow hlastMem (by omega)
      rw [hsame, hfront]
      simp
  · have hnil : rowsBefore db.events head.streamId since = [] := length_eq_zero_iff.1 (by omega)
    rw [if_neg hone, hnil]
    rfl

/-- The tail starts past the rows that passed: nothing is numbered right before it. -/
theorem Passed.no_predecessor
    (hgap : (rowsBefore db.events head.streamId since).length + 1 < since) :
    predecessorDigest db head since = none := by
  rw [predecessorDigest]
  split_ifs with hone
  · cases hfind : (streamEvents db.events head.streamId).find? (·.streamSequence + 1 = since) with
    | none => rfl
    | some row =>
      have hseq : row.streamSequence + 1 = since := by simpa using List.find?_some hfind
      have hrow : row ∈ rowsBefore db.events head.streamId since :=
        mem_rowsBefore.2 ⟨List.mem_of_find?_eq_some hfind, by omega⟩
      have hmem : row.streamSequence ∈ (rowsBefore db.events head.streamId since).map (·.streamSequence) :=
        mem_map.2 ⟨row, hrow, rfl⟩
      rw [passed.seqs, mem_range'_1] at hmem
      omega
  · rfl

end

theorem headEvent_one (last : Option (EventRow J D)) : headEvent db head 1 last = last := by simp [headEvent]

theorem Passed.headEvent (passed : Passed db head since w) (hsince : 0 < since) :
    Ledger.headEvent db head since (rowsFrom db.events head.streamId since).getLast? =
      (rowsFrom db.events head.streamId since).getLast?.or w.last := by
  have hlength := passed.length_lt hsince
  have hall : (rowsFrom db.events head.streamId 0).getLast? =
      (rowsFrom db.events head.streamId since).getLast?.or w.last := by
    rw [rowsFrom_split db.events head.streamId since, List.getLast?_append, passed.last]
  unfold Ledger.headEvent
  rw [hall]
  cases (rowsFrom db.events head.streamId since).getLast? with
  | some last => simp
  | none =>
    by_cases hone : 1 < since
    · simp [hone]
    · have hnil : rowsBefore db.events head.streamId since = [] := length_eq_zero_iff.1 (by omega)
      simp [hone, passed.last, hnil]

end

/-- How the failure of a full walk covers that of a tail: it is the same, or it is at an event before the tail, or
both are about the sequence of the same event, the first after a gap that hides the tail's predecessor. -/
def Covers (since : Nat) (full tail : Option (IntegrityFailure D)) : Prop :=
  full = tail ∨ ∃ g, full = some g ∧ ((∃ k, g.streamSequence = some k ∧ k < since) ∨
    ∃ f, tail = some f ∧ g.check = .sequence ∧ f.check = .sequence ∧ g.streamSequence = f.streamSequence)

/-- **A full walk covers its tails.** -/
theorem walkStream_covers (hpos : ∀ row ∈ db.events, 0 < row.streamSequence) (hsince : 0 < since)
    {batchSize' : Nat} (hb : 0 < batchSize) (hb' : 0 < batchSize') :
    Covers since (walkStream sdk db head 1 batchSize).1.failure (walkStream sdk db head since batchSize').1.failure := by
  have hfull : orphan db head 1 = none := by simp [orphan]
  rw [walkStream_eq hb, walkStream_eq hb', hfull, rowsFrom_one hpos, rowsFrom_split db.events head.streamId since,
    walkRows_append]
  simp only [finishWalk_failure]
  obtain ⟨before, hbefore⟩ : ∃ walked, walkRows sdk (refsOf db) (rowsBefore db.events head.streamId since)
    (startWalk db head 1) = walked := ⟨_, rfl⟩
  rcases before with ⟨_ | failure, w⟩
  · have passed : Passed db head since w := by
      have hpassed := walkRows_before rfl (congrArg Prod.fst hbefore)
      rwa [hbefore] at hpassed
    rw [hbefore]
    simp only
    have hlength := passed.length_lt hsince
    by_cases hnext : (rowsBefore db.events head.streamId since).length + 1 = since
    · -- the full walk reaches the tail in the state the tail starts from
      have hdigest := passed.predecessor hnext
      have horphan : orphan db head since = none := by
        unfold orphan
        rw [if_neg]
        rintro ⟨hone, hnone⟩
        rw [hdigest, passed.digest, Option.map_eq_none_iff, List.getLast?_eq_none_iff] at hnone
        rw [hnone] at hnext
        simp only [length_nil] at hnext
        omega
      have hsame : (walkRows sdk (refsOf db) (rowsFrom db.events head.streamId since) w).1 =
          (walkRows sdk (refsOf db) (rowsFrom db.events head.streamId since) (startWalk db head since)).1 :=
        walkRows_start (passed.expected.trans hnext) hdigest.symm
      rw [horphan, finishWalk_failure, hsame]
      refine Or.inl ?_
      cases hwalk : (walkRows sdk (refsOf db) (rowsFrom db.events head.streamId since) (startWalk db head since)).1 with
      | some failure => rfl
      | none =>
        rw [walkRows_advance hwalk, walkRows_advance (hsame.trans hwalk), (foldl_advance _ _).1, (foldl_advance _ _).1,
          headEvent_one]
        rw [show (startWalk db head since).last = none from rfl, Option.or_none, passed.headEvent hsince]
    · have hnone := passed.no_predecessor (by omega)
      have hone : 1 < since := by omega
      cases hrows : rowsFrom db.events head.streamId since with
      | nil =>
        have horphan : orphan db head since = none := by
          unfold orphan
          rw [hrows, List.head?_nil, ite_self]
        have hhead := passed.headEvent hsince
        rw [hrows, List.getLast?_nil, Option.none_or] at hhead
        rw [horphan, finishWalk_failure]
        refine Or.inl ?_
        show (none : Option (IntegrityFailure D)).or (checkHead head (headEvent db head 1 w.last)) =
          (none : Option (IntegrityFailure D)).or (checkHead head (headEvent db head since none))
        rw [headEvent_one, hhead]
      | cons row rows =>
        -- the first row of the tail is out of sequence for both
        have horphan : orphan db head since = some row := by
          unfold orphan
          rw [if_pos ⟨hone, hnone⟩, hrows]
          rfl
        have hrow : row ∈ rowsFrom db.events head.streamId since := by
          rw [hrows]
          exact mem_cons_self
        have hge := (mem_rowsFrom.1 hrow).2
        have hout : row.streamSequence ≠ w.expectedSequence := by
          rw [passed.expected]
          omega
        obtain ⟨failure, hfailure, hcheck, hseq⟩ := walkRows_gap sdk (refsOf db) rows hout
        rw [horphan, hfailure]
        exact Or.inr ⟨failure, rfl, Or.inr ⟨_, rfl, hcheck, rfl, hseq⟩⟩
  · rw [hbefore]
    obtain ⟨row, hrow, hseq⟩ := walkRows_failure hbefore
    exact Or.inr ⟨failure, rfl, Or.inl ⟨row.streamSequence, hseq, (mem_rowsBefore.1 hrow).2⟩⟩

theorem walkStream_events (hb : 0 < batchSize) (h : (walkStream sdk db head since batchSize).1.ok = true) :
    (walkStream sdk db head since batchSize).1.events =
      ((streamEvents db.events head.streamId).filter (since ≤ ·.streamSequence)).length := by
  have hlength : (rowsFrom db.events head.streamId since).length =
      ((streamEvents db.events head.streamId).filter (since ≤ ·.streamSequence)).length := by
    unfold rowsFrom
    rw [length_insertionSort]
  rw [walkStream_eq hb] at h ⊢
  rw [← hlength]
  cases horphan : orphan db head since with
  | some later =>
    rw [horphan] at h
    cases h
  | none =>
    rw [horphan] at h
    simp only [StreamVerification.ok, Option.isNone_iff_eq_none, finishWalk_failure, Option.or_eq_none_iff] at h ⊢
    have hfold := walkRows_advance h.1
    have hevents : ∀ walked : Option (IntegrityFailure D) × Walk J D, (finishWalk db head since walked).events =
        walked.2.result.events := by
      rintro ⟨_ | failure, w⟩
      · rfl
      · rfl
    rw [hevents, hfold, (foldl_advance _ _).2]
    exact Nat.zero_add _

end Walks

/-! ## The whole run -/

section Runs

variable [DecidableEq D] {sdk : Sdk J D} {db : Db J D} {since batchSize batchSize' : Nat}

theorem verifyStream_batchSize (hb : 0 < batchSize) (hb' : 0 < batchSize') (sid : String) :
    (verifyStream sdk db since batchSize sid).1 = (verifyStream sdk db since batchSize' sid).1 := by
  unfold verifyStream
  cases db.streamRow sid with
  | none => rfl
  | some head =>
    simp only
    rw [walkStream_eq hb, walkStream_eq hb']

theorem verifyStream_covers (hpos : ∀ row ∈ db.events, 0 < row.streamSequence) (hsince : 0 < since)
    (hb : 0 < batchSize) (hb' : 0 < batchSize') (sid : String) :
    Covers since (verifyStream sdk db 1 batchSize sid).1.failure
      (verifyStream sdk db since batchSize' sid).1.failure := by
  unfold verifyStream
  cases db.streamRow sid with
  | none => exact Or.inl rfl
  | some head => exact walkStream_covers hpos hsince hb hb'

theorem verifyStream_counted (hb : 0 < batchSize) {sid : String}
    (h : (verifyStream sdk db since batchSize sid).1.ok = true) :
    (verifyStream sdk db since batchSize sid).1.events =
      ((streamEvents db.events sid).filter (since ≤ ·.streamSequence)).length := by
  unfold verifyStream at h ⊢
  cases hrow : db.streamRow sid with
  | none =>
    rw [hrow] at h
    cases h
  | some head =>
    obtain ⟨-, rfl⟩ := streamRow_mem hrow
    rw [hrow] at h
    exact walkStream_events hb h

theorem walkRows_streamId {refs : String → List (EventContentRefRow D)} (rows : List (EventRow J D)) (w : Walk J D) :
    (walkRows sdk refs rows w).2.result.streamId = w.result.streamId := by
  induction rows generalizing w with
  | nil => rfl
  | cons row rows ih =>
    unfold walkRows
    cases checkEvent sdk row w.expectedSequence w.previousDigest (refs row.eventId) with
    | some failure => rfl
    | none => exact ih (w.advance row)

theorem verifyStream_streamId (hb : 0 < batchSize) (sid : String) :
    (verifyStream sdk db since batchSize sid).1.streamId = sid := by
  unfold verifyStream
  cases hrow : db.streamRow sid with
  | none => rfl
  | some head =>
    obtain ⟨-, rfl⟩ := streamRow_mem hrow
    simp only
    rw [walkStream_eq hb]
    cases orphan db head since with
    | some later => rfl
    | none =>
      have hfinish : ∀ walked : Option (IntegrityFailure D) × Walk J D, (finishWalk db head since walked).streamId =
          walked.2.result.streamId := by
        rintro ⟨_ | failure, w⟩
        · rfl
        · rfl
      simp only
      rw [hfinish, walkRows_streamId]
      rfl

def verifiedIds (db : Db J D) (streams : List String) : List String :=
  if (sortedSet streams).isEmpty then fullIds db else sortedSet streams

omit [DecidableEq D] in
theorem verifiedIds_nodup (streams : List String) : (verifiedIds db streams).Nodup := by
  unfold verifiedIds
  split
  · exact fullIds_nodup db
  · exact sortedSet_nodup streams

def reportOf (db : Db J D) (streams : List String) (since batches : Nat) (verified : List (StreamVerification D)) :
    LedgerVerification D :=
  let report : LedgerVerification D :=
    { streams := verified, sinceSequence := since, requestedStreams := sortedSet streams, batches := batches }
  if report.ok then { report with failure := checkCount db verified (sortedSet streams) since } else report

theorem verifyLedger_eq (sdk : Sdk J D) (db : Db J D) (hsince : 0 < since) (hb : 0 < batchSize) (streams : List String) : ∃ batches,
    verifyLedger sdk db streams since batchSize = .ok (reportOf db streams since batches
      ((verifiedIds db streams).map fun sid => (verifyStream sdk db since batchSize sid).1)) := by
  have hids : (if (sortedSet streams).isEmpty then walk (streamIds db) (db.streams.length + db.events.length + 1) ""
      else sortedSet streams) = verifiedIds db streams := by
    rw [walked_ids]
    rfl
  unfold verifyLedger
  rw [if_neg (by omega), if_neg (by omega)]
  simp only [hids, map_map]
  exact ⟨_, rfl⟩

/-- The findings of a report: those of its streams, and the one of the whole run. -/
def LedgerVerification.findings (v : LedgerVerification D) : List (Option String × IntegrityFailure D) :=
  (v.streams.filterMap fun s => s.failure.map (some s.streamId, ·)) ++ v.failure.toList.map (none, ·)

section

omit [DecidableEq D]

theorem LedgerVerification.ok_iff (v : LedgerVerification D) : v.ok = true ↔ v.findings = [] := by
  unfold LedgerVerification.ok LedgerVerification.findings StreamVerification.ok
  rw [Bool.and_eq_true, all_eq_true, append_eq_nil_iff, filterMap_eq_nil_iff, and_comm]
  simp

theorem reportOf_findings (streams : List String) (batches : Nat) (verified : List (StreamVerification D)) :
    (reportOf db streams since batches verified).findings =
      (verified.filterMap fun s => s.failure.map (some s.streamId, ·)) ++
        (if verified.all (·.ok) then (checkCount db verified (sortedSet streams) since).toList.map (none, ·)
        else []) := by
  unfold reportOf LedgerVerification.findings LedgerVerification.ok
  by_cases hall : verified.all (·.ok) = true
  · simp [hall]
  · simp [hall]

theorem checkCount_none {streams : List String} {verified : List (StreamVerification D)}
    (hwalked : (verified.map (·.events)).sum =
      ((db.events.filter (since ≤ ·.streamSequence)).filter (·.streamId ∈ verifiedIds db streams)).length) :
    checkCount db verified (sortedSet streams) since = none ↔
      ∀ row ∈ db.events, since ≤ row.streamSequence → ((sortedSet streams).isEmpty ∨ row.streamId ∈ sortedSet streams) →
        row.streamId ∈ verifiedIds db streams := by
  obtain ⟨scope, hscope⟩ : ∃ scope : EventRow J D → Bool, scope = fun row =>
    decide (since ≤ row.streamSequence) && ((sortedSet streams).isEmpty || decide (row.streamId ∈ sortedSet streams)) :=
    ⟨_, rfl⟩
  have hin : ∀ row : EventRow J D, row.streamId ∈ verifiedIds db streams →
      (sortedSet streams).isEmpty ∨ row.streamId ∈ sortedSet streams := by
    intro row hrow
    unfold verifiedIds at hrow
    split_ifs at hrow with hempty
    · exact Or.inl hempty
    · exact Or.inr hrow
  have hfilter : (db.events.filter (since ≤ ·.streamSequence)).filter (·.streamId ∈ verifiedIds db streams) =
      (db.events.filter scope).filter (·.streamId ∈ verifiedIds db streams) := by
    rw [filter_filter, filter_filter]
    apply filter_congr
    intro row _
    by_cases hids : row.streamId ∈ verifiedIds db streams
    · have hyes : ((sortedSet streams).isEmpty || decide (row.streamId ∈ sortedSet streams)) = true := by
        rw [Bool.or_eq_true, decide_eq_true_eq]
        exact hin row hids
      rw [hscope]
      simp only [hids, hyes, decide_true, Bool.and_true, Bool.true_and]
    · simp [hids]
  have hcount : checkCount db verified (sortedSet streams) since = none ↔
      ((db.events.filter scope).filter (·.streamId ∈ verifiedIds db streams)).length =
        (db.events.filter scope).length := by
    unfold checkCount
    simp only [← hscope, hwalked, hfilter, countP_eq_length_filter]
    by_cases heq : (db.events.filter scope).length =
        ((db.events.filter scope).filter (·.streamId ∈ verifiedIds db streams)).length
    · rw [if_neg (not_not.2 heq)]
      exact ⟨fun _ => heq.symm, fun _ => rfl⟩
    · rw [if_pos heq]
      exact ⟨fun h => (by cases h), fun h => absurd h.symm heq⟩
  rw [hcount, length_filter_eq_length_iff]
  simp only [mem_filter, hscope, Bool.and_eq_true, Bool.or_eq_true, decide_eq_true_eq, and_imp]

end

theorem walked_events (hb : 0 < batchSize) (streams : List String)
    (hall : ∀ sid ∈ verifiedIds db streams, (verifyStream sdk db since batchSize sid).1.ok = true) :
    (((verifiedIds db streams).map fun sid => (verifyStream sdk db since batchSize sid).1).map (·.events)).sum =
      ((db.events.filter (since ≤ ·.streamSequence)).filter (·.streamId ∈ verifiedIds db streams)).length := by
  rw [← sum_streamEvents (verifiedIds_nodup streams), List.map_map]
  congr 1
  apply List.map_congr_left
  intro sid hsid
  rw [Function.comp_apply, verifyStream_counted hb (hall sid hsid)]
  unfold streamEvents
  rw [List.filter_filter, List.filter_filter]
  congr 1
  apply List.filter_congr
  intro row _
  rw [Bool.and_comm]

theorem mem_findings {streams : List String} {batches : Nat} (hb : 0 < batchSize)
    {finding : Option String × IntegrityFailure D} :
    finding ∈ (reportOf db streams since batches
      ((verifiedIds db streams).map fun sid => (verifyStream sdk db since batchSize sid).1)).findings ↔
      (∃ sid ∈ verifiedIds db streams, finding.1 = some sid ∧
        (verifyStream sdk db since batchSize sid).1.failure = some finding.2) ∨
      finding.1 = none ∧ (∀ sid ∈ verifiedIds db streams, (verifyStream sdk db since batchSize sid).1.ok = true) ∧
        checkCount db ((verifiedIds db streams).map fun sid => (verifyStream sdk db since batchSize sid).1)
          (sortedSet streams) since = some finding.2 := by
  rw [reportOf_findings, mem_append, filterMap_map, mem_filterMap]
  have hstreams : (∃ sid ∈ verifiedIds db streams, ((fun s : StreamVerification D =>
      s.failure.map (some s.streamId, ·)) ∘ fun sid => (verifyStream sdk db since batchSize sid).1) sid = some finding) ↔
      ∃ sid ∈ verifiedIds db streams, finding.1 = some sid ∧
        (verifyStream sdk db since batchSize sid).1.failure = some finding.2 := by
    constructor
    · rintro ⟨sid, hsid, h⟩
      obtain ⟨failure, hfailure, rfl⟩ := Option.map_eq_some_iff.1 h
      exact ⟨sid, hsid, congrArg some (verifyStream_streamId hb sid), hfailure⟩
    · rintro ⟨sid, hsid, hid, h⟩
      refine ⟨sid, hsid, Option.map_eq_some_iff.2 ⟨finding.2, h, ?_⟩⟩
      rw [verifyStream_streamId hb, ← hid]
  rw [hstreams]
  apply or_congr Iff.rfl
  by_cases hall : ∀ sid ∈ verifiedIds db streams, (verifyStream sdk db since batchSize sid).1.ok = true
  · have hok : ((verifiedIds db streams).map fun sid => (verifyStream sdk db since batchSize sid).1).all (·.ok) =
        true := by simpa using hall
    rw [if_pos hok, mem_map]
    constructor
    · rintro ⟨failure, hfailure, rfl⟩
      exact ⟨rfl, hall, Option.mem_toList.1 hfailure⟩
    · rintro ⟨hnone, -, hcount⟩
      exact ⟨finding.2, Option.mem_toList.2 hcount, by rw [← hnone]⟩
  · have hok : ¬ ((verifiedIds db streams).map fun sid => (verifyStream sdk db since batchSize sid).1).all (·.ok) =
        true := by simpa using hall
    rw [if_neg hok]
    simp [hall]

/-- What a full run has to say about a finding of a tail: for a stream, a finding about the same stream that is at an
event before the tail, or about the sequence of the same event; for the count, any finding. -/
def Explained (since : Nat) (full : LedgerVerification D) (finding : Option String × IntegrityFailure D) : Prop :=
  ∃ g ∈ full.findings, finding.1 = none ∨ g.1 = finding.1 ∧ ((∃ k, g.2.streamSequence = some k ∧ k < since) ∨
    g.2.check = .sequence ∧ finding.2.check = .sequence ∧ g.2.streamSequence = finding.2.streamSequence)

theorem tail_clean (tables : TablesWellFormed db) (streams : List String) (hb : 0 < batchSize)
    (hcovers : ∀ sid, Covers since (verifyStream sdk db 1 batchSize sid).1.failure
      (verifyStream sdk db since batchSize sid).1.failure) (n m : Nat)
    (hfull : (reportOf db streams 1 n
      ((verifiedIds db streams).map fun sid => (verifyStream sdk db 1 batchSize sid).1)).findings = []) :
    (reportOf db streams since m
      ((verifiedIds db streams).map fun sid => (verifyStream sdk db since batchSize sid).1)).findings = [] := by
  rw [eq_nil_iff_forall_not_mem] at hfull
  have hok : ∀ sid ∈ verifiedIds db streams, (verifyStream sdk db 1 batchSize sid).1.failure = none := by
    intro sid hsid
    by_contra hsome
    obtain ⟨failure, hfailure⟩ := Option.ne_none_iff_exists'.1 hsome
    exact hfull (some sid, failure) ((mem_findings hb).2 (Or.inl ⟨sid, hsid, rfl, hfailure⟩))
  have hall : ∀ sid ∈ verifiedIds db streams, (verifyStream sdk db 1 batchSize sid).1.ok = true := by
    intro sid hsid
    unfold StreamVerification.ok
    rw [hok sid hsid]
    rfl
  have hcount : checkCount db ((verifiedIds db streams).map fun sid => (verifyStream sdk db 1 batchSize sid).1)
      (sortedSet streams) 1 = none := by
    by_contra hsome
    obtain ⟨failure, hfailure⟩ := Option.ne_none_iff_exists'.1 hsome
    exact hfull (none, failure) ((mem_findings hb).2 (Or.inr ⟨rfl, hall, hfailure⟩))
  have hscope := (checkCount_none (walked_events hb streams hall)).1 hcount
  rw [eq_nil_iff_forall_not_mem]
  intro finding hfinding
  rcases (mem_findings hb).1 hfinding with ⟨sid, hsid, -, hfailure⟩ | ⟨-, htail, hfailure⟩
  · rcases hcovers sid with hsame | ⟨g, hg, -⟩
    · rw [hok sid hsid, hfailure] at hsame
      cases hsame
    · rw [hok sid hsid] at hg
      cases hg
  · rw [(checkCount_none (walked_events hb streams htail)).2] at hfailure
    · cases hfailure
    · intro row hrow _ hin
      exact hscope row hrow (tables.positiveSequence row hrow) hin

/-- **Tail verification is monotone.**  On tables that meet their constraints, for every set of requested streams and
every later start: a tail run of an ok ledger is ok; what a tail run finds the full run finds too, or explains by an
earlier event of the stream or by the gap before the same event; and the findings do not depend on the batches. -/
theorem tail_verification (sdk : Sdk J D) (tables : TablesWellFormed db) (streams : List String) (hsince : 1 ≤ since)
    (hb : 0 < batchSize) (hb' : 0 < batchSize') :
    ∃ full tail tail', verifyLedger sdk db streams 1 batchSize = .ok full ∧
      verifyLedger sdk db streams since batchSize = .ok tail ∧
      verifyLedger sdk db streams since batchSize' = .ok tail' ∧
      (full.ok = true → tail.ok = true) ∧
      (∀ finding ∈ tail.findings, finding ∈ full.findings ∨ Explained since full finding) ∧
      tail'.findings = tail.findings := by
  obtain ⟨n, hfull⟩ := verifyLedger_eq sdk db Nat.one_pos hb streams
  obtain ⟨m, htail⟩ := verifyLedger_eq sdk db hsince hb streams
  obtain ⟨m', htail'⟩ := verifyLedger_eq sdk db hsince hb' streams
  have hcovers : ∀ sid, Covers since (verifyStream sdk db 1 batchSize sid).1.failure
      (verifyStream sdk db since batchSize sid).1.failure :=
    verifyStream_covers tables.positiveSequence hsince hb hb
  have hclean := tail_clean tables streams hb hcovers n m
  refine ⟨_, _, _, hfull, htail, htail', ?_, ?_, ?_⟩
  · rw [LedgerVerification.ok_iff, LedgerVerification.ok_iff]
    exact hclean
  · intro finding hfinding
    have hsome := List.ne_nil_of_mem hfinding
    rcases (mem_findings hb).1 hfinding with ⟨sid, hsid, hid, hfailure⟩ | ⟨hnone, -⟩
    · rcases hcovers sid with hsame | ⟨g, hg, hexplained⟩
      · exact Or.inl ((mem_findings hb).2 (Or.inl ⟨sid, hsid, hid, hsame.trans hfailure⟩))
      · refine Or.inr ⟨(some sid, g), (mem_findings hb).2 (Or.inl ⟨sid, hsid, rfl, hg⟩), Or.inr ⟨hid.symm, ?_⟩⟩
        rcases hexplained with hbefore | ⟨f, hf, hgap⟩
        · exact Or.inl hbefore
        · rw [hfailure] at hf
          obtain rfl := Option.some.inj hf
          exact Or.inr hgap
    · obtain ⟨g, hg⟩ := List.exists_mem_of_ne_nil _ (mt hclean hsome)
      exact Or.inr ⟨g, hg, Or.inl hnone⟩
  · have hsame : ((verifiedIds db streams).map fun sid => (verifyStream sdk db since batchSize' sid).1) =
        (verifiedIds db streams).map fun sid => (verifyStream sdk db since batchSize sid).1 :=
      List.map_congr_left fun sid _ => verifyStream_batchSize hb' hb sid
    rw [reportOf_findings, reportOf_findings, hsame]

end Runs

/-- Event `n` of a stream whose event digests are its sequences. -/
def sampleRow (n : Nat) (eventId producerId : String) : EventRow Unit Nat where
  toEnvelope := (sampleEvent eventId "s" eventId).draft.toEnvelope
  eventId := eventId
  streamSequence := n
  producerId := producerId
  recordedAt := 0
  payloadSha256 := 0
  previousEventSha256 := if n = 1 then none else some (n - 1)
  eventSha256 := n

/-- A stream of three events whose first and last have a wrong producer column. -/
def sampleTampered : Db Unit Nat :=
  { (Db.empty : Db Unit Nat) with
    events := [sampleRow 1 "e1" "x", sampleRow 2 "e2" "agent", sampleRow 3 "e3" "x"]
    streams := [⟨"s", 3, some "e3", some 3, .active⟩] }

theorem sampleTampered_wellFormed : TablesWellFormed sampleTampered where
  streamsKey := by decide
  headMatchesSequence := by
    intro row hrow
    obtain rfl := mem_singleton.1 hrow
    decide
  positiveSequence := by
    intro row hrow
    simp only [sampleTampered, mem_cons, not_mem_nil, or_false] at hrow
    rcases hrow with rfl | rfl | rfl
    · decide
    · decide
    · decide

theorem tail_verification_sample : ∃ full tail tail', verifyLedger sampleSdk sampleTampered [] 1 2 = .ok full ∧
    verifyLedger sampleSdk sampleTampered [] 3 2 = .ok tail ∧
    verifyLedger sampleSdk sampleTampered [] 3 500 = .ok tail' ∧ (full.ok = true → tail.ok = true) ∧
    (∀ finding ∈ tail.findings, finding ∈ full.findings ∨ Explained 3 full finding) ∧
    tail'.findings = tail.findings :=
  tail_verification sampleSdk sampleTampered_wellFormed [] (by decide) (by decide) (by decide)

/-- A walk ends at its first failure: the tail reports the last event, the full run does not. -/
theorem tail_finds_more : TablesWellFormed sampleTampered ∧ ∃ full tail,
    verifyLedger sampleSdk sampleTampered [] 1 defaultBatchSize = .ok full ∧
    verifyLedger sampleSdk sampleTampered [] 3 defaultBatchSize = .ok tail ∧
    ∃ finding ∈ tail.findings, finding ∉ full.findings :=
  ⟨sampleTampered_wellFormed, _, _, rfl, rfl, (some "s", ⟨.producerId, some 3, some "e3", some (.text "agent"), some (.text "x")⟩),
    by decide, by decide⟩

end Ledger
