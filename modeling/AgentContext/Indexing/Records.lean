import AgentContext.Indexing.Porcelain
import AgentContext.Lib.Utf8

/-!
# Records of Git

All kinds of records that Git lists, with a NUL after each token, read back by the parsers of `scanner.py`:

    splitZ_terminated  the tokens come apart where a NUL stands
    parseStatus_notes  a rename takes two tokens, and its source is no record
    lookup_indexSteps  an index entry is conflicted when one of the lines of its path is of a later stage
    parse_terminated   both outputs, and any other bytes
-/

namespace Scanner

open List

open Table (Dict insertAll)

/-- `_split_z`. -/
def splitZ (raw : Bytes) : List Bytes :=
  let tokens := raw.splitOn 0
  if tokens.getLast? = some [] then tokens.dropLast else tokens

/-- Tokens with a NUL after each. -/
def terminated (tokens : List Bytes) : Bytes := tokens.flatMap (· ++ [0])

theorem splitOn_terminated {tokens : List Bytes} (h : ∀ token ∈ tokens, 0 ∉ token) :
    (terminated tokens).splitOn 0 = tokens ++ [[]] := by
  induction tokens with
  | nil => rfl
  | cons token tokens ih =>
    have htoken : terminated (token :: tokens) = token ++ 0 :: terminated tokens := by
      unfold terminated
      rw [flatMap_cons, append_assoc, singleton_append]
    rw [htoken, Utf8.splitOn_append_of_notMem (h token mem_cons_self), splitOn_cons_eq_if_modifyHead,
      if_pos (beq_self_eq_true _), ih fun other ho => h other (mem_cons_of_mem _ ho), modifyHead_cons,
      append_nil, cons_append]

theorem splitZ_terminated {tokens : List Bytes} (h : ∀ token ∈ tokens, 0 ∉ token) :
    splitZ (terminated tokens) = tokens := by
  unfold splitZ
  rw [splitOn_terminated h]
  dsimp only
  rw [if_pos List.getLast?_concat, dropLast_concat]

/-! ## The status -/

/-- A record of `git status --porcelain=v2 --ignored -z`. -/
inductive Record
  | line (line : Porcelain)
  | renamed (raw orig xy : Bytes) (fields : List Bytes)
  | ignored (raw : Bytes)
  | header (text : Bytes)

namespace Record

/-- The source of a rename or copy is a token of its own. -/
def tokens : Record → List Bytes
  | .line l => [l.token]
  | .renamed raw orig xy fields => [spaced ([50] :: xy :: fields) raw, orig]
  | .ignored raw => [33 :: space :: raw]
  | .header text => [35 :: text]

def WellFormed : Record → Prop
  | .line l => l.WellFormed
  | .renamed _ _ xy fields => fields.length = 7 ∧ ∀ field ∈ xy :: fields, space ∉ field
  | .ignored _ | .header _ => True

def renamedChange (orig xy : Bytes) (fields : List Bytes) : Change where
  xy := xy
  modes := [fields.getD 1 [], fields.getD 2 [], fields.getD 3 []]
  baseOid := cleanOid (fields.getD 4 [])
  indexOid := cleanOid (fields.getD 5 [])
  origPath := safePath orig

/-- The change a record states of a safe path, -/
def change : Record → Option (String × Change)
  | .line l => changeOf l
  | .renamed raw orig xy fields => (safePath raw).map (·, renamedChange orig xy fields)
  | .ignored _ | .header _ => none

/-- or the untracked path, and whether it is a directory, -/
def untracked : Record → Option (String × Bool)
  | .line l => untrackedOf l
  | .renamed .. | .ignored _ | .header _ => none

/-- or the unsafe path. -/
def unsafePath : Record → Option Bytes
  | .line l => rejectedOf l
  | .renamed raw .. => if safePath raw = none then some raw else none
  | .ignored _ | .header _ => none

end Record

/-- What a record adds to what `_parse_status` has gathered. -/
def note (acc : StatusAcc) : Record → StatusAcc
  | .line l => absorb acc l
  | .renamed raw orig xy fields => absorbTracked acc 50 raw (Record.renamedChange orig xy fields)
  | .ignored _ | .header _ => acc

theorem trackedToken_renamed {raw orig xy : Bytes} {fields : List Bytes} {acc : StatusAcc}
    (h : (Record.renamed raw orig xy fields).WellFormed) :
    trackedToken 50 (spaced ([50] :: xy :: fields) raw) 9 [3, 4, 5] (some 6) (safePath orig) acc =
      .ok (note acc (.renamed raw orig xy fields)) := by
  obtain ⟨hlen, hspace⟩ := h
  have hsplit : splitSpaces 9 (spaced ([50] :: xy :: fields) raw) = ([50] :: xy :: fields) ++ [raw] := by
    refine splitSpaces_spaced (forall_mem_cons.2 ⟨by decide, hspace⟩) (.inl ?_)
    rw [length_cons, length_cons, hlen]
  have hcases : ∃ a b c d e f g, fields = [a, b, c, d, e, f, g] := by
    match fields, hlen with
    | [a, b, c, d, e, f, g], _ => exact ⟨a, b, c, d, e, f, g, rfl⟩
  obtain ⟨a, b, c, d, e, f, g, rfl⟩ := hcases
  simp only [trackedToken, hsplit, note, absorbTracked, cons_append, nil_append, getD_cons_succ,
    getD_cons_zero]
  cases safePath raw <;> rfl

theorem parseStatus_notes {records : List Record} (acc : StatusAcc) (h : ∀ record ∈ records, record.WellFormed) :
    parseStatus (records.flatMap Record.tokens) acc = .ok (records.foldl note acc) := by
  induction records generalizing acc with
  | nil => rfl
  | cons record records ih =>
    have hrecord := h record mem_cons_self
    rw [flatMap_cons, foldl_cons, ← ih _ fun other ho => h other (mem_cons_of_mem _ ho)]
    cases record with
    | line l => exact parseStatus_token hrecord _ _
    | renamed raw orig xy fields =>
      show (do parseStatus _ (← trackedToken 50 (spaced ([50] :: xy :: fields) raw) 9 [3, 4, 5] (some 6) (safePath orig) acc)) = _
      rw [trackedToken_renamed hrecord]
      rfl
    | ignored | header => rfl

theorem note_adds (acc : StatusAcc) (record : Record) :
    (note acc record).changes = insertAll record.change.toList acc.changes ∧
    (note acc record).untracked = acc.untracked ++ record.untracked.toList ∧
    (note acc record).rejections = acc.rejections ++ record.unsafePath.toList ∧
    (note acc record).rejectedChanges.length = acc.rejectedChanges.length + record.unsafePath.toList.length := by
  cases record with
  | line l => exact absorb_line acc l
  | renamed raw orig xy fields =>
    cases hraw : safePath raw <;>
      simp [note, absorbTracked, Record.change, Record.untracked, Record.unsafePath, hraw, insertAll]
  | ignored | header => simp [note, Record.change, Record.untracked, Record.unsafePath, insertAll]

theorem notes_add (acc : StatusAcc) (records : List Record) :
    (records.foldl note acc).changes = insertAll (records.filterMap Record.change) acc.changes ∧
    (records.foldl note acc).untracked = acc.untracked ++ records.filterMap Record.untracked ∧
    (records.foldl note acc).rejections = acc.rejections ++ records.filterMap Record.unsafePath ∧
    (records.foldl note acc).rejectedChanges.length =
      acc.rejectedChanges.length + (records.filterMap Record.unsafePath).length := by
  induction records generalizing acc with
  | nil => simp [insertAll]
  | cons record records ih =>
    have hcons {α : Type} (f : Record → Option α) : (record :: records).filterMap f =
        (f record).toList ++ records.filterMap f := by
      cases h : f record <;> simp [h]
    obtain ⟨hchanges, huntracked, hrejections, hcount⟩ := note_adds acc record
    obtain ⟨hchanges', huntracked', hrejections', hcount'⟩ := ih (note acc record)
    rw [foldl_cons, hcons, hcons, hcons, hchanges', huntracked', hrejections', hcount', hchanges, huntracked,
      hrejections, hcount, length_append]
    refine ⟨?_, append_assoc .., append_assoc .., Nat.add_assoc ..⟩
    unfold insertAll
    rw [foldl_append]

/-! ## The index -/

/-- A line as Git writes it. -/
def IndexLine.WellFormed (l : IndexLine) : Prop := (space ∉ l.mode ∧ tab ∉ l.mode) ∧ l.stage ≤ 3

/-- The entry of a path, of its lines: it has the fields of the last, and is conflicted when one is of a later stage. -/
def entryOfLines (lines : List IndexLine) : Option IndexEntry :=
  lines.getLast?.map fun l => if lines.any (·.stage ≠ 0) then ⟨l.mode, none, true⟩ else ⟨l.mode, some l.oid.1, false⟩

theorem indexSteps_rejections (lines : List IndexLine) (acc : IndexAcc) :
    (lines.foldl indexStep acc).2 = acc.2 ++ (lines.filter (safePath ·.raw = none)).map (·.raw) := by
  induction lines generalizing acc with
  | nil => simp
  | cons l lines ih =>
    rw [foldl_cons, ih]
    unfold indexStep indexEntry
    cases hraw : safePath l.raw with
    | none => simp [hraw]
    | some path => dsimp only; split <;> simp [hraw]

theorem lookup_indexSteps {lines : List IndexLine} (h : ∀ l ∈ lines, l.stage ≤ 3) (path : String) :
    (lines.foldl indexStep (∅, [])).1.lookup path = entryOfLines (lines.filter (safePath ·.raw = some path)) := by
  have hzero : ∀ n ≤ 3, stageText n ≠ ascii "0" ↔ n ≠ 0 := by decide
  induction lines using List.reverseRecOn with
  | nil => exact Finmap.lookup_empty path
  | append_singleton lines l ih =>
    have ih := ih fun other ho => h other (mem_append_left _ ho)
    have hstage := hzero l.stage (h l (mem_append_right _ mem_cons_self))
    rw [foldl_append, foldl_cons, foldl_nil, filter_append]
    generalize lines.foldl indexStep (∅, []) = acc at ih
    unfold indexStep indexEntry
    cases hraw : safePath l.raw with
    | none => simpa [hraw] using ih
    | some named =>
      by_cases hpath : named = path
      · subst hpath
        -- the entry so far is conflicted when a line so far is of a later stage
        have hconflicted : (acc.1.lookup named).any (·.conflicted) =
            (lines.filter (safePath ·.raw = some named)).any (·.stage ≠ 0) := by
          rw [ih]
          unfold entryOfLines
          cases hlast : (lines.filter (safePath ·.raw = some named)).getLast? with
          | none => rw [List.getLast?_eq_none_iff.1 hlast]; rfl
          | some last =>
            rw [Option.map_some, Option.any_some]
            cases (lines.filter (safePath ·.raw = some named)).any (·.stage ≠ 0) <;> rfl
        dsimp only
        rw [hconflicted]
        simp only [hraw, entryOfLines, decide_true, filter_cons_of_pos, filter_nil, List.getLast?_concat,
          Option.map_some, any_append, any_cons, any_nil, Bool.or_false]
        by_cases hlater : l.stage ≠ 0
        · rw [if_pos (.inl (hstage.2 hlater)), Finmap.lookup_insert]
          simp [hlater]
        · by_cases hbefore : (lines.filter (safePath ·.raw = some named)).any (·.stage ≠ 0) = true
          · rw [if_pos (.inr hbefore), Finmap.lookup_insert, hbefore]
            simp
          · rw [if_neg (not_or.2 ⟨mt hstage.1 hlater, hbefore⟩), Finmap.lookup_insert, Bool.eq_false_iff.2 hbefore]
            simp [hlater]
      · have hskip : [l].filter (safePath ·.raw = some path) = [] := by simp [hraw, hpath]
        rw [hskip, append_nil, ← ih]
        dsimp only
        split <;> exact Finmap.lookup_insert_of_ne _ (Ne.symm hpath)

/-! ## Both outputs -/

/-- A reading that gives a result, or says that the output is malformed. -/
def Reads {β : Type} (reading : Except ScanError β) : Prop := (∃ result, reading = .ok result) ∨ reading = .error .malformedOutput

theorem Reads.bind {α β : Type} {reading : Except ScanError α} {next : α → Except ScanError β} (h : Reads reading)
    (hnext : ∀ a, Reads (next a)) : Reads (reading >>= next) := by
  rcases h with ⟨a, rfl⟩ | rfl
  · exact hnext a
  · exact .inr rfl

theorem Reads.foldlM {α β : Type} {step : β → α → Except ScanError β} (h : ∀ b a, Reads (step b a)) (items : List α) (b : β) :
    Reads (items.foldlM step b) := by
  induction items generalizing b with
  | nil => exact .inl ⟨b, rfl⟩
  | cons item items ih =>
    rw [foldlM_cons]
    exact (h b item).bind ih

theorem indexToken_reads (acc : IndexAcc) (token : Bytes) : Reads (indexToken acc token) := by
  unfold indexToken
  repeat' split
  all_goals first | exact .inl ⟨_, rfl⟩ | exact .inr rfl

theorem flaggedToken_reads (flagged : List String) (token : Bytes) : Reads (flaggedToken flagged token) := by
  unfold flaggedToken
  repeat' split
  all_goals first | exact .inl ⟨_, rfl⟩ | exact .inr rfl

theorem trackedToken_reads (marker : UInt8) (token : Bytes) (count : Nat) (modeFields : List Nat) (base : Option Nat)
    (orig : Option String) (acc : StatusAcc) : Reads (trackedToken marker token count modeFields base orig acc) := by
  unfold trackedToken
  dsimp only
  repeat' split
  all_goals first | exact .inl ⟨_, rfl⟩ | exact .inr rfl

theorem parseStatus_reads (tokens : List Bytes) (acc : StatusAcc) : Reads (parseStatus tokens acc) := by
  fun_induction parseStatus tokens acc with
  | case1 acc => exact .inl ⟨acc, rfl⟩
  | case2 _ _ _ ih | case3 _ _ _ ih | case8 _ _ _ ih => exact ih
  | case4 _ _ _ ih | case6 _ _ _ _ ih | case7 _ _ _ ih => exact (trackedToken_reads ..).bind ih
  | case5 acc _ => exact trackedToken_reads ..
  | case9 => exact .inr rfl

/-- Of records and index lines in their NUL-separated form every safe path has the last change stated of it, and the entry of
its lines; every untracked path is listed, and every record of an unsafe path rejected.  Any bytes are read, or malformed. -/
theorem parse_terminated (records : List Record) (lines : List IndexLine) (hrecords : ∀ record ∈ records, record.WellFormed)
    (hlines : ∀ l ∈ lines, l.WellFormed) (hrecords' : ∀ token ∈ records.flatMap Record.tokens, 0 ∉ token)
    (hlines' : ∀ token ∈ lines.map IndexLine.token, 0 ∉ token) :
    (∃ index rejections, parseIndex (splitZ (terminated (lines.map IndexLine.token))) = .ok (index, rejections) ∧
      (∀ path, index.lookup path = entryOfLines (lines.filter (safePath ·.raw = some path))) ∧
      rejections = (lines.filter (safePath ·.raw = none)).map (·.raw)) ∧
    (∃ status, parseStatus (splitZ (terminated (records.flatMap Record.tokens))) ⟨[], [], ∅, []⟩ = .ok status ∧
      (∀ path, status.changes.lookup path = ((records.filterMap Record.change).filter (·.1 = path)).getLast?.map (·.2)) ∧
      status.untracked = records.filterMap Record.untracked ∧
      status.rejections = records.filterMap Record.unsafePath ∧
      status.rejectedChanges.length = status.rejections.length) ∧
    ∀ (raw : Bytes) (acc : StatusAcc),
      Reads (parseIndex (splitZ raw)) ∧ Reads (parseStatus (splitZ raw) acc) ∧ Reads (parseFlagged (splitZ raw)) := by
  refine ⟨?_, ?_, fun raw acc => ⟨.foldlM indexToken_reads _ _, parseStatus_reads _ _, .foldlM flaggedToken_reads _ _⟩⟩
  · rw [splitZ_terminated hlines', parseIndex_lines hlines]
    refine ⟨_, _, rfl, lookup_indexSteps fun l hl => (hlines l hl).2, ?_⟩
    exact (indexSteps_rejections lines (∅, [])).trans (List.nil_append _)
  · obtain ⟨hchanges, huntracked, hrejections, hcount⟩ := notes_add ⟨[], [], ∅, []⟩ records
    rw [splitZ_terminated hrecords', parseStatus_notes _ hrecords]
    refine ⟨_, rfl, fun path => ?_, huntracked, hrejections, ?_⟩
    · rw [hchanges, Table.lookup_insertAll, Finmap.lookup_empty, Option.or_none]
    · rw [hcount, hrejections]
      simp

/-! ## An unsafe path with three stages -/

def sampleOid : Oid := ⟨List.replicate 40 97, rfl⟩

/-- A backslash and a letter. -/
def sampleLine (stage : Nat) : IndexLine := ⟨ascii "100644", sampleOid, stage, [92, 97]⟩

/-- Each stage of an unmerged unsafe path is rejected. -/
theorem parseIndex_stages :
    (parseIndex (splitZ (terminated ([1, 2, 3].map fun n => (sampleLine n).token)))).map Prod.snd =
      .ok [[92, 97], [92, 97], [92, 97]] := by
  decide +kernel

/-- A path that is renamed, of which the source looks like an untracked one. -/
theorem parse_terminated_renamed :
    ∃ status, parseStatus (splitZ (terminated ([Record.renamed [97] [63, 32, 98] [82, 46]
        [[78], [49], [49], [49], [49], [49], [82]]].flatMap Record.tokens))) ⟨[], [], ∅, []⟩ = .ok status ∧
      status.untracked = [] :=
  have h := (parse_terminated [.renamed [97] [63, 32, 98] [82, 46] [[78], [49], [49], [49], [49], [49], [82]]] []
    (List.forall_mem_singleton.2 ⟨rfl, by decide⟩) (List.forall_mem_nil _) (by decide +kernel) (List.forall_mem_nil _)).2.1
  ⟨h.choose, h.choose_spec.1, h.choose_spec.2.2.1⟩

end Scanner
