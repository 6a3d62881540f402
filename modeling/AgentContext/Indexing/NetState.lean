import AgentContext.Indexing.Snapshots

/-!
# What the scan makes of a checkout

The outputs that Git's documentation promises for a checkout, and what `_scan` makes of them, path by path.
-/

namespace Snapshots

open Scanner List
open Table (Dict ordered)
open WorkingTree (Node Checkout StatusOf Line Recorded Staged)

/-- What the commands list of a checkout. -/
structure Listing where
  empty : Oid
  indexPaths : List Bytes
  flags : List (UInt8 × Bytes)
  headPaths : List Bytes
  status : List Porcelain

def Listing.output (l : Listing) (c : Checkout Bytes Oid) : GitOutput where
  index := (l.indexPaths.flatMap fun raw => (c.index raw).elim [] (indexLines l.empty raw)).map IndexLine.token
  flags := l.flags.map flagLine
  headTree := l.headPaths.filterMap fun raw => (c.head raw).map (headLine raw)
  status := l.status.map Porcelain.token

def Listing.lines (l : Listing) : List (Line Bytes) := l.status.map Porcelain.line

/-- `git ls-files --stage`, `git ls-files -v` and `git ls-tree -r` list what there is, and the status is that of the checkout;
an untracked path is written as a directory when it is a repository of its own.  No path of a tree ends in a slash. -/
structure Lists (c : Checkout Bytes Oid) (l : Listing) : Prop where
  slashless : ∀ {raw}, (c.head raw).isSome ∨ (c.index raw).isSome → raw.getLast? ≠ some slash
  indexOnce : l.indexPaths.Nodup
  index : ∀ raw, raw ∈ l.indexPaths ↔ (c.index raw).isSome
  headOnce : l.headPaths.Nodup
  head : ∀ raw, raw ∈ l.headPaths ↔ (c.head raw).isSome
  flagNames : ∀ line ∈ l.flags, line.2 ≠ []
  flags : ∀ {raw record flagged}, c.index raw = some (.plain record flagged) →
    ((∃ line ∈ l.flags, line.1 ≠ 72 ∧ line.2 = raw) ↔ flagged = true)
  wellFormed : ∀ line ∈ l.status, line.WellFormed
  status : StatusOf c l.lines
  repositories : ∀ {raw repository}, Porcelain.untracked raw repository ∈ l.status →
    (repository = true ↔ c.work raw = .repository)

/-- What stands at a name of the working tree. -/
def workOf (c : Checkout Bytes Oid) (path : String) : Node := c.work path.toByteArray.data.toList

theorem workOf_of_safe {c : Checkout Bytes Oid} {raw : Bytes} {path : String} (h : safePath raw = some path) :
    workOf c path = c.work raw := by
  unfold workOf
  rw [← (safePath_eq_some.1 h).1]

/-- What `_parse_status` gathers. -/
def Listing.parsed (l : Listing) (rejections : List Bytes) : StatusAcc := l.status.foldl absorb ⟨rejections, [], ∅, []⟩

/-- The letters of a path, as the status writes them. -/
def Listing.Shows (l : Listing) (raw : Bytes) (xy : Bytes) : Prop :=
  ∃ x y, Line.tracked raw x y ∈ l.lines ∧ xy = [letterByte x, letterByte y]

/-! ## The parsed status -/

section Status

variable {c : Checkout Bytes Oid} {l : Listing} {rejections : List Bytes} {raw xy : Bytes} {path : String}
variable {change : Scanner.Change}

theorem changeOf_shows {line : Porcelain} (h : changeOf line = some (path, change)) :
    ∃ raw x y, line.line = .tracked raw x y ∧ safePath raw = some path ∧ change.xy = [letterByte x, letterByte y] ∧
      change.origPath = none := by
  cases line with
  | ordinary raw x y fields | unmerged raw x y fields =>
    obtain ⟨p, hp, heq⟩ := Option.map_eq_some_iff.1 h
    obtain ⟨rfl, rfl⟩ := Prod.mk.inj heq
    exact ⟨raw, x, y, rfl, hp, rfl, rfl⟩
  | untracked raw repository => cases h

theorem changeOf_keys {lines : List Porcelain} :
    (lines.filterMap changeOf).map Prod.fst = ((lines.map Porcelain.line).filterMap Line.trackedPath).filterMap safePath := by
  induction lines with
  | nil => rfl
  | cons line lines ih =>
    cases line with
    | ordinary raw | unmerged raw =>
      cases hp : safePath raw <;> simp [changeOf, Porcelain.line, Line.trackedPath, hp, ih]
    | untracked raw repository => simpa [changeOf, Porcelain.line, Line.trackedPath, filterMap_cons] using ih

theorem untrackedOf_keys {lines : List Porcelain} : (lines.filterMap untrackedOf).map Prod.fst =
      ((lines.map Porcelain.line).filterMap Line.untrackedPath).filterMap safePath := by
  induction lines with
  | nil => rfl
  | cons line lines ih =>
    cases line with
    | ordinary | unmerged => simpa [untrackedOf, Porcelain.line, Line.untrackedPath, filterMap_cons] using ih
    | untracked raw repository =>
      cases hp : safePath raw <;> simp [untrackedOf, Porcelain.line, Line.untrackedPath, hp, ih]

theorem names_nodup {paths : List Bytes} (h : paths.Nodup) : (paths.filterMap safePath).Nodup :=
  h.filterMap fun _ _ _ hb hb' => safePath_inj hb hb'

theorem shows_of_parsed (h : Lists c l) (hlook : (l.parsed rejections).changes.lookup path = some change) :
    ∃ raw, safePath raw = some path ∧ l.Shows raw change.xy ∧ change.origPath = none := by
  have hnodup : ((l.status.filterMap changeOf).map Prod.fst).Nodup := by
    rw [changeOf_keys]
    exact names_nodup h.status.trackedOnce
  rw [Listing.parsed, absorb_changes, Table.lookup_insertAll_empty hnodup] at hlook
  obtain ⟨line, hline, hchange⟩ := mem_filterMap.1 hlook
  obtain ⟨raw, x, y, heq, hraw, hxy, horig⟩ := changeOf_shows hchange
  exact ⟨raw, hraw, ⟨x, y, mem_map.2 ⟨line, hline, heq⟩, hxy⟩, horig⟩

theorem parsed_of_shows (rejections : List Bytes) (h : Lists c l) (hraw : safePath raw = some path) (hshows : l.Shows raw xy) :
    ∃ change, (l.parsed rejections).changes.lookup path = some change ∧ change.xy = xy := by
  have hnodup : ((l.status.filterMap changeOf).map Prod.fst).Nodup := by
    rw [changeOf_keys]
    exact names_nodup h.status.trackedOnce
  obtain ⟨x, y, hmem, rfl⟩ := hshows
  obtain ⟨line, hline, heq⟩ := mem_map.1 hmem
  have hentry : ∃ change : Scanner.Change, changeOf line = some (path, change) ∧ change.xy = [letterByte x, letterByte y] := by
    cases line with
    | ordinary raw' x' y' fields =>
      cases heq
      exact ⟨ordinaryChange x y fields, by rw [changeOf, hraw]; rfl, rfl⟩
    | unmerged raw' x' y' fields =>
      cases heq
      exact ⟨unmergedChange x y fields, by rw [changeOf, hraw]; rfl, rfl⟩
    | untracked raw' repository => cases heq
  obtain ⟨change, hchange, hxy⟩ := hentry
  refine ⟨change, ?_, hxy⟩
  rw [Listing.parsed, absorb_changes]
  exact Table.lookup_insertAll_of_mem hnodup (mem_filterMap.2 ⟨line, hline, hchange⟩)

theorem mem_untracked (h : Lists c l) :
    path ∈ (l.status.filterMap untrackedOf).map Prod.fst ↔ ∃ raw, safePath raw = some path ∧ c.Untracked raw := by
  rw [untrackedOf_keys, mem_filterMap]
  constructor
  · rintro ⟨raw, hraw, hpath⟩
    obtain ⟨line, hline, heq⟩ := mem_filterMap.1 hraw
    cases line with
    | tracked p x y => cases heq
    | untracked p =>
      cases heq
      exact ⟨raw, hpath, h.status.untracked.1 hline⟩
  · rintro ⟨raw, hpath, hraw⟩
    exact ⟨raw, mem_filterMap.2 ⟨_, h.status.untracked.2 hraw, rfl⟩, hpath⟩

end Status

/-! ## The parsed outputs -/

structure ParsedOutput (c : Checkout Bytes Oid) (l : Listing) where
  index : Dict String IndexEntry
  rejections : List Bytes
  links : Dict String Bytes
  flagged : List String
  lookup_index : ∀ path, index.lookup path = (named c.index path).map (entryOf l.empty)
  mem_rejections : ∀ raw, raw ∈ rejections ↔ (c.index raw).isSome ∧ safePath raw = none
  lookup_links : ∀ path, links.lookup path = ((named c.head path).bind Recorded.pointer).map (·.1)
  mem_flagged : ∀ {raw path record flag}, safePath raw = some path → c.index raw = some (.plain record flag) →
    (path ∈ flagged ↔ flag = true)

namespace ParsedOutput

variable {c : Checkout Bytes Oid} {l : Listing} (o : ParsedOutput c l) (hashes : Hashes) (limits : ScanLimits)

def reading : Reading := ⟨o.index, (l.parsed o.rejections).changes, o.flagged, workOf c, hashes, limits⟩

def scan : RepositoryScan := (o.reading hashes limits).assemble o.links (l.parsed o.rejections)

end ParsedOutput

section Scan

variable {c : Checkout Bytes Oid} {l : Listing} {o : ParsedOutput c l} {hashes : Hashes} {limits : ScanLimits}
  {raw xy : Bytes} {path : String}

/-- The scan of a checkout succeeds, whatever the limits. -/
theorem exists_parsed (h : Lists c l) :
    ∃ o : ParsedOutput c l, ∀ hashes limits, Scanner.scan hashes (workOf c) limits (l.output c) = .ok (o.scan hashes limits) := by
  obtain ⟨index, rejections, hindex, hlookIndex, hrej⟩ := parseIndex_render l.empty h.indexOnce h.index
  obtain ⟨links, hlinks, hlookLinks⟩ := parseHeadGitlinks_render h.headOnce h.head
  obtain ⟨flagged, hflagged, hmem⟩ := parseFlagged_render h.flagNames
  have hnamed : ∀ {raw path record flag}, safePath raw = some path → c.index raw = some (.plain record flag) →
      (path ∈ flagged ↔ flag = true) := by
    intro raw path record flag hraw hstaged
    rw [hmem path, ← h.flags hstaged]
    constructor
    · rintro ⟨line, hline, htag, hname⟩
      exact ⟨line, hline, htag, safePath_inj hname hraw⟩
    · rintro ⟨line, hline, htag, rfl⟩
      exact ⟨line, hline, htag, hraw⟩
  refine ⟨⟨index, rejections, links, flagged, hlookIndex, hrej, hlookLinks, hnamed⟩, fun hashes limits => ?_⟩
  have hstatus : parseStatus (l.output c).status ⟨rejections, [], ∅, []⟩ = .ok (l.parsed rejections) :=
    parseStatus_render _ h.wellFormed
  have hindex' : parseIndex (l.output c).index = .ok (index, rejections) := hindex
  have hlinks' : parseHeadGitlinks (l.output c).headTree = .ok links := hlinks
  have hflagged' : parseFlagged (l.output c).flags = .ok flagged := hflagged
  unfold Scanner.scan
  rw [hindex', hlinks', hflagged']
  show (do let status ← parseStatus (l.output c).status ⟨rejections, [], ∅, []⟩; _) = _
  rw [hstatus]
  rfl

theorem indexLink_eq : indexLink o.index path = ((named c.index path).bind Staged.pointer).map (·.1) := by
  unfold indexLink
  rw [o.lookup_index path]
  cases named c.index path with
  | none => rfl
  | some staged =>
    cases staged with
    | plain record flagged =>
      cases record with
      | blob mode oid =>
        have hmode : fileMode mode ≠ gitlinkMode := by cases mode <;> decide
        exact if_neg hmode
      | link oid => exact if_pos rfl
    | intent mode =>
      have hmode : fileMode mode ≠ gitlinkMode := by cases mode <;> decide
      exact if_neg hmode
    | unmerged conflict version => exact ite_self none

theorem pointers_of_safe (hraw : safePath raw = some path) :
    ((named c.head path).bind Recorded.pointer).map (·.1) = (c.headPointer raw).map (·.1) ∧
      ((named c.index path).bind Staged.pointer).map (·.1) = (c.indexPointer raw).map (·.1) := by
  rw [named_of_safe hraw, named_of_safe hraw]
  exact ⟨rfl, rfl⟩

theorem mem_gitlinks {link : GitlinkChange} : link ∈ (o.scan hashes limits).gitlinks ↔
      ∃ raw, safePath raw = some link.path ∧ c.headPointer raw ≠ c.indexPointer raw ∧
        link.headOid = (c.headPointer raw).map (·.1) ∧ link.indexOid = (c.indexPointer raw).map (·.1) := by
  show link ∈ gitlinkChanges o.links o.index ↔ _
  unfold gitlinkChanges
  rw [mem_map]
  simp only [mem_filter, Table.mem_ordered, Finset.mem_union, Finset.mem_filter, Finmap.mem_keys, decide_eq_true_eq]
  have hinj : ∀ raw, (c.headPointer raw).map (·.1) = (c.indexPointer raw).map (·.1) ↔ c.headPointer raw = c.indexPointer raw :=
    fun raw => (Option.map_injective Subtype.val_injective).eq_iff
  constructor
  · rintro ⟨path, ⟨-, hne⟩, rfl⟩
    rw [indexLink_eq, o.lookup_links] at hne
    have hsafe : ∃ raw, safePath raw = some path := by
      by_contra hnone
      rw [not_exists] at hnone
      have hhead : named c.head path = none := by
        cases hn : named c.head path with
        | none => rfl
        | some record =>
          obtain ⟨raw, hraw, -⟩ := named_eq_some.1 hn
          exact absurd hraw (hnone raw)
      have hindex : named c.index path = none := by
        cases hn : named c.index path with
        | none => rfl
        | some staged =>
          obtain ⟨raw, hraw, -⟩ := named_eq_some.1 hn
          exact absurd hraw (hnone raw)
      rw [hhead, hindex] at hne
      exact hne rfl
    obtain ⟨raw, hraw⟩ := hsafe
    obtain ⟨hhead, hindex⟩ := pointers_of_safe (c := c) hraw
    refine ⟨raw, hraw, ?_, ?_, ?_⟩
    · rw [hhead, hindex] at hne
      exact fun heq => hne ((hinj raw).2 heq)
    · show o.links.lookup path = _
      rw [o.lookup_links, hhead]
    · show indexLink o.index path = _
      rw [indexLink_eq, hindex]
  · rintro ⟨raw, hraw, hne, hheadOid, hindexOid⟩
    obtain ⟨hhead, hindex⟩ := pointers_of_safe (c := c) hraw
    have hlinks : o.links.lookup link.path = (c.headPointer raw).map (·.1) := by rw [o.lookup_links, hhead]
    have hentry : indexLink o.index link.path = (c.indexPointer raw).map (·.1) := by rw [indexLink_eq, hindex]
    refine ⟨link.path, ⟨?_, ?_⟩, ?_⟩
    · cases hp : c.headPointer raw with
      | some oid =>
        left
        rw [Table.mem_iff_lookup, hlinks, hp]
        exact Option.some_ne_none _
      | none =>
        cases hi : c.indexPointer raw with
        | none => exact absurd (hp.trans hi.symm) hne
        | some oid =>
          right
          rw [hi] at hentry
          unfold indexLink at hentry
          cases hlook : o.index.lookup link.path with
          | none => rw [hlook] at hentry; cases hentry
          | some entry =>
            rw [hlook] at hentry
            by_cases hmode : entry.mode = gitlinkMode
            · refine ⟨Table.mem_iff_lookup.2 (hlook ▸ Option.some_ne_none entry), ?_⟩
              simp [hmode]
            · simp only [hmode, if_false] at hentry
              cases hentry
    · rw [hlinks, hentry]
      exact fun heq => hne ((hinj raw).1 heq)
    · rw [hlinks, hentry, ← hheadOid, ← hindexOid]

theorem gitlinks_nodup : ((o.scan hashes limits).gitlinks.map (·.path)).Nodup := by
  show ((gitlinkChanges o.links o.index).map (·.path)).Nodup
  unfold gitlinkChanges
  rw [map_map]
  exact (map_id _).symm ▸ Table.ordered_nodup.filter _

theorem lookup_gitlinks (hraw : safePath raw = some path) : (tablesOf (o.scan hashes limits)).gitlinks.lookup path =
      if c.headPointer raw ≠ c.indexPointer raw then
        some ⟨path, (c.headPointer raw).map (·.1), (c.indexPointer raw).map (·.1)⟩
      else none := by
  have hsome : ∀ link, (tablesOf (o.scan hashes limits)).gitlinks.lookup path = some link ↔
      link ∈ (o.scan hashes limits).gitlinks ∧ link.path = path := fun link => Table.lookup_insertAll_named gitlinks_nodup
  split
  · next hne =>
    rw [hsome, mem_gitlinks]
    exact ⟨⟨raw, hraw, hne, rfl, rfl⟩, rfl⟩
  · next heq =>
    cases hlook : (tablesOf (o.scan hashes limits)).gitlinks.lookup path with
    | none => rfl
    | some link =>
      obtain ⟨hmem, rfl⟩ := (hsome link).1 hlook
      obtain ⟨raw', hraw', hne, -⟩ := mem_gitlinks.1 hmem
      exact absurd (safePath_inj hraw' hraw ▸ hne) heq

theorem mem_changes {change : StatusChange} : change ∈ (o.scan hashes limits).changes ↔
      ∃ entry, (l.parsed o.rejections).changes.lookup change.path = some entry ∧ change.xy = entry.xy ∧
        change.origPath = entry.origPath := by
  show change ∈ (Table.items (l.parsed o.rejections).changes).map
    (fun entry => (⟨entry.1, entry.2.xy, entry.2.origPath⟩ : StatusChange)) ↔ _
  rw [mem_map]
  constructor
  · rintro ⟨⟨p, entry⟩, hmem, rfl⟩
    exact ⟨entry, Table.mem_items.1 hmem, rfl, rfl⟩
  · rintro ⟨entry, hlook, hxy, horig⟩
    exact ⟨(change.path, entry), Table.mem_items.2 hlook, by rw [← hxy, ← horig]⟩

theorem changes_nodup : ((o.scan hashes limits).changes.map (·.path)).Nodup := by
  show (((Table.items (l.parsed o.rejections).changes).map
    (fun entry => (⟨entry.1, entry.2.xy, entry.2.origPath⟩ : StatusChange))).map (·.path)).Nodup
  rw [map_map]
  exact Table.items_keys_nodup

theorem xy_of_shows (h : Lists c l) (hraw : safePath raw = some path) (hshows : l.Shows raw xy) :
    (tablesOf (o.scan hashes limits)).xy path = xy := by
  obtain ⟨entry, hlook, rfl⟩ := parsed_of_shows o.rejections h hraw hshows
  have hstatus : (tablesOf (o.scan hashes limits)).status.lookup path = some ⟨path, entry.xy, entry.origPath⟩ :=
    (Table.lookup_insertAll_named changes_nodup).2 ⟨mem_changes.2 ⟨entry, hlook, rfl, rfl⟩, rfl⟩
  unfold Tables.xy
  rw [hstatus]
  rfl

theorem xy_of_not_shows (h : Lists c l) (hraw : safePath raw = some path) (hnot : ∀ xy, ¬ l.Shows raw xy) :
    (tablesOf (o.scan hashes limits)).xy path = [] := by
  unfold Tables.xy
  cases hlook : (tablesOf (o.scan hashes limits)).status.lookup path with
  | none => rfl
  | some change =>
    obtain ⟨hmem, rfl⟩ := (Table.lookup_insertAll_named changes_nodup).1 hlook
    obtain ⟨entry, hentry, -, -⟩ := mem_changes.1 hmem
    obtain ⟨raw', hraw', hshows, -⟩ := shows_of_parsed h hentry
    exact absurd (safePath_inj hraw' hraw ▸ hshows) (hnot _)

theorem renamedFrom_eq (h : Lists c l) : renamedFrom (o.scan hashes limits).changes = ∅ := by
  have hnone : ∀ change ∈ (o.scan hashes limits).changes, change.origPath = none := by
    intro change hchange
    obtain ⟨entry, hentry, -, horig⟩ := mem_changes.1 hchange
    obtain ⟨-, -, -, hnone⟩ := shows_of_parsed h hentry
    rw [horig, hnone]
  have hnil : ((o.scan hashes limits).changes.filterMap fun change => if 82 ∈ change.xy then change.origPath else none) = [] := by
    rw [filterMap_eq_nil_iff]
    intro change hchange
    rw [hnone change hchange, ite_self]
  unfold renamedFrom
  rw [hnil]
  rfl

/-! ## The files of the scan -/

theorem index_keys {p : String} : p ∈ o.index.keys ↔ ∃ raw, safePath raw = some p ∧ (c.index raw).isSome := by
  rw [Finmap.mem_keys, Table.mem_iff_lookup, o.lookup_index, ne_eq, Option.map_eq_none_iff, ← ne_eq, Option.ne_none_iff_exists']
  constructor
  · rintro ⟨staged, h⟩
    obtain ⟨raw, hraw, hstaged⟩ := named_eq_some.1 h
    exact ⟨raw, hraw, hstaged ▸ rfl⟩
  · rintro ⟨raw, hraw, h⟩
    obtain ⟨staged, hstaged⟩ := Option.isSome_iff_exists.1 h
    exact ⟨staged, named_eq_some.2 ⟨raw, hraw, hstaged⟩⟩

theorem lookup_index_of_safe (hraw : safePath raw = some path) : o.index.lookup path = (c.index raw).map (entryOf l.empty) := by
  rw [o.lookup_index, named_of_safe hraw]

theorem tracked_walk : (o.reading hashes limits).TrackedSpec (ordered o.index.keys) (o.reading hashes limits).tracked := by
  refine Reading.tracked_spec fun p hp => ?_
  exact Table.mem_iff_lookup.1 (Finmap.mem_keys.1 (Table.mem_ordered.1 hp))

theorem untracked_walk :
    (o.reading hashes limits).UntrackedSpec (o.reading hashes limits).tracked (sortedUntracked (l.parsed o.rejections).untracked)
      ((sortedUntracked (l.parsed o.rejections).untracked).foldl (o.reading hashes limits).untrackedStep
        (o.reading hashes limits).tracked) :=
  Reading.untracked_spec tracked_walk.untracked

theorem files_eq : (o.scan hashes limits).files = (o.reading hashes limits).tracked.files := untracked_walk.files

theorem files_nodup : ((o.scan hashes limits).files.map (·.path)).Nodup := by
  rw [files_eq, tracked_walk.filePaths]
  exact Table.ordered_nodup.sublist (take_sublist ..)

theorem lookup_tracked {file : TrackedFile} (h : (tablesOf (o.scan hashes limits)).tracked.lookup path = some file) :
    file.path = path ∧ (o.reading hashes limits).FileFact file := by
  obtain ⟨hmem, rfl⟩ := (Table.lookup_insertAll_named files_nodup).1 h
  rw [files_eq] at hmem
  exact ⟨rfl, tracked_walk.fileFacts file hmem⟩

/-- A file is found missing only where nothing stands. -/
theorem missing_of_found (hraw : safePath raw = some path)
    (h : ((tablesOf (o.scan hashes limits)).tracked.lookup path).any (·.skipped = some .missing)) :
    c.work raw = .missing ∧ ∃ staged, c.index raw = some staged ∧ (entryOf l.empty staged).mode ≠ gitlinkMode := by
  rw [Option.any_eq_true] at h
  obtain ⟨file, hlook, hmissing⟩ := h
  obtain ⟨rfl, hfact⟩ := lookup_tracked hlook
  obtain ⟨entry, hentry, hiff⟩ := hfact.missing
  obtain ⟨hmode, hwork⟩ := hiff.1 (of_decide_eq_true hmissing)
  have hentry' : (c.index raw).map (entryOf l.empty) = some entry := (lookup_index_of_safe hraw).symm.trans hentry
  obtain ⟨staged, hstaged, rfl⟩ := Option.map_eq_some_iff.1 hentry'
  exact ⟨(workOf_of_safe hraw).symm.trans hwork, staged, hstaged, hmode⟩

def First (c : Checkout Bytes Oid) (path : String) : Prop :=
  ∀ raw p, safePath raw = some p → (c.index raw).isSome → path ≤ p

theorem found_of_first {staged : Staged Oid} (hraw : safePath raw = some path) (hstaged : c.index raw = some staged)
    (hmode : (entryOf l.empty staged).mode ≠ gitlinkMode) (hwork : c.work raw = .missing) (hfirst : First c path) :
    ((tablesOf (o.scan hashes limits)).tracked.lookup path).any (·.skipped = some .missing) := by
  obtain ⟨rest, hrest⟩ := Table.ordered_head (index_keys.2 ⟨raw, hraw, hstaged ▸ rfl⟩ : path ∈ o.index.keys) fun p hp => by
    obtain ⟨raw', hraw', hsome⟩ := index_keys.1 hp
    exact hfirst raw' p hraw' hsome
  have hmem : path ∈ (o.scan hashes limits).files.map (·.path) := by
    rw [files_eq, tracked_walk.filePaths, hrest,
      take_cons (show 0 < (o.reading hashes limits).limits.maxFiles from limits.positive.1)]
    exact mem_cons_self ..
  obtain ⟨file, hfile, rfl⟩ := mem_map.1 hmem
  have hlook : (tablesOf (o.scan hashes limits)).tracked.lookup file.path = some file :=
    (Table.lookup_insertAll_named files_nodup).2 ⟨hfile, rfl⟩
  obtain ⟨-, hfact⟩ := lookup_tracked hlook
  obtain ⟨entry, hentry, hiff⟩ := hfact.missing
  have hentry' : o.index.lookup file.path = some entry := hentry
  rw [lookup_index_of_safe hraw, hstaged] at hentry'
  obtain rfl := Option.some.inj hentry'
  rw [hlook]
  exact decide_eq_true (hiff.2 ⟨hmode, (workOf_of_safe hraw).trans hwork⟩)

theorem unfound_of_not_first (hfirst : ¬ First c path) (hlimits : limits.maxFiles = 1) :
    (tablesOf (o.scan hashes limits)).tracked.lookup path = none := by
  cases hlook : (tablesOf (o.scan hashes limits)).tracked.lookup path with
  | none => rfl
  | some file =>
    obtain ⟨hmem, rfl⟩ := (Table.lookup_insertAll_named files_nodup).1 hlook
    have hpath : file.path ∈ (o.scan hashes limits).files.map (·.path) := mem_map_of_mem hmem
    rw [files_eq, tracked_walk.filePaths] at hpath
    have hpair := Table.ordered_pairwise (s := o.index.keys)
    refine absurd (fun raw' p hraw' hsome => ?_) hfirst
    have hp : p ∈ ordered o.index.keys := Table.mem_ordered.2 (index_keys.2 ⟨raw', hraw', hsome⟩)
    have hmax : (o.reading hashes limits).limits.maxFiles = 1 := hlimits
    rw [hmax] at hpath
    cases hkeys : ordered o.index.keys with
    | nil => rw [hkeys] at hp; exact absurd hp not_mem_nil
    | cons q rest =>
      rw [hkeys] at hpath hp hpair
      have hq : file.path = q := by simpa using hpath
      rw [hq]
      exact (mem_cons.1 hp).elim (fun h => h ▸ le_refl _) ((pairwise_cons.1 hpair).1 p)

/-! ## The paths that are looked into -/

def ParsedOutput.raced (o : ParsedOutput c l) (hashes : Hashes) (limits : ScanLimits) : Finset String :=
  (o.reading hashes limits).tracked.raced.keys

theorem mem_changedPaths : path ∈ changedPaths (o.scan hashes limits) ↔
      path ∈ (l.parsed o.rejections).changes ∨ path ∈ o.raced hashes limits ∨
        path ∈ (o.scan hashes limits).gitlinks.map (·.path) := by
  have hmodified : (o.scan hashes limits).modifiedPaths = ordered ((l.parsed o.rejections).changes.keys ∪
      ((sortedUntracked (l.parsed o.rejections).untracked).foldl (o.reading hashes limits).untrackedStep
        (o.reading hashes limits).tracked).raced.keys ∪ ((o.scan hashes limits).gitlinks.map (·.path)).toFinset) := rfl
  have hchanges : path ∈ (o.scan hashes limits).changes.map (·.path) → path ∈ (l.parsed o.rejections).changes := by
    intro hpath
    obtain ⟨change, hchange, rfl⟩ := mem_map.1 hpath
    obtain ⟨entry, hentry, -⟩ := mem_changes.1 hchange
    exact Table.mem_iff_lookup.2 (hentry ▸ Option.some_ne_none entry)
  unfold changedPaths ParsedOutput.raced
  rw [Table.mem_ordered, Finset.mem_union, mem_toFinset, mem_toFinset, hmodified, Table.mem_ordered,
    Finset.mem_union, Finset.mem_union, Finmap.mem_keys, mem_toFinset, untracked_walk.raced]
  constructor
  · rintro (((h | h) | h) | h)
    · exact .inl h
    · exact .inr (.inl h)
    · exact .inr (.inr h)
    · exact .inl (hchanges h)
  · rintro (h | h | h)
    · exact .inl (.inl (.inl h))
    · exact .inl (.inl (.inr h))
    · exact .inl (.inr h)

theorem changed_of_shows (h : Lists c l) (hraw : safePath raw = some path) (hshows : l.Shows raw xy) :
    path ∈ changedPaths (o.scan hashes limits) := by
  obtain ⟨entry, hentry, -⟩ := parsed_of_shows o.rejections h hraw hshows
  exact mem_changedPaths.2 (.inl (Table.mem_iff_lookup.2 (hentry ▸ Option.some_ne_none entry)))

theorem changed_of_pointers (hraw : safePath raw = some path) (hne : c.headPointer raw ≠ c.indexPointer raw) :
    path ∈ changedPaths (o.scan hashes limits) := by
  have hlink : (⟨path, (c.headPointer raw).map (·.1), (c.indexPointer raw).map (·.1)⟩ : GitlinkChange) ∈
      (o.scan hashes limits).gitlinks := mem_gitlinks.2 ⟨raw, hraw, hne, rfl, rfl⟩
  exact mem_changedPaths.2 (.inr (.inr (mem_map.2 ⟨_, hlink, rfl⟩)))

/-- A path that the status leaves out and whose bytes are not those that the index says. -/
structure Suspect (c : Checkout Bytes Oid) (l : Listing) (hashes : Hashes) (raw : Bytes) : Prop where
  unshown : ∀ xy, ¬ l.Shows raw xy
  staged : (∃ mode oid, c.index raw = some (.plain (.blob mode oid) false) ∧ ¬ Unmoved hashes (c.work raw) oid.1) ∨
    ∃ mode, c.index raw = some (.intent mode)

theorem suspect_of_raced (h : Lists c l) (hpath : path ∈ o.raced hashes limits) :
    ∃ raw, safePath raw = some path ∧ Suspect c l hashes raw := by
  have hlook := Table.mem_iff_lookup.1 (Finmap.mem_keys.1 hpath)
  obtain ⟨entry, fileCap, budget, seen, -, hentry, hmode, hsight, hrace⟩ := tracked_walk.raced hlook
  have hentry' : o.index.lookup path = some entry := hentry
  obtain ⟨staged, hnamed, rfl⟩ := Option.map_eq_some_iff.1 ((o.lookup_index path).symm.trans hentry')
  obtain ⟨raw, hraw, hstaged⟩ := named_eq_some.1 hnamed
  have hclean : (l.parsed o.rejections).changes.lookup path = none ∧ path ∉ o.flagged ∧
      (entryOf l.empty staged).conflicted = false := by
    by_contra hnot
    have hnone : (o.reading hashes limits).race path (entryOf l.empty staged) seen = none := if_neg hnot
    rw [hnone] at hrace
    cases hrace
  refine ⟨raw, hraw, fun xy hshows => ?_, ?_⟩
  · obtain ⟨change, hchange, -⟩ := parsed_of_shows o.rejections h hraw hshows
    rw [hclean.1] at hchange
    cases hchange
  · cases staged with
    | plain record flagged =>
      have hflag : flagged = false := by
        cases flagged with
        | false => rfl
        | true => exact absurd ((o.mem_flagged hraw hstaged).2 rfl) hclean.2.1
      subst hflag
      cases record with
      | link oid => exact absurd rfl hmode
      | blob mode oid =>
        refine .inl ⟨mode, oid, hstaged, fun hunmoved => ?_⟩
        have hnone : (o.reading hashes limits).race path (entryOf l.empty (.plain (.blob mode oid) false)) seen = none :=
          Reading.race_of_unmoved rfl (show Unmoved hashes (workOf c path) oid.1 from workOf_of_safe hraw ▸ hunmoved) hsight
        rw [hnone] at hrace
        cases hrace
    | intent mode => exact .inr ⟨mode, hstaged⟩
    | unmerged conflict version => exact absurd hclean.2.2 Bool.noConfusion

theorem raced_of_moved (h : Lists c l) {mode : WorkingTree.FileMode} {oid : Oid} (hraw : safePath raw = some path)
    (hunshown : ∀ xy, ¬ l.Shows raw xy) (hstaged : c.index raw = some (.plain (.blob mode oid) false))
    (hmoved : ¬ Unmoved hashes (c.work raw) oid.1) : ∃ limits, path ∈ o.raced hashes limits := by
  let total := ((ordered o.index.keys).map fun p => nodeSize (workOf c p)).sum
  refine ⟨⟨(ordered o.index.keys).length + 1, nodeSize (c.work raw) + 1, total + 1, by omega⟩, ?_⟩
  have hmem : path ∈ o.index.keys := index_keys.2 ⟨raw, hraw, hstaged ▸ rfl⟩
  have hmode : fileMode mode ≠ gitlinkMode := by cases mode <;> decide
  have hchange : (l.parsed o.rejections).changes.lookup path = none := by
    cases hlook : (l.parsed o.rejections).changes.lookup path with
    | none => rfl
    | some change =>
      obtain ⟨raw', hraw', hshows, -⟩ := shows_of_parsed h hlook
      exact absurd (safePath_inj hraw' hraw ▸ hshows) (hunshown _)
  have hflag : path ∉ o.flagged := fun hmem => absurd ((o.mem_flagged hraw hstaged).1 hmem) Bool.noConfusion
  refine Finmap.mem_keys.2 (Table.mem_iff_lookup.2 ?_)
  have hentry : o.index.lookup path = some (entryOf l.empty (.plain (.blob mode oid) false)) := by
    rw [lookup_index_of_safe hraw, hstaged]
    rfl
  refine Reading.tracked_raced ?_ (Nat.le_succ _) (Table.mem_ordered.2 hmem) hentry hmode ⟨hchange, hflag, rfl⟩
    (show _ = some oid.1 from rfl) ?_ ?_ (Nat.lt_succ_self _)
  · exact fun p hp => Table.mem_iff_lookup.1 (Finmap.mem_keys.1 (Table.mem_ordered.1 hp))
  · show ¬ Unmoved hashes (workOf c path) oid.1
    rw [workOf_of_safe hraw]
    exact hmoved
  · show nodeSize (workOf c path) ≤ nodeSize (c.work raw) + 1
    rw [workOf_of_safe hraw]
    exact Nat.le_succ _

theorem changed_safe (h : Lists c l) (hpath : path ∈ changedPaths (o.scan hashes limits)) : ∃ raw, safePath raw = some path := by
  rcases mem_changedPaths.1 hpath with hchange | hraced | hlink
  · obtain ⟨entry, hentry⟩ := Option.ne_none_iff_exists'.1 (Table.mem_iff_lookup.1 hchange)
    obtain ⟨raw, hraw, -⟩ := shows_of_parsed h hentry
    exact ⟨raw, hraw⟩
  · obtain ⟨raw, hraw, -⟩ := suspect_of_raced h hraced
    exact ⟨raw, hraw⟩
  · obtain ⟨link, hmem, rfl⟩ := mem_map.1 hlink
    obtain ⟨raw, hraw, -⟩ := mem_gitlinks.1 hmem
    exact ⟨raw, hraw⟩

/-- A path is looked into because it is shown, because its submodule changed, or on suspicion. -/
theorem changed_cases (h : Lists c l) (hraw : safePath raw = some path) (hpath : path ∈ changedPaths (o.scan hashes limits)) :
    (∃ xy, l.Shows raw xy) ∨ c.headPointer raw ≠ c.indexPointer raw ∨ Suspect c l hashes raw := by
  rcases mem_changedPaths.1 hpath with hchange | hraced | hlink
  · obtain ⟨entry, hentry⟩ := Option.ne_none_iff_exists'.1 (Table.mem_iff_lookup.1 hchange)
    obtain ⟨raw', hraw', hshows, -⟩ := shows_of_parsed h hentry
    exact .inl ⟨_, safePath_inj hraw' hraw ▸ hshows⟩
  · obtain ⟨raw', hraw', hsuspect⟩ := suspect_of_raced h hraced
    exact .inr (.inr (safePath_inj hraw' hraw ▸ hsuspect))
  · obtain ⟨link, hmem, rfl⟩ := mem_map.1 hlink
    obtain ⟨raw', hraw', hne, -⟩ := mem_gitlinks.1 hmem
    exact .inr (.inl (safePath_inj hraw' hraw ▸ hne))

/-! ## Untracked paths and rejections -/

theorem sortedUntracked_perm {items : List (String × Bool)} : (sortedUntracked items).Perm items.dedup :=
  perm_insertionSort _ _

theorem untrackedPaths_eq : (o.scan hashes limits).untrackedPaths =
    (sortedUntracked (l.parsed o.rejections).untracked).map Prod.fst := by
  show (List.foldl (o.reading hashes limits).untrackedStep _ _).untracked.map (·.path) ++ Walk.omittedUntracked _ = _
  rw [untracked_walk.paths, untracked_walk.omitted, take_append_drop]

theorem parsed_untracked (rejections : List Bytes) : (l.parsed rejections).untracked = l.status.filterMap untrackedOf := by
  rw [Listing.parsed, absorb_untracked, nil_append]

theorem mem_untrackedPaths (h : Lists c l) :
    path ∈ (o.scan hashes limits).untrackedPaths ↔ ∃ raw, safePath raw = some path ∧ c.Untracked raw := by
  rw [untrackedPaths_eq, (sortedUntracked_perm.map Prod.fst).mem_iff, ← mem_untracked h, ← parsed_untracked o.rejections]
  simp only [mem_map, mem_dedup]

theorem untracked_nodup (h : Lists c l) : ((o.scan hashes limits).untracked.map (·.path)).Nodup := by
  have hitems : ((sortedUntracked (l.parsed o.rejections).untracked).map Prod.fst).Nodup := by
    have hkeys : ((l.parsed o.rejections).untracked.map Prod.fst).Nodup := by
      rw [parsed_untracked, untrackedOf_keys]
      exact names_nodup h.status.untrackedOnce
    rw [(sortedUntracked_perm.map Prod.fst).nodup_iff, List.Nodup.dedup hkeys.of_map]
    exact hkeys
  show (List.map _ (List.foldl (o.reading hashes limits).untrackedStep _ _).untracked).Nodup
  rw [untracked_walk.paths]
  exact hitems.sublist (take_sublist ..)

theorem lookup_untracked (h : Lists c l) {file : UntrackedFile} {sha256 : String}
    (hlook : (tablesOf (o.scan hashes limits)).untracked.lookup path = some file) (hsha : file.contentSha256 = some sha256) :
    ∃ bytes, content (workOf c path) = some bytes ∧ sha256 = hashes.sha256 bytes := by
  obtain ⟨hmem, rfl⟩ := (Table.lookup_insertAll_named (untracked_nodup h)).1 hlook
  exact untracked_walk.sha256 file hmem hsha

theorem rejections_eq : (o.scan hashes limits).rejections = o.rejections ++ l.status.filterMap rejectedOf :=
  absorb_rejections

/-- A path that is not taken is rejected; an untracked repository with the slash that the status puts after it. -/
def Rejected (scan : RepositoryScan) (raw : Bytes) : Prop := raw ∈ scan.rejections ∨ raw ++ [slash] ∈ scan.rejections

theorem rejected_of_index (hsome : (c.index raw).isSome) (hrefused : safePath raw = none) :
    Rejected (o.scan hashes limits) raw := by
  left
  rw [rejections_eq]
  exact mem_append_left _ ((o.mem_rejections raw).2 ⟨hsome, hrefused⟩)

theorem rejected_of_line {line : Line Bytes} (hline : line ∈ l.lines)
    (hraw : line.trackedPath = some raw ∨ line.untrackedPath = some raw) (hrefused : safePath raw = none) :
    Rejected (o.scan hashes limits) raw := by
  obtain ⟨p, hp, rfl⟩ := mem_map.1 hline
  have hrejected : rejectedOf p = some raw ∨ rejectedOf p = some (raw ++ [slash]) := by
    cases p with
    | ordinary raw' x y fields | unmerged raw' x y fields =>
      obtain rfl : raw' = raw := hraw.elim Option.some.inj fun h => nomatch h
      exact .inl (if_pos hrefused)
    | untracked raw' repository =>
      obtain rfl : raw' = raw := hraw.elim (fun h => nomatch h) Option.some.inj
      cases repository with
      | true => exact .inr (if_pos hrefused)
      | false => exact .inl ((if_pos hrefused).trans (congrArg some (append_nil _)))
  unfold Rejected
  rw [rejections_eq]
  exact hrejected.imp (fun h => mem_append_right _ (mem_filterMap.2 ⟨p, hp, h⟩))
    fun h => mem_append_right _ (mem_filterMap.2 ⟨p, hp, h⟩)

/-- The loops of the scan, all run. -/
def ParsedOutput.walk (o : ParsedOutput c l) (hashes : Hashes) (limits : ScanLimits) : Walk :=
  (sortedUntracked (l.parsed o.rejections).untracked).foldl (o.reading hashes limits).untrackedStep
    (o.reading hashes limits).tracked

theorem exists_mem_iff {α : Type} {items : List α} : (∃ a, a ∈ items) ↔ items ≠ [] :=
  ⟨fun ⟨_, ha⟩ => ne_nil_of_mem ha, exists_mem_of_ne_nil items⟩

theorem exists_untrackedPaths : (∃ p, p ∈ (o.scan hashes limits).untrackedPaths) ↔
    (o.walk hashes limits).untracked ≠ [] ∨ (o.walk hashes limits).omittedUntracked ≠ [] := by
  have heq : (o.scan hashes limits).untrackedPaths =
      (o.walk hashes limits).untracked.map (·.path) ++ (o.walk hashes limits).omittedUntracked := rfl
  rw [exists_mem_iff, heq, ne_eq, append_eq_nil_iff, map_eq_nil_iff, not_and_or]

theorem exists_changedPaths : (∃ p, p ∈ changedPaths (o.scan hashes limits)) ↔
    (l.parsed o.rejections).changes.keys ≠ ∅ ∨ (o.walk hashes limits).raced.keys ≠ ∅ ∨
      gitlinkChanges o.links o.index ≠ [] := by
  have hraced : (o.walk hashes limits).raced.keys = o.raced hashes limits := congrArg Finmap.keys untracked_walk.raced
  have hlinks : (∃ p, p ∈ (o.scan hashes limits).gitlinks.map (·.path)) ↔ gitlinkChanges o.links o.index ≠ [] := by
    rw [exists_mem_iff, ne_eq, map_eq_nil_iff]
    rfl
  rw [hraced, ← hlinks, ← Finset.nonempty_iff_ne_empty, ← Finset.nonempty_iff_ne_empty]
  simp only [mem_changedPaths, exists_or, Finset.Nonempty, Finmap.mem_keys]

theorem isDirty_iff : (o.scan hashes limits).isDirty = true ↔
    (∃ p, p ∈ changedPaths (o.scan hashes limits)) ∨ (∃ p, p ∈ (o.scan hashes limits).untrackedPaths) ∨
      l.status.filterMap rejectedOf ≠ [] := by
  have hrejected : (l.parsed o.rejections).rejectedChanges ≠ [] ↔ l.status.filterMap rejectedOf ≠ [] := by
    have hlen : (l.parsed o.rejections).rejectedChanges.length = 0 + (l.status.filterMap rejectedOf).length :=
      absorb_rejectedChanges
    rw [← length_pos_iff_ne_nil, ← length_pos_iff_ne_nil, hlen, Nat.zero_add]
  have hdirty : (o.scan hashes limits).isDirty = true ↔
      (l.parsed o.rejections).changes.keys ≠ ∅ ∨ (o.walk hashes limits).raced.keys ≠ ∅ ∨
        gitlinkChanges o.links o.index ≠ [] ∨ (o.walk hashes limits).untracked ≠ [] ∨
        (o.walk hashes limits).omittedUntracked ≠ [] ∨ (l.parsed o.rejections).rejectedChanges ≠ [] :=
    decide_eq_true_iff
  rw [hdirty, exists_changedPaths, exists_untrackedPaths, hrejected, or_assoc, or_assoc, or_assoc]

end Scan

end Snapshots
