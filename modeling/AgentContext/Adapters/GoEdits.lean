import AgentContext.Adapters.GoFingerprint

/-!
# The Go adapter: edits of a group

The digests of two groups, or of one group before and after an edit, are the same exactly when their readings are
(`fingerprints_follow`). Where the edit moves a spec whose list has an `iota`, it also moves the constants of the spec
that have no `iota` in their own value (`moves_without_iota`).
-/

namespace Go

open Bracketed

section

variable {D β : Type} {digest : String → List (Token D) → D} {take : β → Sym → Option β}

theorem name_text {content : Bytes} {node : Info} {simple : Bytes} (h : name content node = some simple) :
    simple = text content node := by
  unfold name at h
  split at h
  · cases h
  · unfold identifierBytes at h
    cases htext : text content node with
    | nil =>
      rw [htext] at h
      cases h
    | cons b rest =>
      rw [htext] at h
      simp only at h
      split at h
      · cases h
      · split at h
        · cases h
        · split at h
          · cases h
          · split at h
            · exact (Option.some.inj h).symm
            · cases h

/-- A digested symbol has a reading at its place in the group, under its own name. -/
theorem digests_named (d : ConstDecl) (w : Walk D β) {s : Digested D} (hs : s ∈ d.digests digest take w) :
    ∃ r, d.reading w.content s.ordinal s.index = some r ∧ r.name = .leaf "identifier" s.sym.simple ∧
      s.semantic = r.semantic digest := by
  obtain ⟨k, spec, n, hk, hordinal, hn, hname, -, hsemantic, -⟩ := digests_reading digest take d w hs
  rw [Nat.zero_add] at hordinal
  have hmem := List.mem_of_getElem? hn
  refine ⟨_, by simp [ConstDecl.reading, hordinal, hk, hn]; rfl, ?_, ?_⟩
  · rw [name_text hname]
    obtain ⟨-, hkind, -⟩ := spec.names_ok n hmem
    simp [ConstSpec.reading, leafToken, spec.names_named n hmem, hkind]
  · rw [hsemantic, hordinal]

/-- **Constant fingerprints.** Between the constants of any two groups, a fingerprint follows the meaning exactly when the
two, if they mean the same, are written alike, and, if they do not, are not mistaken. -/
theorem fingerprints_follow (hdigest : Function.Injective (digest "semantic")) (d d' : ConstDecl) (w w' : Walk D β)
    (s s' : Digested D) (hs : s ∈ d.digests digest take w) (hs' : s' ∈ d'.digests digest take w') :
    ∃ r r' : Reading D, d.reading w.content s.ordinal s.index = some r ∧ r.name = .leaf "identifier" s.sym.simple ∧
      d'.reading w'.content s'.ordinal s'.index = some r' ∧ r'.name = .leaf "identifier" s'.sym.simple ∧
      ((s.semantic = s'.semantic ↔ r.key = r'.key) ↔
        (r.key = r'.key → r.Alike r') ∧ (r.key ≠ r'.key → ¬r.Mistaken r')) := by
  obtain ⟨r, hr, hname, hsemantic⟩ := digests_named d w hs
  obtain ⟨r', hr', hname', hsemantic'⟩ := digests_named d' w' hs'
  refine ⟨r, r', hr, hname, hr', hname', ?_⟩
  rw [hsemantic, hsemantic']
  exact follows_iff digest hdigest (d.reading_ok _ hr) (d'.reading_ok _ hr')

end

/-! ## An edit -/

section Edit

/-- A hash without collisions: what is hashed. -/
inductive Hash where
  | of (domain : String) (tokens : List (Token Hash))

theorem Hash.of_injective (domain : String) : Function.Injective (Hash.of domain) := fun _ _ h => by injection h

def ascii (s : String) : Bytes := s.toList.map fun c => UInt8.ofNat c.toNat

def leafNode (id : Nat) (kind : String) (named : Bool) (start stop : Nat) (field : Option String) : Node :=
  .node ⟨id, kind, named, start, stop, field, false⟩ []

/-- `X = 0` at a position of a file. -/
def zeroSpec (id start : Nat) : ConstSpec where
  node := .node ⟨id, "const_spec", true, start, start + 5, none, false⟩
    [leafNode (id + 1) "identifier" true start (start + 1) (some "name"),
      leafNode (id + 2) "=" false (start + 2) (start + 3) none,
      .node ⟨id + 3, "expression_list", true, start + 4, start + 5, some "value", false⟩
        [leafNode (id + 4) "int_literal" true (start + 4) (start + 5) none]]
  names := [leafNode (id + 1) "identifier" true start (start + 1) (some "name")]
  init := some {
    typ := none
    eq := leafNode (id + 2) "=" false (start + 2) (start + 3) none
    list := .node ⟨id + 3, "expression_list", true, start + 4, start + 5, some "value", false⟩
      [leafNode (id + 4) "int_literal" true (start + 4) (start + 5) none]
    elements := [leafNode (id + 4) "int_literal" true (start + 4) (start + 5) none]
    typ_ok := by simp
    eq_ok := ⟨rfl, rfl, rfl, rfl⟩
    list_ok := ⟨rfl, rfl⟩
    list_children := rfl
    elements_ne := by simp
    elements_named := by simp [leafNode]
    separators := by simp [leafNode] }
  kind := rfl
  children := rfl
  names_ne := by simp
  names_ok := by simp [leafNode]
  names_named := by simp [leafNode]
  skipped_ok := by simp [leafNode, skipped]
  sound := rfl
  distinct := by simp [leafNode, Tree.labels, Tree.labelsOf]

/-- `A, B = iota, 5` at a position of a file. -/
def pairSpec (id start : Nat) : ConstSpec where
  node := .node ⟨id, "const_spec", true, start, start + 14, none, false⟩
    [leafNode (id + 1) "identifier" true start (start + 1) (some "name"),
      leafNode (id + 2) "," false (start + 1) (start + 2) (some "name"),
      leafNode (id + 3) "identifier" true (start + 3) (start + 4) (some "name"),
      leafNode (id + 4) "=" false (start + 5) (start + 6) none,
      .node ⟨id + 5, "expression_list", true, start + 7, start + 14, some "value", false⟩
        [leafNode (id + 6) "iota" true (start + 7) (start + 11) none,
          leafNode (id + 7) "," false (start + 11) (start + 12) none,
          leafNode (id + 8) "int_literal" true (start + 13) (start + 14) none]]
  names := [leafNode (id + 1) "identifier" true start (start + 1) (some "name"),
    leafNode (id + 3) "identifier" true (start + 3) (start + 4) (some "name")]
  init := some {
    typ := none
    eq := leafNode (id + 4) "=" false (start + 5) (start + 6) none
    list := .node ⟨id + 5, "expression_list", true, start + 7, start + 14, some "value", false⟩
      [leafNode (id + 6) "iota" true (start + 7) (start + 11) none,
        leafNode (id + 7) "," false (start + 11) (start + 12) none,
        leafNode (id + 8) "int_literal" true (start + 13) (start + 14) none]
    elements := [leafNode (id + 6) "iota" true (start + 7) (start + 11) none,
      leafNode (id + 8) "int_literal" true (start + 13) (start + 14) none]
    typ_ok := by simp
    eq_ok := ⟨rfl, rfl, rfl, rfl⟩
    list_ok := ⟨rfl, rfl⟩
    list_children := rfl
    elements_ne := by simp
    elements_named := by simp [leafNode]
    separators := by simp [leafNode] }
  kind := rfl
  children := rfl
  names_ne := by simp
  names_ok := by simp [leafNode]
  names_named := by simp [leafNode]
  skipped_ok := by simp [leafNode, skipped]
  sound := rfl
  distinct := by simp [leafNode, Tree.labels, Tree.labelsOf]

/-- `const (X = 0; A, B = iota, 5)` -/
def shorter : ConstDecl where
  node := .node ⟨1, "const_declaration", true, 0, 29, none, false⟩
    [leafNode 2 "const" false 0 5 none, leafNode 3 "(" false 6 7 none, (zeroSpec 10 7).node, leafNode 4 ";" false 12 13 none,
      (pairSpec 30 14).node, leafNode 5 ")" false 28 29 none]
  specs := [zeroSpec 10 7, pairSpec 30 14]
  kind := rfl
  children := rfl
  others := by simp [leafNode, zeroSpec, pairSpec]

/-- `const (X = 0; Y = 0; A, B = iota, 5)` -/
def longer : ConstDecl where
  node := .node ⟨1, "const_declaration", true, 0, 36, none, false⟩
    [leafNode 2 "const" false 0 5 none, leafNode 3 "(" false 6 7 none, (zeroSpec 10 7).node, leafNode 4 ";" false 12 13 none,
      (zeroSpec 20 14).node, leafNode 5 ";" false 19 20 none, (pairSpec 30 21).node, leafNode 6 ")" false 35 36 none]
  specs := [zeroSpec 10 7, zeroSpec 20 14, pairSpec 30 21]
  kind := rfl
  children := rfl
  others := by simp [leafNode, zeroSpec, pairSpec]

def parsed (source : String) : Walk Hash Unit where
  content := ascii source
  moduleQ := ascii "pkg"
  budget := ()

def shorterWalk : Walk Hash Unit := parsed "const (X = 0; A, B = iota, 5)"

def longerWalk : Walk Hash Unit := parsed "const (X = 0; Y = 0; A, B = iota, 5)"

/-- No limit refuses a symbol. -/
def unlimited (_ : Unit) (_ : Sym) : Option Unit := some ()

/-- The places and the names of what the two groups digest. -/
theorem shorter_places : (shorter.digests Hash.of unlimited shorterWalk).map (fun s => (s.ordinal, s.index)) =
    [(0, 0), (1, 0), (1, 1)] := by decide +kernel

theorem longer_places : (longer.digests Hash.of unlimited longerWalk).map (fun s => (s.ordinal, s.index)) =
    [(0, 0), (1, 0), (2, 0), (2, 1)] := by decide +kernel

/-- `B = 5` has no `iota`, and still its fingerprint changes with the position of `A, B = iota, 5`. -/
theorem moves_without_iota :
    ∃ s ∈ shorter.digests Hash.of unlimited shorterWalk, ∃ s' ∈ longer.digests Hash.of unlimited longerWalk,
      ∃ r r' : Reading Hash, shorter.reading shorterWalk.content s.ordinal s.index = some r ∧
        longer.reading longerWalk.content s'.ordinal s'.index = some r' ∧
        r.key = r'.key ∧ r.value.any Token.isIota = false ∧ s.semantic ≠ s'.semantic := by
  have hmem : (1, 1) ∈ (shorter.digests Hash.of unlimited shorterWalk).map fun s => (s.ordinal, s.index) := by
    simp [shorter_places]
  have hmem' : (2, 1) ∈ (longer.digests Hash.of unlimited longerWalk).map fun s => (s.ordinal, s.index) := by
    simp [longer_places]
  obtain ⟨s, hs, hplace⟩ := List.mem_map.mp hmem
  obtain ⟨s', hs', hplace'⟩ := List.mem_map.mp hmem'
  obtain ⟨hordinal, hindex⟩ := Prod.mk.inj hplace
  obtain ⟨hordinal', hindex'⟩ := Prod.mk.inj hplace'
  obtain ⟨r, hr, -, hsemantic⟩ := digests_named shorter shorterWalk hs
  obtain ⟨r', hr', -, hsemantic'⟩ := digests_named longer longerWalk hs'
  have hform : (shorter.reading (D := Hash) shorterWalk.content 1 1).map Reading.form = some ⟨false, .closed, some 1, none⟩ := by
    decide +kernel
  have hform' : (longer.reading (D := Hash) longerWalk.content 2 1).map Reading.form = some ⟨false, .closed, some 2, none⟩ := by
    decide +kernel
  have hkey : (shorter.reading (D := Hash) shorterWalk.content 1 1).map Reading.key =
      (longer.reading (D := Hash) longerWalk.content 2 1).map Reading.key := by
    have hcontent : shorterWalk.content =
      [99, 111, 110, 115, 116, 32, 40, 88, 32, 61, 32, 48, 59, 32, 65, 44, 32, 66, 32, 61, 32, 105, 111, 116,
        97, 44, 32, 53, 41] := by
      decide
    have hcontent' : longerWalk.content =
      [99, 111, 110, 115, 116, 32, 40, 88, 32, 61, 32, 48, 59, 32, 89, 32, 61, 32, 48, 59, 32, 65, 44, 32,
        66, 32, 61, 32, 105, 111, 116, 97, 44, 32, 53, 41] := by
      decide
    rw [hcontent, hcontent']
    rfl
  have hvalue : (shorter.reading (D := Hash) shorterWalk.content 1 1).map (fun r => r.value.any Token.isIota) = some false := by
    decide +kernel
  refine ⟨s, hs, s', hs', r, r', hr, hr', ?_⟩
  rw [hordinal, hindex] at hr
  rw [hordinal', hindex'] at hr'
  rw [hr, Option.map_some, Option.some.injEq] at hform hvalue
  rw [hr', Option.map_some, Option.some.injEq] at hform'
  rw [hr, hr', Option.map_some, Option.map_some, Option.some.injEq] at hkey
  refine ⟨hkey, hvalue, fun h => ?_⟩
  rw [hsemantic, hsemantic', semantic_eq_iff Hash.of (Hash.of_injective _) (shorter.reading_ok _ hr) (longer.reading_ok _ hr')]
    at h
  have hover := congrArg Form.outer h.2.2.2
  rw [hform, hform'] at hover
  cases hover

/-- `X = 0` is written the same in both groups, and keeps its fingerprint. -/
theorem fingerprints_follow_sample :
    ∃ s ∈ shorter.digests Hash.of unlimited shorterWalk, ∃ s' ∈ longer.digests Hash.of unlimited longerWalk,
      ∃ r r' : Reading Hash, shorter.reading shorterWalk.content s.ordinal s.index = some r ∧
        r.name = .leaf "identifier" s.sym.simple ∧
        longer.reading longerWalk.content s'.ordinal s'.index = some r' ∧ r'.name = .leaf "identifier" s'.sym.simple ∧
        ((s.semantic = s'.semantic ↔ r.key = r'.key) ↔
          (r.key = r'.key → r.Alike r') ∧ (r.key ≠ r'.key → ¬r.Mistaken r')) := by
  have hmem : (0, 0) ∈ (shorter.digests Hash.of unlimited shorterWalk).map fun s => (s.ordinal, s.index) := by
    simp [shorter_places]
  have hmem' : (0, 0) ∈ (longer.digests Hash.of unlimited longerWalk).map fun s => (s.ordinal, s.index) := by
    simp [longer_places]
  obtain ⟨s, hs, -⟩ := List.mem_map.mp hmem
  obtain ⟨s', hs', -⟩ := List.mem_map.mp hmem'
  exact ⟨s, hs, s', hs', fingerprints_follow (Hash.of_injective _) shorter longer shorterWalk longerWalk s s' hs hs'⟩

end Edit

end Go
