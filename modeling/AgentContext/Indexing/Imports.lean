import AgentContext.Lib.Keyset
import Mathlib.Data.String.Basic
import Mathlib.Order.OrderDual

/-!
# How a reference finds what an import bound

`bind_symbol_reference` of `indexing/emitter.py`: the head of a reference's name must be bound in its file.  Of the
bindings of that name, those count whose dotted path the reference spells and that are made at module level or in
the reference's own scope; of these, those that consume the longest path (`specific`).  `pick_binding` then chooses
by position:

    choose_perm          the order of the bindings does not matter
    choose_own           the latest of the own scope before the use shadows the module's
    choose_module        otherwise the latest of the module before the use
    choose_later         unless the use is in a function and a later one of the module stands for something else

A relation is asserted to a symbol when it is the only one under the owner chain the choice leads to.
-/

namespace Indexing

open List

/-! ## Names -/

/-- `name.split(".")`. -/
def splitDots (name : String) : List String := (name.toList.splitOn '.').map String.ofList

/-- `_NAME_SEPARATOR.split`: a name is cut at `.`, `::`, `/` and `#`; `token` is the token read so far, reversed. -/
def splitName : List Char → List Char → List (List Char)
  | [], token => [token.reverse]
  | ':' :: ':' :: name, token => token.reverse :: splitName name []
  | c :: name, token =>
    if c = '.' ∨ c = '/' ∨ c = '#' then token.reverse :: splitName name [] else splitName name (c :: token)

/-- `_tokens`. -/
def nameTokens (name : String) : List String := ((splitName name.toList []).filter (· ≠ [])).map String.ofList

/-- `str(PurePosixPath(path).parent)` of a repository path. -/
def moduleDir (path : String) : String :=
  let parts := (path.toList.splitOn '/').dropLast
  if parts = [] then "." else String.ofList (['/'].intercalate parts)

/-- `_is_go_test_file`. -/
def isGoTestFile (path : String) : Bool := "_test.go".toList.isSuffixOf path.toList

/-! ## Files and their symbols -/

/-- `_Sym`, less its byte range. -/
structure Sym where
  symbolId : String
  qualifiedName : String
  kind : String
deriving DecidableEq, Repr

/-- The fields of `_File` that resolution reads.  A run holds one `_File` a path. -/
structure SourceFile where
  path : String
  language : String
  symbols : List Sym
deriving DecidableEq, Repr

/-- `_SymbolIndex.module`. -/
def SourceFile.moduleSymbol (item : SourceFile) : Option Sym := item.symbols.find? (·.kind = "module")

/-- `_SymbolIndex.module_tokens`. -/
def SourceFile.moduleTokens (item : SourceFile) : Option (List String) :=
  item.moduleSymbol.map (nameTokens ·.qualifiedName)

/-- The entries of `_SymbolIndex.owners` under a name: each symbol of that name with its owner tokens. -/
def SourceFile.owners (item : SourceFile) (name : String) : List (Sym × List String) :=
  item.symbols.filterMap fun symbol =>
    let tokens := nameTokens symbol.qualifiedName
    if tokens.getLast? = some name then some (symbol, tokens.dropLast) else none

/-- Membership in `_SymbolIndex.module_level`. -/
def SourceFile.atModuleLevel (item : SourceFile) (name : String) : Bool :=
  match item.moduleTokens with
  | none => false
  | some owner => (item.owners name).any fun (symbol, tokens) => item.moduleSymbol ≠ some symbol ∧ tokens = owner

inductive ReferenceKind | imports | call | inherit
deriving DecidableEq, Repr

/-- The fields of `ParsedReference` that resolution reads; `alias_` is `alias`. -/
structure Reference where
  source : Option String
  kind : ReferenceKind
  targetName : String
  relativeLevel : Nat
  startByte : Nat
  qualifier : Option String
  alias_ : Option String
deriving DecidableEq, Repr

/-- `_Binding`. -/
structure Binding where
  file : SourceFile
  consumed : List String
  symbol : Option String
  at_ : Nat
  scope : Option String
deriving DecidableEq, Repr

/-- What a binding stands for. -/
def Binding.thing (b : Binding) : SourceFile × Option String := (b.file, b.symbol)

/-! ## What an import binds -/

/-- `bind_names`: the bindings an import adds, each under its local name, and the imported name. -/
def bindNames (item : SourceFile) (reference : Reference) (target : SourceFile) (whole : Bool) :
    List (String × Binding) × String :=
  let bind (consumed : List String) (symbol : Option String) : Binding :=
    ⟨target, consumed, symbol, reference.startByte, reference.source⟩
  if item.language = "go" then
    let name := String.ofList ((reference.targetName.toList.splitOn '/').getLastD [])
    let last := match reference.qualifier, reference.alias_ with
      | some qualifier, none => [((splitDots qualifier).getLastD "", bind [] none)]
      | _, _ => []
    ((reference.alias_.getD name, bind [] none) :: last, name)
  else if item.language ≠ "python" then
    if whole then ((reference.alias_.toList.map (·, bind [] none)), reference.targetName)
    else ([(reference.alias_.getD reference.targetName, bind [] (some reference.targetName))], reference.targetName)
  else
    let name := (splitDots reference.targetName).getLastD ""
    if reference.qualifier.isSome ∨ reference.relativeLevel ≠ 0 then
      let symbol := if whole then none else some reference.targetName
      ([(reference.alias_.getD reference.targetName, bind [] symbol)], name)
    else if whole then
      let parts := splitDots reference.targetName
      match reference.alias_ with
      | some local_ => ([(local_, bind [] none)], name)
      | none => ([(parts.headD "", bind parts.tail none)], name)
    else ([], name)

/-- The bindings of a file, in the order of its references; `resolve` is `resolve_import`. -/
def fileBindings (resolve : SourceFile → Reference → Option (SourceFile × Bool)) (item : SourceFile)
    (references : List Reference) : List (String × Binding) :=
  (references.filter (·.kind = .imports)).flatMap fun reference =>
    match resolve item reference with
    | none => []
    | some (target, whole) => (bindNames item reference target whole).1

/-- The entry of the `bound` dictionary under a name. -/
def boundTo (bindings : List (String × Binding)) (name : String) : List Binding :=
  (bindings.filter (·.1 = name)).map Prod.snd

/-! ## Picking a binding -/

/-- The bindings a reference can see and whose dotted path it spells. -/
def fitting (options : List Binding) (rest : List String) (reference : Reference) : List Binding :=
  (options.filter fun b => rest.take b.consumed.length = b.consumed).filter fun b =>
    b.scope = none ∨ b.scope = reference.source

/-- Of these, the ones that consume the longest path. -/
def specific (options : List Binding) (rest : List String) (reference : Reference) : List Binding :=
  let found := fitting options rest reference
  found.filter fun b => b.consumed.length = (found.map (·.consumed.length)).foldr max 0

/-- `max(bindings, key=lambda b: b.at)`: the first of those with the greatest position. -/
def latest (bindings : List Binding) : Option Binding := Keyset.leastBy (OrderDual.toDual ·.at_) bindings

def ownBefore (found : List Binding) (reference : Reference) : List Binding :=
  found.filter fun b => b.scope ≠ none ∧ b.at_ < reference.startByte

def moduleBefore (found : List Binding) (reference : Reference) : List Binding :=
  (found.filter (·.scope = none)).filter (·.at_ < reference.startByte)

def moduleAfter (found : List Binding) (reference : Reference) : List Binding :=
  (found.filter (·.scope = none)).filter (reference.startByte < ·.at_)

/-- The rest of `pick_binding`: the binding a reference sees, and whether it is ambiguous. -/
def choose (found : List Binding) (reference : Reference) : Option Binding × Bool :=
  match found with
  | [] => (none, false)
  | first :: _ =>
    if found.all (·.thing = first.thing) then (some first, false)
    else
      match latest (ownBefore found reference) with
      | some own => (some own, false)
      | none =>
        match latest (moduleBefore found reference) with
        | none => (none, true)
        | some last =>
          if reference.source ≠ none ∧ (moduleAfter found reference).any (·.thing ≠ last.thing) then (none, true)
          else (some last, false)

/-- `pick_binding`. -/
def pickBinding (options : List Binding) (rest : List String) (reference : Reference) : Option Binding × Bool :=
  choose (specific options rest reference) reference

/-! ## Resolving a reference -/

/-- The files of a run. -/
structure EmitRun where
  files : List SourceFile
deriving DecidableEq, Repr

/-- `scope_files`. -/
def scopeFiles (run : EmitRun) (item : SourceFile) : List SourceFile :=
  if item.language ≠ "go" then [item]
  else
    let siblings := Keyset.sortBy (·.path)
      (run.files.filter fun f => f.language = "go" ∧ moduleDir f.path = moduleDir item.path)
    let seen := if isGoTestFile item.path then siblings else siblings.filter (!isGoTestFile ·.path)
    if seen = [] then [item] else seen

/-- `package_candidates`; the source keeps the table of a directory once it is built. -/
def packageCandidates (run : EmitRun) (item : SourceFile) (wanted : String) : List Sym :=
  (scopeFiles run item).flatMap fun member =>
    if member.moduleSymbol.isSome ∧ ¬ member.atModuleLevel wanted then []
    else ((member.owners wanted).map Prod.fst).filter (·.kind ≠ "module")

/-- `owned`. -/
def owned (target : SourceFile) (wanted : String) (chain : List String) : List Sym :=
  ((target.owners wanted).filter fun (symbol, owner) =>
    decide (symbol.kind ≠ "module") &&
      match target.moduleTokens with
      | some base => decide (owner = base ++ chain)
      | none => decide (owner.drop (owner.length - chain.length) = chain ∧ chain.length ≤ owner.length)).map Prod.fst

/-- The diagnostics a reference is dropped under. -/
inductive Dropped | ambiguousReference | unresolvedReference | unboundQualifier
deriving DecidableEq, Repr

/-- Where a reference looks for its target: under an owner chain of a file, or at the top level of its own package. -/
inductive Owner
  | chain (target : SourceFile) (owners : List String) (wanted : String)
  | package (wanted : String)
deriving DecidableEq, Repr

/-- `full`: qualifier and name, cut at the dots. -/
def Reference.full (reference : Reference) : List String :=
  (reference.qualifier.map splitDots).getD [] ++ splitDots reference.targetName

/-- The owner chain under which the target must sit. -/
def resolveOwner (item : SourceFile) (reference : Reference) (bound : String → List Binding) :
    Except Dropped Owner :=
  let wanted := reference.full.getLastD ""
  match reference.full.dropLast with
  | [] =>
    match pickBinding (bound wanted) [] reference with
    | (_, true) => .error .ambiguousReference
    | (none, false) => if item.language = "go" then .ok (.package wanted) else .error .unresolvedReference
    | (some binding, false) => .ok (.chain binding.file [] (binding.symbol.getD wanted))
  | head :: rest =>
    match pickBinding (bound head) rest reference with
    | (_, true) => .error .ambiguousReference
    | (some binding, false) =>
      .ok (.chain binding.file
        (binding.symbol.toList.filter (· ≠ "") ++ rest.drop binding.consumed.length) wanted)
    | (none, false) =>
      if item.atModuleLevel head then .ok (.chain item (head :: rest) wanted) else .error .unboundQualifier

/-- The symbols under an owner chain. -/
def candidates (run : EmitRun) (item : SourceFile) : Owner → List Sym
  | .package wanted => packageCandidates run item wanted
  | .chain target owners wanted =>
    if target.language = "go" ∧ target ≠ item then
      -- a chain in another package names a type, whose methods are not indexed
      if owners = [] then packageCandidates run target wanted else []
    else owned target wanted owners

/-- `bind_symbol_reference`: the target of the relation it asserts, or the diagnostic it counts. -/
def bindSymbolReference (run : EmitRun) (item : SourceFile) (reference : Reference)
    (bound : String → List Binding) : Except Dropped Sym := do
  let owner ← resolveOwner item reference bound
  match candidates run item owner with
  | [symbol] => return symbol
  | [] => throw .unresolvedReference
  | _ => throw .ambiguousReference

/-! ## The choice among bindings of one path -/

/-- What resolution reads of a binding. -/
def Binding.use (b : Binding) : (SourceFile × Option String) × Nat := (b.thing, b.consumed.length)

def picked (result : Option Binding × Bool) : Option ((SourceFile × Option String) × Nat) × Bool :=
  (result.1.map Binding.use, result.2)

/-- `b` is one of the bindings, and later than all of them that stand for something else. -/
def Latest (b : Binding) (bindings : List Binding) : Prop :=
  b ∈ bindings ∧ ∀ b' ∈ bindings, b'.thing ≠ b.thing → b'.at_ < b.at_

/-- Bindings at one position of one scope stand for one thing. -/
def PositionsApart (bindings : List Binding) : Prop :=
  ∀ a ∈ bindings, ∀ b ∈ bindings, a.scope = b.scope → a.at_ = b.at_ → a.thing = b.thing

variable {bindings : List Binding}

theorem latest_eq_none : latest bindings = none ↔ bindings = [] := Keyset.leastBy_eq_none

theorem latest_spec {b : Binding} (h : latest bindings = some b) :
    b ∈ bindings ∧ ∀ b' ∈ bindings, b'.at_ ≤ b.at_ := Keyset.leastBy_spec h

/-- `max` finds what the latest binding stands for. -/
theorem Latest.thing_eq {b last : Binding} (h : Latest b bindings) (hlast : latest bindings = some last) :
    last.thing = b.thing := by
  obtain ⟨hmem, hmax⟩ := latest_spec hlast
  by_contra hne
  have hlt := h.2 last hmem hne
  have hle := hmax b h.1
  omega

theorem latest_latest {b : Binding} (h : latest bindings = some b)
    (hsame : ∀ a ∈ bindings, ∀ a' ∈ bindings, a.at_ = a'.at_ → a.thing = a'.thing) : Latest b bindings := by
  obtain ⟨hmem, hmax⟩ := latest_spec h
  refine ⟨hmem, fun b' hb' hne => ?_⟩
  have hle := hmax b' hb'
  rcases Nat.lt_or_ge b'.at_ b.at_ with hlt | hge
  · exact hlt
  · exact absurd (hsame b' hb' b hmem (by omega)) hne

/-- The bindings a choice is among: visible to the reference, and of one consumed length. -/
structure Level (found : List Binding) (reference : Reference) (n : Nat) : Prop where
  visible : ∀ b ∈ found, b.scope = none ∨ b.scope = reference.source
  length : ∀ b ∈ found, b.consumed.length = n

section Choice

variable {found : List Binding} {reference : Reference} {n : Nat}
variable {b : Binding}

theorem Level.use_eq (level : Level found reference n) {a b : Binding} (ha : a ∈ found) (hb : b ∈ found)
    (h : a.thing = b.thing) : a.use = b.use := by
  unfold Binding.use
  rw [h, level.length a ha, level.length b hb]

theorem mem_ownBefore : b ∈ ownBefore found reference ↔ b ∈ found ∧ b.scope ≠ none ∧ b.at_ < reference.startByte := by
  simp [ownBefore, mem_filter]

theorem mem_moduleBefore :
    b ∈ moduleBefore found reference ↔ b ∈ found ∧ b.scope = none ∧ b.at_ < reference.startByte := by
  rw [moduleBefore, mem_filter, mem_filter, decide_eq_true_eq, decide_eq_true_eq, and_assoc]

theorem mem_moduleAfter :
    b ∈ moduleAfter found reference ↔ b ∈ found ∧ b.scope = none ∧ reference.startByte < b.at_ := by
  rw [moduleAfter, mem_filter, mem_filter, decide_eq_true_eq, decide_eq_true_eq, and_assoc]

/-- Bindings that all stand for one thing give it. -/
theorem choose_agreed (level : Level found reference n) (hb : b ∈ found) (hall : ∀ b' ∈ found, b'.thing = b.thing) :
    picked (choose found reference) = (some b.use, false) := by
  cases found with
  | nil => cases hb
  | cons first found =>
    have hfirst := hall first mem_cons_self
    have hagree : (first :: found).all (·.thing = first.thing) = true := by
      rw [all_eq_true]
      intro b' hb'
      rw [decide_eq_true_eq, hall b' hb', hfirst]
    have huse : first.use = b.use := level.use_eq mem_cons_self hb hfirst
    unfold choose
    simp only [hagree, if_true]
    unfold picked
    rw [← huse]
    rfl

/-- How the choice goes on when the bindings stand for different things. -/
theorem choose_differ {a b : Binding} (ha : a ∈ found) (hb : b ∈ found) (hne : a.thing ≠ b.thing) :
    choose found reference =
      match latest (ownBefore found reference) with
      | some own => (some own, false)
      | none =>
        match latest (moduleBefore found reference) with
        | none => (none, true)
        | some last =>
          if reference.source ≠ none ∧ (moduleAfter found reference).any (·.thing ≠ last.thing) then (none, true)
          else (some last, false) := by
  cases found with
  | nil => cases ha
  | cons first found =>
    have hdiffer : ¬ (first :: found).all (·.thing = first.thing) = true := by
      rw [all_eq_true]
      intro hall
      have h1 := hall a ha
      have h2 := hall b hb
      rw [decide_eq_true_eq] at h1 h2
      exact hne (h1.trans h2.symm)
    show (if _ then _ else _) = _
    rw [if_neg hdiffer]

theorem agree_or_differ (found : List Binding) (b : Binding) :
    (∀ b' ∈ found, b'.thing = b.thing) ∨ ∃ b' ∈ found, b'.thing ≠ b.thing := by
  by_cases h : ∀ b' ∈ found, b'.thing = b.thing
  · exact Or.inl h
  · simp only [not_forall] at h
    obtain ⟨b', hb', hne⟩ := h
    exact Or.inr ⟨b', hb', hne⟩

/-- **A binding of the own scope before the use shadows the module's.** -/
theorem choose_own (level : Level found reference n) (hb : Latest b (ownBefore found reference)) :
    picked (choose found reference) = (some b.use, false) := by
  have hmem := (mem_ownBefore.1 hb.1).1
  rcases agree_or_differ found b with hall | ⟨other, hother, hne⟩
  · exact choose_agreed level hmem hall
  · rw [choose_differ hother hmem hne]
    cases hlast : latest (ownBefore found reference) with
    | none =>
      rw [latest_eq_none.1 hlast] at hb
      cases hb.1
    | some last =>
      have hthing := hb.thing_eq hlast
      have huse := level.use_eq (mem_ownBefore.1 (latest_spec hlast).1).1 hmem hthing
      unfold picked
      rw [← huse]
      rfl

/-- **Otherwise the latest of the module before the use is seen**, unless a later one may be. -/
theorem choose_module (level : Level found reference n) (hown : ownBefore found reference = [])
    (hb : Latest b (moduleBefore found reference))
    (hafter : reference.source = none ∨ ∀ b' ∈ moduleAfter found reference, b'.thing = b.thing) :
    picked (choose found reference) = (some b.use, false) := by
  have hmem := (mem_moduleBefore.1 hb.1).1
  rcases agree_or_differ found b with hall | ⟨other, hother, hne⟩
  · exact choose_agreed level hmem hall
  · rw [choose_differ hother hmem hne, hown, latest_eq_none.2 rfl]
    cases hlast : latest (moduleBefore found reference) with
    | none =>
      rw [latest_eq_none.1 hlast] at hb
      cases hb.1
    | some last =>
      have hthing := hb.thing_eq hlast
      have huse := level.use_eq (mem_moduleBefore.1 (latest_spec hlast).1).1 hmem hthing
      have hsafe : ¬ (reference.source ≠ none ∧ (moduleAfter found reference).any (·.thing ≠ last.thing) = true) := by
        rintro ⟨hsome, hany⟩
        obtain ⟨b', hb', hdiffer⟩ := any_eq_true.1 hany
        rw [decide_eq_true_eq, hthing] at hdiffer
        exact hdiffer (hafter.resolve_left hsome b' hb')
      simp only [if_neg hsafe]
      unfold picked
      rw [← huse]
      rfl

/-- **A later binding of the module that stands for something else makes a use in a function ambiguous.** -/
theorem choose_later (hown : ownBefore found reference = []) (hsource : reference.source ≠ none) {b b' : Binding}
    (hb : Latest b (moduleBefore found reference) ∨ moduleBefore found reference = [] ∧ b ∈ found)
    (hb' : b' ∈ moduleAfter found reference) (hne : b'.thing ≠ b.thing) :
    choose found reference = (none, true) := by
  have hmem' := (mem_moduleAfter.1 hb').1
  rcases hb with hb | ⟨hnone, hmem⟩
  · rw [choose_differ hmem' (mem_moduleBefore.1 hb.1).1 hne, hown, latest_eq_none.2 rfl]
    cases hlast : latest (moduleBefore found reference) with
    | none => rfl
    | some last =>
      have hany : (moduleAfter found reference).any (·.thing ≠ last.thing) = true := by
        rw [any_eq_true]
        refine ⟨b', hb', ?_⟩
        rw [decide_eq_true_eq, hb.thing_eq hlast]
        exact hne
      simp only [if_pos (And.intro hsource hany)]
  · rw [choose_differ hmem' hmem hne, hown, hnone, latest_eq_none.2 rfl]

/-- **The order of the bindings does not matter**, where their positions are apart. -/
theorem choose_perm {found' : List Binding} (level : Level found reference n) (hperm : found.Perm found')
    (apart : PositionsApart found) : picked (choose found reference) = picked (choose found' reference) := by
  have level' : Level found' reference n :=
    ⟨fun b hb => level.visible b (hperm.mem_iff.2 hb), fun b hb => level.length b (hperm.mem_iff.2 hb)⟩
  have hmove : ∀ {bs bs' : List Binding} {b : Binding}, bs.Perm bs' → Latest b bs → Latest b bs' :=
    fun h hb => ⟨h.mem_iff.1 hb.1, fun b' hb' => hb.2 b' (h.mem_iff.2 hb')⟩
  have howns : (ownBefore found reference).Perm (ownBefore found' reference) := hperm.filter _
  have hbefores : (moduleBefore found reference).Perm (moduleBefore found' reference) := (hperm.filter _).filter _
  have hafters : (moduleAfter found reference).Perm (moduleAfter found' reference) := (hperm.filter _).filter _
  cases hfound : found with
  | nil =>
    rw [hfound] at hperm
    rw [nil_perm.1 hperm]
  | cons b bs =>
    have hmem : b ∈ found := hfound ▸ mem_cons_self
    rw [← hfound]
    rcases agree_or_differ found b with hall | ⟨other, hother, hne⟩
    · rw [choose_agreed level hmem hall,
        choose_agreed level' (hperm.mem_iff.1 hmem) fun b' hb' => hall b' (hperm.mem_iff.2 hb')]
    · cases hown : latest (ownBefore found reference) with
      | some last =>
        have hlast : Latest last (ownBefore found reference) := by
          apply latest_latest hown
          intro a ha a' ha' hat
          obtain ⟨ha, hascope, -⟩ := mem_ownBefore.1 ha
          obtain ⟨ha', hascope', -⟩ := mem_ownBefore.1 ha'
          have h1 := (level.visible a ha).resolve_left hascope
          have h2 := (level.visible a' ha').resolve_left hascope'
          exact apart a ha a' ha' (h1.trans h2.symm) hat
        rw [choose_own level hlast, choose_own level' (hmove howns hlast)]
      | none =>
        have hnone := latest_eq_none.1 hown
        have hnone' : ownBefore found' reference = [] := nil_perm.1 (hnone ▸ howns)
        cases hbefore : latest (moduleBefore found reference) with
        | none =>
          have hempty := latest_eq_none.1 hbefore
          have hempty' : moduleBefore found' reference = [] := nil_perm.1 (hempty ▸ hbefores)
          rw [choose_differ hother hmem hne,
            choose_differ (hperm.mem_iff.1 hother) (hperm.mem_iff.1 hmem) hne, hnone, hnone', hempty, hempty',
            latest_eq_none.2 rfl]
        | some last =>
          have hlast : Latest last (moduleBefore found reference) := by
            apply latest_latest hbefore
            intro a ha a' ha' hat
            obtain ⟨ha, hascope, -⟩ := mem_moduleBefore.1 ha
            obtain ⟨ha', hascope', -⟩ := mem_moduleBefore.1 ha'
            exact apart a ha a' ha' (hascope.trans hascope'.symm) hat
          by_cases hsafe : reference.source = none ∨ ∀ b' ∈ moduleAfter found reference, b'.thing = last.thing
          · rw [choose_module level hnone hlast hsafe, choose_module level' hnone' (hmove hbefores hlast)
              (hsafe.imp_right fun h b' hb' => h b' (hafters.mem_iff.2 hb'))]
          · obtain ⟨hsource, hlater⟩ := not_or.1 hsafe
            simp only [not_forall] at hlater
            obtain ⟨b', hb', hdiffer⟩ := hlater
            rw [choose_later hnone hsource (Or.inl hlast) hb' hdiffer,
              choose_later hnone' hsource (Or.inl (hmove hbefores hlast)) (hafters.mem_iff.1 hb') hdiffer]

end Choice

/-! ## The bindings that count -/

section Counting

variable {options options' : List Binding} {rest : List String} {reference : Reference}

theorem specific_level (options : List Binding) (rest : List String) (reference : Reference) :
    ∃ n, Level (specific options rest reference) reference n := by
  refine ⟨((fitting options rest reference).map (·.consumed.length)).foldr max 0, ?_, ?_⟩
  · intro b hb
    unfold specific fitting at hb
    simpa using (mem_filter.1 (mem_filter.1 hb).1).2
  · intro b hb
    unfold specific at hb
    simpa using (mem_filter.1 hb).2

theorem specific_perm (h : options.Perm options') :
    (specific options rest reference).Perm (specific options' rest reference) := by
  have hfitting : (fitting options rest reference).Perm (fitting options' rest reference) := (h.filter _).filter _
  have htop := (hfitting.map (·.consumed.length)).foldr_eq (f := max) 0
  unfold specific
  simp only [htop]
  exact hfitting.filter _

/-- Bindings the reference cannot see do not count. -/
theorem specific_visible : specific (options.filter fun b => b.scope = none ∨ b.scope = reference.source) rest reference =
    specific options rest reference := by
  have hfitting : fitting (options.filter fun b => b.scope = none ∨ b.scope = reference.source) rest reference =
      fitting options rest reference := by
    unfold fitting
    rw [filter_filter, filter_filter, filter_filter]
    apply filter_congr
    intro b _
    by_cases hb : b.scope = none ∨ b.scope = reference.source
    · simp [hb]
    · simp [hb]
  unfold specific
  rw [hfitting]

/-- A binding that counts is the choice when it is the only one. -/
theorem pickBinding_only {b : Binding} (h : b ∈ specific options rest reference) :
    picked (pickBinding [b] rest reference) = (some b.use, false) := by
  have hfits : fitting [b] rest reference = [b] := by
    unfold specific fitting at h
    obtain ⟨⟨hpath, hscope⟩, -⟩ := mem_filter.1 h |>.imp_left fun h => (mem_filter.1 h).imp_left
      fun h => (mem_filter.1 h).2
    unfold fitting
    rw [filter_cons, if_pos hpath, filter_nil, filter_cons, if_pos hscope, filter_nil]
  have hspecific : specific [b] rest reference = [b] := by
    unfold specific
    simp [hfits]
  unfold pickBinding
  rw [hspecific]
  simp [choose, picked]

end Counting

/-! ## Resolving a reference -/

/-- The name a reference must find bound, and the dotted path after it. -/
def Reference.head (reference : Reference) : String × List String :=
  match reference.full.dropLast with
  | [] => (reference.full.getLastD "", [])
  | head :: rest => (head, rest)

def counting (reference : Reference) (bound : String → List Binding) : List Binding :=
  specific (bound reference.head.1) reference.head.2 reference

section Resolve

variable {item : SourceFile} {reference : Reference} {bound bound' : String → List Binding}
variable {reference' : Reference}

/-- Two picks that resolution cannot tell apart. -/
theorem picked_cases {r r' : Option Binding × Bool} (h : picked r = picked r') : r = r' ∨
    ∃ b b' flag, r = (some b, flag) ∧ r' = (some b', flag) ∧ b.file = b'.file ∧ b.symbol = b'.symbol ∧
      b.consumed.length = b'.consumed.length := by
  obtain ⟨_ | b, flag⟩ := r
  · obtain ⟨_ | b', flag'⟩ := r'
    · obtain rfl : flag = flag' := (Prod.mk.inj h).2
      exact Or.inl rfl
    · exact absurd (Prod.mk.inj h).1 (by simp)
  · obtain ⟨_ | b', flag'⟩ := r'
    · exact absurd (Prod.mk.inj h).1 (by simp)
    · obtain rfl : flag = flag' := (Prod.mk.inj h).2
      have huse : b.use = b'.use := Option.some.inj (Prod.mk.inj h).1
      simp only [Binding.use, Binding.thing, Prod.mk.injEq] at huse
      exact Or.inr ⟨b, b', flag, rfl, rfl, huse.1.1, huse.1.2, huse.2⟩

/-- The owner chain depends on the name and on what is picked only. -/
theorem resolveOwner_congr (hfull : reference.full = reference'.full)
    (h : picked (pickBinding (bound reference.head.1) reference.head.2 reference) =
      picked (pickBinding (bound' reference'.head.1) reference'.head.2 reference')) :
    resolveOwner item reference bound = resolveOwner item reference' bound' := by
  unfold resolveOwner
  unfold Reference.head at h
  rw [← hfull] at h ⊢
  cases hparts : reference.full.dropLast with
  | nil =>
    rw [hparts] at h
    rcases picked_cases h with heq | ⟨b, b', flag, hb, hb', hfile, hsymbol, -⟩
    · simp only [heq]
    · simp only [hb, hb']
      cases flag with
      | true => rfl
      | false => simp only [hfile, hsymbol]
  | cons head rest =>
    rw [hparts] at h
    rcases picked_cases h with heq | ⟨b, b', flag, hb, hb', hfile, hsymbol, hlength⟩
    · simp only [heq]
    · simp only [hb, hb']
      cases flag with
      | true => rfl
      | false => simp only [hfile, hsymbol, hlength]

theorem bindSymbolReference_congr (run : EmitRun) (hfull : reference.full = reference'.full)
    (h : picked (pickBinding (bound reference.head.1) reference.head.2 reference) =
      picked (pickBinding (bound' reference'.head.1) reference'.head.2 reference')) :
    bindSymbolReference run item reference bound = bindSymbolReference run item reference' bound' := by
  unfold bindSymbolReference
  rw [resolveOwner_congr hfull h]

theorem bindSymbolReference_ambiguous (run : EmitRun)
    (h : pickBinding (bound reference.head.1) reference.head.2 reference = (none, true)) :
    bindSymbolReference run item reference bound = .error .ambiguousReference := by
  have howner : resolveOwner item reference bound = .error .ambiguousReference := by
    unfold resolveOwner
    unfold Reference.head at h
    cases hparts : reference.full.dropLast with
    | nil | cons =>
      rw [hparts] at h
      simp only [h]
  unfold bindSymbolReference
  rw [howner]
  rfl

end Resolve

/-- What scoping asks of the resolution of a reference, for the bindings that count. -/
structure ImportScoping (run : EmitRun) (item : SourceFile) (reference : Reference) (bound : String → List Binding) :
    Prop where
  /-- The order in which the bindings are listed does not matter. -/
  order : ∀ bound', (∀ name, (bound name).Perm (bound' name)) → PositionsApart (counting reference bound) →
    bindSymbolReference run item reference bound = bindSymbolReference run item reference bound'
  /-- A binding made in another function is not used. -/
  otherScopes : bindSymbolReference run item reference bound = bindSymbolReference run item reference fun name =>
    (bound name).filter fun b => b.scope = none ∨ b.scope = reference.source
  /-- The latest of the own scope before the use is used as if there were no other. -/
  own : ∀ b, Latest b (ownBefore (counting reference bound) reference) →
    bindSymbolReference run item reference bound = bindSymbolReference run item reference fun _ => [b]
  /-- Without one, so is the latest of the module before the use. -/
  moduleLevel : ownBefore (counting reference bound) reference = [] →
    ∀ b, Latest b (moduleBefore (counting reference bound) reference) →
      (reference.source = none ∨ ∀ b' ∈ moduleAfter (counting reference bound) reference, b'.thing = b.thing) →
        bindSymbolReference run item reference bound = bindSymbolReference run item reference fun _ => [b]
  /-- A use in a function that a later, different binding of the module could serve gives no relation. -/
  later : ownBefore (counting reference bound) reference = [] → reference.source ≠ none →
    ∀ b, (Latest b (moduleBefore (counting reference bound) reference) ∨
      moduleBefore (counting reference bound) reference = [] ∧ b ∈ counting reference bound) →
      ∀ b' ∈ moduleAfter (counting reference bound) reference, b'.thing ≠ b.thing →
        bindSymbolReference run item reference bound = .error .ambiguousReference
  /-- A relation is to the only symbol under the owner chain. -/
  unique : ∀ symbol, bindSymbolReference run item reference bound = .ok symbol →
    ∃ owner, resolveOwner item reference bound = .ok owner ∧ candidates run item owner = [symbol]

/-- **Import binding follows scoping** among the bindings that count. -/
theorem import_scoping (run : EmitRun) (item : SourceFile) (reference : Reference) (bound : String → List Binding) :
    ImportScoping run item reference bound where
  order := by
    intro bound' hperm apart
    obtain ⟨n, level⟩ := specific_level (bound reference.head.1) reference.head.2 reference
    exact bindSymbolReference_congr run rfl (choose_perm level (specific_perm (hperm reference.head.1)) apart)
  otherScopes := by
    apply bindSymbolReference_congr run rfl
    unfold pickBinding
    rw [specific_visible]
  own := by
    intro b hb
    obtain ⟨n, level⟩ := specific_level (bound reference.head.1) reference.head.2 reference
    have honly := pickBinding_only (mem_ownBefore.1 hb.1).1
    exact bindSymbolReference_congr run rfl ((choose_own level hb).trans honly.symm)
  moduleLevel := by
    intro hown b hb hafter
    obtain ⟨n, level⟩ := specific_level (bound reference.head.1) reference.head.2 reference
    have honly := pickBinding_only (mem_moduleBefore.1 hb.1).1
    exact bindSymbolReference_congr run rfl ((choose_module level hown hb hafter).trans honly.symm)
  later := by
    intro hown hsource b hb b' hb' hne
    exact bindSymbolReference_ambiguous run (choose_later hown hsource hb hb' hne)
  unique := by
    intro symbol h
    unfold bindSymbolReference at h
    cases howner : resolveOwner item reference bound with
    | error dropped =>
      rw [howner] at h
      cases h
    | ok owner =>
      refine ⟨owner, rfl, ?_⟩
      rw [howner] at h
      change (match candidates run item owner with
        | [symbol] => (.ok symbol : Except Dropped Sym)
        | [] => .error .unresolvedReference
        | _ => .error .ambiguousReference) = .ok symbol at h
      split at h
      · next found hfound =>
        cases h
        exact hfound
      · cases h
      · cases h

/-! ## A dotted import and an import in the function -/

/-- `import a.b` at module level, then in a function `from x import a` and a call of `a.b.f`. -/
def dottedUse : List Reference :=
  [⟨none, .imports, "a.b", 0, 7, none, none⟩, ⟨some "run", .imports, "a", 0, 40, some "x", none⟩,
    ⟨some "run", .call, "f", 0, 50, some "a.b", none⟩]

def dottedTarget : SourceFile :=
  ⟨"a/b.py", "python", [⟨"m", "a.b", "module"⟩, ⟨"f", "a.b.f", "function"⟩]⟩

def shadowingTarget : SourceFile :=
  ⟨"x.py", "python", [⟨"x", "x", "module"⟩, ⟨"a", "x.a", "class"⟩]⟩

def dottedFile : SourceFile := ⟨"u.py", "python", [⟨"u", "u", "module"⟩, ⟨"run", "u.run", "function"⟩]⟩

def dottedResolve (_ : SourceFile) (reference : Reference) : Option (SourceFile × Bool) :=
  if reference.targetName = "a.b" then some (dottedTarget, true) else some (shadowingTarget, false)

def dottedRun : EmitRun := ⟨[dottedTarget, dottedFile, shadowingTarget]⟩

/-- The import of the function binds `a` before the use, and still the module's dotted import is used; and two
imports at one position give what the first listed of them stands for. -/
theorem dotted_import_wins :
    (∃ use ∈ dottedUse, ∃ b ∈ boundTo (fileBindings dottedResolve dottedFile dottedUse) use.head.1,
      b.scope = use.source ∧ b.scope ≠ none ∧ b.at_ < use.startByte ∧
      bindSymbolReference dottedRun dottedFile use (boundTo (fileBindings dottedResolve dottedFile dottedUse)) =
        .ok ⟨"f", "a.b.f", "function"⟩ ∧
      bindSymbolReference dottedRun dottedFile use (fun _ => [b]) = .error .unresolvedReference) ∧
    ∃ (use : Reference) (b b' : Binding), use.head.1 = "m" ∧
      bindSymbolReference dottedRun dottedFile use (fun _ => [b, b']) ≠
        bindSymbolReference dottedRun dottedFile use (fun _ => [b', b]) := by
  refine ⟨⟨⟨some "run", .call, "f", 0, 50, some "a.b", none⟩, by decide, ⟨shadowingTarget, [], some "a", 40, some "run"⟩,
    by decide, rfl, by decide, by decide, rfl, rfl⟩, ⟨some "run", .call, "f", 0, 50, some "m", none⟩,
    ⟨dottedTarget, [], none, 7, none⟩, ⟨shadowingTarget, [], none, 7, none⟩, by decide, ?_⟩
  intro h
  have hleft : bindSymbolReference dottedRun dottedFile ⟨some "run", .call, "f", 0, 50, some "m", none⟩
      (fun _ => [⟨dottedTarget, [], none, 7, none⟩, ⟨shadowingTarget, [], none, 7, none⟩]) =
      .ok ⟨"f", "a.b.f", "function"⟩ := rfl
  have hright : bindSymbolReference dottedRun dottedFile ⟨some "run", .call, "f", 0, 50, some "m", none⟩
      (fun _ => [⟨shadowingTarget, [], none, 7, none⟩, ⟨dottedTarget, [], none, 7, none⟩]) =
      .error .unresolvedReference := rfl
  rw [hleft, hright] at h
  cases h

end Indexing
