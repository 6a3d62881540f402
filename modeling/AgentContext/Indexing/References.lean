import AgentContext.Indexing.Messages
import AgentContext.Lib.Distinct
import AgentContext.Lib.Text
import Mathlib.Data.List.MinMax
import Mathlib.Order.Nat

/-!
# Deduplicated references

`_references` of `indexing/tree_sitter/python.py` lists the references of a Python file, the first site of each key
(source, kind, level, qualifier, target, alias) only; `resolve_references` of `indexing/emitter.py` resolves the list.
Resolution goes by position: `pick_binding` takes the latest import before the use, so a site that is left out may be
the one that counts.

    references_distinct     below every cap the list is the first site of each key
    bindImport_key          an import asserts what the first site of its key asserts
    choose_first            a use is bound as its first site is, where no name is bound to something else in between
    references_asserted     there the list asserts what all the sites assert
-/

namespace Indexing.Python

open List

open Structural (ParsedReference maxNameTotalBytes maxReferencesPerFile maxReferencesPerSymbol maxModuleReferences outputBudget)

/-! ## The file an import names -/

/-- `PurePosixPath(path).parts`. -/
def pathParts (path : String) : List String :=
  ((path.toList.splitOn '/').filter fun part => part ≠ [] ∧ part ≠ ['.']).map String.ofList

/-- A file name after `with_suffix("")`. -/
def withoutSuffix (name : String) : String :=
  let suffix := name.toList.reverse.takeWhile (· ≠ '.')
  let stem := (name.toList.reverse.dropWhile (· ≠ '.')).tail
  if suffix ≠ [] ∧ stem ≠ [] then String.ofList stem.reverse else name

/-- The components of a module's dotted name, from the repository root; a package is named by its directory. -/
def moduleParts (path : String) : List String :=
  let parts := pathParts path
  let stem := (parts.getLast?.map withoutSuffix).toList
  if stem = ["__init__"] then parts.dropLast else parts.dropLast ++ stem

def joinDots (parts : List String) : String := ".".intercalate parts

/-- `python_modules().get(name)`: the first file of that name, from the repository root or from `src`. -/
def pythonModules (run : EmitRun) (name : String) : Option SourceFile :=
  run.files.find? fun item =>
    let parts := moduleParts item.path
    item.language = "python" ∧
      (0 < parts.length ∧ name = joinDots parts ∨
        parts.head? = some "src" ∧ 1 < parts.length ∧ name = joinDots parts.tail)

/-- `path_modules().get(name)`. -/
def pathModules (run : EmitRun) (name : String) : Option SourceFile :=
  run.files.find? fun item => item.language = "python" ∧ name = joinDots (moduleParts item.path)

/-- The longest of the first parts of a dotted name that is a module, with its length. -/
def longestModule (run : EmitRun) (parts : List String) : Nat → Option (SourceFile × Nat)
  | 0 => none
  | length + 1 =>
    match pythonModules run (joinDots (parts.take (length + 1))) with
    | some found => some (found, length + 1)
    | none => longestModule run parts length

/-- `resolve_python`: the file, and whether it is the whole dotted name. -/
def resolvePython (run : EmitRun) (source : SourceFile) (reference : Reference) : Option (SourceFile × Bool) :=
  let qualifier := reference.qualifier.filter (· ≠ "")
  let dotted := (qualifier.map (· ++ ".")).getD "" ++ reference.targetName
  if reference.relativeLevel ≠ 0 then
    let package := (pathParts source.path).dropLast
    if reference.relativeLevel - 1 > package.length then none
    else
      let base := joinDots (package.take (package.length - (reference.relativeLevel - 1)))
      let under (name : String) := if base ≠ "" then base ++ "." ++ name else name
      match pathModules run (under dotted), qualifier with
      | some found, _ => some (found, true)
      | none, some qualifier => (pathModules run (under qualifier)).map (·, false)
      | none, none => if base ≠ "" then (pathModules run base).map (·, false) else none
  else
    let parts := splitDots dotted
    (longestModule run parts parts.length).map fun (found, length) => (found, length = parts.length)

/-! ## What a resolved reference asserts -/

inductive Predicate | imports | calls | references
deriving DecidableEq, Repr

structure Relation where
  subject : String
  predicate : Predicate
  object : String
deriving DecidableEq, Repr

/-- `_File.file_id` and `_File.refs`. -/
structure Subjects where
  fileId : SourceFile → String
  refs : SourceFile → String → Option Sym

/-- `subject_for`. -/
def subjectFor (subjects : Subjects) (item : SourceFile) (source : Option String) : String :=
  match source.bind (subjects.refs item) with
  | some symbol => symbol.symbolId
  | none =>
    match item.moduleSymbol with
    | some symbol => symbol.symbolId
    | none => subjects.fileId item

/-- `claim`: nothing is asserted of a symbol and itself. -/
def claim (subject : String) (predicate : Predicate) (object : String) : Option Relation :=
  if subject = object then none else some ⟨subject, predicate, object⟩

/-- The relation `bind_import` asserts; an import that names no file is a dependency. -/
def bindImport (run : EmitRun) (subjects : Subjects) (item : SourceFile) (reference : Reference) : Option Relation :=
  let subject := subjectFor subjects item reference.source
  match resolvePython run item reference with
  | none => none
  | some (target, whole) =>
    if whole then claim subject .imports (subjectFor subjects target none)
    else
      match owned target (bindNames item reference target whole).2 [] with
      | [] => none
      | named :: _ => claim subject .imports named.symbolId

/-- `call_or_reference`. -/
def callOrReference (subjects : Subjects) (item : SourceFile) (reference : Reference) (target : Sym) :
    Option Relation :=
  claim (subjectFor subjects item reference.source) (if reference.kind = .call then .calls else .references)
    target.symbolId

/-- The `bound` dictionary of a Python file. -/
def boundNames (run : EmitRun) (item : SourceFile) (references : List Reference) : String → List Binding :=
  boundTo (fileBindings (resolvePython run) item references)

/-- The relation a call or an inherit asserts. -/
def bindUse (run : EmitRun) (subjects : Subjects) (item : SourceFile) (bound : String → List Binding)
    (reference : Reference) : Option Relation :=
  match bindSymbolReference run item reference bound with
  | .ok target => callOrReference subjects item reference target
  | .error _ => none

/-- The relations `resolve_references` asserts of a Python file. -/
def resolveReferences (run : EmitRun) (subjects : Subjects) (item : SourceFile) (references : List Reference) :
    List Relation :=
  (references.filter (·.kind = .imports)).filterMap (bindImport run subjects item) ++
    (references.filter (·.kind ≠ .imports)).filterMap (bindUse run subjects item (boundNames run item references))

/-! ## The list of references -/

/-- `_Candidate`; the symbols of a walk are told apart by identity. -/
structure Candidate (S : Type) where
  owner : S
  kind : ReferenceKind
  target : String
  start : Nat
  end_ : Nat
  level : Nat := 0
  qualifier : Option String := none
  qualifierStart : Nat := 0
  qualifierEnd : Nat := 0
  /-- The `as` name and its byte range. -/
  alias_ : Option (String × Nat × Nat) := none

def referenceOverhead : Nat := 300

/-- The counters of `Budget` and of the request that references are charged to. -/
structure Budget where
  names : Nat
  referenceNames : Nat
  output : Nat
deriving DecidableEq, Repr

/-- `take_reference`. -/
def Budget.takeReference (budget : Budget) (names : Nat) : Option Budget :=
  let cost := names + referenceOverhead
  if budget.names + budget.referenceNames + names > maxNameTotalBytes then none
  else if budget.output + cost > outputBudget then none
  else some { budget with referenceNames := budget.referenceNames + names, output := budget.output + cost }

/-- The key of `_references`. -/
structure Key where
  source : Option Nat
  kind : ReferenceKind
  level : Nat
  qualifier : Option String
  target : String
  alias_ : Option String
deriving DecidableEq

/-- The variables of `_references`, with what it charges and counts. -/
structure Listing where
  out : List ParsedReference
  perSource : Option Nat → Nat
  seen : List Key
  budget : Budget
  capped : Nat

section Listing

variable {S : Type} [DecidableEq S]

/-- The source of a candidate: the root is the module, and a scope that was dropped has none. -/
def sourceOf (root : S) (numbers : S → Option Nat) (item : Candidate S) : Option (Option Nat) :=
  if item.owner = root then some none else (numbers item.owner).map some

def keyOf (item : Option Nat × Candidate S) : Key :=
  ⟨item.1, item.2.kind, item.2.level, item.2.qualifier, item.2.target, item.2.alias_.map (·.1)⟩

def nameBytes (item : Candidate S) : Nat :=
  item.target.utf8ByteSize + (item.qualifier.getD "").utf8ByteSize + ((item.alias_.map (·.1)).getD "").utf8ByteSize

def parsed (item : Option Nat × Candidate S) : ParsedReference where
  source := item.1.map toString
  kind := item.2.kind
  targetName := item.2.target
  relativeLevel := item.2.level
  startByte := item.2.start
  endByte := item.2.end_
  qualifier := item.2.qualifier
  qualifierStartByte := item.2.qualifier.map fun _ => item.2.qualifierStart
  qualifierEndByte := item.2.qualifier.map fun _ => item.2.qualifierEnd
  alias_ := item.2.alias_.map (·.1)
  aliasStartByte := item.2.alias_.map (·.2.1)
  aliasEndByte := item.2.alias_.map (·.2.2)
  confidence := if item.2.kind = .call then .heuristic else .syntactic

/-- How many references a source may have. -/
def limit (source : Option Nat) : Nat := if source = none then maxModuleReferences else maxReferencesPerSymbol

/-- One turn of `_references`. -/
def addReference (root : S) (numbers : S → Option Nat) (listing : Listing) (item : Candidate S) : Listing :=
  match sourceOf root numbers item with
  | none => listing
  | some source =>
    if keyOf (source, item) ∈ listing.seen then listing
    else
      if listing.perSource source ≥ limit source ∨ listing.out.length ≥ maxReferencesPerFile then
        { listing with capped := listing.capped + 1 }
      else
        match listing.budget.takeReference (nameBytes item) with
        | none => { listing with capped := listing.capped + 1 }
        | some budget =>
          { listing with
            out := listing.out ++ [parsed (source, item)]
            perSource := Function.update listing.perSource source (listing.perSource source + 1)
            seen := keyOf (source, item) :: listing.seen
            budget := budget }

/-- `_references`, with the budget left and the references capped. -/
def references (root : S) (numbers : S → Option Nat) (budget : Budget) (capped : Nat)
    (candidates : List (Candidate S)) : Listing :=
  candidates.foldl (addReference root numbers) ⟨[], fun _ => 0, [], budget, capped⟩

def sourced (root : S) (numbers : S → Option Nat) (candidates : List (Candidate S)) :
    List (Option Nat × Candidate S) :=
  candidates.filterMap fun item => (sourceOf root numbers item).map (·, item)

/-- The list without deduplication. -/
def allReferences (root : S) (numbers : S → Option Nat) (candidates : List (Candidate S)) : List ParsedReference :=
  (sourced root numbers candidates).map parsed

section Spec

variable {root : S} {numbers : S → Option Nat} {listing : Listing} {item : Candidate S} {budget : Budget} {capped : Nat}
  {candidates : List (Candidate S)}

theorem addReference_capped : listing.capped ≤ (addReference root numbers listing item).capped := by
  unfold addReference
  split
  · exact Nat.le_refl _
  · split
    · exact Nat.le_refl _
    · split
      · exact Nat.le_succ _
      · split
        · exact Nat.le_succ _
        · exact Nat.le_refl _

/-- What one turn does when nothing is capped. -/
theorem addReference_spec (h : (addReference root numbers listing item).capped = listing.capped) :
    (sourceOf root numbers item = none ∧ addReference root numbers listing item = listing) ∨
      ∃ source, sourceOf root numbers item = some source ∧
        ((keyOf (source, item) ∈ listing.seen ∧ addReference root numbers listing item = listing) ∨
          (keyOf (source, item) ∉ listing.seen ∧
            (addReference root numbers listing item).out = listing.out ++ [parsed (source, item)] ∧
            (addReference root numbers listing item).seen = keyOf (source, item) :: listing.seen)) := by
  unfold addReference at h ⊢
  cases hsource : sourceOf root numbers item with
  | none => exact .inl ⟨rfl, rfl⟩
  | some source =>
    refine .inr ⟨source, rfl, ?_⟩
    simp only [hsource] at h ⊢
    by_cases hseen : keyOf (source, item) ∈ listing.seen
    · exact .inl ⟨hseen, if_pos hseen⟩
    · refine .inr ⟨hseen, ?_⟩
      rw [if_neg hseen] at h ⊢
      split at h
      · exact absurd h (Nat.succ_ne_self _)
      · next hroom =>
        rw [if_neg hroom]
        split at h
        · exact absurd h (Nat.succ_ne_self _)
        · exact ⟨rfl, rfl⟩

theorem references_concat : references root numbers budget capped (candidates ++ [item]) =
    addReference root numbers (references root numbers budget capped candidates) item := by
  unfold references
  rw [foldl_append, foldl_cons, foldl_nil]

theorem sourced_concat : sourced root numbers (candidates ++ [item]) =
    sourced root numbers candidates ++ ((sourceOf root numbers item).map (·, item)).toList := by
  unfold sourced
  rw [filterMap_append, filterMap_cons]
  cases sourceOf root numbers item with
  | none | some => rfl

theorem capped_le : capped ≤ (references root numbers budget capped candidates).capped := by
  induction candidates using List.reverseRecOn with
  | nil => exact Nat.le_refl _
  | append_singleton candidates item ih =>
    rw [references_concat]
    exact ih.trans addReference_capped

/-- **Below every cap the list is the first site of each key.** -/
theorem references_distinct (h : (references root numbers budget capped candidates).capped = capped) :
    (references root numbers budget capped candidates).out =
        (Distinct.distinctBy keyOf (sourced root numbers candidates)).map parsed ∧
      ∀ key, key ∈ (references root numbers budget capped candidates).seen ↔
        key ∈ (sourced root numbers candidates).map keyOf := by
  induction candidates using List.reverseRecOn with
  | nil => exact ⟨rfl, fun _ => Iff.rfl⟩
  | append_singleton candidates item ih =>
    rw [references_concat] at h ⊢
    have hturn := @addReference_capped _ _ root numbers (references root numbers budget capped candidates) item
    have hbefore : (references root numbers budget capped candidates).capped = capped :=
      Nat.le_antisymm (hturn.trans h.le) capped_le
    obtain ⟨hout, hseen⟩ := ih hbefore
    rw [sourced_concat]
    rcases addReference_spec (h.trans hbefore.symm) with ⟨hsource, heq⟩ | ⟨source, hsource, ⟨hin, heq⟩ | ⟨hnew, hadd, hkeys⟩⟩
    · rw [heq, hsource, Option.map_none, Option.toList_none, append_nil]
      exact ⟨hout, hseen⟩
    · have hkey : keyOf (source, item) ∈ (sourced root numbers candidates).map keyOf := (hseen _).1 hin
      rw [heq, hsource]
      refine ⟨?_, fun key => ?_⟩
      · rw [Option.map_some, Option.toList_some, Distinct.distinctBy_concat, if_pos hkey, hout]
      · rw [Option.map_some, Option.toList_some, map_append, map_singleton, mem_append,
          mem_singleton, hseen, iff_self_or]
        rintro rfl
        exact hkey
    · have hkey : keyOf (source, item) ∉ (sourced root numbers candidates).map keyOf := fun hin => hnew ((hseen _).2 hin)
      rw [hadd, hkeys, hsource]
      refine ⟨?_, fun key => ?_⟩
      · rw [Option.map_some, Option.toList_some, Distinct.distinctBy_concat, if_neg hkey, map_append, hout]
        rfl
      · rw [Option.map_some, Option.toList_some, map_append, map_singleton, mem_append,
          mem_singleton, mem_cons, hseen, or_comm]

end Spec

end Listing

/-! ## The key in what resolution reads -/

/-- A reference without its position. -/
def siteKey (reference : Reference) : Reference := { reference with startByte := 0 }

theorem key_toReference {S : Type} (a b : Option Nat × Candidate S) :
    keyOf a = keyOf b ↔ siteKey (parsed a).toReference = siteKey (parsed b).toReference := by
  have hsource : a.1 = b.1 ↔ a.1.map toString = b.1.map toString :=
    ⟨congrArg _, fun h => Option.map_injective (fun _ _ => Text.toString_injective) h⟩
  simp only [keyOf, ParsedReference.toReference, parsed, siteKey, Key.mk.injEq, Reference.mk.injEq, hsource]
  tauto

theorem toReference_references {S : Type} [DecidableEq S] {root : S} {numbers : S → Option Nat} {budget : Budget}
    {capped : Nat} {candidates : List (Candidate S)}
    (h : (references root numbers budget capped candidates).capped = capped) :
    (references root numbers budget capped candidates).out.map ParsedReference.toReference =
      Distinct.distinctBy siteKey ((allReferences root numbers candidates).map ParsedReference.toReference) := by
  rw [(references_distinct h).1, Distinct.distinctBy_key key_toReference, map_map, allReferences, map_map]
  exact Distinct.distinctBy_map

/-! ## The choice from the first sites -/

/-- The bindings a use can turn on: those made before it, and for a use in a function those of the module. -/
def Reads (use : Reference) (b : Binding) : Prop := b.at_ < use.startByte ∨ b.scope = none ∧ use.source ≠ none

/-- `kept` holds, for every binding, an earlier one of the same thing and scope, with nothing else bound in between. -/
structure Kept (found kept : List Binding) (use : Reference) : Prop where
  sub : ∀ b ∈ kept, b ∈ found
  first : ∀ b ∈ found, ∃ b' ∈ kept, b'.thing = b.thing ∧ b'.scope = b.scope ∧ b'.at_ ≤ b.at_ ∧
    (Reads use b → ∀ c ∈ found, c.scope = b.scope → c.thing ≠ b.thing → ¬ (b'.at_ ≤ c.at_ ∧ c.at_ ≤ b.at_))

instance {use : Reference} {b : Binding} : Decidable (Reads use b) := inferInstanceAs (Decidable (_ ∨ _))

section Choice

variable {found kept : List Binding} {use : Reference} {n : Nat}
variable {last : Binding}

section

variable (k : Kept found kept use)
include k

theorem Kept.level (level : Level found use n) : Level kept use n :=
  ⟨fun b hb => level.visible b (k.sub b hb), fun b hb => level.length b (k.sub b hb)⟩

theorem Kept.latestKept {earlier earlier' : List Binding} (hlast : Latest last earlier)
    (hfound : ∀ b ∈ earlier, b ∈ found ∧ b.at_ < use.startByte)
    (hsub : ∀ b ∈ earlier', b ∈ earlier ∧ b.scope = last.scope)
    (hkept : ∀ b ∈ kept, b.scope = last.scope → b.at_ < use.startByte → b ∈ earlier') :
    ∃ b, b.thing = last.thing ∧ Latest b earlier' := by
  obtain ⟨hmem, hreads⟩ := hfound last hlast.1
  obtain ⟨b, hb, hthing, hscope, hle, hapart⟩ := k.first last hmem
  refine ⟨b, hthing, hkept b hb hscope (Nat.lt_of_le_of_lt hle hreads), ?_⟩
  intro c hc hne
  obtain ⟨hearlier, hcscope⟩ := hsub c hc
  have hcne : c.thing ≠ last.thing := hthing ▸ hne
  have hlt := hlast.2 c hearlier hcne
  have hnot := hapart (.inl hreads) c (hfound c hearlier).1 hcscope hcne
  omega

/-- Nothing is bound twice at one position. -/
theorem Kept.apart {b c : Binding} (hb : b ∈ found) (hc : c ∈ found) (hreads : Reads use b)
    (hscope : c.scope = b.scope) (hat : c.at_ = b.at_) : c.thing = b.thing := by
  obtain ⟨b', -, -, -, hle, hapart⟩ := k.first b hb
  by_contra hne
  exact hapart hreads c hc hscope hne ⟨hat ▸ hle, hat.le⟩

theorem Kept.ownBefore_sub : ∀ b ∈ ownBefore kept use, b ∈ ownBefore found use := by
  intro b hb
  obtain ⟨hmem, hscope, hbefore⟩ := mem_ownBefore.1 hb
  exact mem_ownBefore.2 ⟨k.sub b hmem, hscope, hbefore⟩

theorem Kept.moduleBefore_sub : ∀ b ∈ moduleBefore kept use, b ∈ moduleBefore found use := by
  intro b hb
  obtain ⟨hmem, hscope, hbefore⟩ := mem_moduleBefore.1 hb
  exact mem_moduleBefore.2 ⟨k.sub b hmem, hscope, hbefore⟩

theorem Kept.moduleAfter_sub : ∀ b ∈ moduleAfter kept use, b ∈ moduleAfter found use := by
  intro b hb
  obtain ⟨hmem, hscope, hafter⟩ := mem_moduleAfter.1 hb
  exact mem_moduleAfter.2 ⟨k.sub b hmem, hscope, hafter⟩

theorem Kept.own (level : Level found use n) (hlast : latest (ownBefore found use) = some last) :
    Latest last (ownBefore found use) ∧ ∃ b, b.thing = last.thing ∧ Latest b (ownBefore kept use) := by
  obtain ⟨hmem, hlastscope, -⟩ := mem_ownBefore.1 (latest_spec hlast).1
  have hscopes : ∀ c ∈ ownBefore found use, c.scope = last.scope := by
    intro c hc
    obtain ⟨hc, hscope, -⟩ := mem_ownBefore.1 hc
    exact ((level.visible c hc).resolve_left hscope).trans ((level.visible last hmem).resolve_left hlastscope).symm
  have hlatest : Latest last (ownBefore found use) := by
    refine latest_latest hlast fun a ha a' ha' hsame => ?_
    have hscope := (hscopes a' ha').trans (hscopes a ha).symm
    obtain ⟨ha, -, hbefore⟩ := mem_ownBefore.1 ha
    exact (k.apart ha (mem_ownBefore.1 ha').1 (.inl hbefore) hscope hsame.symm).symm
  refine ⟨hlatest, k.latestKept hlatest ?_ ?_ ?_⟩
  · intro c hc
    obtain ⟨hc, -, hbefore⟩ := mem_ownBefore.1 hc
    exact ⟨hc, hbefore⟩
  · intro c hc
    exact ⟨k.ownBefore_sub c hc, hscopes c (k.ownBefore_sub c hc)⟩
  · intro c hc hscope hbefore
    exact mem_ownBefore.2 ⟨hc, hscope ▸ hlastscope, hbefore⟩

theorem Kept.module (hlast : latest (moduleBefore found use) = some last) :
    Latest last (moduleBefore found use) ∧ ∃ b, b.thing = last.thing ∧ Latest b (moduleBefore kept use) := by
  obtain ⟨-, hlastscope, -⟩ := mem_moduleBefore.1 (latest_spec hlast).1
  have hlatest : Latest last (moduleBefore found use) := by
    refine latest_latest hlast fun a ha a' ha' hsame => ?_
    obtain ⟨ha, hscope, hbefore⟩ := mem_moduleBefore.1 ha
    obtain ⟨ha', hscope', -⟩ := mem_moduleBefore.1 ha'
    exact (k.apart ha ha' (.inl hbefore) (hscope'.trans hscope.symm) hsame.symm).symm
  refine ⟨hlatest, k.latestKept hlatest ?_ ?_ ?_⟩
  · intro c hc
    obtain ⟨hc, -, hbefore⟩ := mem_moduleBefore.1 hc
    exact ⟨hc, hbefore⟩
  · intro c hc
    have hfound := k.moduleBefore_sub c hc
    exact ⟨hfound, (mem_moduleBefore.1 hfound).2.1.trans hlastscope.symm⟩
  · intro c hc hscope hbefore
    exact mem_moduleBefore.2 ⟨hc, hscope.trans hlastscope, hbefore⟩

/-- A later binding of the module has its first site after the use too: else `last` stood between the two. -/
theorem Kept.later (hsource : use.source ≠ none)
    (hat : ∀ b ∈ found, ∀ c ∈ found, b.thing ≠ c.thing → b.at_ ≠ use.startByte) {last c : Binding}
    (hlast : latest (moduleBefore found use) = some last) (hc : c ∈ moduleAfter found use)
    (hne : c.thing ≠ last.thing) : ∃ c' ∈ moduleAfter kept use, c'.thing = c.thing := by
  obtain ⟨hlastmem, hlastscope, hlastbefore⟩ := mem_moduleBefore.1 (latest_spec hlast).1
  obtain ⟨hmem, hscope, hafter⟩ := mem_moduleAfter.1 hc
  obtain ⟨c', hc', hthing, hscope', -, hapart⟩ := k.first c hmem
  have hfound := k.sub c' hc'
  refine ⟨c', mem_moduleAfter.2 ⟨hc', hscope'.trans hscope, ?_⟩, hthing⟩
  rcases Nat.lt_trichotomy use.startByte c'.at_ with hlt | heq | hgt
  · exact hlt
  · exact absurd heq.symm (hat c' hfound last hlastmem (hthing ▸ hne))
  · have hle := (latest_spec hlast).2 c' (mem_moduleBefore.2 ⟨hfound, hscope'.trans hscope, hgt⟩)
    have hnot := hapart (.inr ⟨hscope, hsource⟩) last hlastmem (hlastscope.trans hscope.symm) hne.symm
    exact absurd ⟨hle, (hlastbefore.trans hafter).le⟩ hnot

/-- **The first sites give the choice that all give.** -/
theorem choose_kept (level : Level found use n)
    (hat : ∀ b ∈ found, ∀ c ∈ found, b.thing ≠ c.thing → b.at_ ≠ use.startByte) :
    picked (choose found use) = picked (choose kept use) := by
  have level' := k.level level
  cases hfound : found with
  | nil =>
    have hkept : kept = [] := eq_nil_of_subset_nil (hfound ▸ k.sub)
    rw [hkept]
  | cons b bs =>
    have hmem : b ∈ found := hfound ▸ mem_cons_self
    rw [← hfound]
    obtain ⟨b', hb', hthing, -⟩ := k.first b hmem
    rcases agree_or_differ found b with hall | ⟨other, hother, hne⟩
    · have hall' : ∀ c ∈ kept, c.thing = b'.thing := fun c hc => (hall c (k.sub c hc)).trans hthing.symm
      rw [choose_agreed level hmem hall, choose_agreed level' hb' hall', level.use_eq (k.sub b' hb') hmem hthing]
    · cases hown : latest (ownBefore found use) with
      | some last =>
        obtain ⟨hlatest, first, hfirst, hlatest'⟩ := k.own level hown
        have huse : first.use = last.use :=
          level.use_eq (k.sub first (mem_ownBefore.1 hlatest'.1).1) (mem_ownBefore.1 hlatest.1).1 hfirst
        rw [choose_own level hlatest, choose_own level' hlatest', huse]
      | none =>
        have hnone := latest_eq_none.1 hown
        have hnone' : ownBefore kept use = [] := eq_nil_of_subset_nil (hnone ▸ k.ownBefore_sub)
        cases hmodule : latest (moduleBefore found use) with
        | none =>
          have hempty := latest_eq_none.1 hmodule
          have hempty' : moduleBefore kept use = [] := eq_nil_of_subset_nil (hempty ▸ k.moduleBefore_sub)
          obtain ⟨other', hother', hthing', -⟩ := k.first other hother
          have hne' : other'.thing ≠ b'.thing := by rwa [hthing, hthing']
          rw [choose_differ hother hmem hne, choose_differ hother' hb' hne', hnone, hnone', hempty, hempty',
            latest_eq_none.2 rfl]
        | some last =>
          obtain ⟨hlatest, first, hfirst, hlatest'⟩ := k.module hmodule
          by_cases hsafe : use.source = none ∨ ∀ c ∈ moduleAfter found use, c.thing = last.thing
          · have hsafe' : use.source = none ∨ ∀ c ∈ moduleAfter kept use, c.thing = first.thing :=
              hsafe.imp_right fun h c hc => (h c (k.moduleAfter_sub c hc)).trans hfirst.symm
            have huse : first.use = last.use :=
              level.use_eq (k.sub first (mem_moduleBefore.1 hlatest'.1).1) (mem_moduleBefore.1 hlatest.1).1 hfirst
            rw [choose_module level hnone hlatest hsafe, choose_module level' hnone' hlatest' hsafe', huse]
          · obtain ⟨hsource, hlater⟩ := not_or.1 hsafe
            simp only [not_forall] at hlater
            obtain ⟨c, hc, hdiffer⟩ := hlater
            obtain ⟨c', hc', hthing'⟩ := k.later hsource hat hmodule hc hdiffer
            rw [choose_later hnone hsource (Or.inl hlatest) hc hdiffer,
              choose_later hnone' hsource (Or.inl hlatest') hc' (by rwa [hthing', hfirst])]

end

/-- **A use is bound as an earlier site of it**, where nothing is bound to something else in between. -/
theorem choose_first (level : Level found use n) {first : Reference} (hsource : first.source = use.source)
    (hle : first.startByte ≤ use.startByte)
    (hbetween : ∀ b ∈ found, ∀ c ∈ found, b.thing ≠ c.thing → ¬ (first.startByte ≤ b.at_ ∧ b.at_ ≤ use.startByte)) :
    picked (choose found use) = picked (choose found first) := by
  have level' : Level found first n := ⟨fun b hb => hsource ▸ level.visible b hb, level.length⟩
  cases hfound : found with
  | nil => rfl
  | cons b bs =>
    have hmem : b ∈ found := hfound ▸ mem_cons_self
    rw [← hfound]
    rcases agree_or_differ found b with hall | ⟨other, hother, hne⟩
    · rw [choose_agreed level hmem hall, choose_agreed level' hmem hall]
    · have hnone : ∀ c ∈ found, ¬ (first.startByte ≤ c.at_ ∧ c.at_ ≤ use.startByte) := by
        intro c hc
        by_cases hcb : c.thing = b.thing
        · exact hbetween c hc other hother (hcb ▸ hne.symm)
        · exact hbetween c hc b hmem hcb
      have hown : ownBefore found use = ownBefore found first := filter_congr fun c hc => by
        have := hnone c hc
        rw [decide_eq_decide]
        exact and_congr_right fun _ => by omega
      have hbefore : moduleBefore found use = moduleBefore found first := filter_congr fun c hc => by
        have := hnone c (mem_filter.1 hc).1
        rw [decide_eq_decide]
        omega
      have hafter : moduleAfter found use = moduleAfter found first := filter_congr fun c hc => by
        have := hnone c (mem_filter.1 hc).1
        rw [decide_eq_decide]
        omega
      rw [choose_differ hother hmem hne, choose_differ hother hmem hne, hown, hbefore, hafter, hsource]

end Choice

/-! ## What the sites of a file bind -/

def importBindings (run : EmitRun) (item : SourceFile) (reference : Reference) : List (String × Binding) :=
  match resolvePython run item reference with
  | none => []
  | some (target, whole) => (bindNames item reference target whole).1

/-- Something else is bound to the name of `b`, in its scope, from one position to another. -/
def Rebound (found : List Binding) (b : Binding) (start stop : Nat) : Prop :=
  ∃ c ∈ found, c.scope = b.scope ∧ c.thing ≠ b.thing ∧ start ≤ c.at_ ∧ c.at_ ≤ stop

instance {found : List Binding} {b : Binding} {start stop : Nat} : Decidable (Rebound found b start stop) :=
  inferInstanceAs (Decidable (∃ c ∈ found, _))

/-- No import that a use reads has two sites with something else bound to its name in between. -/
def ImportsSettled (run : EmitRun) (item : SourceFile) (references : List Reference) (use : Reference) : Prop :=
  ∀ i ∈ references, ∀ i' ∈ references, i.kind = .imports → siteKey i = siteKey i' →
    ∀ entry ∈ importBindings run item i', entry.1 = use.head.1 →
      entry.2 ∈ counting use (boundNames run item references) → Reads use entry.2 →
        ¬ Rebound (counting use (boundNames run item references)) entry.2 i.startByte i'.startByte

/-- Between a use and a later site of it nothing is bound to its name, where that stands for different things. -/
def UseSettled (run : EmitRun) (item : SourceFile) (references : List Reference) (use : Reference) : Prop :=
  ∀ use' ∈ references, siteKey use = siteKey use' →
    ∀ b ∈ counting use (boundNames run item references), ∀ c ∈ counting use (boundNames run item references),
      b.thing ≠ c.thing → ¬ (use.startByte ≤ b.at_ ∧ b.at_ ≤ use'.startByte)

set_option synthInstance.maxSize 512 in
instance {run : EmitRun} {item : SourceFile} {references : List Reference} {use : Reference} :
    Decidable (ImportsSettled run item references use) := inferInstanceAs (Decidable (∀ i ∈ references, _))

instance {run : EmitRun} {item : SourceFile} {references : List Reference} {use : Reference} :
    Decidable (UseSettled run item references use) := inferInstanceAs (Decidable (∀ use' ∈ references, _))

/-- No name is bound to something else between two sites of one key. -/
structure Settled (run : EmitRun) (item : SourceFile) (references : List Reference) : Prop where
  imports : ∀ use ∈ references, use.kind ≠ .imports → ImportsSettled run item references use
  uses : ∀ use ∈ references, use.kind ≠ .imports → UseSettled run item references use

section Bound

variable {run : EmitRun} {item : SourceFile} {refs : List Reference} {r r' : Reference}
variable {name : String} {b : Binding}

theorem mem_boundNames :
    b ∈ boundNames run item refs name ↔ ∃ i ∈ refs, i.kind = .imports ∧ (name, b) ∈ importBindings run item i := by
  unfold boundNames boundTo fileBindings
  simp only [mem_map, mem_filter, mem_flatMap, decide_eq_true_eq]
  constructor
  · rintro ⟨⟨_, _⟩, ⟨⟨i, ⟨hi, hkind⟩, hmem⟩, rfl⟩, rfl⟩
    exact ⟨i, hi, hkind, hmem⟩
  · rintro ⟨i, hi, hkind, hmem⟩
    exact ⟨(name, b), ⟨⟨i, ⟨hi, hkind⟩, hmem⟩, rfl⟩, rfl⟩

section

variable (h : siteKey r = siteKey r')
include h

/-- Sites of one key differ in their position only. -/
theorem siteKey_eq : r' = { r with startByte := r'.startByte } := by
  cases r
  cases r'
  simp only [siteKey, Reference.mk.injEq] at h ⊢
  tauto

theorem siteKey_full : r.full = r'.full := by
  rw [siteKey_eq h]
  rfl

theorem siteKey_source : r.source = r'.source := by rw [siteKey_eq h]

theorem siteKey_kind : r.kind = r'.kind := by rw [siteKey_eq h]

theorem siteKey_counting (bound : String → List Binding) : counting r bound = counting r' bound := by
  rw [siteKey_eq h]
  rfl

end

theorem importBindings_at {entry : String × Binding} (h : entry ∈ importBindings run item r) :
    entry.2.at_ = r.startByte := by
  unfold importBindings at h
  split at h
  · cases h
  · unfold bindNames at h
    grind

theorem bindNames_site (target : SourceFile) (whole : Bool) (p : Nat) :
    (bindNames item { r with startByte := p } target whole).1 =
        (bindNames item r target whole).1.map (fun entry => (entry.1, { entry.2 with at_ := p })) ∧
      (bindNames item { r with startByte := p } target whole).2 = (bindNames item r target whole).2 := by
  obtain ⟨source, kind, name, level, start, qualifier, alias_⟩ := r
  cases qualifier <;> cases alias_ <;> cases whole <;> simp only [bindNames] <;> split_ifs <;> exact ⟨rfl, rfl⟩

theorem importBindings_site (h : siteKey r = siteKey r') (hb : (name, b) ∈ importBindings run item r') :
    (name, { b with at_ := r.startByte }) ∈ importBindings run item r := by
  suffices hall : ∀ p, (name, { b with at_ := p }) ∈ importBindings run item { r' with startByte := p } by
    rw [siteKey_eq h.symm]
    exact hall r.startByte
  intro p
  unfold importBindings at hb ⊢
  change _ ∈ (match resolvePython run item r' with
    | none => []
    | some (target, whole) => (bindNames item { r' with startByte := p } target whole).1)
  split at hb
  · cases hb
  · rw [(bindNames_site _ _ p).1]
    exact mem_map.2 ⟨(name, b), hb, rfl⟩

theorem boundNames_first (walked : refs.Pairwise fun a b => a.kind = b.kind → a.startByte ≤ b.startByte)
    (hb : b ∈ boundNames run item refs name) :
    ∃ i ∈ refs, ∃ i' ∈ refs, i.kind = .imports ∧ siteKey i = siteKey i' ∧ (name, b) ∈ importBindings run item i' ∧
      b.at_ = i'.startByte ∧ i.startByte ≤ i'.startByte ∧
      { b with at_ := i.startByte } ∈ boundNames run item (Distinct.distinctBy siteKey refs) name := by
  obtain ⟨i', hi', hkind, hmem⟩ := mem_boundNames.1 hb
  obtain ⟨i, hi, hkey, hle⟩ := @Distinct.exists_first _ _ _ siteKey _ _ _ (fun _ _ => Nat.le_refl _) walked hi'
  have hikind : i.kind = .imports := (siteKey_kind hkey).trans hkind
  exact ⟨i, Distinct.distinctBy_sublist.subset hi, i', hi', hikind, hkey, hmem, importBindings_at hmem,
    hle (siteKey_kind hkey), mem_boundNames.2 ⟨i, hi, hikind, importBindings_site hkey hmem⟩⟩

theorem boundNames_sub (hb : b ∈ boundNames run item (Distinct.distinctBy siteKey refs) name) :
    b ∈ boundNames run item refs name := by
  obtain ⟨i, hi, hkind, hmem⟩ := mem_boundNames.1 hb
  exact mem_boundNames.2 ⟨i, Distinct.distinctBy_sublist.subset hi, hkind, hmem⟩

end Bound

/-! ## The bindings that count, from the first sites -/

section Specific

variable {options options' : List Binding} {rest : List String} {use : Reference}

theorem mem_fitting {b : Binding} : b ∈ fitting options rest use ↔
    b ∈ options ∧ rest.take b.consumed.length = b.consumed ∧ (b.scope = none ∨ b.scope = use.source) := by
  rw [fitting, mem_filter, mem_filter, decide_eq_true_eq, decide_eq_true_eq, and_assoc]

theorem longest_le {found found' : List Binding} (h : ∀ b ∈ found, ∃ b' ∈ found', b'.consumed.length = b.consumed.length) :
    (found.map (·.consumed.length)).foldr max 0 ≤ (found'.map (·.consumed.length)).foldr max 0 := by
  refine max_le_of_forall_le (found.map (·.consumed.length)) _ fun m hm => ?_
  obtain ⟨b, hb, rfl⟩ := mem_map.1 hm
  obtain ⟨b', hb', hlength⟩ := h b hb
  rw [← hlength]
  have hmem : b'.consumed.length ∈ found'.map (·.consumed.length) := mem_map.2 ⟨b', hb', rfl⟩
  exact le_max_of_le hmem (Nat.le_refl _)

/-- Options that differ in their positions only have the same longest path. -/
theorem mem_specific (hsub : ∀ b ∈ options', b ∈ options)
    (hfirst : ∀ b ∈ options, ∃ p, { b with at_ := p } ∈ options') {b : Binding} :
    b ∈ specific options' rest use ↔ b ∈ options' ∧ b ∈ specific options rest use := by
  have hfit : ∀ c ∈ fitting options' rest use, c ∈ fitting options rest use := fun c hc =>
    mem_fitting.2 ⟨hsub c (mem_fitting.1 hc).1, (mem_fitting.1 hc).2⟩
  have htop : ((fitting options' rest use).map (·.consumed.length)).foldr max 0 =
      ((fitting options rest use).map (·.consumed.length)).foldr max 0 := by
    apply Nat.le_antisymm
    · exact longest_le fun c hc => ⟨c, hfit c hc, rfl⟩
    · refine longest_le fun c hc => ?_
      obtain ⟨hmem, hfits⟩ := mem_fitting.1 hc
      obtain ⟨p, hp⟩ := hfirst c hmem
      exact ⟨{ c with at_ := p }, mem_fitting.2 ⟨hp, hfits⟩, rfl⟩
  unfold specific
  simp only [mem_filter, htop, mem_fitting]
  constructor
  · rintro ⟨⟨hmem, hfits⟩, hlength⟩
    exact ⟨hmem, ⟨hsub b hmem, hfits⟩, hlength⟩
  · rintro ⟨hmem, ⟨-, hfits⟩, hlength⟩
    exact ⟨⟨hmem, hfits⟩, hlength⟩

end Specific

/-! ## What the list asserts -/

section Asserted

variable {run : EmitRun} {subjects : Subjects} {item : SourceFile} {refs : List Reference} {use first : Reference}

theorem bindImport_key (hkey : siteKey first = siteKey use) :
    bindImport run subjects item use = bindImport run subjects item first := by
  have hsites : ∀ p, bindImport run subjects item { first with startByte := p } = bindImport run subjects item first := by
    intro p
    unfold bindImport
    change (match resolvePython run item first with
      | none => none
      | some (target, whole) => _) = _
    split
    · rfl
    · rw [(bindNames_site _ _ p).2]
  rw [siteKey_eq hkey]
  exact hsites use.startByte

theorem mem_resolveReferences {relation : Relation} : relation ∈ resolveReferences run subjects item refs ↔
    (∃ r ∈ refs, r.kind = .imports ∧ bindImport run subjects item r = some relation) ∨
      ∃ r ∈ refs, r.kind ≠ .imports ∧ bindUse run subjects item (boundNames run item refs) r = some relation := by
  simp only [resolveReferences, mem_append, mem_filterMap, mem_filter, decide_eq_true_eq, and_assoc]

section

variable (walked : refs.Pairwise fun a b => a.kind = b.kind → a.startByte ≤ b.startByte)
  (settled : Settled run item refs)
include walked settled

theorem counting_kept (huse : use ∈ refs) (hkind : use.kind ≠ .imports) :
    Kept (counting use (boundNames run item refs))
      (counting use (boundNames run item (Distinct.distinctBy siteKey refs))) use := by
  have hmem : ∀ b, b ∈ counting use (boundNames run item (Distinct.distinctBy siteKey refs)) ↔
      b ∈ boundNames run item (Distinct.distinctBy siteKey refs) use.head.1 ∧
        b ∈ counting use (boundNames run item refs) := by
    intro b
    refine mem_specific (fun c hc => boundNames_sub hc) fun c hc => ?_
    obtain ⟨i, -, -, -, -, -, -, -, -, hfirst⟩ := boundNames_first walked hc
    exact ⟨_, hfirst⟩
  constructor
  · intro b hb
    exact ((hmem b).1 hb).2
  · intro b hb
    have hbound : b ∈ boundNames run item refs use.head.1 := (mem_fitting.1 (mem_filter.1 hb).1).1
    obtain ⟨i, hi, i', hi', hikind, hkey, hentry, hat, hle, hfirst⟩ := boundNames_first walked hbound
    have hcounts : { b with at_ := i.startByte } ∈ counting use (boundNames run item refs) := by
      have hfits := (mem_filter.1 hb).2
      refine mem_filter.2 ⟨mem_fitting.2 ⟨boundNames_sub hfirst, (mem_fitting.1 (mem_filter.1 hb).1).2⟩, hfits⟩
    refine ⟨{ b with at_ := i.startByte }, (hmem _).2 ⟨hfirst, hcounts⟩, rfl, rfl, hat ▸ hle, ?_⟩
    intro hreads c hc hscope hne hbetween
    rw [hat] at hbetween
    exact settled.imports use huse hkind i hi i' hi' hikind hkey (use.head.1, b) hentry rfl hb hreads
      ⟨c, hc, hscope, hne, hbetween⟩

/-- **A call or a base asserts what the first site of its key asserts.** -/
theorem bindUse_key (huse : use ∈ refs) (hfirst : first ∈ refs) (hkind : first.kind ≠ .imports)
    (hkey : siteKey first = siteKey use) (hle : first.startByte ≤ use.startByte) :
    bindUse run subjects item (boundNames run item refs) use =
      bindUse run subjects item (boundNames run item (Distinct.distinctBy siteKey refs)) first := by
  obtain ⟨n, level⟩ := specific_level (boundNames run item refs use.head.1) use.head.2 use
  have hcounting := siteKey_counting hkey (boundNames run item refs)
  have hlater := choose_first level (siteKey_source hkey) hle fun b hb c hc =>
    settled.uses first hfirst hkind use huse hkey b (hcounting ▸ hb) c (hcounting ▸ hc)
  obtain ⟨n', level'⟩ := specific_level (boundNames run item refs first.head.1) first.head.2 first
  have hkept := choose_kept (counting_kept walked settled hfirst hkind) level' fun b hb c hc hne hat =>
    settled.uses first hfirst hkind first hfirst rfl b hb c hc hne ⟨hat.ge, hat.le⟩
  have hbound : bindSymbolReference run item use (boundNames run item refs) =
      bindSymbolReference run item first (boundNames run item (Distinct.distinctBy siteKey refs)) := by
    refine bindSymbolReference_congr run (siteKey_full hkey).symm ?_
    refine Eq.trans (Eq.trans hlater ?_) hkept
    rw [hcounting]
    rfl
  unfold bindUse
  rw [hbound]
  unfold callOrReference
  rw [siteKey_source hkey, siteKey_kind hkey]

theorem distinct_asserted (relation : Relation) :
    relation ∈ resolveReferences run subjects item (Distinct.distinctBy siteKey refs) ↔
      relation ∈ resolveReferences run subjects item refs := by
  have hfirst : ∀ r ∈ refs, ∃ first ∈ Distinct.distinctBy siteKey refs, siteKey first = siteKey r ∧
      (first.kind = r.kind → first.startByte ≤ r.startByte) := fun r hr =>
    Distinct.exists_first (fun _ _ => Nat.le_refl _) walked hr
  have hsub : ∀ r ∈ Distinct.distinctBy siteKey refs, r ∈ refs := fun r hr => Distinct.distinctBy_sublist.subset hr
  rw [mem_resolveReferences, mem_resolveReferences]
  apply or_congr
  · constructor
    · rintro ⟨r, hr, hkind, h⟩
      exact ⟨r, hsub r hr, hkind, h⟩
    · rintro ⟨r, hr, hkind, h⟩
      obtain ⟨first, hmem, hkey, -⟩ := hfirst r hr
      exact ⟨first, hmem, (siteKey_kind hkey).trans hkind, (bindImport_key hkey).symm.trans h⟩
  · constructor
    · rintro ⟨r, hr, hkind, h⟩
      have hsame := @bindUse_key run subjects item refs r r walked settled (hsub r hr) (hsub r hr) hkind rfl (Nat.le_refl _)
      exact ⟨r, hsub r hr, hkind, hsame.trans h⟩
    · rintro ⟨r, hr, hkind, h⟩
      obtain ⟨first, hmem, hkey, hle⟩ := hfirst r hr
      have hfirstkind : first.kind ≠ .imports := siteKey_kind hkey ▸ hkind
      have hsame := @bindUse_key run subjects item refs r first walked settled hr (hsub first hmem) hfirstkind hkey
        (hle (siteKey_kind hkey))
      exact ⟨first, hmem, hfirstkind, hsame.symm.trans h⟩

end

/-- Candidates of one kind stand in the order of their positions. -/
def Walked {S : Type} (candidates : List (Candidate S)) : Prop :=
  candidates.Pairwise fun a b => a.kind = b.kind → a.start ≤ b.start

instance {S : Type} {candidates : List (Candidate S)} : Decidable (Walked candidates) :=
  inferInstanceAs (Decidable (List.Pairwise _ _))

/-- **Where no name is bound to something else between two sites of one key, the list asserts what all the sites do.** -/
theorem references_asserted {S : Type} [DecidableEq S] (run : EmitRun) (subjects : Subjects) (item : SourceFile)
    (root : S) (numbers : S → Option Nat) (budget : Budget) (capped : Nat) (candidates : List (Candidate S))
    (below : (references root numbers budget capped candidates).capped = capped) (walked : Walked candidates)
    (settled : Settled run item ((allReferences root numbers candidates).map ParsedReference.toReference))
    (relation : Relation) :
    relation ∈ resolveReferences run subjects item
        ((references root numbers budget capped candidates).out.map ParsedReference.toReference) ↔
      relation ∈ resolveReferences run subjects item
        ((allReferences root numbers candidates).map ParsedReference.toReference) := by
  have hwalked : ((allReferences root numbers candidates).map ParsedReference.toReference).Pairwise
      fun a b => a.kind = b.kind → a.startByte ≤ b.startByte := by
    unfold allReferences sourced
    rw [List.map_map, List.pairwise_map, List.pairwise_filterMap]
    refine walked.imp ?_
    intro a b hab x hx y hy hkind
    obtain ⟨_, -, rfl⟩ := Option.map_eq_some_iff.1 hx
    obtain ⟨_, -, rfl⟩ := Option.map_eq_some_iff.1 hy
    exact hab hkind
  rw [toReference_references below]
  exact distinct_asserted hwalked settled relation

end Asserted

/-! ## Two modules with a function of one name -/

def moduleA : SourceFile := ⟨"a.py", "python", [⟨"a", "a", "module"⟩, ⟨"a.f", "a.f", "function"⟩]⟩

def moduleB : SourceFile := ⟨"pkg/b.py", "python", [⟨"b", "pkg.b", "module"⟩, ⟨"b.f", "pkg.b.f", "function"⟩]⟩

def user : SourceFile := ⟨"u.py", "python", [⟨"u", "u", "module"⟩, ⟨"u.run", "u.run", "function"⟩]⟩

def userRun : EmitRun := ⟨[moduleA, moduleB, user]⟩

def userSubjects : Subjects := ⟨(·.path), fun item ref => if ref = "1" then item.symbols[1]? else none⟩

/-- `from a import f`, at a position. -/
def fromA (start : Nat) : Candidate Nat := ⟨0, .imports, "f", start, start + 1, 0, some "a", start - 9, start - 8, none⟩

/-- `from pkg.b import f`. -/
def fromB (start : Nat) : Candidate Nat :=
  ⟨0, .imports, "f", start, start + 1, 0, some "pkg.b", start - 13, start - 8, none⟩

/-- `f()`, in the module (0) or in `run` (1). -/
def callF (owner start : Nat) : Candidate Nat := { owner, kind := .call, target := "f", start, end_ := start + 1 }

/-- What the list of references asserts. -/
def listed (candidates : List (Candidate Nat)) : List Relation :=
  resolveReferences userRun userSubjects user
    ((references 0 some ⟨4, 0, 424⟩ 0 candidates).out.map ParsedReference.toReference)

/-- What all the sites assert. -/
def sites (candidates : List (Candidate Nat)) : List Relation :=
  resolveReferences userRun userSubjects user ((allReferences 0 some candidates).map ParsedReference.toReference)

/-- `f` imported twice from one module and called three times in two scopes. -/
def settledUse : List (Candidate Nat) :=
  [fromA 14, fromA 30, callF 0 32, callF 0 36, callF 1 60]

theorem references_asserted_settled : (∀ relation, relation ∈ listed settledUse ↔ relation ∈ sites settledUse) ∧
    listed settledUse = [⟨"u", .imports, "a.f"⟩, ⟨"u", .calls, "a.f"⟩, ⟨"u.run", .calls, "a.f"⟩] ∧
    (sites settledUse).length = 5 :=
  ⟨references_asserted userRun userSubjects user 0 some ⟨4, 0, 424⟩ 0 settledUse (by decide) (by decide)
    ⟨by decide, by decide⟩, by decide, by decide⟩

/-- `f` imported from `a`, from `pkg.b` and again from `a`, then called. -/
def reboundImport : List (Candidate Nat) := [fromA 14, fromB 34, fromA 50, callF 0 52]

/-- `f` imported from `a` and called, then imported from `pkg.b` and called again. -/
def reboundUse : List (Candidate Nat) := [fromA 14, fromB 38, callF 0 16, callF 0 40]

/-- The third import counts and is not listed; and of the two calls the second is not. -/
theorem references_rebound :
    (Walked reboundImport ∧ (references 0 some ⟨4, 0, 424⟩ 0 reboundImport).capped = 0 ∧
      ¬ ∀ relation, relation ∈ listed reboundImport ↔ relation ∈ sites reboundImport) ∧
    Walked reboundUse ∧ (references 0 some ⟨4, 0, 424⟩ 0 reboundUse).capped = 0 ∧
      ¬ ∀ relation, relation ∈ listed reboundUse ↔ relation ∈ sites reboundUse := by
  refine ⟨⟨by decide, by decide, fun h => ?_⟩, by decide, by decide, fun h => ?_⟩
  · have hcall : (⟨"u", .calls, "b.f"⟩ : Relation) ∈ sites reboundImport := (h _).1 (by decide)
    revert hcall
    decide
  · have hcall : (⟨"u", .calls, "b.f"⟩ : Relation) ∈ listed reboundUse := (h _).2 (by decide)
    revert hcall
    decide

end Indexing.Python
