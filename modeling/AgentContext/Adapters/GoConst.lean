import AgentContext.Lib.Bracketed
import Mathlib.Logic.Function.Basic

/-!
# The Go adapter: value specs and their fingerprints

The walk over a `const_declaration` (or a `var_declaration`) of a Go file, as the adapter does it: one running list of
tokens, an entry for the open spec with the positions of its names and values in that list, and the digests cut out of
the list when the spec closes. A spec without type and value repeats the type and the values that `constTail` keeps of
the spec before.

`digest` stands for SHA-256 over a domain and length-prefixed tokens. `take` stands for the name and output budget that
may refuse a symbol.
-/

namespace Go

open Bracketed

/-- What the adapter reads of a tree-sitter node. -/
structure Info where
  id : Nat
  kind : String
  named : Bool
  startByte : Nat
  endByte : Nat
  field : Option String
  /-- an ERROR or a MISSING node -/
  bad : Bool
deriving DecidableEq

abbrev Node := Bracketed.Tree Info

abbrev Bytes := List UInt8

/-- The payload of a framed token: `n:kind=text`, `a:kind`, `(kind`, `)`, a hex digest or `iota=n`. -/
inductive Token (D : Type) where
  | leaf (kind : String) (text : Bytes)
  | anon (kind : String)
  | opening (kind : String)
  | closing
  | hex (digest : D)
  | ordinal (n : Nat)
deriving DecidableEq

structure Sym where
  simple : Bytes
  qualified : Bytes
  kind : String
  start : Nat
  stop : Nat
deriving DecidableEq

/-- An open declaration: where its tokens start and which symbols it owns. -/
structure Open where
  nodeId : Nat
  tokStart : Nat
  syms : List Sym
  bodyId : Option Nat
  headerEnd : Option Nat := none
  marks : Nat → Option Int := fun _ => none
  names : List Nat := []
  values : List Nat := []
  owners : List (Sym × Nat) := []
  constMark : Option Nat := none
  implicit : Bool := false
  ordinal : Nat := 0

/-- A symbol with its digests, the index of its spec and its own among the names of the spec. -/
structure Digested (D : Type) where
  sym : Sym
  ordinal : Nat
  index : Nat
  signatureDigest : D
  semantic : D

structure Walk (D β : Type) where
  content : Bytes
  moduleQ : Bytes
  budget : β
  syms : List Sym := []
  tokens : List (Token D) := []
  opens : List Open := []
  ancestors : List String := ["source_file"]
  skipNode : Option Nat := none
  tainted : Nat := 0
  dropped : Nat := 0
  constOrdinal : Nat := 0
  constTail : List (Token D) × List (List (Token D)) := ([], [])
  digested : List (Digested D) := []

/-! ## Names and tokens -/

def maxNameBytes : Nat := 512

def maxSymbolsPerFile : Nat := 10000

def skipped (kind : String) : Bool := kind == "comment" || kind == "," || kind == ";"

def text (content : Bytes) (node : Info) : Bytes := (content.take node.endByte).drop node.startByte

/-- `[A-Za-z_$\x80-\xff]` -/
def isIdentStart (b : UInt8) : Bool :=
  (65 ≤ b && b ≤ 90) || (97 ≤ b && b ≤ 122) || b == 95 || b == 36 || 128 ≤ b

def isTokenByte (b : UInt8) : Bool := isIdentStart b || (48 ≤ b && b ≤ 57)

def continuation (b : UInt8) : Bool := 128 ≤ b && b ≤ 191

/-- Strict UTF-8, as `bytes.decode` takes it: shortest forms, no surrogates, nothing above U+10FFFF. -/
def decodable : Bytes → Bool
  | [] => true
  | a :: rest =>
    if a < 128 then decodable rest
    else match rest with
      | [] => false
      | b :: rest =>
        if 194 ≤ a && a ≤ 223 && continuation b then decodable rest
        else match rest with
          | [] => false
          | c :: rest =>
            if 224 ≤ a && a ≤ 239 && continuation b && continuation c && (a != 224 || 160 ≤ b) && (a != 237 || b ≤ 159) then
              decodable rest
            else match rest with
              | [] => false
              | d :: rest =>
                240 ≤ a && a ≤ 244 && continuation b && continuation c && continuation d && (a != 240 || 144 ≤ b) &&
                  (a != 244 || b ≤ 143) && decodable rest

/-- `raw` as a name, unless it is glued to another token byte or is not UTF-8. -/
def identifierBytes (raw content : Bytes) (start stop : Nat) : Option Bytes :=
  match raw with
  | [] => none
  | b :: rest =>
    if !(isIdentStart b && rest.all isTokenByte) then none
    else if 0 < start && (content[start - 1]?).any isTokenByte then none
    else if (content[stop]?).any isTokenByte then none
    else if decodable raw then some raw
    else none

def name (content : Bytes) (node : Info) : Option Bytes :=
  if maxNameBytes < node.endByte - node.startByte then none
  else identifierBytes (text content node) content node.startByte node.endByte

def underscore : Bytes := [95]

/-- `_join`: the parts that are not empty, with dots between. -/
def join (parts : List Bytes) : Bytes := [46].intercalate (parts.filter (· ≠ []))

def leafToken {D : Type} (content : Bytes) (node : Info) : Token D :=
  if node.named then
    .leaf node.kind (if node.kind = "raw_string_literal_content" then (text content node).filter (· ≠ 13) else text content node)
  else .anon node.kind

def Token.isIota {D : Type} : Token D → Bool
  | .leaf kind text => kind == "iota" && text == [105, 111, 116, 97]
  | _ => false

def childByFieldName (node : Node) (field : String) : Option Node :=
  node.children.find? fun c => c.label.field == some field

def childrenByFieldName (node : Node) (field : String) : List Node :=
  node.children.filter fun c => c.label.field == some field

def hasError (node : Node) : Bool := node.labels.any Info.bad

/-- `xs[a:b]` for positions of the token list. -/
def slice {α : Type} (xs : List α) (a b : Int) : List α := (xs.take b.toNat).drop a.toNat

def Open.mark (e : Open) (id : Nat) : Int := (e.marks id).getD 0

section

variable {D β : Type} (digest : String → List (Token D) → D) (take : β → Sym → Option β)

/-! ## Entering -/

/-- Register a symbol if limits allow; a duplicate construct is silently one symbol. -/
def Walk.add (w : Walk D β) (sym : Sym) : Walk D β × Bool :=
  if w.syms.any fun s => s.qualified = sym.qualified ∧ s.kind = sym.kind ∧ s.start = sym.start ∧ s.stop = sym.stop then (w, false)
  else if maxSymbolsPerFile ≤ w.syms.length then ({ w with dropped := w.dropped + 1 }, false)
  else
    match take w.budget sym with
    | none => ({ w with dropped := w.dropped + 1 }, false)
    | some budget => ({ w with budget := budget, syms := w.syms ++ [sym] }, true)

/-- One name of a value spec, with the owners and the name ids so far. -/
def declareName (spec : Info) (kind : String) (acc : Walk D β × List (Sym × Nat) × List Nat) (child : Node) :
    Walk D β × List (Sym × Nat) × List Nat :=
  let (w, owners, nameIds) := acc
  if child.label.kind ≠ "identifier" then acc
  else
    let nameIds' := nameIds ++ [child.label.id]
    match name w.content child.label with
    | none => ({ w with dropped := w.dropped + 1 }, owners, nameIds')
    | some simple =>
      if simple = underscore then (w, owners, nameIds')
      else
        let candidate : Sym := ⟨simple, join [w.moduleQ, simple], kind, spec.startByte, spec.endByte⟩
        match w.add take candidate with
        | (w', true) => (w', owners ++ [(candidate, nameIds.length)], nameIds')
        | (w', false) => (w', owners, nameIds')

/-- The value elements: the named children of the expression list that are not comments. -/
def valueIds : Option Node → List Nat
  | some list => (list.children.filter fun c => c.label.named && c.label.kind != "comment").map (·.label.id)
  | none => []

def enterValueSpec (w : Walk D β) (node : Node) : Walk D β :=
  let value := childByFieldName node "value"
  let constant := node.label.kind == "const_spec"
  if hasError node then { w with tainted := w.tainted + 1, skipNode := some node.label.id }
  else
    let (w, owners, nameIds) := (childrenByFieldName node "name").foldl
      (declareName take node.label (if constant then "constant" else "variable")) (w, [], [])
    let entry : Open :=
      { nodeId := node.label.id, tokStart := w.tokens.length, syms := owners.map Prod.fst, bodyId := value.map (·.label.id) }
    let entry :=
      match constant, nameIds.getLast? with
      | true, some last =>
        { entry with
          constMark := some last
          marks := Function.update entry.marks last (some (-1))
          implicit := value.isNone && (childByFieldName node "type").isNone
          ordinal := w.constOrdinal }
      | _, _ => entry
    let w := if constant then { w with constOrdinal := w.constOrdinal + 1 } else w
    let entry :=
      if 1 < nameIds.length then
        { entry with
          names := nameIds
          owners := owners
          values := valueIds value
          marks := (nameIds ++ valueIds value).foldl (fun m id => Function.update m id (some (-1))) entry.marks }
      else entry
    { w with opens := entry :: w.opens }

def enterTop (w : Walk D β) (node : Node) : Walk D β :=
  let w := if node.label.kind = "const_declaration" then { w with constTail := ([], []), constOrdinal := 0 } else w
  if node.label.bad then { w with tainted := w.tainted + 1 } else w

/-- Below a value declaration only the specs open an entry: calls are sites, and no other declaration is that deep. -/
def enterNested (w : Walk D β) (node : Node) : Walk D β :=
  if w.skipNode.isSome then w
  else if 5 < w.ancestors.length then w
  else
    let path := w.ancestors.drop 1
    if node.label.kind = "const_spec" ∨ node.label.kind = "var_spec" then
      if path = ["const_declaration"] ∨ path = ["var_declaration"] ∨ path = ["var_declaration", "var_spec_list"] then
        enterValueSpec take w node
      else w
    else w

/-- The open entry notes where the body starts and where its marked nodes are. -/
def Open.touch (e : Open) (id position : Nat) : Open :=
  { e with
    headerEnd := if e.bodyId = some id then some position else e.headerEnd
    marks := if (e.marks id).isSome then Function.update e.marks id (some (position : Int)) else e.marks }

def Walk.touch (w : Walk D β) (id : Nat) : Walk D β :=
  match w.opens with
  | e :: rest => { w with opens := e.touch id w.tokens.length :: rest }
  | [] => w

/-- Emit the node's token and open declarations; true when its children must be walked. -/
def enter (w : Walk D β) (node : Node) : Walk D β × Bool :=
  if skipped node.label.kind then (w, false)
  else
    let w :=
      if w.ancestors.length = 1 then enterTop w node
      else if 1 < w.ancestors.length then enterNested take w node
      else w
    let w := w.touch node.label.id
    if node.children.isEmpty then ({ w with tokens := w.tokens ++ [leafToken w.content node.label] }, false)
    else ({ w with tokens := w.tokens ++ [.opening node.label.kind] }, true)

/-! ## Finishing a spec -/

/-- A bare `C, D` after `A, B = 1, 2`: each repeats its own inherited value, or the whole list when the counts differ. -/
def finishImplicitConst (w : Walk D β) (e : Open) : Walk D β :=
  match e.syms with
  | [] => w
  | first :: _ =>
    let (typ, elements) := w.constTail
    let paired := elements.length = if e.names.length = 0 then 1 else e.names.length
    let whole := elements.flatten
    let position : List (Token D) := if whole.any Token.isIota then [.ordinal e.ordinal] else []
    let made := (if e.owners = [] then [(first, 0)] else e.owners).map fun (sym, index) =>
      let at' := e.mark ((if e.names = [] then e.constMark else e.names[index]?).getD 0)
      let head := slice w.tokens at' (at' + 1) ++ typ
      { sym := sym, ordinal := e.ordinal, index := index
        signatureDigest := digest "signature" head
        semantic := digest "semantic" (head ++ position ++ if paired then (elements[index]?).getD [] else whole) }
    { w with digested := w.digested ++ made }

/-- Digest each name of `var a, b T = x, y` from its own name, the shared type and its value. -/
def finishDeclarators (w : Walk D β) (e : Open) (stop : Nat) : List (Digested D) :=
  let positions := e.names.map e.mark
  let afterNames := positions.foldl max 0 + 1
  let sharedType := slice w.tokens afterNames stop
  let starts := e.values.map e.mark
  let paired := e.values.length = e.names.length
  e.owners.map fun (sym, index) =>
    let at' := (positions[index]?).getD 0
    let head := slice w.tokens at' (at' + 1) ++ sharedType
    let value :=
      if paired then
        slice w.tokens ((starts[index]?).getD 0) (if index + 1 = starts.length then w.tokens.length else (starts[index + 1]?).getD 0)
      else slice w.tokens stop w.tokens.length
    { sym := sym, ordinal := e.ordinal, index := index
      signatureDigest := digest "signature" head
      semantic := digest "semantic" (head ++ value) }

/-- The elements that later bare specs repeat, cut out of the tokens of an explicit one. -/
def tailElements (w : Walk D β) (e : Open) (stop : Nat) : List (List (Token D)) :=
  if e.values ≠ [] then
    let starts := e.values.map e.mark
    List.zipWith (slice w.tokens) starts (starts.tail ++ [(w.tokens.length : Int)])
  else [slice w.tokens stop w.tokens.length]

/-- The digests of a declaration with its own value, or of a variable. -/
def finishDigests (w : Walk D β) (e : Open) (stop : Nat) : Walk D β :=
  if e.syms = [] then w
  else
    let made :=
      if e.names ≠ [] then finishDeclarators digest w e stop
      else e.syms.map fun sym =>
        { sym := sym, ordinal := e.ordinal, index := 0
          signatureDigest := digest "signature" (slice w.tokens e.tokStart stop)
          semantic := digest "semantic" (slice w.tokens e.tokStart w.tokens.length) }
    -- `iota` is this spec's position in its group: moving the spec changes its value
    let made :=
      if e.constMark.isSome && (slice w.tokens stop w.tokens.length).any Token.isIota then
        made.map fun s => { s with semantic := digest "semantic" [.hex s.semantic, .ordinal e.ordinal] }
      else made
    { w with digested := w.digested ++ made }

def finishOpen (w : Walk D β) (e : Open) : Walk D β :=
  let stop := e.headerEnd.getD w.tokens.length
  match e.constMark with
  | some last =>
    if e.implicit then finishImplicitConst digest w e
    else
      finishDigests digest
        { w with constTail := (slice w.tokens (e.mark last + 1) stop, tailElements w e stop) } e stop
  | none => finishDigests digest w e stop

/-! ## The walk -/

def exit (w : Walk D β) (node : Info) (opened : Bool) : Walk D β :=
  let w := if opened then { w with tokens := w.tokens ++ [.closing], ancestors := w.ancestors.dropLast } else w
  let w :=
    match w.opens with
    | e :: rest => if e.nodeId = node.id then finishOpen digest { w with opens := rest } e else w
    | [] => w
  if w.skipNode = some node.id then { w with skipNode := none } else w

mutual
/-- The cursor's way through a node: enter it, go through its children if they must be walked, leave it. -/
def walkNode (w : Walk D β) : Node → Walk D β
  | .node a cs =>
    match enter take w (.node a cs) with
    | (w, true) => exit digest (walkNodes { w with ancestors := w.ancestors ++ [a.kind] } cs) a true
    | (w, false) => exit digest w a false
def walkNodes (w : Walk D β) : List Node → Walk D β
  | [] => w
  | node :: nodes => walkNodes (walkNode w node) nodes
end

end

end Go
