import AgentContext.Lib.Capped
import AgentContext.Lib.Levels
import Mathlib.Data.List.Nodup
import Mathlib.Data.List.Sort
import Mathlib.Data.String.Basic

/-!
# The walk over the code graph

`_walk`: level by level from an anchor, each level one query for each kind of node on the frontier, at most
`maxNodes` nodes in all.

    step         `_STEP`: what one hop of a mode joins
    walkLevel    one level: what the frontier joins and was not seen
    levels       the loop over the distances
    walk         the anchor resolved, then the levels

A walk that is not cut places exactly the nodes within the depth, each at its distance.
-/

namespace Retrieval.Graph

open Levels Capped

/-! ## The graph -/

inductive NodeKind where
  | repository | module | file | symbol
  deriving DecidableEq

/-- `_KIND_ORDER`. -/
def kindOrder : List NodeKind := [.repository, .module, .file, .symbol]

inductive EdgeKind where
  | calls | references | imports | defines | inModule | inRepository
  deriving DecidableEq

inductive Mode where
  | neighborhood | callers | callees
  deriving DecidableEq

structure Node where
  kind : NodeKind
  nodeId : String
  repositoryId : String
  current : Bool
  deriving DecidableEq

structure Rel where
  kind : EdgeKind
  sourceId : String
  targetId : String

/-- The projected code.  Ids are name-based UUIDs of a kind and its names, so no two nodes share one. -/
structure CodeGraph where
  nodes : List Node
  rels : List Rel
  ids : (nodes.map (·.nodeId)).Nodup

/-- `(a)-[:kinds]->(b)`. -/
def CodeGraph.joins (g : CodeGraph) (kinds : List EdgeKind) (a b : Node) : Bool :=
  g.rels.any fun r => kinds.contains r.kind && r.sourceId == a.nodeId && r.targetId == b.nodeId

/-- `(a)-[:kinds]-(b)`. -/
def CodeGraph.touches (g : CodeGraph) (kinds : List EdgeKind) (a b : Node) : Bool :=
  g.joins kinds a b || g.joins kinds b a

/-- A request: the graph it reads, its repository and its mode. -/
structure Request where
  graph : CodeGraph
  repositoryId : String
  mode : Mode

inductive GraphError where
  | depthOutOfBounds
  | anchorNotFound
  | needsSymbolOrFile (kind : NodeKind)
  | keyError
  deriving DecidableEq

def maxDepth : Nat := 4

def maxNodes : Nat := 500

structure Placed where
  node : Node
  distance : Nat

structure Walk where
  placed : List Placed
  seen : List String
  /-- The last level. -/
  frontier : List Node
  truncated : Bool

def Walk.ids (w : Walk) (kind : NodeKind) : List String := (w.frontier.filter (·.kind == kind)).map (·.nodeId)

def Walk.enter (w : Walk) (distance : Nat) (level : Rows Node) : Walk where
  placed := w.placed ++ level.rows.map fun n => ⟨n, distance⟩
  seen := w.seen ++ level.rows.map (·.nodeId)
  frontier := level.rows
  truncated := level.cut

namespace Request

variable (q : Request)

/-! ## Queries -/

/-- `_CURRENT_CODE`. -/
def currentCode (n : Node) : Bool :=
  (n.kind == .symbol || n.kind == .file) && n.repositoryId == q.repositoryId && n.current

/-- `EXISTS { (n)<-[:IN_MODULE]-(:File {current: true, repository_id: $repository_id}) }`. -/
def hasCurrentFile (n : Node) : Bool :=
  q.graph.nodes.any fun f =>
    f.kind == .file && f.current && f.repositoryId == q.repositoryId && q.graph.joins [.inModule] f n

/-- `_STEP`: the nodes that one hop from a node of the kind reaches. -/
def step (kind : NodeKind) : Option (Node → Node → Bool) :=
  match q.mode, kind with
  | .neighborhood, .symbol => some fun a n =>
    q.graph.touches [.calls, .references, .imports, .defines] a n && q.currentCode n
  | .neighborhood, .file => some fun a n =>
    q.graph.touches [.calls, .references, .imports, .defines, .inModule] a n && n.repositoryId == q.repositoryId &&
      (n.kind == .module || (n.kind == .symbol || n.kind == .file) && n.current)
  | .neighborhood, .module => some fun a n =>
    q.graph.joins [.inModule] n a && n.kind == .file && n.repositoryId == q.repositoryId && n.current
  | .neighborhood, .repository => some fun a n =>
    q.graph.joins [.inRepository] n a && n.repositoryId == q.repositoryId &&
      (n.kind == .file && n.current || n.kind == .module && q.hasCurrentFile n)
  | .callers, .symbol | .callers, .file => some fun a n => q.graph.joins [.calls] n a && q.currentCode n
  | .callees, .symbol | .callees, .file => some fun a n => q.graph.joins [.calls] a n && q.currentCode n
  | _, _ => none

/-- `_FRONTIER`, `_STEP` and `_REACHED`, with what the step joins. -/
def levelRows (joins : Node → Node → Bool) (kind : NodeKind) (ids visited : List String) : List Node :=
  (q.graph.nodes.filter fun n =>
    (q.graph.nodes.any fun a =>
      a.kind == kind && ids.contains a.nodeId && a.repositoryId == q.repositoryId && joins a n) &&
      !visited.contains n.nodeId).insertionSort (·.nodeId ≤ ·.nodeId)

/-- The nodes with the id that `_RESOLVE` finds. -/
def resolves (nodeId : String) (n : Node) : Bool :=
  n.nodeId == nodeId && n.repositoryId == q.repositoryId && match n.kind with
    | .repository => true
    | .module => q.hasCurrentFile n
    | .file | .symbol => n.current

def resolve (nodeId : String) : Except GraphError Node :=
  match kindOrder.findSome? fun kind => q.graph.nodes.find? fun n => n.kind == kind && q.resolves nodeId n with
  | some n => .ok n
  | none => .error .anchorNotFound

/-! ## The walk -/

def walkKind (w : Walk) (acc : Rows Node) (kind : NodeKind) : Except GraphError (Rows Node) :=
  if w.ids kind = [] then .ok acc
  else
    match q.step kind with
    | none => .error .keyError
    | some joins =>
      let visited := w.seen ++ acc.rows.map (·.nodeId)
      .ok (acc.add (maxNodes - w.placed.length) (q.levelRows joins kind (w.ids kind) visited))

def walkLevel (w : Walk) : Except GraphError (Rows Node) := kindOrder.foldlM (q.walkKind w) ⟨[], w.truncated⟩

/-- The loop over the distances, with the number of them that are left. -/
def levels : Nat → Nat → Walk → Except GraphError Walk
  | 0, _, w => .ok w
  | left + 1, distance, w => do
    let level ← q.walkLevel w
    if level.rows = [] then return { w with truncated := level.cut }
    let next := w.enter distance level
    if level.cut then return next
    levels left (distance + 1) next

/-- `_walk`, as far as it places nodes. -/
def walk (anchorId : String) (depth : Nat) : Except GraphError Walk := do
  let anchor ← q.resolve anchorId
  if (q.step anchor.kind).isNone then .error (.needsSymbolOrFile anchor.kind)
  q.levels depth 1 ⟨[⟨anchor, 0⟩], [anchorId], [anchor], false⟩

/-- `neighborhood`, `callers` and `callees`, which differ in the mode. -/
def traverse (anchorId : String) (depth : Int) : Except GraphError Walk :=
  if 1 ≤ depth ∧ depth ≤ maxDepth then q.walk anchorId depth.toNat else .error .depthOutOfBounds

end Request

end Retrieval.Graph
