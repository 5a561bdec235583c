import SymbolGraph.Graph.Basic

/-! A snapshot of the graph for counting references. Every row of a node has a position, and edges join
    positions. Of several rows with one id the last is the node, and the edges of the id lead to the
    position of that row; an edge counts only if both of its ends are nodes. -/

namespace SymbolGraph

/-- An edge between two positions. -/
structure Arc where
  kind : EdgeKind
  source : Nat
  target : Nat
  deriving Repr, BEq, DecidableEq

/-- The nodes and edges that are looked at together. -/
structure GraphView where
  /-- The ids of the rows, by position. -/
  nodes : List NodeId := []
  edges : List Arc := []
  /-- Where the nodes are. Of two entries for an id the first holds. -/
  positions : List (NodeId × Nat) := []
  /-- The rows of the nodes. Of two entries for an id the first holds. -/
  rows : List (NodeId × GraphNode) := []
  deriving Repr, BEq, DecidableEq

/-- A node with the number of edges that lead to it. -/
structure Ranked where
  node : GraphNode
  count : Nat
  deriving Repr, BEq, DecidableEq

namespace GraphView

/-! ### Putting a view together -/

/-- Adds a row at the next position, in place of earlier ones with its id. -/
def addNode (v : GraphView) (n : GraphNode) : GraphView :=
  { v with
    nodes := v.nodes ++ [n.id]
    positions := (n.id, v.nodes.length) :: v.positions
    rows := (n.id, n) :: v.rows }

/-- The edge between the positions of its ends, if both are there. -/
def arc? (positions : List (NodeId × Nat)) (e : Edge) : Option Arc := do
  return ⟨e.kind, ← positions.lookup e.source, ← positions.lookup e.target⟩

/-- Adds an edge, unless one of its ends is missing. -/
def addEdge (v : GraphView) (e : Edge) : GraphView :=
  match arc? v.positions e with
  | some arc => { v with edges := v.edges ++ [arc] }
  | none => v

/-- The view of the nodes and of those edges that have both of their ends among them. -/
def ofParts (nodes : List GraphNode) (edges : List Edge) : GraphView :=
  edges.foldl addEdge (nodes.foldl addNode {})

/-! ### Counting references -/

/-- The node with the id. -/
def node? (v : GraphView) (id : NodeId) : Option GraphNode := v.rows.lookup id

/-- The number of edges that lead to the position. -/
def incoming (v : GraphView) (position : Nat) : Nat := v.edges.countP (·.target == position)

/-- The number of edges that lead to the node. -/
def inDegree (v : GraphView) (id : NodeId) : Nat :=
  match v.positions.lookup id with
  | some position => v.incoming position
  | none => 0

/-- The node whose id stands at the position, if edges lead to the position. -/
def ranked? (v : GraphView) (id : NodeId) (position : Nat) : Option Ranked := do
  let node ← v.node? id
  if 0 < v.incoming position then some ⟨node, v.incoming position⟩ else none

/-- Whether `a` stands before `b` in the ranking: more references first, then the smaller qualified
    name. -/
def rankedBefore (a b : Ranked) : Bool :=
  if a.count = b.count then decide (a.node.symbol.fqname ≤ b.node.symbol.fqname)
  else decide (b.count < a.count)

/-- Every node that something refers to, in the order of the ranking and for equals of the
    positions. -/
def ranking (v : GraphView) : List Ranked :=
  (v.nodes.zipIdx.filterMap fun (id, position) => v.ranked? id position).mergeSort rankedBefore

/-- The first `limit` nodes of the ranking. -/
def mostReferenced (v : GraphView) (limit : Nat) : List Ranked := v.ranking.take limit

end GraphView
end SymbolGraph
