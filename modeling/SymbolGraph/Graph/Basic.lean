import SymbolGraph.Number.Binary
import SymbolGraph.Symbol
import SymbolGraph.Text.Split
import SymbolGraph.Time.Instant

/-! The rows of a symbol graph: its nodes are the symbols of the workspace, its edges say which symbol
    imports or calls which. -/

namespace SymbolGraph

/-- How one symbol refers to another. -/
inductive EdgeKind where
  | imports
  | calls
  deriving Repr, BEq, DecidableEq

namespace EdgeKind

/-- Every kind of edge. -/
def all : List EdgeKind := [imports, calls]

/-- The word for the kind in records. -/
def text : EdgeKind → String
  | imports => "imports"
  | calls => "calls"

/-- The kind that the word stands for. -/
def ofText? (word : String) : Option EdgeKind := all.find? (·.text == word)

end EdgeKind

/-- The number of a node. -/
abbrev NodeId := Int

/-- The number of an edge. -/
abbrev EdgeId := Int

/-- A symbol in its file. -/
structure GraphNode where
  id : NodeId
  /-- The file that declares the symbol. -/
  path : String
  symbol : Symbol
  deriving Repr, BEq, DecidableEq

/-- Whether `target` may mean the symbol: it is the name, or the end of the qualified name from some
    dot on. -/
def Symbol.matchesReference (s : Symbol) (target : String) : Bool :=
  s.name == target || s.fqname == target ||
    (Text.beforeEnd? target s.fqname).any (Text.hasEnd "." ·)

/-- How much a reference weighs. -/
inductive Weight where
  | finite (value : Decimal)
  /-- More, or less, than every number. -/
  | infinite
  deriving Repr, BEq, DecidableEq

/-- The weight of that many units, as exactly as it is kept. -/
def Weight.ofDecimal (d : Decimal) : Weight :=
  match d.nearestBinary? with
  | some w => .finite w
  | none => .infinite

/-- A reference from one node to another. -/
structure Edge where
  id : EdgeId
  kind : EdgeKind
  source : NodeId
  target : NodeId
  weight : Weight := .finite ⟨1, 0⟩
  createdAt : Time.Instant := .epoch
  deriving Repr, BEq, DecidableEq

end SymbolGraph
