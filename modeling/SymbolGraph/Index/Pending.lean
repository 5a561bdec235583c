import SymbolGraph.Extraction
import SymbolGraph.Graph.Basic

/-! Files whose nodes are stored and whose imports and calls are still to be resolved. -/

namespace SymbolGraph.Index

/-- A file with its new nodes. -/
structure Pending where
  path : String
  /-- The name of the language. -/
  language : String
  found : Findings
  /-- The numbers and spans of the nodes, in the order of the symbols. -/
  nodes : List (NodeId × Span)
  deriving Repr, BEq, DecidableEq

namespace Pending

/-- The node that the file's imports start from. -/
def firstNode? (p : Pending) : Option NodeId := p.nodes.head?.map (·.1)

/-- The first node around the call. -/
def enclosing? (p : Pending) (call : CallSite) : Option NodeId :=
  (p.nodes.find? fun (_, span) => span.contains call.span).map (·.1)

/-- The first node with each qualified name. -/
def nodeMap (p : Pending) : List (String × NodeId) :=
  let named := p.found.symbols.zip p.nodes |>.map fun (symbol, id, _) => (symbol.fqname, id)
  named.foldl (fun known entry => if known.any (·.1 == entry.1) then known else known ++ [entry]) []

end Pending
end SymbolGraph.Index
