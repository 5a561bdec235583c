import SymbolGraph.Span

/-! What is read out of a source file: its declarations, its imports and its calls. -/

namespace SymbolGraph

/-- What a declaration declares. -/
inductive SymbolKind where
  | function
  | method
  | constructor
  | «class»
  | interface
  | type
  | struct
  | variable
  | constant
  deriving Repr, BEq, DecidableEq

namespace SymbolKind

/-- Every kind of symbol. -/
def all : List SymbolKind :=
  [.function, .method, .constructor, .class, .interface, .type, .struct, .variable, .constant]

/-- The word for the kind in records. -/
def text : SymbolKind → String
  | .function => "function"
  | .method => "method"
  | .constructor => "constructor"
  | .class => "class"
  | .interface => "interface"
  | .type => "type"
  | .struct => "struct"
  | .variable => "variable"
  | .constant => "constant"

/-- The kind that the word stands for. -/
def ofText? (word : String) : Option SymbolKind := all.find? (·.text == word)

end SymbolKind

/-- A declaration found in a file. -/
structure Symbol where
  name : String
  /-- The name after the names of the namespaces and types around it, with dots between. -/
  fqname : String
  kind : SymbolKind
  span : Span
  deriving Repr, BEq, DecidableEq

/-- One import statement. -/
structure ImportDeclaration where
  /-- What is imported, without quotes. -/
  specifier : String
  /-- The names that the statement binds. -/
  names : List String
  deriving Repr, BEq, DecidableEq

/-- An invocation. -/
structure CallSite where
  /-- The text of the invoked expression. -/
  callee : String
  span : Span
  deriving Repr, BEq, DecidableEq

/-- The declarations, imports and calls of a file, each in the order in which they were found. -/
structure Findings where
  symbols : List Symbol := []
  imports : List ImportDeclaration := []
  calls : List CallSite := []
  deriving Repr, BEq, DecidableEq

namespace Findings

/-- Nothing found. -/
def empty : Findings := {}

/-- What was found first, then what was found next. -/
def append (a b : Findings) : Findings where
  symbols := a.symbols ++ b.symbols
  imports := a.imports ++ b.imports
  calls := a.calls ++ b.calls

instance : Append Findings := ⟨append⟩

end Findings
end SymbolGraph
