/-! What a declaration needs to know about the declarations around it. -/

namespace SymbolGraph

/-- The surroundings of a node. `insideFunction` holds from the start of a function-like body until a
    type body begins, so that locals of nested blocks count as locals. -/
structure Scope where
  /-- The names of the namespaces and types around, with dots between. -/
  qualifier : String := ""
  insideFunction : Bool := false
  /-- The node is directly inside the body of a type. -/
  inTypeBody : Bool := false
  deriving Repr, BEq, DecidableEq

/-- What a node opens for the nodes below it. -/
inductive Opening where
  /-- Nothing new. -/
  | same
  /-- The body of a function, method or lambda, or another place where names are local. -/
  | function
  /-- The body of the type of that name. -/
  | type (name : String)
  /-- The namespace of that name. -/
  | space (name : String)
  deriving Repr, BEq, DecidableEq

namespace Scope

/-- The surroundings of a whole file. -/
def top : Scope := {}

/-- The qualified name of `name`. -/
def qualify (s : Scope) (name : String) : String :=
  if s.qualifier.isEmpty then name else s.qualifier ++ "." ++ name

/-- The scope inside the body of the type `name`. -/
def enterType (s : Scope) (name : String) : Scope where
  qualifier := s.qualify name
  insideFunction := false
  inTypeBody := true

/-- The scope inside the namespace `name`. -/
def enterSpace (s : Scope) (name : String) : Scope where
  qualifier := s.qualify name
  insideFunction := s.insideFunction
  inTypeBody := false

/-- The scope inside a function-like body. -/
def enterFunction (s : Scope) : Scope where
  qualifier := s.qualifier
  insideFunction := true
  inTypeBody := false

/-- The scope that an opening leads to. -/
def enter (s : Scope) : Opening → Scope
  | .same => s
  | .function => s.enterFunction
  | .type name => s.enterType name
  | .space name => s.enterSpace name

end Scope
end SymbolGraph
