import SymbolGraph.Tree.Walk

/-! Reading Go trees. A method keeps its bare name, because a receiver is no namespace, and the
    package clause never qualifies. -/

namespace SymbolGraph.Go

open SymbolGraph.Tree

/-- The import of one import specification. The blank and the dot alias bind nothing. -/
def importSpec (source : String) (n : Node) : Findings :=
  given (n.child? "path") fun path =>
    let specifier := unquote (path.text source)
    let names :=
      match n.child? "name" with
      | some renamed => if renamed.kind == "package_identifier" then [renamed.text source] else []
      | none => [lastSegment specifier]
    importing specifier names

/-- The kind of a type declaration, told by what it is made of. -/
def typeKind (n : Node) : SymbolKind :=
  if n.kind == "type_spec" then
    match (n.child? "type").map (·.kind) with
    | some "struct_type" => .struct
    | some "interface_type" => .interface
    | _ => .type
  else .type

/-- What becomes of a node of a Go tree. -/
def visit (source _parentKind : String) (n : Node) (scope : Scope) : Visit :=
  let named kind := given (n.child? "name") fun name => declare scope (name.text source) kind n
  let bound kind := collect (fun (name : Node) => declareOuter scope (name.text source) kind n) (n.childrenIn "name")
  match n.kind with
  | "function_declaration" => { found := named .function, opening := .function }
  | "method_declaration" => { found := named .method, opening := .function }
  | "type_spec" | "type_alias" =>
    { found := given (n.child? "name") fun name => declareOuter scope (name.text source) (typeKind n) n
      descent := .stop }
  | "var_spec" => { found := bound .variable }
  | "const_spec" => { found := bound .constant }
  | "func_literal" => { opening := .function }
  | "import_spec" => { found := importSpec source n, descent := .stop }
  | "call_expression" =>
    { found := given (n.child? "function") fun function => call (function.text source) n }
  | _ => {}

/-- How Go trees are read. -/
def dialect : Dialect := { visit }

end SymbolGraph.Go
