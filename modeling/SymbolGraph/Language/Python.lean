import SymbolGraph.Tree.Walk

/-! Reading Python trees. -/

namespace SymbolGraph.Python

open SymbolGraph.Tree

/-- A name in capitals, digits and underscores with at least one capital. -/
def isConstantName (name : String) : Bool :=
  name.toList.any Char.isUpper &&
    name.toList.all fun c => c.isUpper || c.isDigit || c == '_'

/-- The module that a part of an import names, and the name that it binds. -/
def aliased (source : String) (n : Node) : String × String :=
  if n.kind == "aliased_import" then
    let target := ((n.child? "name").map (·.text source)).getD ""
    (target, ((n.child? "alias").map (·.text source)).getD target)
  else
    let target := n.text source
    (target, lastSegment target)

/-- What becomes of a node of a Python tree. -/
def visit (source _parentKind : String) (n : Node) (scope : Scope) : Visit :=
  match n.kind with
  | "function_definition" =>
    let found :=
      given (n.child? "name") fun name =>
        let name := name.text source
        let kind : SymbolKind :=
          if scope.inTypeBody then if name == "__init__" then .constructor else .method
          else .function
        declare scope name kind n
    { found, opening := .function }
  | "class_definition" =>
    match n.child? "name" with
    | some name =>
      { found := declare scope (name.text source) .class n, opening := .type (name.text source) }
    | none => { descent := .stop }
  | "assignment" =>
    let found :=
      given ((n.child? "left").filter (·.kind == "identifier")) fun left =>
        let name := left.text source
        declareOuter scope name (if isConstantName name then .constant else .variable) n
    { found }
  | "lambda" => { opening := .function }
  | "import_statement" =>
    let found :=
      collect (fun part => importing (aliased source part).1 [(aliased source part).2])
        (n.childrenIn "name")
    { found, descent := .stop }
  | "import_from_statement" =>
    let found :=
      given (n.child? "module_name") fun origin =>
        importing (origin.text source) ((n.childrenIn "name").map fun part => (aliased source part).2)
    { found, descent := .stop }
  | "call" =>
    { found := given (n.child? "function") fun function => call (function.text source) n }
  | _ => {}

/-- How Python trees are read. -/
def dialect : Dialect := { visit }

end SymbolGraph.Python
