import SymbolGraph.Tree.Walk

/-! Reading Java trees. -/

namespace SymbolGraph.Java

open SymbolGraph.Tree

/-- The kind of type that a declaration of this kind declares. -/
def typeKind? : String → Option SymbolKind
  | "class_declaration" | "record_declaration" => some .class
  | "interface_declaration" | "annotation_type_declaration" => some .interface
  | "enum_declaration" => some .type
  | _ => none

/-- What the text of an import declaration imports and binds. A wildcard binds nothing. -/
def readImport (text : String) : String × List String :=
  let words := Text.trim (Text.trimStarts "import" (Text.trim text))
  let body := Text.trim (Text.trimEndChar ';' words)
  let body := ((Text.afterStart? "static " body).map Text.trim).getD body
  match Text.beforeEnd? ".*" body with
  | some package => (package, [])
  | none => (body, [lastSegment body])

/-- The import of an import declaration, unless it names nothing. -/
def importDeclaration (source : String) (n : Node) : Findings :=
  let (specifier, names) := readImport (n.text source)
  if specifier.isEmpty then {} else importing specifier names

/-- The fields that a field declaration declares. -/
def fields (source : String) (n : Node) (scope : Scope) : Findings :=
  let constant := n.kind == "constant_declaration" ||
    (n.hasToken source "static" && n.hasToken source "final")
  let kind : SymbolKind := if constant then .constant else .variable
  collect (fun (declarator : Node) =>
    given (declarator.child? "name") fun name => declareOuter scope (name.text source) kind declarator)
    (n.childrenIn "declarator")

/-- The receiver and the name of an invoked method, without the arguments. -/
def invoked (source : String) (n : Node) : Findings :=
  given (n.child? "name") fun name =>
    call (Node.textOf source ⟨n.span.start, name.span.stop⟩) n

/-- What becomes of a node of a Java tree. -/
def visit (source _parentKind : String) (n : Node) (scope : Scope) : Visit :=
  let named kind := given (n.child? "name") fun name => declare scope (name.text source) kind n
  match typeKind? n.kind with
  | some kind =>
    match n.child? "name" with
    | some name =>
      { found := declare scope (name.text source) kind n, opening := .type (name.text source) }
    | none => { descent := .stop }
  | none =>
    match n.kind with
    | "method_declaration" => { found := named .method, opening := .function }
    | "constructor_declaration" | "compact_constructor_declaration" =>
      { found := named .constructor, opening := .function }
    | "field_declaration" | "constant_declaration" =>
      { found := fields source n scope, opening := .function }
    | "lambda_expression" => { opening := .function }
    | "import_declaration" => { found := importDeclaration source n, descent := .stop }
    | "method_invocation" => { found := invoked source n }
    | _ => {}

/-- How Java trees are read. -/
def dialect : Dialect := { visit }

end SymbolGraph.Java
