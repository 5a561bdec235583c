import SymbolGraph.Tree.Walk

/-! Reading Kotlin trees. Only nodes that the grammar names are looked at. -/

namespace SymbolGraph.Kotlin

open SymbolGraph.Tree

/-- The kinds of node that hold a name. -/
def nameKinds : List String := ["identifier", "type_identifier", "simple_identifier"]

/-- The trimmed name of a declaration, if it is not blank. -/
def nameOf? (source : String) (n : Node) : Option String :=
  match (n.child? "name").or (n.childOfKinds? nameKinds) with
  | none => none
  | some c =>
    let text := Text.trim (c.text source)
    if text.isEmpty then none else some text

/-- What an import imports and binds: after the path, an alias or a star may follow. -/
def readImport? (source : String) (n : Node) : Option (String × List String) :=
  let isPath (c : Node) := ["qualified_identifier", "identifier"].contains c.kind
  match n.children.dropWhile (!isPath ·) with
  | [] => none
  | path :: after =>
    let specifier := path.text source
    let isAlias (c : Node) := c.kind == "identifier" || c.kind == "simple_identifier"
    let names :=
      match (after.filter isAlias).getLast? with
      | some renamed => [renamed.text source]
      | none => if after.any (·.kind == "*") then [] else [lastSegment specifier]
    some (specifier, names)

/-- The kind of type that a class declaration declares. -/
def classKind (source : String) (n : Node) : SymbolKind :=
  if n.hasToken source "interface" then .interface
  else if n.hasToken source "enum" then .type
  else .class

/-- The name of the property that a property declaration declares. -/
def propertyName? (source : String) (n : Node) : Option String :=
  ((n.childOfKind? "variable_declaration").bind (·.childOfKinds? nameKinds)).map (·.text source)

/-- What becomes of a node of a Kotlin tree that the grammar names. -/
def visitNamed (source : String) (n : Node) (scope : Scope) : Visit :=
  match n.kind with
  | "class_declaration" =>
    match nameOf? source n with
    | some name => { found := declare scope name (classKind source n) n, opening := .type name }
    | none => {}
  | "object_declaration" | "companion_object" =>
    let name := (nameOf? source n).getD "Companion"
    { found := declare scope name .class n, opening := .type name }
  | "function_declaration" =>
    let kind : SymbolKind := if scope.inTypeBody then .method else .function
    { found := given (nameOf? source n) fun name => declare scope name kind n
      opening := .function }
  | "secondary_constructor" =>
    { found := declare scope "constructor" .constructor n, opening := .function }
  | "property_declaration" =>
    let kind : SymbolKind := if n.hasToken source "const" then .constant else .variable
    { found := given (propertyName? source n) fun name => declareOuter scope name kind n
      opening := .function }
  | "type_alias" =>
    let name := ((n.child? "name").or (n.child? "type")).or (n.childOfKinds? nameKinds)
    { found := given name fun name => declare scope (name.text source) .type n
      descent := .stop }
  | "lambda_literal" | "anonymous_function" | "anonymous_initializer" | "getter" | "setter" =>
    { opening := .function }
  | "import" | "import_header" =>
    { found := given (readImport? source n) fun (specifier, names) => importing specifier names
      descent := .stop }
  | "call_expression" =>
    { found := given n.namedChild? fun callee => call (callee.text source) n }
  | _ => {}

/-- What becomes of a node of a Kotlin tree. -/
def visit (source _parentKind : String) (n : Node) (scope : Scope) : Visit :=
  if n.label.named then visitNamed source n scope else { descent := .stop }

/-- How Kotlin trees are read. -/
def dialect : Dialect := { visit }

end SymbolGraph.Kotlin
