import SymbolGraph.Tree.Walk

/-! Reading TypeScript and JavaScript trees. The grammars share the names of the nodes looked at here;
    those of types occur in TypeScript only. -/

namespace SymbolGraph.Ecma

open SymbolGraph.Tree

/-- A node whose body is a function's. -/
def isFunctionKind (kind : String) : Bool :=
  ["arrow_function", "function_expression", "function", "generator_function"].contains kind

/-- The text of each bound name in a list of import or export specifiers of the kind: the alias, or
    else the name itself. -/
def specifierNames (source kind : String) (list : Node) : List String :=
  (list.children.filter (·.kind == kind)).filterMap fun spec =>
    ((spec.child? "alias").or (spec.child? "name")).map (·.text source)

/-- The text of the first identifier among the children. -/
def identifierText? (source : String) (n : Node) : Option String :=
  (n.childOfKind? "identifier").map (·.text source)

/-! ### Imports -/

/-- The names that a part of an import clause binds. -/
def clauseNames (source : String) (part : Node) : List String :=
  match part.kind with
  | "identifier" => [part.text source]
  | "namespace_import" => (identifierText? source part).toList
  | "named_imports" => specifierNames source "import_specifier" part
  | _ => []

/-- The import statement's import, either of the form `import x = require("y")` or with a clause. -/
def importStatement (source : String) (n : Node) : Findings :=
  match n.childOfKind? "import_require_clause" with
  | some clause =>
    given (clause.child? "source") fun specifier =>
      importing (specifier.text source) (identifierText? source clause).toList
  | none =>
    given (n.child? "source") fun specifier =>
      let names :=
        match n.childOfKind? "import_clause" with
        | some clause => clause.children.flatMap (clauseNames source)
        | none => []
      importing (specifier.text source) names

/-- The names that an export from another module passes on. -/
def exportNames (source : String) (n : Node) : List String :=
  let clause :=
    match n.childOfKind? "export_clause" with
    | some clause => specifierNames source "export_specifier" clause
    | none => []
  clause ++ ((n.childOfKind? "namespace_export").bind (identifierText? source)).toList

/-- The export statement's import, if it exports from another module. -/
def exportStatement (source : String) (n : Node) : Findings :=
  given (n.child? "source") fun specifier =>
    importing (specifier.text source) (exportNames source n)

/-- The argument of a call of `require` with a string. -/
def requireTarget? (source : String) (value : Node) : Option String :=
  if value.kind == "call_expression" then
    match value.child? "function" with
    | some function =>
      if function.text source == "require" then
        ((value.child? "arguments").bind (·.childOfKind? "string")).map (·.text source)
      else none
    | none => none
  else none

mutual

/-- The names that a pattern on the left of a declaration binds. -/
def patternNames (source : String) : Node → List String
  | .mk label children =>
    if label.kind == "identifier" || label.kind == "shorthand_property_identifier_pattern" then
      [Node.textOf source label.span]
    else if label.kind == "pair_pattern" then pairNames source children
    else patternNamesAll source children

/-- The names that the patterns bind, in order. -/
def patternNamesAll (source : String) : List Node → List String
  | [] => []
  | n :: ns => patternNames source n ++ patternNamesAll source ns

/-- The names that the first pattern in the role of a value binds. -/
def pairNames (source : String) : List Node → List String
  | [] => []
  | n :: ns => if n.label.field == "value" then patternNames source n else pairNames source ns

end

/-! ### Declarations -/

/-- What a declarator contributes: an import if its value is a call of `require`, and a binding if
    its left side is a plain name. -/
def declarator (source : String) (n : Node) (scope : Scope) : Findings :=
  let value := n.child? "value"
  given (n.child? "name") fun name =>
    let required :=
      given (value.bind (requireTarget? source)) fun specifier =>
        importing specifier (patternNames source name)
    let kind := if value.any (isFunctionKind ·.kind) then .function else .variable
    let binding :=
      if name.kind == "identifier" then declareOuter scope (name.text source) kind n else {}
    required ++ binding

/-- The declaration of a member by the node, which counts only directly inside a type. -/
def member (source : String) (n : Node) (scope : Scope) (kind : String → SymbolKind) : Findings :=
  if scope.inTypeBody then
    given (n.fieldText? source "name") fun name => declare scope name (kind name) n
  else {}

/-- What becomes of a node of a TypeScript or JavaScript tree. -/
def visit (source parentKind : String) (n : Node) (scope : Scope) : Visit :=
  let name := n.fieldText? source "name"
  match n.kind with
  | "function_declaration" | "generator_function_declaration" =>
    { found := given name fun name => declare scope name .function n, opening := .function }
  | "class_declaration" | "abstract_class_declaration" | "class" =>
    match name with
    | some name => { found := declare scope name .class n, opening := .type name }
    | none => { opening := .function }
  | "method_definition" =>
    let kind name := if name == "constructor" then SymbolKind.constructor else .method
    { found := member source n scope kind, opening := .function }
  | "method_signature" | "abstract_method_signature" =>
    { found := member source n scope fun _ => .method, descent := .stop }
  | "public_field_definition" | "field_definition" =>
    let kind : SymbolKind :=
      if (n.child? "value").any (isFunctionKind ·.kind) then .method else .variable
    let found :=
      if scope.inTypeBody then
        given (name.or (n.fieldText? source "property")) fun name => declare scope name kind n
      else {}
    { found, opening := .function }
  | "property_signature" =>
    { found := member source n scope fun _ => .variable, descent := .stop }
  | "interface_declaration" =>
    match name with
    | some name => { found := declare scope name .interface n, opening := .type name }
    | none => { descent := .stop }
  | "type_alias_declaration" | "enum_declaration" =>
    { found := given name fun name => declare scope name .type n, descent := .stop }
  | "internal_module" | "module" =>
    match name with
    | some name => { opening := .space name }
    | none => {}
  | "lexical_declaration" | "variable_declaration" => { descent := .ofKind "variable_declarator" }
  | "variable_declarator" =>
    if parentKind == "lexical_declaration" || parentKind == "variable_declaration" then
      { found := declarator source n scope, descent := .ofField "value" }
    else {}
  | "arrow_function" | "function_expression" | "function" | "generator_function" =>
    { opening := .function }
  | "import_statement" => { found := importStatement source n, descent := .stop }
  | "export_statement" => { found := exportStatement source n }
  | "call_expression" =>
    { found := given (n.child? "function") fun function => call (function.text source) n }
  | _ => {}

/-- How TypeScript and JavaScript trees are read. -/
def dialect : Dialect := { visit }

end SymbolGraph.Ecma
