import SymbolGraph.Tree.Walk

/-! Reading C# trees. A namespace declared for the whole file qualifies its later siblings. -/

namespace SymbolGraph.CSharp

open SymbolGraph.Tree

/-- The kind of type that a declaration of this kind declares. -/
def typeKind? : String → Option SymbolKind
  | "class_declaration" | "record_declaration" | "record_struct_declaration" | "struct_declaration" =>
    some .class
  | "interface_declaration" => some .interface
  | "enum_declaration" => some .type
  | _ => none

/-- The text of the node's name: the child in that role, or else the first identifier. -/
def nameText? (source : String) (n : Node) : Option String :=
  ((n.child? "name").or (n.childOfKind? "identifier")).map (·.text source)

/-- The word only introduces what a using directive names. -/
def isUsingWord (word : String) : Bool := ["global", "using", "static"].contains word

/-- What the text of a using directive imports and binds. -/
def readUsing? (text : String) : Option (String × List String) :=
  let words := (Text.words (Text.trimEndChar ';' (Text.trim text))).dropWhile isUsingWord
  let body := Text.join ' ' words
  if body.isEmpty then none
  else
    match Text.cutFirst '=' body with
    | some (renamed, target) => some (Text.trim target, [Text.trim renamed])
    | none => some (body, [lastSegment body])

/-- The fields that a field declaration declares. -/
def fields (source : String) (n : Node) (scope : Scope) : Findings :=
  let kind : SymbolKind := if n.hasToken source "const" then .constant else .variable
  given (n.childOfKind? "variable_declaration") fun declaration =>
    collect (fun (declarator : Node) =>
      given (nameText? source declarator) fun name => declareOuter scope name kind declarator)
      (declaration.children.filter (·.kind == "variable_declarator"))

/-- What becomes of a node of a C# tree. -/
def visit (source _parentKind : String) (n : Node) (scope : Scope) : Visit :=
  let name := nameText? source n
  let named kind := given name fun name => declare scope name kind n
  match typeKind? n.kind with
  | some kind =>
    match name with
    | some name => { found := declare scope name kind n, opening := .type name }
    | none => { descent := .stop }
  | none =>
    match n.kind with
    | "namespace_declaration" =>
      match name with
      | some name => { opening := .space name }
      | none => {}
    | "delegate_declaration" => { found := named .type, descent := .stop }
    | "method_declaration" => { found := named .method, opening := .function }
    | "local_function_statement" => { found := named .function, opening := .function }
    | "constructor_declaration" => { found := named .constructor, opening := .function }
    | "destructor_declaration" =>
      { found := given name fun name => declare scope ("~" ++ name) .method n
        opening := .function }
    | "operator_declaration" =>
      { found := given (n.child? "operator") fun operator =>
          declare scope ("operator" ++ operator.text source) .method n
        opening := .function }
    | "property_declaration" =>
      { found := if scope.inTypeBody then named .variable else {}, opening := .function }
    | "field_declaration" => { found := fields source n scope, opening := .function }
    | "lambda_expression" | "anonymous_method_expression" => { opening := .function }
    | "using_directive" =>
      { found := given (readUsing? (n.text source)) fun (specifier, names) =>
          importing specifier names
        descent := .stop }
    | "invocation_expression" =>
      { found := given (n.child? "function") fun function => call (function.text source) n }
    | _ => {}

/-- The namespace that a declaration for the whole file opens. -/
def siblingSpace? (source : String) (n : Node) : Option String :=
  if n.kind == "file_scoped_namespace_declaration" then nameText? source n else none

/-- How C# trees are read. -/
def dialect : Dialect := { visit, siblingSpace?, rootHoldsOnly := true }

end SymbolGraph.CSharp
