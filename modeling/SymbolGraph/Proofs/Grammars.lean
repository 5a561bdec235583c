import SymbolGraph.Extraction
import SymbolGraph.Proofs.Places

/-! What the nodes of each language stand for, told by their kinds. A dialect follows a grammar if at every node it
    opens what the grammar says, goes into the children that the grammar says, and finds there the node's own
    invocation and declarations that the scope qualifies. -/

namespace SymbolGraph

/-- The symbol is a variable or a constant. -/
def Symbol.IsBinding (s : Symbol) : Prop := s.kind = .variable ∨ s.kind = .constant

namespace Tree

/-- What the kinds of node of a language stand for. -/
structure Grammar where
  /-- Declarations of types. Without a name they are not gone into, but for the two lists that follow. -/
  types : List String
  /-- Types that are like functions if they have no name. -/
  localTypes : List String := []
  /-- Types that are like other nodes if they have no name. -/
  plainTypes : List String := []
  /-- Declarations of namespaces. -/
  spaces : List String := []
  /-- Declarations of a namespace for the rest of the file. -/
  fileSpaces : List String := []
  /-- Function-like nodes, fields and properties among them. -/
  functions : List String
  /-- The name of a declaration of a type or a namespace. -/
  name? : (source : String) → Node → Option String
  /-- Fields that declare their declarators. -/
  fields : List String := []
  /-- Import statements. -/
  imports : List String
  /-- Other nodes that are not gone into. -/
  leaves : List String := []
  /-- Lists of declarators, of which only the values are gone into. -/
  bindings : List String := []
  /-- Only nodes that the language names are looked at. -/
  namedOnly : Bool := false
  /-- Invocations. -/
  invocation : String
  /-- The text of what is invoked. -/
  callee? : (source : String) → Node → Option String

namespace Grammar

/-- What a node opens for the nodes below it. -/
def opens (g : Grammar) (source : String) (n : Node) : Opening :=
  if g.functions.contains n.kind then .function
  else if g.types.contains n.kind then
    match g.name? source n with
    | some name => .type name
    | none => if g.localTypes.contains n.kind then .function else .same
  else if g.spaces.contains n.kind then
    match g.name? source n with
    | some name => .space name
    | none => .same
  else .same

/-- The namespace that a node opens for the rest of the file. -/
def fileSpace? (g : Grammar) (source : String) (n : Node) : Option String :=
  if g.fileSpaces.contains n.kind then g.name? source n else none

/-- Whether the node is looked at. -/
def looksAt (g : Grammar) (n : Node) : Bool := !g.namedOnly || n.label.named

/-- Whether none of the nodes below is looked at, though the node is no import. -/
def isLeaf (g : Grammar) (source : String) (n : Node) : Bool :=
  !g.looksAt n || g.leaves.contains n.kind ||
    (g.types.contains n.kind && (g.name? source n).isNone && !g.localTypes.contains n.kind &&
      !g.plainTypes.contains n.kind)

/-- Which children of a node that is no import are walked. -/
def enters (g : Grammar) (source parentKind : String) (n : Node) : Descent :=
  if g.isLeaf source n then .stop
  else if g.bindings.contains n.kind then .ofKind "variable_declarator"
  else if n.kind == "variable_declarator" && g.bindings.contains parentKind then .ofField "value"
  else .all

/-- Which children of a node are walked. -/
def descent (g : Grammar) (source parentKind : String) (n : Node) : Descent :=
  if g.imports.contains n.kind then .stop else g.enters source parentKind n

/-- The node's own invocation. -/
def invocation? (g : Grammar) (source : String) (n : Node) : Option CallSite :=
  if g.looksAt n && n.kind == g.invocation then
    ((g.callee? source n).map Text.trim).bind fun callee => if callee.isEmpty then none else some ⟨callee, n.span⟩
  else none

/-- The node declares the symbol, if need be by a declarator. -/
def Declares (g : Grammar) (n : Node) (s : Symbol) : Prop :=
  s.span = n.span ∨
    g.fields.contains n.kind = true ∧ ∃ c ∈ n.children ++ n.children.flatMap (·.children), s.span = c.span

end Grammar

/-- The symbols are declared by the node, with names that the scope qualifies, and bindings are not local. -/
def Owned (g : Grammar) (scope : Scope) (n : Node) (f : Findings) : Prop :=
  ∀ s ∈ f.symbols, g.Declares n s ∧ s.fqname = scope.qualify s.name ∧
    (s.IsBinding → scope.insideFunction = false ∨ scope.inTypeBody = true)

/-- The dialect reads trees as the grammar says. -/
structure Dialect.Follows (d : Dialect) (g : Grammar) : Prop where
  descent source parentKind n scope : (d.visit source parentKind n scope).descent = g.descent source parentKind n
  opening source parentKind n scope : g.descent source parentKind n ≠ .stop →
    (d.visit source parentKind n scope).opening = g.opens source n
  space source n : d.siblingSpace? source n = g.fileSpace? source n
  owned source parentKind n scope : Owned g scope n (d.visit source parentKind n scope).found
  calls source parentKind n scope :
    (d.visit source parentKind n scope).found.calls = (g.invocation? source n).toList

/-! ### What a node contributes -/

section
variable {g : Grammar} {source : String} {scope : Scope} {n m : Node} {name : String} {kind : SymbolKind} {α : Type}
  {f : α → Findings}

@[simp] theorem calls_declare : (declare scope name kind n).calls = [] := rfl

@[simp] theorem calls_declareOuter : (declareOuter scope name kind n).calls = [] := by
  unfold declareOuter
  split <;> rfl

@[simp] theorem calls_importing (specifier : String) (names : List String) :
    (importing specifier names).calls = [] := by
  unfold importing
  dsimp only
  split <;> rfl

@[simp] theorem symbols_importing (specifier : String) (names : List String) :
    (importing specifier names).symbols = [] := by
  unfold importing
  dsimp only
  split <;> rfl

@[simp] theorem symbols_call (callee : String) : (call callee n).symbols = [] := by
  unfold call
  dsimp only
  split <;> rfl

@[simp] theorem calls_given (x : Option α) : (given x f).calls = x.toList.flatMap fun a => (f a).calls := by
  cases x <;> simp [given]

@[simp] theorem symbols_given (x : Option α) : (given x f).symbols = x.toList.flatMap fun a => (f a).symbols := by
  cases x <;> simp [given]

/-- What is invoked makes a call, unless its text is blank. -/
@[simp high] theorem calls_invoked {text : α → String} (x : Option α) :
    (given x fun a => call (text a) n).calls =
      (((x.map text).map Text.trim).bind fun callee => if callee.isEmpty then none else some ⟨callee, n.span⟩).toList := by
  cases x with
  | none => rfl
  | some a =>
    simp only [given, call, Option.map_some, Option.bind_some]
    split <;> rfl

namespace Owned

theorem of_no_symbols {f : Findings} (h : f.symbols = []) : Owned g scope n f := fun s hs => by simp [h] at hs

theorem declared (hm : g.Declares n ⟨name, scope.qualify name, kind, m.span⟩)
    (h : kind = .variable ∨ kind = .constant → scope.insideFunction = false ∨ scope.inTypeBody = true) :
    Owned g scope n (declare scope name kind m) := fun s hs => by
  obtain rfl := List.mem_singleton.mp hs
  exact ⟨hm, rfl, h⟩

theorem declare (h : scope.inTypeBody = true ∨ kind ≠ .variable ∧ kind ≠ .constant) :
    Owned g scope n (declare scope name kind n) :=
  declared (.inl rfl) fun hbinding => by
    rcases h with h | ⟨hv, hc⟩
    · exact .inr h
    · exact absurd hbinding (by simp [hv, hc])

theorem declareOuter (hm : g.Declares n ⟨name, scope.qualify name, kind, m.span⟩) :
    Owned g scope n (declareOuter scope name kind m) := by
  unfold Tree.declareOuter
  split
  · exact of_no_symbols rfl
  · next h => exact declared hm fun _ => .inl (by simpa using h)

theorem given {x : Option α} (h : ∀ a, x = some a → Owned g scope n (f a)) : Owned g scope n (given x f) := by
  cases x with
  | none => exact of_no_symbols rfl
  | some a => exact h a rfl

theorem collect {l : List α} (h : ∀ a ∈ l, Owned g scope n (f a)) : Owned g scope n (collect f l) := fun s hs => by
  rw [symbols_collect] at hs
  obtain ⟨a, ha, hs⟩ := List.mem_flatMap.mp hs
  exact h a ha s hs

theorem append {a b : Findings} (ha : Owned g scope n a) (hb : Owned g scope n b) : Owned g scope n (a ++ b) :=
  fun s hs => by
    rcases List.mem_append.mp (Findings.symbols_append a b ▸ hs) with hs | hs
    · exact ha s hs
    · exact hb s hs

end Owned

end

/-! ### Declarations of types -/

/-- A declaration of a type is no other node of interest, and is gone into exactly if it has a name. -/
structure Grammar.TypesApart (g : Grammar) : Prop where
  apart : ∀ kind ∈ g.types, kind ∉ g.functions ∧ kind ∉ g.imports ∧ kind ∉ g.leaves ∧ kind ∉ g.bindings ∧
    kind ≠ "variable_declarator" ∧ kind ≠ g.invocation
  closed : g.localTypes = [] ∧ g.plainTypes = [] ∧ g.namedOnly = false

namespace Grammar.TypesApart
variable {g : Grammar} {source parentKind : String} {n : Node} (hg : g.TypesApart) (h : g.types.contains n.kind = true)
include hg h

theorem descent : g.descent source parentKind n = if (g.name? source n).isSome then .all else .stop := by
  obtain ⟨-, himports, hleaves, hbindings, hdeclarator, -⟩ := hg.apart n.kind (List.contains_iff_mem.mp h)
  obtain ⟨hlocal, hplain, hnamed⟩ := hg.closed
  cases hname : g.name? source n <;>
    simp [Grammar.descent, enters, isLeaf, looksAt, himports, hleaves, hbindings, hdeclarator, hlocal, hplain, hnamed,
      hname, List.contains_iff_mem.mp h]

theorem opens {name : String} (hname : g.name? source n = some name) : g.opens source n = .type name := by
  have hfunctions := (hg.apart n.kind (List.contains_iff_mem.mp h)).1
  simp [Grammar.opens, hfunctions, List.contains_iff_mem.mp h, hname]

theorem invocation? : g.invocation? source n = none := by
  obtain ⟨-, -, -, -, -, hinvocation⟩ := hg.apart n.kind (List.contains_iff_mem.mp h)
  simp [Grammar.invocation?, hinvocation]

end Grammar.TypesApart

end Tree

open SymbolGraph.Tree

/-! ### The languages -/

namespace Python

def grammar : Grammar where
  types := ["class_definition"]
  functions := ["function_definition", "lambda"]
  name? source n := (n.child? "name").map (·.text source)
  imports := ["import_statement", "import_from_statement"]
  invocation := "call"
  callee? source n := (n.child? "function").map (·.text source)

theorem dialect_follows : dialect.Follows grammar where
  descent source parentKind n scope := by
    simp only [dialect, visit]
    split <;> simp_all [Grammar.descent, Grammar.enters, Grammar.isLeaf, Grammar.looksAt, grammar]
    cases n.child? "name" <;> rfl
  opening source parentKind n scope := by
    simp only [dialect, visit]
    split <;> simp_all [Grammar.descent, Grammar.enters, Grammar.isLeaf, Grammar.looksAt, Grammar.opens, grammar]
    cases n.child? "name" <;> simp
  space source n := rfl
  owned source parentKind n scope := by
    simp only [dialect, visit]
    split
    · -- A function.
      refine .given fun name _ => .declare ?_
      split
      · exact .inl ‹_›
      · exact .inr (by simp)
    · -- A class.
      split
      · exact .declare (.inr (by simp))
      · exact .of_no_symbols rfl
    · exact .given fun left _ => .declareOuter (.inl rfl)
    · exact .of_no_symbols rfl
    all_goals exact .of_no_symbols (by simp)
  calls source parentKind n scope := by
    simp only [dialect, visit]
    split <;> simp_all [Grammar.invocation?, Grammar.looksAt, grammar]
    cases n.child? "name" <;> simp

end Python

namespace Go

def grammar : Grammar where
  types := ["type_spec", "type_alias"]
  functions := ["function_declaration", "method_declaration", "func_literal"]
  name? source n := (n.child? "name").map (·.text source)
  imports := ["import_spec"]
  leaves := ["type_spec", "type_alias"]
  invocation := "call_expression"
  callee? source n := (n.child? "function").map (·.text source)

theorem dialect_follows : dialect.Follows grammar where
  descent source parentKind n scope := by
    simp only [dialect, visit]
    split <;> simp_all [Grammar.descent, Grammar.enters, Grammar.isLeaf, Grammar.looksAt, grammar]
  opening source parentKind n scope := by
    simp only [dialect, visit]
    split <;> simp_all [Grammar.descent, Grammar.enters, Grammar.isLeaf, Grammar.looksAt, Grammar.opens, grammar]
  space source n := rfl
  owned source parentKind n scope := by
    simp only [dialect, visit]
    split
    · exact .given fun name _ => .declare (.inr (by simp))
    · exact .given fun name _ => .declare (.inr (by simp))
    · exact .given fun name _ => .declareOuter (.inl rfl)
    · exact .given fun name _ => .declareOuter (.inl rfl)
    · exact .collect fun name _ => .declareOuter (.inl rfl)
    · exact .collect fun name _ => .declareOuter (.inl rfl)
    all_goals exact .of_no_symbols (by simp [importSpec])
  calls source parentKind n scope := by
    simp only [dialect, visit]
    split <;> simp_all [Grammar.invocation?, Grammar.looksAt, grammar, importSpec]

end Go

namespace Java

def grammar : Grammar where
  types := ["class_declaration", "record_declaration", "interface_declaration", "annotation_type_declaration",
    "enum_declaration"]
  functions := ["method_declaration", "constructor_declaration", "compact_constructor_declaration",
    "field_declaration", "constant_declaration", "lambda_expression"]
  name? source n := (n.child? "name").map (·.text source)
  fields := ["field_declaration", "constant_declaration"]
  imports := ["import_declaration"]
  invocation := "method_invocation"
  callee? source n := (n.child? "name").map fun name => Node.textOf source ⟨n.span.start, name.span.stop⟩

theorem types_apart : grammar.TypesApart := ⟨by simp [grammar], rfl, rfl, rfl⟩

theorem typeKind?_isSome (kind : String) : (typeKind? kind).isSome = grammar.types.contains kind := by
  unfold typeKind?
  split <;> simp_all [grammar]

theorem typeKind?_some {kind : String} {symbolKind : SymbolKind} (h : typeKind? kind = some symbolKind) :
    grammar.types.contains kind = true ∧ symbolKind ≠ .variable ∧ symbolKind ≠ .constant := by
  refine ⟨by rw [← typeKind?_isSome, h]; rfl, ?_⟩
  unfold typeKind? at h
  split at h <;> simp_all <;> simp [← h]

theorem typeKind?_none {kind : String} (h : typeKind? kind = none) : grammar.types.contains kind = false := by
  rw [← typeKind?_isSome, h]
  rfl

theorem owned_fields {source : String} {n : Node} {scope : Scope} (h : grammar.fields.contains n.kind = true) :
    Owned grammar scope n (fields source n scope) :=
  .collect fun declarator hd => .given fun _ _ => .declareOuter
    (.inr ⟨h, declarator, List.mem_append_left _ ((List.mem_filter.mp hd).1), rfl⟩)

theorem dialect_follows : dialect.Follows grammar where
  descent source parentKind n scope := by
    simp only [dialect, visit]
    split
    · next kind hkind =>
      rw [types_apart.descent (typeKind?_some hkind).1]
      cases hname : n.child? "name" <;> simp [grammar, hname]
    · next hkind =>
      have htype := typeKind?_none hkind
      split <;> simp_all [Grammar.descent, Grammar.enters, Grammar.isLeaf, Grammar.looksAt, grammar]
  opening source parentKind n scope := by
    simp only [dialect, visit]
    split
    · next kind hkind =>
      rw [types_apart.descent (typeKind?_some hkind).1]
      cases hname : n.child? "name" with
      | none => simp [grammar, hname]
      | some name =>
        intro _
        exact (types_apart.opens (typeKind?_some hkind).1 (by simp [grammar, hname])).symm
    · next hkind =>
      have htype := typeKind?_none hkind
      split <;> simp_all [Grammar.descent, Grammar.enters, Grammar.isLeaf, Grammar.looksAt, Grammar.opens, grammar]
  space source n := rfl
  owned source parentKind n scope := by
    simp only [dialect, visit]
    split
    · next kind hkind =>
      split
      · exact .declare (.inr (typeKind?_some hkind).2)
      · exact .of_no_symbols rfl
    · split
      · exact .given fun name _ => .declare (.inr (by simp))
      · exact .given fun name _ => .declare (.inr (by simp))
      · exact .given fun name _ => .declare (.inr (by simp))
      · exact owned_fields (by simp [grammar, *])
      · exact owned_fields (by simp [grammar, *])
      all_goals exact .of_no_symbols (by simp [importDeclaration, invoked, apply_ite Findings.symbols])
  calls source parentKind n scope := by
    simp only [dialect, visit]
    split
    · next kind hkind =>
      rw [types_apart.invocation? (typeKind?_some hkind).1]
      cases n.child? "name" <;> simp
    · next hkind =>
      split <;> simp_all [Grammar.invocation?, Grammar.looksAt, grammar, importDeclaration, invoked, fields,
        apply_ite Findings.calls]

end Java

namespace CSharp

def grammar : Grammar where
  types := ["class_declaration", "record_declaration", "record_struct_declaration", "struct_declaration",
    "interface_declaration", "enum_declaration"]
  spaces := ["namespace_declaration"]
  fileSpaces := ["file_scoped_namespace_declaration"]
  functions := ["method_declaration", "local_function_statement", "constructor_declaration", "destructor_declaration",
    "operator_declaration", "property_declaration", "field_declaration", "lambda_expression",
    "anonymous_method_expression"]
  name? := nameText?
  fields := ["field_declaration"]
  imports := ["using_directive"]
  leaves := ["delegate_declaration"]
  invocation := "invocation_expression"
  callee? source n := (n.child? "function").map (·.text source)

theorem types_apart : grammar.TypesApart := ⟨by simp [grammar], rfl, rfl, rfl⟩

theorem typeKind?_isSome (kind : String) : (typeKind? kind).isSome = grammar.types.contains kind := by
  unfold typeKind?
  split <;> simp_all [grammar]

theorem typeKind?_some {kind : String} {symbolKind : SymbolKind} (h : typeKind? kind = some symbolKind) :
    grammar.types.contains kind = true ∧ symbolKind ≠ .variable ∧ symbolKind ≠ .constant := by
  refine ⟨by rw [← typeKind?_isSome, h]; rfl, ?_⟩
  unfold typeKind? at h
  split at h <;> simp_all <;> simp [← h]

theorem typeKind?_none {kind : String} (h : typeKind? kind = none) : grammar.types.contains kind = false := by
  rw [← typeKind?_isSome, h]
  rfl

theorem owned_fields {source : String} {n : Node} {scope : Scope} (h : grammar.fields.contains n.kind = true) :
    Owned grammar scope n (fields source n scope) := by
  refine .given fun declaration hdecl => .collect fun declarator hd => .given fun name _ => .declareOuter (.inr ⟨h, ?_⟩)
  have hdeclaration : declaration ∈ n.children := List.mem_of_find?_eq_some hdecl
  exact ⟨declarator, List.mem_append_right _ (List.mem_flatMap.mpr ⟨_, hdeclaration, (List.mem_filter.mp hd).1⟩), rfl⟩

theorem dialect_follows : dialect.Follows grammar where
  descent source parentKind n scope := by
    simp only [dialect, visit]
    split
    · next kind hkind =>
      rw [types_apart.descent (typeKind?_some hkind).1]
      cases hname : nameText? source n <;> simp [grammar, hname]
    · next hkind =>
      have htype := typeKind?_none hkind
      split <;> simp_all [Grammar.descent, Grammar.enters, Grammar.isLeaf, Grammar.looksAt, grammar]
      cases nameText? source n <;> rfl
  opening source parentKind n scope := by
    simp only [dialect, visit]
    split
    · next kind hkind =>
      rw [types_apart.descent (typeKind?_some hkind).1]
      cases hname : nameText? source n with
      | none => simp [grammar, hname]
      | some name =>
        intro _
        exact (types_apart.opens (typeKind?_some hkind).1 (by simp [grammar, hname])).symm
    · next hkind =>
      have htype := typeKind?_none hkind
      split <;> simp_all [Grammar.descent, Grammar.enters, Grammar.isLeaf, Grammar.looksAt, Grammar.opens, grammar]
      cases nameText? source n <;> rfl
  space source n := by
    simp [dialect, siblingSpace?, Grammar.fileSpace?, grammar]
  owned source parentKind n scope := by
    simp only [dialect, visit]
    split
    · next kind hkind =>
      split
      · exact .declare (.inr (typeKind?_some hkind).2)
      · exact .of_no_symbols rfl
    · split
      · split <;> exact .of_no_symbols rfl
      · exact .given fun name _ => .declare (.inr (by simp))
      · exact .given fun name _ => .declare (.inr (by simp))
      · exact .given fun name _ => .declare (.inr (by simp))
      · exact .given fun name _ => .declare (.inr (by simp))
      · exact .given fun name _ => .declare (.inr (by simp))
      · exact .given fun name _ => .declare (.inr (by simp))
      · -- A property.
        split
        · next hbody => exact .given fun name _ => .declare (.inl hbody)
        · exact .of_no_symbols rfl
      · exact owned_fields (by simp [grammar, *])
      all_goals exact .of_no_symbols (by simp)
  calls source parentKind n scope := by
    simp only [dialect, visit]
    split
    · next kind hkind =>
      rw [types_apart.invocation? (typeKind?_some hkind).1]
      cases nameText? source n <;> simp
    · next hkind =>
      split <;> simp_all [Grammar.invocation?, Grammar.looksAt, grammar, fields, apply_ite Findings.calls]
      cases nameText? source n <;> rfl

end CSharp

namespace Kotlin

def grammar : Grammar where
  types := ["class_declaration", "object_declaration", "companion_object"]
  plainTypes := ["class_declaration"]
  functions := ["function_declaration", "secondary_constructor", "property_declaration", "lambda_literal",
    "anonymous_function", "anonymous_initializer", "getter", "setter"]
  name? source n := (nameOf? source n).or (if n.kind == "class_declaration" then none else some "Companion")
  imports := ["import", "import_header"]
  leaves := ["type_alias"]
  namedOnly := true
  invocation := "call_expression"
  callee? source n := n.namedChild?.map (·.text source)

theorem dialect_follows : dialect.Follows grammar where
  descent source parentKind n scope := by
    simp only [dialect, visit]
    split
    · unfold visitNamed
      split <;> simp_all [Grammar.descent, Grammar.enters, Grammar.isLeaf, Grammar.looksAt, grammar]
      cases nameOf? source n <;> rfl
    · simp_all [Grammar.descent, Grammar.enters, Grammar.isLeaf, Grammar.looksAt, grammar]
  opening source parentKind n scope := by
    simp only [dialect, visit]
    split
    · unfold visitNamed
      split <;> simp_all [Grammar.descent, Grammar.enters, Grammar.isLeaf, Grammar.looksAt, Grammar.opens, grammar]
      all_goals cases nameOf? source n <;> rfl
    · simp_all [Grammar.descent, Grammar.enters, Grammar.isLeaf, Grammar.looksAt, grammar]
  space source n := rfl
  owned source parentKind n scope := by
    simp only [dialect, visit]
    split
    · unfold visitNamed
      split
      · -- A class.
        split
        · refine .declare (.inr ?_)
          unfold classKind
          split
          · simp
          · split <;> simp
        · exact .of_no_symbols rfl
      · exact .declare (.inr (by simp))
      · exact .declare (.inr (by simp))
      · -- A function.
        refine .given fun name _ => .declare (.inr ?_)
        split <;> simp
      · exact .declare (.inr (by simp))
      · exact .given fun name _ => .declareOuter (.inl rfl)
      · exact .given fun name _ => .declare (.inr (by simp))
      all_goals exact .of_no_symbols (by simp)
    · exact .of_no_symbols rfl
  calls source parentKind n scope := by
    simp only [dialect, visit]
    split
    · unfold visitNamed
      split <;> simp_all [Grammar.invocation?, Grammar.looksAt, grammar]
      cases nameOf? source n <;> simp
    · simp_all [Grammar.invocation?, Grammar.looksAt, grammar]

end Kotlin

namespace Ecma

def grammar : Grammar where
  types := ["class_declaration", "abstract_class_declaration", "class", "interface_declaration"]
  localTypes := ["class_declaration", "abstract_class_declaration", "class"]
  spaces := ["internal_module", "module"]
  functions := ["function_declaration", "generator_function_declaration", "method_definition",
    "public_field_definition", "field_definition", "arrow_function", "function_expression", "function",
    "generator_function"]
  name? source n := n.fieldText? source "name"
  imports := ["import_statement"]
  leaves := ["method_signature", "abstract_method_signature", "property_signature", "type_alias_declaration",
    "enum_declaration"]
  bindings := ["lexical_declaration", "variable_declaration"]
  invocation := "call_expression"
  callee? source n := (n.child? "function").map (·.text source)

theorem owned_member {source : String} {n : Node} {scope : Scope} (kind : String → SymbolKind) :
    Owned grammar scope n (member source n scope kind) := by
  unfold member
  split
  · next hbody => exact .given fun name _ => .declare (.inl hbody)
  · exact .of_no_symbols rfl

theorem owned_declarator {source : String} {n : Node} {scope : Scope} :
    Owned grammar scope n (declarator source n scope) := by
  refine .given fun name _ => .append (.of_no_symbols (by simp)) ?_
  split
  · exact .declareOuter (.inl rfl)
  · exact .of_no_symbols rfl

@[simp] theorem calls_member {source : String} {n : Node} {scope : Scope} (kind : String → SymbolKind) :
    (member source n scope kind).calls = [] := by
  unfold member
  split <;> simp

@[simp] theorem calls_declarator {source : String} {n : Node} {scope : Scope} :
    (declarator source n scope).calls = [] := by
  simp [declarator, apply_ite Findings.calls]

theorem calls_importStatement (source : String) (n : Node) : (importStatement source n).calls = [] := by
  unfold importStatement
  split <;> simp

theorem symbols_importStatement (source : String) (n : Node) : (importStatement source n).symbols = [] := by
  unfold importStatement
  split <;> simp

/-- A declaration of a type declares it if it has a name. -/
theorem owned_type {n : Node} {scope : Scope} {name : Option String} {kind : SymbolKind}
    {descent : Descent} {opening : Opening} (h : kind ≠ .variable ∧ kind ≠ .constant) :
    Owned grammar scope n (match (motive := Option String → Visit) name with
      | some name => { found := declare scope name kind n, opening := .type name }
      | none => { descent, opening }).found := by
  cases name with
  | none => exact .of_no_symbols rfl
  | some name => exact .declare (.inr h)

/-- A field is declared directly inside a type only. -/
theorem owned_field {n : Node} {scope : Scope} {name : Option String} {kind : SymbolKind} :
    Owned grammar scope n (if scope.inTypeBody then given name fun name => declare scope name kind n else {}) := by
  split
  · next hbody => exact .given fun name _ => .declare (.inl hbody)
  · exact .of_no_symbols rfl

theorem dialect_follows : dialect.Follows grammar where
  descent source parentKind n scope := by
    simp only [dialect, visit]
    split <;> simp_all [Grammar.descent, Grammar.enters, Grammar.isLeaf, Grammar.looksAt, grammar, apply_ite Visit.descent]
    all_goals cases n.fieldText? source "name" <;> simp
  opening source parentKind n scope := by
    simp only [dialect, visit]
    split <;> simp_all [Grammar.descent, Grammar.enters, Grammar.isLeaf, Grammar.looksAt, Grammar.opens, grammar,
      apply_ite Visit.opening]
    all_goals cases n.fieldText? source "name" <;> simp
  space source n := rfl
  owned source parentKind n scope := by
    have hnone : Owned grammar scope n {} := .of_no_symbols rfl
    simp only [dialect, visit]
    split
    -- Functions.
    · exact .given fun name _ => .declare (.inr (by simp))
    · exact .given fun name _ => .declare (.inr (by simp))
    -- Classes.
    · exact owned_type (by simp)
    · exact owned_type (by simp)
    · exact owned_type (by simp)
    -- Methods and their signatures.
    · exact owned_member _
    · exact owned_member _
    · exact owned_member _
    -- Fields and their signatures.
    · exact owned_field
    · exact owned_field
    · exact owned_member _
    -- Interfaces, aliases and enumerations.
    · exact owned_type (by simp)
    · exact .given fun name _ => .declare (.inr (by simp))
    · exact .given fun name _ => .declare (.inr (by simp))
    -- Modules.
    · split <;> exact hnone
    · split <;> exact hnone
    -- Lists of declarators, and a declarator.
    · exact hnone
    · exact hnone
    · split
      · exact owned_declarator
      · exact hnone
    all_goals exact .of_no_symbols (by simp [exportStatement, symbols_importStatement])
  calls source parentKind n scope := by
    simp only [dialect, visit]
    split <;> simp_all [Grammar.invocation?, Grammar.looksAt, grammar, exportStatement,
      calls_importStatement, apply_ite Findings.calls, apply_ite Visit.found]
    all_goals cases n.fieldText? source "name" <;> simp

end Ecma

namespace Language

/-- What the kinds of node of the language stand for. -/
def grammar : Language → Grammar
  | typescript => Ecma.grammar
  | tsx => Ecma.grammar
  | javascript => Ecma.grammar
  | python => Python.grammar
  | go => Go.grammar
  | java => Java.grammar
  | csharp => CSharp.grammar
  | kotlin => Kotlin.grammar

theorem dialect_follows (language : Language) : language.dialect.Follows language.grammar := by
  cases language with
  | typescript | tsx | javascript => exact Ecma.dialect_follows
  | python => exact Python.dialect_follows
  | go => exact Go.dialect_follows
  | java => exact Java.dialect_follows
  | csharp => exact CSharp.dialect_follows
  | kotlin => exact Kotlin.dialect_follows

/-- Only in a language without lists of declarators are there namespaces for the rest of a file. -/
theorem fileSpaces_or_bindings (language : Language) :
    language.grammar.fileSpaces = [] ∨ language.grammar.bindings = [] := by
  cases language <;>
    simp [grammar, Ecma.grammar, Python.grammar, Go.grammar, Java.grammar, CSharp.grammar, Kotlin.grammar]

theorem rootHoldsOnly_or_fileSpaces (language : Language) :
    language.dialect.rootHoldsOnly = true ∨ language.grammar.fileSpaces = [] := by
  cases language <;>
    simp [grammar, Ecma.grammar, Python.grammar, Go.grammar, Java.grammar, Kotlin.grammar, dialect, CSharp.dialect]

theorem rootHoldsOnly_or_bindings (language : Language) :
    language.dialect.rootHoldsOnly = false ∨ language.grammar.bindings = [] := by
  cases language <;>
    simp [grammar, CSharp.grammar, dialect, Ecma.dialect, Python.dialect, Go.dialect, Java.dialect, Kotlin.dialect]

/-- What is found in a tree is what is found at its places, in their order. -/
theorem findings_eq (language : Language) (source : String) (root : Node) :
    language.dialect.findings source root =
      collect (language.dialect.foundAt source root) (language.dialect.placesOf root) := by
  refine Dialect.findings_eq root ?_
  rcases language.rootHoldsOnly_or_fileSpaces with hroot | hspaces
  · exact .inl hroot
  · exact .inr fun n => by rw [language.dialect_follows.space, Grammar.fileSpace?, hspaces]; rfl

end Language
end SymbolGraph
