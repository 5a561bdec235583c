import SymbolGraph.Symbol
import SymbolGraph.Scope
import SymbolGraph.Tree.Node

/-! Walking a tree. A dialect says, node by node, what the node contributes, what it opens for the
    nodes below it and which of those are walked; the walk puts the contributions together in the
    order of the text. -/

namespace SymbolGraph.Tree

/-- Which children of a node are walked. -/
inductive Descent where
  /-- None. -/
  | stop
  /-- All. -/
  | all
  /-- Those of the kind. -/
  | ofKind (kind : String)
  /-- The first one in the role. -/
  | ofField (field : String)
  deriving Repr, BEq, DecidableEq

/-- What becomes of a node. -/
structure Visit where
  /-- What the node itself contributes, before the nodes below it. -/
  found : Findings := {}
  opening : Opening := .same
  descent : Descent := .all
  deriving Repr, BEq, DecidableEq

/-- How the trees of a language are read. -/
structure Dialect where
  /-- What becomes of a node with that parent kind in that scope of the source. -/
  visit : (source parentKind : String) → Node → Scope → Visit
  /-- The namespace that a node opens for itself and for its later siblings. -/
  siblingSpace? : (source : String) → Node → Option String := fun _ _ => none
  /-- The root only holds the other nodes and is not visited itself. -/
  rootHoldsOnly : Bool := false

namespace Dialect

mutual

/-- What is found in the tree below a node of kind `parentKind`. -/
def walk (d : Dialect) (source parentKind : String) (scope : Scope) : Node → Findings
  | .mk label children =>
    let visit := d.visit source parentKind (.mk label children) scope
    let inner := scope.enter visit.opening
    visit.found ++
      match visit.descent with
      | .stop => {}
      | .all => d.walkAll source label.kind inner inner children
      | .ofKind kind => d.walkKind source label.kind inner kind children
      | .ofField field => d.walkField source label.kind inner field children

/-- What is found in the children of a node of kind `kind` with the scope `outer`. `scope` is the
    scope of the next child, which earlier siblings may have changed. -/
def walkAll (d : Dialect) (source kind : String) (outer scope : Scope) : List Node → Findings
  | [] => {}
  | n :: ns =>
    let scope :=
      match d.siblingSpace? source n with
      | some name => outer.enterSpace name
      | none => scope
    d.walk source kind scope n ++ d.walkAll source kind outer scope ns

/-- What is found in the children of the kind `wanted`. -/
def walkKind (d : Dialect) (source kind : String) (scope : Scope) (wanted : String) :
    List Node → Findings
  | [] => {}
  | n :: ns =>
    if n.kind == wanted then
      d.walk source kind scope n ++ d.walkKind source kind scope wanted ns
    else d.walkKind source kind scope wanted ns

/-- What is found in the first child in the role `field`. -/
def walkField (d : Dialect) (source kind : String) (scope : Scope) (field : String) :
    List Node → Findings
  | [] => {}
  | n :: ns =>
    if n.label.field == field then d.walk source kind scope n
    else d.walkField source kind scope field ns

end

/-- What is found in a whole file. -/
def findings (d : Dialect) (source : String) (root : Node) : Findings :=
  if d.rootHoldsOnly then d.walkAll source root.kind .top .top root.children
  else d.walk source "" .top root

end Dialect

/-! ### What a node may contribute -/

/-- The text without one layer of quotes around it. -/
def unquote (text : String) : String :=
  let t := Text.trim text
  match t.toList, t.toList.reverse with
  | q :: inner, p :: _ =>
    if (q == '\x22' || q == '\x27' || q == '\x60') && p == q && !inner.isEmpty then
      String.ofList inner.dropLast
    else t
  | _, _ => t

/-- The part of a path after its last dot or slash. -/
def lastSegment (path : String) : String := Text.afterLast '/' (Text.afterLast '.' path)

/-- The declaration of `name` by the node. -/
def declare (scope : Scope) (name : String) (kind : SymbolKind) (n : Node) : Findings :=
  { symbols := [⟨name, scope.qualify name, kind, n.span⟩] }

/-- The declaration of `name` by the node, unless it is local to a function. -/
def declareOuter (scope : Scope) (name : String) (kind : SymbolKind) (n : Node) : Findings :=
  if scope.insideFunction then {} else declare scope name kind n

/-- The call of `callee` by the node, unless that is blank. -/
def call (callee : String) (n : Node) : Findings :=
  let callee := Text.trim callee
  if callee.isEmpty then {} else { calls := [⟨callee, n.span⟩] }

/-- The import of what `specifier` says, unless that is blank. -/
def importing (specifier : String) (names : List String) : Findings :=
  let specifier := unquote specifier
  if specifier.isEmpty then {} else { imports := [⟨specifier, names⟩] }

/-- What each element contributes, in order. -/
def collect {α : Type} (f : α → Findings) : List α → Findings
  | [] => {}
  | x :: xs => f x ++ collect f xs

/-- The contribution of an element that may be missing. -/
def given {α : Type} (x : Option α) (f : α → Findings) : Findings :=
  match x with
  | some x => f x
  | none => {}

end SymbolGraph.Tree
