import SymbolGraph.Span
import SymbolGraph.Text.Blank
import SymbolGraph.Text.Offset

/-! Concrete syntax trees as a parser hands them over: every token is a node, and nodes that could
    not be parsed are marked. -/

namespace SymbolGraph.Tree

/-- What a node says of itself. -/
structure Label where
  /-- The grammar's name of the node, for a token its text. -/
  kind : String
  span : Span
  /-- The grammar names the node; other nodes are punctuation and keywords. -/
  named : Bool := true
  /-- The node stands for text that could not be parsed. -/
  isError : Bool := false
  /-- The node is or contains one that could not be parsed or is missing. -/
  hasError : Bool := false
  /-- The node's role in its parent, empty if it has none. -/
  field : String := ""
  deriving Repr, BEq, DecidableEq

/-- A node with the nodes below it, in the order of the text. -/
inductive Node where
  | mk (label : Label) (children : List Node)
  deriving Repr, BEq

namespace Node

def label : Node → Label
  | mk label _ => label

def children : Node → List Node
  | mk _ children => children

def kind (n : Node) : String := n.label.kind

def span (n : Node) : Span := n.label.span

/-! ### Looking among the children -/

/-- The first child in the role `field`. -/
def child? (n : Node) (field : String) : Option Node := n.children.find? (·.label.field == field)

/-- All children in the role `field`. -/
def childrenIn (n : Node) (field : String) : List Node :=
  n.children.filter (·.label.field == field)

/-- The first child of the kind. -/
def childOfKind? (n : Node) (kind : String) : Option Node := n.children.find? (·.kind == kind)

/-- The first child of one of the kinds. -/
def childOfKinds? (n : Node) (kinds : List String) : Option Node :=
  n.children.find? fun c => kinds.contains c.kind

/-- The first child that the grammar names. -/
def namedChild? (n : Node) : Option Node := n.children.find? (·.label.named)

/-! ### Reading the text -/

/-- The text of the span, empty if the span does not fit the source. -/
def textOf (source : String) (span : Span) : String :=
  (Text.slice? source span.start span.stop).getD ""

/-- The text of the node. -/
def text (n : Node) (source : String) : String := textOf source n.span

/-- The trimmed text of the first child in the role `field`, if there is any. -/
def fieldText? (n : Node) (source field : String) : Option String :=
  match n.child? field with
  | none => none
  | some c =>
    let text := Text.trim (c.text source)
    if text.isEmpty then none else some text

/-- Whether one of the children is the token `word` or a list of modifiers with `word` among them. -/
def hasToken (n : Node) (source word : String) : Bool :=
  n.children.any fun c =>
    c.kind == word || (Text.hasPart "modifier" c.kind && (Text.words (c.text source)).contains word)

/-! ### Damage -/

mutual

/-- The number of bytes under the outermost nodes that could not be parsed. -/
def errorBytes : Node → Nat
  | mk label children =>
    if label.isError then label.span.length
    else if label.hasError then errorBytesAll children
    else 0

/-- The sum of `errorBytes` over the nodes. -/
def errorBytesAll : List Node → Nat
  | [] => 0
  | n :: ns => errorBytes n + errorBytesAll ns

end

/-! ### Listings -/

/-- Adds the label at `depth` in front of a listing's nodes: those that are deeper are its
    children. -/
def graft (depth : Nat) (label : Label) (after : List (Nat × Node)) : List (Nat × Node) :=
  let below := after.takeWhile (depth < ·.1)
  (depth, mk label (below.map (·.2))) :: after.dropWhile (depth < ·.1)

/-- The tree that lists the labels with their depths, each node before those below it. -/
def ofListing? (rows : List (Nat × Label)) : Option Node :=
  ((rows.foldr (fun (depth, label) after => graft depth label after) []).head?).map (·.2)

end Node
end SymbolGraph.Tree
