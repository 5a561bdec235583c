import SymbolGraph.Document.Toml.Scalar
import SymbolGraph.Document.Toml.Table

/-! Reading a TOML document. -/

namespace SymbolGraph.Document.Toml

open Reader

/-- How deep lists and tables may be nested, and how many parts a key may have. -/
def nestingLimit : Nat := 80

/-! ### Keys -/

/-- Whether the character may stand in a key without quotes. -/
def isKeyChar (c : Char) : Bool := c.isAlphanum || c == '-' || c == '_'

/-- One part of a key. -/
def keyPart : Reader String := do
  match ← peek? with
  | some '\x22' => lineText
  | some '\x27' => lineText
  | _ => return String.ofList (← run1 isKeyChar)

/-- The parts of a key, with dots between them and spaces around them. -/
def keyParts : (fuel : Nat) → Reader (List String)
  | 0 => failure
  | fuel + 1 => do
    spaces
    let part ← keyPart
    spaces
    if ← skip? "." then return part :: (← keyParts fuel) else return [part]

/-- A key: the parts before its last one and the last one. -/
def key : Reader (List String × String) := do
  let parts ← keyParts nestingLimit
  match parts.getLast? with
  | some last => if parts.length < nestingLimit then return (parts.dropLast, last) else failure
  | none => failure

/-! ### Values -/

/-- Takes a comment, if one starts here. -/
def comment : Reader Unit := do
  if (← peek?) == some '#' then let _ ← run isPlain

/-- Takes spaces, comments and the ends of lines. -/
def gaps : (fuel : Nat) → Reader Unit
  | 0 => pure ()
  | fuel + 1 => do
    spaces
    if (← peek?) == some '#' then
      comment; newline; gaps fuel
    else
      match ← maybe newline with
      | some () => gaps fuel
      | none => pure ()

/-- The table of the assignments, which is complete. -/
def closedTable (pairs : List ((List String × String) × Value)) : Option Value :=
  let step (t : Table) (pair : (List String × String) × Value) : Option Table :=
    t.assign pair.1.1 pair.1.2 pair.2
  (pairs.foldlM step ⟨.headed, []⟩).map fun t => .table .closed t.entries

mutual

/-- A value inside `depth` lists and tables. -/
def value : (fuel depth : Nat) → Reader Value
  | 0, _ => failure
  | fuel + 1, depth => do
    match ← peek? with
    | some '\x22' => return .text (← text)
    | some '\x27' => return .text (← text)
    | some '[' =>
      if nestingLimit ≤ depth + 1 then failure
      mark '['
      return .list (← items fuel (depth + 1))
    | some '\x7b' =>
      if nestingLimit ≤ depth + 1 then failure
      mark '\x7b'
      spaces
      let pairs ← if ← skip? "\x7d" then pure [] else pairs fuel (depth + 1)
      match closedTable pairs with
      | some v => return v
      | none => failure
    | some 't' => word "true"; return .bool true
    | some 'f' => word "false"; return .bool false
    | some 'i' => word "inf"; return .real "inf"
    | some 'n' => word "nan"; return .real "nan"
    | some _ => numberOrDate
    | none => failure

/-- The items of a list, to its closing bracket. A comma may follow the last one. -/
def items : (fuel depth : Nat) → Reader (List Value)
  | 0, _ => failure
  | fuel + 1, depth => do
    gaps fuel
    if ← skip? "]" then return []
    else
      let v ← value fuel depth
      gaps fuel
      if ← skip? "," then return v :: (← items fuel depth)
      else
        mark ']'
        return [v]

/-- The assignments of a table between braces, to its closing brace. -/
def pairs : (fuel depth : Nat) → Reader (List ((List String × String) × Value))
  | 0, _ => failure
  | fuel + 1, depth => do
    let k ← key
    mark '='
    spaces
    let v ← value fuel depth
    spaces
    if ← skip? "," then return (k, v) :: (← pairs fuel depth)
    else
      mark '\x7d'
      return [(k, v)]

end

/-! ### Documents -/

/-- The table that a document describes so far. -/
structure Draft where
  root : Table := ⟨.headed, []⟩
  /-- The path of the table that the last header opened. -/
  current : List String := []
  deriving Repr, BEq

/-- A line of a document. -/
inductive Line where
  | blank
  | header (path : List String) (key : String)
  | nextHeader (path : List String) (key : String)
  | assignment (path : List String) (key : String) (value : Value)
  deriving Repr, BEq

/-- The draft with one more line. -/
def Draft.add (d : Draft) : Line → Option Draft
  | .blank => some d
  | .header path key => (d.root.openHeaded path key).map fun root => ⟨root, path ++ [key]⟩
  | .nextHeader path key => (d.root.openNext path key).map fun root => ⟨root, path ++ [key]⟩
  | .assignment path key v =>
    (d.root.changeAt false d.current fun t => t.assign path key v).map fun root => { d with root }

/-- What a line says, without its end. -/
def line : Reader Line := do
  spaces
  match ← peek? with
  | none => return .blank
  | some '#' => return .blank
  | some '\n' => return .blank
  | some '\r' => return .blank
  | some '[' =>
    if ← skip? "[[" then
      let (path, last) ← key
      word "]]"
      return .nextHeader path last
    else
      mark '['
      let (path, last) ← key
      mark ']'
      return .header path last
  | some _ =>
    let (path, last) ← key
    mark '='
    spaces
    let v ← value ((← rest).length + 1) 0
    return .assignment path last v

/-- Adds the lines of a document to the draft. -/
def lines : (fuel : Nat) → Draft → Reader Draft
  | 0, _ => failure
  | fuel + 1, d => do
    match d.add (← line) with
    | none => failure
    | some d =>
      spaces
      comment
      if (← peek?).isNone then return d
      else
        newline
        lines fuel d

/-- The table that the text describes. A byte-order mark may stand before it. -/
def read (source : String) : Option Value :=
  onText (do
    let _ ← skip? "\uFEFF"
    let d ← lines (source.toList.length + 1) {}
    return d.root.toValue) source

end SymbolGraph.Document.Toml
