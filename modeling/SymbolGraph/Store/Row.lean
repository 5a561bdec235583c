import SymbolGraph.Graph.Basic
import SymbolGraph.Store.Column

/-! The rows of a store as its columns hold them, and what they mean. Kinds and times are stored as
    text, sizes and offsets as integers of 64 bits with a sign, so that a row that something else has
    written may have no meaning. -/

namespace SymbolGraph.Store

/-- The moment that a stored text names. -/
def readTime (text : String) : Except StoreError Time.Instant :=
  match Time.Instant.read text with
  | some t => .ok t
  | none => .error (.invalidRow (.badTimestamp text))

/-! ### Files -/

/-- What is known of an indexed file. -/
structure FileRecord where
  path : String
  language : String
  /-- The digest of the text without its byte-order mark. -/
  hash : String
  /-- The size in bytes. -/
  size : Nat
  indexedAt : Time.Instant
  deriving Repr, BEq, DecidableEq

/-- A row for a file. -/
structure FileRow where
  path : String
  language : String
  hash : String
  size : Stored
  indexedAt : String
  deriving Repr, BEq, DecidableEq

/-- The row that stores the record. -/
def FileRow.ofRecord (f : FileRecord) : FileRow :=
  ⟨f.path, f.language, f.hash, .ofNat f.size, f.indexedAt.text⟩

/-- The row of the values. -/
def FileRow.ofCells (path language hash size indexedAt : Cell) : FileRow :=
  ⟨path.toText, language.toText, hash.toText, size.toInteger, indexedAt.toText⟩

/-- Whether the columns hold values of their types. -/
def FileRow.fits (r : FileRow) : Except StoreError Unit := do let _ ← r.size.integer?

/-- The record that a row stores. A negative size counts as none. -/
def FileRow.record (r : FileRow) : Except StoreError FileRecord := do
  let size ← r.size.integer?
  let indexedAt ← readTime r.indexedAt
  return ⟨r.path, r.language, r.hash, size.toNat, indexedAt⟩

/-! ### Nodes -/

/-- A row for a symbol. -/
structure NodeRow where
  id : NodeId
  path : String
  kind : String
  name : String
  fqname : String
  start : Stored
  stop : Stored
  deriving Repr, BEq, DecidableEq

/-- The row that stores the symbol. -/
def NodeRow.ofSymbol (id : NodeId) (path : String) (s : Symbol) : NodeRow :=
  ⟨id, path, s.kind.text, s.name, s.fqname, .ofNat s.span.start, .ofNat s.span.stop⟩

/-- The row of the values. -/
def NodeRow.ofCells (id : NodeId) (path kind name fqname start stop : Cell) : NodeRow :=
  ⟨id, path.toText, kind.toText, name.toText, fqname.toText, start.toInteger, stop.toInteger⟩

/-- Whether the columns hold values of their types. -/
def NodeRow.fits (r : NodeRow) : Except StoreError Unit := do
  let _ ← r.start.integer?
  let _ ← r.stop.integer?

/-- The node that a row stores. -/
def NodeRow.node (r : NodeRow) : Except StoreError GraphNode := do
  let start ← r.start.integer?
  let stop ← r.stop.integer?
  match SymbolKind.ofText? r.kind with
  | none => throw (.invalidRow (.unknownSymbolKind r.kind))
  | some kind =>
    if start < 0 then throw (.invalidRow (.negativeStart start))
    else if stop < 0 then throw (.invalidRow (.negativeStop stop))
    else return ⟨r.id, r.path, ⟨r.name, r.fqname, kind, ⟨start.toNat, stop.toNat⟩⟩⟩

/-! ### Edges -/

/-- A row for an edge. -/
structure EdgeRow where
  id : EdgeId
  kind : String
  source : Stored
  target : Stored
  weight : StoredWeight
  createdAt : String
  deriving Repr, BEq, DecidableEq

/-- The row of a new edge. -/
def EdgeRow.new (id : EdgeId) (kind : EdgeKind) (source target : NodeId) (now : Time.Instant) : EdgeRow :=
  ⟨id, kind.text, .integer source, .integer target, .weight (.finite ⟨1, 0⟩), now.text⟩

/-- The row of the values. -/
def EdgeRow.ofCells (id : EdgeId) (kind source target weight createdAt : Cell) : EdgeRow :=
  ⟨id, kind.toText, source.toInteger, target.toInteger, weight.toWeight, createdAt.toText⟩

/-- Whether the columns hold values of their types. -/
def EdgeRow.fits (r : EdgeRow) : Except StoreError Unit := do
  let _ ← r.source.integer?
  let _ ← r.target.integer?
  let _ ← r.weight.weight?

/-- The edge that a row stores. -/
def EdgeRow.edge (r : EdgeRow) : Except StoreError Edge := do
  let source ← r.source.integer?
  let target ← r.target.integer?
  let weight ← r.weight.weight?
  match EdgeKind.ofText? r.kind with
  | none => throw (.invalidRow (.unknownEdgeKind r.kind))
  | some kind => return ⟨r.id, kind, source, target, weight, ← readTime r.createdAt⟩

end SymbolGraph.Store
