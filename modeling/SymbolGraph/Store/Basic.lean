import SymbolGraph.Graph.View
import SymbolGraph.Store.Row

/-! A store of files, nodes, edges and checkpoints with one transaction at a time. Nodes and edges get
    numbers that are never given out twice, except that a rollback takes back the numbers of its
    transaction. -/

namespace SymbolGraph

open Store

/-- Everything that a store keeps. -/
structure Tables where
  /-- One row for each path, in ascending order of the paths. -/
  files : List FileRow := []
  /-- In ascending order of the numbers. -/
  nodes : List NodeRow := []
  /-- In ascending order of the numbers. -/
  edges : List EdgeRow := []
  checkpoints : List (String × String) := []
  nextNode : NodeId := 1
  nextEdge : EdgeId := 1
  deriving Repr, BEq, DecidableEq

/-- Where a store keeps its tables. -/
inductive Place where
  | memory
  | disk
  deriving Repr, BEq, DecidableEq

/-- A store. -/
structure Store where
  place : Place := .memory
  tables : Tables := {}
  /-- The tables before the open transaction, if there is one. -/
  before? : Option Tables := none
  deriving Repr, BEq, DecidableEq

namespace Tables

/-- The version of the layout, as a checkpoint. -/
def schemaVersion : String × String := ("schema_version", "1")

/-- Replaces the value of the key, or adds the key at the end. -/
def putCheckpoint (key value : String) : List (String × String) → List (String × String)
  | [] => [(key, value)]
  | (k, v) :: rest => if k = key then (k, value) :: rest else (k, v) :: putCheckpoint key value rest

/-- The tables with the version of the layout, unless they have one. -/
def prepared (t : Tables) : Tables :=
  if (t.checkpoints.lookup schemaVersion.1).isSome then t
  else { t with checkpoints := t.checkpoints ++ [schemaVersion] }

/-- The row in its place among rows in ascending order, instead of one with its path. -/
def putFile (row : FileRow) : List FileRow → List FileRow
  | [] => [row]
  | r :: rest =>
    if r.path = row.path then row :: rest
    else if row.path < r.path then row :: r :: rest
    else r :: putFile row rest

end Tables

namespace Store

/-- A new store. -/
def fresh (place : Place) : Store := { place, tables := Tables.prepared {} }

/-- A store with the tables that a file holds. -/
def ofTables (tables : Tables) : Store := { place := .disk, tables := tables.prepared }

/-- Whether a transaction is open. -/
def inTransaction (s : Store) : Bool := s.before?.isSome

/-- The tables that last: without those changes that an open transaction has made. -/
def committed (s : Store) : Tables := s.before?.getD s.tables

/-- The store after it was closed and opened again. Memory does not last. -/
def reopen (s : Store) : Store :=
  match s.place with
  | .memory => fresh .memory
  | .disk => ofTables s.committed

/-- Changes the tables. -/
def change (s : Store) (f : Tables → Tables) : Store := { s with tables := f s.tables }

/-! ### Files -/

/-- Adds the record, instead of one with the same path. -/
def upsertFile (s : Store) (f : FileRecord) : Store :=
  s.change fun t => { t with files := Tables.putFile (.ofRecord f) t.files }

/-- The record of a path. -/
def file? (s : Store) (path : String) : Except StoreError (Option FileRecord) :=
  match s.tables.files.find? (·.path == path) with
  | none => .ok none
  | some row => row.record.map some

/-- Removes the record of a path. -/
def deleteFile (s : Store) (path : String) : Store :=
  s.change fun t => { t with files := t.files.filter (·.path != path) }

/-- Whether the path has a record. -/
def hasFile (s : Store) (path : String) : Bool := s.tables.files.any (·.path == path)

/-- All records by path. -/
def allFiles (s : Store) : Except StoreError (List FileRecord) := do
  s.tables.files.forM FileRow.fits
  s.tables.files.mapM FileRow.record

/-! ### Nodes -/

/-- Adds a symbol of a path under the next number. -/
def insertNode (s : Store) (path : String) (symbol : Symbol) : Store :=
  s.change fun t =>
    { t with nodes := t.nodes ++ [.ofSymbol t.nextNode path symbol], nextNode := t.nextNode + 1 }

/-- Removes the nodes of a path. -/
def deleteNodes (s : Store) (path : String) : Store :=
  s.change fun t => { t with nodes := t.nodes.filter (·.path != path) }

/-- The rows for the nodes of a path. -/
def nodeRows (s : Store) (path : String) : List NodeRow := s.tables.nodes.filter (·.path == path)

/-- The nodes that the rows store. A column of a wrong type is found before anything else. -/
def readNodes (rows : List NodeRow) : Except StoreError (List GraphNode) := do
  rows.forM NodeRow.fits
  rows.mapM NodeRow.node

/-- The nodes of a path by number. -/
def nodesOf (s : Store) (path : String) : Except StoreError (List GraphNode) :=
  readNodes (s.nodeRows path)

/-- All nodes by number. -/
def allNodes (s : Store) : Except StoreError (List GraphNode) := readNodes s.tables.nodes

/-! ### Edges -/

/-- Adds an edge under the next number. Edges may be equal but for their numbers. -/
def insertEdge (s : Store) (now : Time.Instant) (kind : EdgeKind) (source target : NodeId) : Store :=
  s.change fun t =>
    { t with edges := t.edges ++ [.new t.nextEdge kind source target now], nextEdge := t.nextEdge + 1 }

/-- All edges by number. -/
def allEdges (s : Store) : Except StoreError (List Edge) := do
  s.tables.edges.forM EdgeRow.fits
  s.tables.edges.mapM EdgeRow.edge

/-! ### Checkpoints -/

/-- The value of a checkpoint. -/
def checkpoint? (s : Store) (key : String) : Option String := s.tables.checkpoints.lookup key

/-- Sets the value of a checkpoint. -/
def setCheckpoint (s : Store) (key value : String) : Store :=
  s.change fun t => { t with checkpoints := Tables.putCheckpoint key value t.checkpoints }

/-! ### The whole -/

/-- Removes all files, nodes and edges. The numbers go on. -/
def clear (s : Store) : Store := s.change fun t => { t with files := [], nodes := [], edges := [] }

/-- Makes sure that the changes last. On disk an open transaction is in the way. -/
def save (s : Store) : Except StoreError Unit :=
  if s.place = .disk ∧ s.inTransaction then .error (.transaction .openAtCheckpoint) else .ok ()

/-- Opens a transaction. -/
def begin (s : Store) : Except StoreError Store :=
  match s.before? with
  | some _ => .error (.transaction .alreadyActive)
  | none => .ok { s with before? := some s.tables }

/-- Ends the transaction and keeps its changes. -/
def commit (s : Store) : Except StoreError Store :=
  match s.before? with
  | some _ => .ok { s with before? := none }
  | none => .error (.transaction .noneToCommit)

/-- Ends the transaction and takes back its changes. -/
def rollback (s : Store) : Except StoreError Store :=
  match s.before? with
  | some before => .ok { s with tables := before, before? := none }
  | none => .error (.transaction .noneToRollBack)

/-- The graph of all nodes and edges. -/
def graph (s : Store) : Except StoreError GraphView := do
  return .ofParts (← s.allNodes) (← s.allEdges)

/-! ### Counts -/

/-- How much a store holds. -/
structure Summary where
  files : Nat
  nodes : Nat
  edges : Nat
  /-- The number of nodes of each kind that there is. -/
  nodesByKind : List (String × Nat)
  /-- The number of edges of each kind that there is. -/
  edgesByKind : List (String × Nat)
  deriving Repr, BEq, DecidableEq

/-- How often each word occurs. -/
def countWords (words : List String) : List (String × Nat) :=
  words.eraseDups.map fun w => (w, words.count w)

/-- How much the store holds. -/
def summary (s : Store) : Summary where
  files := s.tables.files.length
  nodes := s.tables.nodes.length
  edges := s.tables.edges.length
  nodesByKind := countWords (s.tables.nodes.map (·.kind))
  edgesByKind := countWords (s.tables.edges.map (·.kind))

/-! ### Rows from elsewhere -/

/-- Adds a row for a file as it is. -/
def addFileRow (s : Store) (row : FileRow) : Except StoreError Store :=
  if s.hasFile row.path then .error (.database .duplicateKey)
  else .ok (s.change fun t => { t with files := Tables.putFile row t.files })

/-- Adds a row for a node as it is, but for its number. -/
def addNodeRow (s : Store) (row : NodeRow) : Store :=
  s.change fun t =>
    { t with nodes := t.nodes ++ [{ row with id := t.nextNode }], nextNode := t.nextNode + 1 }

/-- Adds a row for an edge as it is, but for its number. -/
def addEdgeRow (s : Store) (row : EdgeRow) : Store :=
  s.change fun t =>
    { t with edges := t.edges ++ [{ row with id := t.nextEdge }], nextEdge := t.nextEdge + 1 }

end Store
end SymbolGraph
