import SymbolGraph.Index.Checkpoint
import SymbolGraph.Index.Error
import SymbolGraph.Index.Progress
import SymbolGraph.Index.Queue

/-! The state that indexing works on: the store, the queue of changes and what was told to the outside.
    Every call of the store passes a gate that may refuse it, so that what happens after a failure can
    be seen. -/

namespace SymbolGraph.Index

/-- A change of a file. -/
inductive Change where
  /-- It is new or has a new content. -/
  | changed (path : String)
  | removed (path : String)
  deriving Repr, BEq, DecidableEq

/-- The file that changed. -/
def Change.path : Change → String
  | changed path => path
  | removed path => path

/-- What is told to those who follow an index. -/
inductive Event where
  | indexStarted
  | indexCompleted (stats : Stats)
  | fileIndexed (path : String)
  | fileRemoved (path : String)
  | failed (operation message : String)
  deriving Repr, BEq, DecidableEq

/-- A call of the store. -/
inductive Call where
  | upsertFile (path : String)
  | file (path : String)
  | deleteFile (path : String)
  | insertNode (path : String)
  | deleteNodes (path : String)
  | nodesOf (path : String)
  | allNodes
  | insertEdge
  | setCheckpoint (key : String)
  | clear
  | save
  | begin
  | commit
  | rollback
  deriving Repr, BEq, DecidableEq

/-- Which calls are refused, by the number of calls before. -/
abbrev Gate := Nat → Call → Option StoreError

/-- Refuses nothing. -/
def Gate.free : Gate := fun _ _ => none

/-- Refuses to change the nodes of the paths. -/
def Gate.refusing (paths : List String) : Gate := fun _ call =>
  match call with
  | .insertNode path => refusal path
  | .deleteNodes path => refusal path
  | _ => none
where
  /-- The refusal for a path, if it is one of the paths. -/
  refusal (path : String) : Option StoreError :=
    if paths.contains path then some (.invalidRow (.writeRefused path)) else none

/-- A change that is put into the queue when the record of a file is written for the first time. -/
structure Hook where
  /-- The file. -/
  path : String
  /-- What is put into the queue while it is being drained. -/
  change : Change
  /-- What is put into the queue at other times. -/
  idleChange : Change
  deriving Repr, BEq, DecidableEq

/-- What indexing works on. -/
structure Session where
  store : Store := .fresh .memory
  gate : Gate := .free
  /-- The number of calls of the store so far. -/
  calls : Nat := 0
  hook? : Option Hook := none
  changes : Shared Change := {}
  watching : Bool := false
  /-- What was told, oldest first. -/
  events : List Event := []
  /-- What was reported on the way, oldest first. -/
  reports : List Progress := []

/-- Work on a session that may fail. What it did before it failed stays done. -/
abbrev Action := ExceptT Error (StateM Session)

namespace Action

/-- Tells an event. -/
def tell (e : Event) : Action Unit := modify fun s => { s with events := s.events ++ [e] }

/-- Reports how far the work is. -/
def report (p : Progress) : Action Unit := modify fun s => { s with reports := s.reports ++ [p] }

/-- The result, which is a failure if the work failed. -/
def attempt {α : Type} (t : Action α) : Action (Except Error α) := fun s =>
  let (result, s) := t s
  (.ok result, s)

/-- Tells that an operation failed. -/
def tellFailed (operation : String) (e : Error) : Action Unit :=
  tell (.failed operation e.report.fullText)

/-! ### Calls of the store -/

/-- Passes the gate. -/
def pass (call : Call) : Action Unit := do
  let s ← get
  set { s with calls := s.calls + 1 }
  match s.gate s.calls call with
  | some e => throw (.store e)
  | none => pure ()

/-- Looks at the store past the gate. -/
def look {α : Type} (f : Store → Except StoreError α) : Action α := do
  match f (← get).store with
  | .ok a => return a
  | .error e => throw (.store e)

/-- Asks the store. -/
def query {α : Type} (call : Call) (f : Store → Except StoreError α) : Action α := do
  pass call
  look f

/-- Changes the store. -/
def change (call : Call) (f : Store → Except StoreError Store) : Action Unit := do
  pass call
  let s ← get
  match f s.store with
  | .ok store => set { s with store }
  | .error e => throw (.store e)

/-- The record of a path. -/
def file? (path : String) : Action (Option Store.FileRecord) := query (.file path) (·.file? path)

/-- Puts the hook's change into the queue if the hook waits for the path. -/
def fireHook (path : String) : Action Unit :=
  modify fun s =>
    match s.hook? with
    | some hook =>
      if hook.path = path then
        let change := if s.changes.draining then hook.change else hook.idleChange
        { s with hook? := none, changes := s.changes.push change }
      else s
    | none => s

/-- Adds the record, instead of one with the same path. -/
def upsertFile (f : Store.FileRecord) : Action Unit := do
  change (.upsertFile f.path) fun s => .ok (s.upsertFile f)
  fireHook f.path

/-- Removes the record of a path. Says whether there was one. -/
def deleteFile (path : String) : Action Bool := do
  let existed := (← get).store.hasFile path
  change (.deleteFile path) fun s => .ok (s.deleteFile path)
  return existed

/-- Adds a symbol of a path. Gives its number. -/
def insertNode (path : String) (symbol : Symbol) : Action NodeId := do
  let id := (← get).store.tables.nextNode
  change (.insertNode path) fun s => .ok (s.insertNode path symbol)
  return id

/-- Removes the nodes of a path. Gives their number. -/
def deleteNodes (path : String) : Action Nat := do
  let count := ((← get).store.nodeRows path).length
  change (.deleteNodes path) fun s => .ok (s.deleteNodes path)
  return count

/-- The nodes of a path. -/
def nodesOf (path : String) : Action (List GraphNode) := query (.nodesOf path) (·.nodesOf path)

/-- All nodes. -/
def allNodes : Action (List GraphNode) := query .allNodes (·.allNodes)

/-- Adds an edge. Gives its number. -/
def insertEdge (now : Time.Instant) (kind : EdgeKind) (source target : NodeId) : Action EdgeId := do
  let id := (← get).store.tables.nextEdge
  change .insertEdge fun s => .ok (s.insertEdge now kind source target)
  return id

/-- Sets the value of a checkpoint. -/
def setCheckpoint (key value : String) : Action Unit :=
  change (.setCheckpoint key) fun s => .ok (s.setCheckpoint key value)

/-- Removes all files, nodes and edges. -/
def clear : Action Unit := change .clear fun s => .ok s.clear

/-- Makes sure that the changes last. -/
def save : Action Unit := query .save (·.save)

/-- Opens a transaction. -/
def begin : Action Unit := change .begin (·.begin)

/-- Ends the transaction and keeps its changes. -/
def commit : Action Unit := change .commit (·.commit)

/-- Ends the transaction and takes back its changes. -/
def rollback : Action Unit := change .rollback (·.rollback)

/-- Takes back the changes of the transaction, if that is possible. -/
def tryRollback : Action Unit := do let _ ← attempt rollback

end Action
end SymbolGraph.Index
