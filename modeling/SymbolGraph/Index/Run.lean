import SymbolGraph.Index.Resolve
import SymbolGraph.Index.Workspace

/-! Indexing a workspace. Every file is replaced in a transaction of its own; the edges follow when all
    files are done. -/

namespace SymbolGraph.Index

/-- What the files of a run have come to so far. -/
structure Tally where
  stats : Stats := {}
  /-- The files that were stored, in order. -/
  pending : List Pending := []
  deriving Repr, BEq, DecidableEq

namespace Run

/-! ### One file -/

/-- Adds the symbols of a path. Gives their numbers and spans. -/
def insertSymbols (path : String) : List Symbol → Action (List (NodeId × Span))
  | [] => return []
  | symbol :: rest => do
    let id ← Action.insertNode path symbol
    return (id, symbol.span) :: (← insertSymbols path rest)

/-- Replaces the nodes and the record of a path. -/
def writeFile (now : Time.Instant) (path : String) (language : Language) (size : Nat) (e : Extract) :
    Action (List (NodeId × Span)) := do
  let _ ← Action.deleteNodes path
  let nodes ← insertSymbols path e.found.symbols
  Action.upsertFile ⟨path, language.id, e.hash, size, now⟩
  return nodes

/-- Does the work in a transaction, whose changes are taken back if something fails. -/
def inTransaction {α : Type} (work : Action α) : Action α := do
  Action.begin
  match ← Action.attempt (do let a ← work; Action.commit; return a) with
  | .ok a => return a
  | .error e =>
    Action.tryRollback
    throw e

/-- Replaces the nodes and the record of a path in a transaction. -/
def commitFile (now : Time.Instant) (path : String) (language : Language) (size : Nat) (e : Extract) :
    Action Pending := do
  let nodes ← inTransaction (writeFile now path language size e)
  return ⟨path, language.id, e.found, nodes⟩

/-- Removes the nodes and the record of a path. -/
def eraseFile (path : String) : Action Bool := do
  let nodes ← Action.deleteNodes path
  let existed ← Action.deleteFile path
  return 0 < nodes || existed

/-- Removes the nodes and the record of a path in a transaction. Says whether there were any. Edges
    stay. -/
def removeFile (path : String) : Action Bool := do
  let existed ← inTransaction (eraseFile path)
  if existed then Action.tell (.fileRemoved path)
  return existed

/-- One more skipped file. -/
def skip (t : Tally) : Tally := { t with stats := { t.stats with skipped := t.stats.skipped + 1 } }

/-- One more failed file. -/
def fail (t : Tally) : Tally := { t with stats := { t.stats with failed := t.stats.failed + 1 } }

/-- One more file that has not changed. -/
def keep (t : Tally) : Tally :=
  { t with stats := { t.stats with unchanged := t.stats.unchanged + 1 } }

/-- One more file that was read by patterns, if it was. -/
def noteMethod (m : Method) (t : Tally) : Tally :=
  if m = .patterns then { t with stats := { t.stats with fallback := t.stats.fallback + 1 } } else t

/-- One more stored file. -/
def store (p : Pending) (t : Tally) : Tally where
  stats :=
    { t.stats with
      indexed := t.stats.indexed + 1
      nodesCreated := t.stats.nodesCreated + p.nodes.length }
  pending := t.pending ++ [p]

/-- Stores what the text of a path holds. -/
def storeText (w : Workspace) (path : String) (language : Language) (text : String) (t : Tally) :
    Action Tally := do
  let e := w.extract language text
  let t := noteMethod e.method t
  match ← Action.attempt (commitFile w.now path language text.utf8ByteSize e) with
  | .ok p =>
    Action.tell (.fileIndexed path)
    return store p t
  | .error _ => return fail t

/-- Stores the file if it is to be indexed and has changed. -/
def processFile (w : Workspace) (path : String) (t : Tally) : Action Tally := do
  match w.accepts path with
  | none => return skip t
  | some language =>
    match w.source? path with
    | none => return skip t
    | some text =>
      match ← Action.attempt (Action.file? path) with
      | .error _ => return fail t
      | .ok known =>
        if known.any (·.hash == Text.contentHash (Text.dropMark text)) then return keep t
        else storeText w path language text t

/-! ### All files -/

/-- Stores the files and reports each. -/
def processAll (w : Workspace) : List Workspace.Found → Tally → Action Tally
  | [], t => return t
  | f :: rest, t => do
    let t ← processFile w f.path t
    Action.report (.fileDone f.path)
    processAll w rest t

/-- The elements in groups of `size`, or one by one if `size` is zero. The last group may be smaller. -/
def batches {α : Type} (size : Nat) : List α → List (List α)
  | [] => []
  | a :: rest => (a :: rest.take (size - 1)) :: batches size (rest.drop (size - 1))
termination_by l => l.length

/-- Stores the files of each group and reports each. The pause after a group changes nothing. -/
def processBatches (w : Workspace) : List (List Workspace.Found) → Tally → Action Tally
  | [], t => return t
  | batch :: rest, t => do processBatches w rest (← processAll w batch t)

/-- Indexes the workspace from scratch. -/
def fullRun (w : Workspace) : Action Stats := do
  Action.clear
  let files := w.scan
  Action.report (.extracting files.length)
  let t ← processBatches w (batches w.config.batchSize files) { stats := { filesSeen := files.length } }
  Action.report (.resolving t.pending.length)
  let resolved ← Resolve.pending w.now w.registry t.pending
  Action.report .finished
  Action.save
  return { t.stats.absorb resolved with duration := w.elapsed }

/-- Keeps the counts of a full index in the store. -/
def recordRun (w : Workspace) (stats : Stats) : Action Unit := do
  Action.setCheckpoint statsKey stats.text
  Action.setCheckpoint timeKey w.now.text

/-- Indexes the workspace from scratch, and tells so. -/
def fullIndex (w : Workspace) : Action Stats := do
  Action.tell .indexStarted
  match ← Action.attempt (fullRun w) with
  | .ok stats =>
    let _ ← Action.attempt (recordRun w stats)
    Action.tell (.indexCompleted stats)
    return stats
  | .error e =>
    Action.report .finished
    Action.tellFailed "full_index" e
    throw e

/-! ### Some files -/

/-- Brings the index up to date with a path. A path that does not exist any more is removed. -/
def updateFile (w : Workspace) (path : String) (t : Tally) : Action Tally := do
  let t := { t with stats := { t.stats with filesSeen := t.stats.filesSeen + 1 } }
  match Path.relative? w.rootPath path with
  | none => return skip t
  | some path =>
    if w.disk.exists (w.absolute path) then processFile w path t
    else
      match ← Action.attempt (removeFile path) with
      | .ok _ => return t
      | .error _ => return fail t

/-- Brings the index up to date with the paths, without their edges. -/
def updateAll (w : Workspace) : List String → Tally → Action Tally
  | [], t => return t
  | path :: rest, t => do updateAll w rest (← updateFile w path t)

/-- Brings the index up to date with the paths. -/
def partialRun (w : Workspace) (paths : List String) : Action Stats := do
  let t ← updateAll w paths {}
  let resolved ← Resolve.pending w.now w.registry t.pending
  Action.save
  return { t.stats.absorb resolved with duration := w.elapsed }

/-- Brings the index up to date with the paths, which may be absolute or relative to the workspace. -/
def indexFiles (w : Workspace) (paths : List String) : Action Stats := do
  match ← Action.attempt (partialRun w paths) with
  | .ok stats => return stats
  | .error e =>
    Action.tellFailed "index_files" e
    throw e

end Run
end SymbolGraph.Index
