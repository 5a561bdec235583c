import SymbolGraph.Index.Run

/-! Following the changes of a workspace. -/

namespace SymbolGraph.Index

namespace Watch

/-- Puts a change into the queue. -/
def enqueue (c : Change) : Action Unit := modify fun s => { s with changes := s.changes.push c }

/-- Brings the index up to date with a change. Failures are told and not passed on. -/
def handle (w : Workspace) : Change → Action Unit
  | .changed path => do let _ ← Action.attempt (Run.indexFiles w [path])
  | .removed path => do
    match ← Action.attempt (Run.removeFile path) with
    | .ok _ => pure ()
    | .error e => Action.tellFailed "remove_file" e

/-- One step of a drain, with what handling a change does. -/
def step (w : Workspace) (d : Drain Change) : Action (Drain Change) := do
  match d.phase with
  | .handle c => handle w c
  | _ => pure ()
  let s ← get
  let (d, changes) := d.step s.changes
  set { s with changes }
  return d

/-- Runs a drain for at most `fuel` steps, to its end if that is enough. -/
def run (w : Workspace) : (fuel : Nat) → Drain Change → Action (Drain Change)
  | 0, d => return d
  | fuel + 1, d =>
    match d.phase with
    | .done => return d
    | _ => do run w fuel (← step w d)

/-- The steps that a drain takes at most when nobody else puts changes into the queue: two for each
    change, one of which the hook may add, and four more. -/
def stepsFor (s : Session) : Nat := 2 * (s.changes.waiting.length + 1) + 4

/-- Handles the changes in the queue, unless a drain is at work. Gives their number. -/
def drain (w : Workspace) : Action Nat := do
  let d ← run w (stepsFor (← get)) {}
  return d.handled

/-- Indexes the workspace and then follows its changes, if the settings say so. -/
def start (w : Workspace) : Action Stats := do
  let stats ← Run.fullIndex w
  if w.config.watch then modify fun s => { s with watching := true }
  return stats

/-- Does not follow changes any more. Says whether they were followed. -/
def stop : Action Bool := do
  let s ← get
  set { s with watching := false }
  return s.watching

/-- What the disk says of a path that changed: something to index is gone or has a new content. -/
def notice? (w : Workspace) (path : String) : Option Change := do
  let path ← Path.relative? w.rootPath path
  let _ ← w.accepts path
  if w.disk.isFile (w.absolute path) then some (.changed path)
  else if w.disk.exists (w.absolute path) then none
  else some (.removed path)

/-- Handles the paths that changed. -/
def follow (w : Workspace) : List String → Action Unit
  | [] => pure ()
  | path :: rest => do
    match notice? w path with
    | some c =>
      enqueue c
      let _ ← drain w
    | none => pure ()
    follow w rest

end Watch
end SymbolGraph.Index
