import SymbolGraph.Index.Watch

/-! Runs of an index. Between two calls of it the disk may change in any way, the store may begin or cease
    to refuse changes of a path, and time goes on. What the workspace is made of besides stays the same. -/

namespace SymbolGraph.Index

/-- What the clock says during a call. A moment is of use only if its text can be read back. -/
structure Clock where
  now : Time.Instant
  /-- How long the call takes. -/
  elapsed : Duration
  readable : (Time.Instant.read now.text).isSome

/-- The first moment of 1970. -/
def Clock.epoch : Clock := ⟨.epoch, {}, by decide⟩

/-- Everything that changes in a run. -/
structure World where
  disk : Disk := {}
  clock : Clock := .epoch
  /-- The paths whose nodes the store refuses to change. -/
  refused : List String := []
  session : Session := {}

/-- What happens in a run. -/
inductive Operation where
  | fullIndex
  | indexFiles (paths : List String)
  | removeFile (path : String)
  | enqueue (c : Change)
  | drain
  /-- The disk is this one from now on. -/
  | edit (disk : Disk)
  | refuse (path : String)
  | allow (path : String)
  /-- A change is going to be put into the queue while a record is written. -/
  | arm (hook : Hook)
  | wait (clock : Clock)

namespace World

/-- An empty store. -/
def start (place : Place) : World := { session := { store := .fresh place } }

/-- The workspace as it is now. -/
def workspace (w : Workspace) (x : World) : Workspace :=
  { w with disk := x.disk, now := x.clock.now, elapsed := x.clock.elapsed }

/-- The session with the gate as it is now. -/
def guarded (x : World) : Session := { x.session with gate := .refusing x.refused }

/-- After an action, whether it succeeded or not. -/
def after {α : Type} (x : World) (action : Action α) : World := { x with session := (action x.guarded).2 }

/-- After something happened. -/
def perform (w : Workspace) (x : World) : Operation → World
  | .fullIndex => x.after (Run.fullIndex (x.workspace w))
  | .indexFiles paths => x.after (Run.indexFiles (x.workspace w) paths)
  | .removeFile path => x.after (Run.removeFile path)
  | .enqueue c => x.after (Watch.enqueue c)
  | .drain => x.after (Watch.drain (x.workspace w))
  | .edit disk => { x with disk }
  | .refuse path => { x with refused := path :: x.refused }
  | .allow path => { x with refused := x.refused.filter (· != path) }
  | .arm hook => { x with session := { x.session with hook? := some hook } }
  | .wait clock => { x with clock }

/-- After a run. -/
def run (w : Workspace) (x : World) (ops : List Operation) : World := ops.foldl (perform w) x

end World
end SymbolGraph.Index
