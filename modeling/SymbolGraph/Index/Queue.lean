/-! A queue of changes that any number of callers fill and drain. A flag says that a drain is at work,
    and a drain that finds it set leaves at once. A drain that has emptied the queue takes the flag
    back, and then looks again whether something has come in the meantime. Every step is atomic. -/

namespace SymbolGraph.Index

/-- What all callers see. -/
structure Shared (α : Type) where
  /-- What has to be handled, oldest first. -/
  waiting : List α := []
  /-- A drain is at work. -/
  draining : Bool := false
  deriving Repr, BEq, DecidableEq

/-- Adds an element. -/
def Shared.push {α : Type} (s : Shared α) (a : α) : Shared α := { s with waiting := s.waiting ++ [a] }

/-- What a drain does next. -/
inductive Phase (α : Type) where
  /-- Set the flag, or leave if it is set. -/
  | enter
  /-- Take the oldest element. -/
  | take
  /-- Handle an element. -/
  | handle (a : α)
  /-- Take the flag back. -/
  | release
  /-- Look whether something has come in. -/
  | check
  /-- Set the flag again, or leave if it is set. -/
  | enterAgain
  /-- Nothing. -/
  | done
  deriving Repr, BEq, DecidableEq

/-- A running drain. -/
structure Drain (α : Type) where
  phase : Phase α := .enter
  /-- How many elements it has handled. -/
  handled : Nat := 0
  deriving Repr, BEq, DecidableEq

/-- Sets the flag for a drain that goes on to take elements, unless it is set. -/
def Drain.claim {α : Type} (d : Drain α) (s : Shared α) : Drain α × Shared α :=
  if s.draining then ({ d with phase := .done }, s)
  else ({ d with phase := .take }, { s with draining := true })

/-- One step of a drain. What handling an element does besides is for the caller. -/
def Drain.step {α : Type} (d : Drain α) (s : Shared α) : Drain α × Shared α :=
  match d.phase with
  | .enter => d.claim s
  | .take =>
    match s.waiting with
    | [] => ({ d with phase := .release }, s)
    | a :: rest => ({ d with phase := .handle a }, { s with waiting := rest })
  | .handle _ => ({ phase := .take, handled := d.handled + 1 }, s)
  | .release => ({ d with phase := .check }, { s with draining := false })
  | .check => ({ d with phase := if s.waiting.isEmpty then .done else .enterAgain }, s)
  | .enterAgain => d.claim s
  | .done => (d, s)

end SymbolGraph.Index
