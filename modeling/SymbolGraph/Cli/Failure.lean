import SymbolGraph.Index.Error

/-! How a command fails: what it says and the status that it leaves with. -/

namespace SymbolGraph.Cli

/-- What lies behind a failure. -/
inductive Cause where
  /-- Nothing but what is said. -/
  | nothing
  | io (cause : IoError)
  | config (cause : ConfigError)
  | index (cause : Error)
  deriving Repr, BEq, DecidableEq

/-- A failure of a command. -/
structure Failure where
  /-- What was tried or is wrong. -/
  message : String
  cause : Cause := .nothing
  deriving Repr, BEq, DecidableEq

/-- The texts of what lies behind an error, from the outermost on. What the disk, the database or a
    reader says comes last, once more on its own. -/
def errorTexts (e : Error) : List String :=
  let r := e.report
  let innermost :=
    match e with
    | .io _ => [r.detail]
    | .store (.database _) => [r.detail]
    | .store .serialization => [r.detail]
    | _ => []
  [r.fullText, r.text] ++ innermost

/-- The texts of a cause, from the outermost on. -/
def Cause.texts : Cause → List String
  | nothing => []
  | io cause => [cause.text]
  | config cause => [cause.report.text]
  | index cause => errorTexts cause

/-- Everything that is said about the failure. -/
def Failure.text (f : Failure) : String :=
  f.cause.texts.foldl (fun said text => said ++ ": " ++ text) f.message

/-- How a command ends. -/
inductive Outcome where
  | success
  | failure
  | badConfig
  | noWorkspace
  | database
  deriving Repr, BEq, DecidableEq

/-- The exit status. -/
def Outcome.status : Outcome → Nat
  | success => 0
  | failure => 1
  | badConfig => 2
  | noWorkspace => 3
  | database => 4

/-- The outcome that a cause alone decides. -/
def Cause.outcome? : Cause → Option Outcome
  | config _ => some .badConfig
  | index (.config _) => some .badConfig
  | index (.store _) => some .database
  | _ => none

/-- The words that decide about other failures, in order. -/
def outcomeWords : List (String × Outcome) :=
  [("not initialized", .noWorkspace), ("cannot resolve path", .noWorkspace),
    ("config", .badConfig), ("database", .database), ("sqlite", .database)]

/-- The outcome that the words of a text decide. -/
def Outcome.ofText (text : String) : Outcome :=
  match outcomeWords.find? fun (word, _) => Text.hasPart word (Text.lowerAscii text) with
  | some (_, outcome) => outcome
  | none => .failure

/-- The outcome of a failure. -/
def Failure.outcome (f : Failure) : Outcome := f.cause.outcome?.getD (.ofText f.text)

end SymbolGraph.Cli
