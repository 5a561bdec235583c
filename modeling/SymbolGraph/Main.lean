import SymbolGraph.Cli.Bundle
import SymbolGraph.Cli.Commands

/-! The command line. The workspace is read from standard input, as a JSON table from paths to texts. -/

open SymbolGraph

/-- Everything that is left to read. -/
partial def readAll (input : IO.FS.Stream) (read : String) : IO String := do
  let line ← input.getLine
  if line.isEmpty then return read else readAll input (read ++ line)

/-- Runs the command of the arguments on the workspace from standard input. -/
def main (args : List String) : IO UInt32 := do
  match Cli.readBundle (← readAll (← IO.getStdin) "") with
  | none =>
    IO.eprintln "Error: standard input holds no workspace"
    return 1
  | some disk =>
    let (ending, machine) := Cli.runArgs { disk, directory := Cli.bundleRoot } args
    for line in machine.printed do IO.println line
    match ending with
    | .success => pure ()
    | .stopped .version => pure ()
    | .failed failure => IO.eprintln ("Error: " ++ failure.text)
    | .stopped (.help _) => pure ()
    | .stopped .misuse => IO.eprintln ("Usage: " ++ Cli.programPage.usage)
    return UInt32.ofNat ending.status
