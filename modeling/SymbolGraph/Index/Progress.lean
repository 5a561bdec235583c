/-! What an indexing run reports while it goes on, and the bar that shows it. -/

namespace SymbolGraph.Index

/-- A report of a running index. -/
inductive Progress where
  /-- So many files are going to be read. -/
  | extracting (total : Nat)
  /-- The file is done. -/
  | fileDone (path : String)
  /-- The edges of so many files are going to be resolved. -/
  | resolving (files : Nat)
  | finished
  deriving Repr, BEq, DecidableEq

/-- A progress bar. -/
structure Bar where
  position : Nat := 0
  message : String := ""
  deriving Repr, BEq, DecidableEq

/-- What the bar says while edges are resolved. -/
def resolvingMessage (files : Nat) : String :=
  let noun := if files == 1 then "file" else "files"
  s!"resolving edges for {files} {noun}"

/-- How many blanks the bar shows for a tab. -/
def tabWidth : Nat := 8

/-- The text as the bar shows it. -/
def Bar.shown (text : String) : String :=
  String.ofList (text.toList.flatMap fun c => if c = '\t' then List.replicate tabWidth ' ' else [c])

/-- The bar after a report. -/
def Bar.report (bar : Bar) : Progress → Bar
  | .extracting _ => { bar with position := 0 }
  | .fileDone path => { position := bar.position + 1, message := shown path }
  | .resolving files => { bar with message := resolvingMessage files }
  | .finished => bar

end SymbolGraph.Index
