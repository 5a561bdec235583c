import SymbolGraph.Ignore.Glob
import SymbolGraph.Report
import SymbolGraph.Text.Blank

/-! Rules for what is left out of the index. A rule is a line of text: a directory if it ends in a
    slash, a wildcard pattern if it holds one, a name otherwise. -/

namespace SymbolGraph.Ignore

open Text

/-- One rule. -/
inductive Rule where
  /-- Everything below a directory of that name. -/
  | directory (dir : String)
  /-- Every path or file name that the pattern stands for. -/
  | pattern (glob : Glob)
  /-- Every path with that component, and the path itself. -/
  | exact (name : String)
  deriving Repr, BEq, DecidableEq

/-- The line of a rule that cannot be read. -/
structure LineError where
  /-- The trimmed line. -/
  line : String
  cause : GlobError
  deriving Repr, BEq, DecidableEq

/-- What is said about the line. -/
def LineError.report (e : LineError) : Report := .ofIgnoreLine e.line e.cause.message

/-- Rules together with the lines that they were read from. -/
structure RuleSet where
  rules : List Rule := []
  lines : List String := []
  deriving Repr, BEq, DecidableEq

namespace Rule

/-- The rule that a trimmed line spells. A leading `./` or slash says nothing. -/
def read (line : String) : Except LineError Rule :=
  let pattern := trimStartChar '/' (trimStarts "./" line)
  if hasEnd "/" pattern then .ok (.directory (trimEndChar '/' pattern))
  else if pattern.toList.any ("*?[".toList.contains ·) then
    match Glob.read pattern with
    | .ok glob => .ok (.pattern glob)
    | .error e => .error ⟨line, e⟩
  else .ok (.exact pattern)

/-- Whether the path lies below a directory `dir`. -/
def inDirectory (dir path : String) : Bool :=
  if dir.isEmpty then false
  else if dir.toList.contains '/' then
    hasStart (dir ++ "/") path || hasPart ("/" ++ dir ++ "/") path
  else (split '/' path).dropLast.contains dir

/-- Whether the rule leaves out the path, which ends in a slash if it is that of a directory. -/
def ignores (path : String) : Rule → Bool
  | directory dir => inDirectory dir path
  | pattern glob =>
    let trimmed := trimEndChar '/' path
    glob.matches trimmed || glob.matches (afterLast '/' trimmed)
  | exact name =>
    let trimmed := trimEndChar '/' path
    trimmed == name || (split '/' trimmed).contains name

end Rule

namespace RuleSet

/-- No rules. -/
def empty : RuleSet := {}

/-- Whether there are no rules. -/
def isEmpty (s : RuleSet) : Bool := s.rules.isEmpty

/-- Adds the rule of a line, if the line is neither blank nor a comment. -/
def add (s : RuleSet) (line : String) : Except LineError RuleSet :=
  let line := trim line
  if line.isEmpty || hasStart "#" line then .ok s
  else
    match Rule.read line with
    | .ok rule => .ok { rules := s.rules ++ [rule], lines := s.lines ++ [line] }
    | .error e => .error e

/-- Adds the rules of the lines, up to the first that cannot be read. -/
def addAll : RuleSet → List String → Except LineError RuleSet
  | s, [] => .ok s
  | s, line :: rest =>
    match s.add line with
    | .ok s => addAll s rest
    | .error e => .error e

/-- The rules of the lines. -/
def ofLines (lines : List String) : Except LineError RuleSet := addAll {} lines

/-- The lines that leave out the directories with the given names. -/
def directoryLines (dirs : List String) : List String :=
  ((dirs.map (trimEndChar '/')).filter (· ≠ "")).map (· ++ "/")

/-- The rules for the excluded directories and then those of the text of an ignore file. -/
def ofSettings (excluded : List String) (ignoreFile : String) : Except LineError RuleSet :=
  ofLines (directoryLines excluded ++ Text.lines ignoreFile)

/-- Whether some rule leaves out the path. -/
def ignores (s : RuleSet) (path : String) : Bool := s.rules.any (·.ignores path)

end RuleSet
end SymbolGraph.Ignore
