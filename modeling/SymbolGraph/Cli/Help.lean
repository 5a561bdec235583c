import SymbolGraph.Cli.Args

/-! What help says about the commands. -/

namespace SymbolGraph.Cli

/-- The text with blanks after it up to the width. -/
def padRight (width : Nat) (s : String) : String :=
  s ++ String.ofList (List.replicate (width - s.length) ' ')

/-- The text with blanks before it up to the width. -/
def padLeft (width : Nat) (s : String) : String :=
  String.ofList (List.replicate (width - s.length) ' ') ++ s

/-- What help says about one thing. -/
structure HelpPage where
  about : String
  usage : String
  /-- Each with what is said about it, as in the other lists. -/
  commands : List (String × String) := []
  arguments : List (String × String) := []
  options : List (String × String) := []
  deriving Repr, BEq, DecidableEq

namespace HelpPage

/-- Lines in two columns. -/
def columns (rows : List (String × String)) : List String :=
  let width := (rows.map (·.1.length)).foldl max 0
  rows.map fun (name, about) => "  " ++ padRight width name ++ "  " ++ about

/-- A part of the page, unless there is nothing in it. -/
def part (title : String) (rows : List (String × String)) : List String :=
  if rows.isEmpty then [] else ["", title ++ ":"] ++ columns rows

/-- The lines of the page. -/
def lines (p : HelpPage) : List String :=
  [p.about, "", "Usage: " ++ p.usage] ++ part "Commands" p.commands ++ part "Arguments" p.arguments ++
    part "Options" p.options

end HelpPage

/-! ### The pages -/

/-- The name that stands for the value of an option. -/
def OptionForm.valueName (f : OptionForm) : String :=
  f.name.map fun c => if c = '-' then '_' else c.toUpper

/-- How the option is written. -/
def OptionForm.shape (f : OptionForm) : String :=
  let letter := match f.letter? with
    | some c => String.ofList ['-', c, ',', ' ']
    | none => "    "
  let value := match f.takes with
    | .nothing => if f.isCounted then "..." else ""
    | .oneValue => " <" ++ f.valueName ++ ">"
    | .someValues => " <" ++ f.valueName ++ ">..."
  letter ++ "--" ++ f.name ++ value

/-- What is said about something that has the value if none is given. -/
def withPreset (about : String) : Option String → String
  | some value => about ++ " [default: " ++ value ++ "]"
  | none => about

/-- The options in the order in which help lists them: the first of the command, the first of all
    commands, the second of the command, and so on. -/
def alternate : List OptionForm → List OptionForm → List OptionForm
  | [], others => others
  | f :: fs, [] => f :: fs
  | f :: fs, g :: gs => f :: g :: alternate fs gs

/-- The options that ask for help and for the version. -/
def Level.askingOptions (l : Level) : List OptionForm :=
  { name := "help", about := "Print help", letter? := 'h' } ::
    if l.hasVersion then [{ name := "version", about := "Print version", letter? := 'V' }] else []

/-- What help says about the options of a level. -/
def Level.optionRows (l : Level) : List (String × String) :=
  (alternate l.options globalOptions ++ l.askingOptions).map fun f => (f.shape, withPreset f.about f.preset?)

/-- The name of the program. -/
def programName : String := "tessera"

/-- What help says about the command for it. -/
def helpAbout : String := "Print this message or the help of the given subcommand(s)"

/-- The page about everything. -/
def programPage : HelpPage :=
  { about := topLevel.about
    usage := programName ++ " [OPTIONS] <COMMAND>"
    commands := (commandLevels.map fun (name, l) => (name, l.about)) ++ [(helpCommand, helpAbout)]
    options := topLevel.optionRows }

/-- The page about a command. -/
def commandPage (name : String) (l : Level) : HelpPage :=
  { about := l.about
    usage := programName ++ " " ++ name ++ " [OPTIONS] [PATH]"
    arguments := [("[PATH]", withPreset "Workspace root (default: current directory)" defaultPath)]
    options := l.optionRows }

/-- The page about the command that gives help. -/
def helpPage : HelpPage :=
  { about := helpAbout
    usage := programName ++ " " ++ helpCommand ++ " [COMMAND]..."
    arguments := [("[COMMAND]...", "Print help for the subcommand(s)")] }

/-- The page about a command or about everything. -/
def pageAbout (topic : Option String) : HelpPage :=
  match topic with
  | none => programPage
  | some name =>
    match commandLevels.lookup name with
    | some level => commandPage name level
    | none => helpPage

end SymbolGraph.Cli
