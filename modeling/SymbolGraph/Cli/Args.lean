import SymbolGraph.Document.Reader

/-! The arguments of the command line. Options may stand anywhere, short flags may be put together, and
    after `--` nothing is an option. -/

namespace SymbolGraph.Cli

/-- Why arguments do not lead to a command. -/
inductive Stop where
  /-- Help was asked for, about a command or all of them. -/
  | help (topic : Option String)
  /-- The version was asked for. -/
  | version
  /-- The arguments make no sense. -/
  | misuse
  deriving Repr, BEq, DecidableEq

/-- What an option is followed by. -/
inductive Takes where
  | nothing
  | oneValue
  /-- As many values as there are, but at least one. The option may be repeated. -/
  | someValues
  deriving Repr, BEq, DecidableEq

/-- What values an option or an argument may have. -/
inductive ValueForm where
  | any
  /-- A path, which is not empty. -/
  | path
  /-- A number of at most 64 bits. -/
  | number
  deriving Repr, BEq, DecidableEq

/-- The number that a text spells. -/
def number? (text : String) : Option Nat :=
  let digits := match text.toList with
    | '+' :: cs => cs
    | cs => cs
  let n := Document.numberIn 10 digits
  if !digits.isEmpty && digits.all Char.isDigit && n < UInt64.size then some n else none

/-- Whether the text has the form. -/
def ValueForm.fits : ValueForm → String → Bool
  | any, _ => true
  | path, text => !text.isEmpty
  | number, text => (number? text).isSome

/-- An option of a command. -/
structure OptionForm where
  name : String
  /-- What help says about it. -/
  about : String
  takes : Takes := .nothing
  form : ValueForm := .any
  /-- The letter that stands for the name. -/
  letter? : Option Char := none
  /-- It counts how often it is given. -/
  isCounted : Bool := false
  /-- The value if none is given. -/
  preset? : Option String := none
  deriving Repr, BEq, DecidableEq

/-- What was read so far. -/
structure Given where
  /-- The options that were given, with their values. -/
  options : List (String × List String) := []
  arguments : List String := []
  /-- Nothing is an option any more. -/
  ended : Bool := false
  deriving Repr, BEq, DecidableEq

namespace Given

/-- The values of an option. -/
def values (g : Given) (name : String) : List String := (g.options.filter (·.1 == name)).flatMap (·.2)

/-- Whether an option was given. -/
def has (g : Given) (name : String) : Bool := g.options.any (·.1 == name)

/-- The value of an option. -/
def value? (g : Given) (name : String) : Option String := (g.values name).head?

/-- Adds an option. Only some may be given twice. -/
def add (g : Given) (f : OptionForm) (repeatable : Bool) (values : List String) : Except Stop Given :=
  if g.has f.name && !repeatable then .error .misuse
  else if values.all f.form.fits then .ok { g with options := g.options ++ [(f.name, values)] }
  else .error .misuse

end Given

/-- The options that every command takes. -/
def globalOptions : List OptionForm :=
  [{ name := "verbose", about := "Increase verbosity (-v, -vv, -vvv)", letter? := 'v', isCounted := true },
    { name := "quiet", about := "Suppress non-error output", letter? := 'q' }]

/-- What may be given at one level of the command line. -/
structure Level where
  /-- What help says about it. -/
  about : String
  options : List OptionForm := []
  /-- The version may be asked for. -/
  hasVersion : Bool := false
  /-- How many arguments there may be. -/
  arguments : Nat := 0
  deriving Repr, BEq, DecidableEq

namespace Level

/-- The option of that name. -/
def option? (l : Level) (name : String) : Option OptionForm :=
  (l.options ++ globalOptions).find? (·.name == name)

/-- Whether an option may be given twice. -/
def repeatable (f : OptionForm) : Bool := f.takes == .someValues || f.isCounted

/-- Whether the text looks like an option. -/
def looksLikeOption (text : String) : Bool := Text.hasStart "-" text && text != "-"

/-- Adds an option that takes nothing. -/
def addFlag (l : Level) (g : Given) (name : String) : Except Stop Given :=
  match l.option? name with
  | some f => if f.takes = .nothing then g.add f (repeatable f) [] else .error .misuse
  | none => .error .misuse

/-- Adds the flags of the letters. -/
def addLetters (l : Level) (g : Given) : List Char → Except Stop Given
  | [] => .ok g
  | c :: rest =>
    if c = 'h' then .error (.help none)
    else if c = 'V' && l.hasVersion then .error .version
    else
      match (l.options ++ globalOptions).find? (·.letter? == some c) with
      | some f => do addLetters l (← l.addFlag g f.name) rest
      | none => .error .misuse

/-- Adds an option that is written out, with the arguments after it. Gives those that are left. -/
def addLong (l : Level) (g : Given) (text : String) (rest : List String) :
    Except Stop (Given × List String) := do
  let (name, attached) := match Text.cutFirst '=' text with
    | some (name, value) => (name, some value)
    | none => (text, none)
  if name == "help" && attached.isNone then throw (.help none)
  if name == "version" && l.hasVersion && attached.isNone then throw .version
  match l.option? name, attached with
  | none, _ => throw .misuse
  | some f, some value =>
    if f.takes = .nothing then throw .misuse
    return (← g.add f (repeatable f) [value], rest)
  | some f, none =>
    match f.takes with
    | .nothing => return (← g.add f (repeatable f) [], rest)
    | .oneValue =>
      match rest with
      | value :: rest =>
        if looksLikeOption value then throw .misuse
        return (← g.add f (repeatable f) [value], rest)
      | [] => throw .misuse
    | .someValues =>
      let values := rest.takeWhile (!looksLikeOption ·)
      if values.isEmpty then throw .misuse
      return (← g.add f (repeatable f) values, rest.dropWhile (!looksLikeOption ·))

/-- Adds an argument that is no option. It is a path. -/
def addArgument (l : Level) (g : Given) (text : String) : Except Stop Given :=
  if g.arguments.length < l.arguments && ValueForm.path.fits text then
    .ok { g with arguments := g.arguments ++ [text] }
  else .error .misuse

/-- Reads arguments until there are none left or, where none may be given, up to the first. -/
def read (l : Level) : (fuel : Nat) → Given → List String → Except Stop (Given × List String)
  | 0, g, rest => .ok (g, rest)
  | _ + 1, g, [] => .ok (g, [])
  | fuel + 1, g, text :: rest => do
    if g.ended then read l fuel (← l.addArgument g text) rest
    else if text = "--" then read l fuel { g with ended := true } rest
    else
      match Text.afterStart? "--" text with
      | some long =>
        let (g, rest) ← l.addLong g long rest
        read l fuel g rest
      | none =>
        if looksLikeOption text then read l fuel (← l.addLetters g (text.toList.drop 1)) rest
        else if l.arguments = 0 then return (g, text :: rest)
        else read l fuel (← l.addArgument g text) rest

end Level

/-! ### Commands -/

/-- What to do. -/
inductive Command where
  | init (path : String) (languages databasePath : Option String) (force noIndex : Bool)
  | index (path : String) (files : List String)
  | watch (path : String) (debounce : Option Nat)
  | status (path : String) (json : Bool)
  | graph (path : String) (top : Nat)
  deriving Repr, BEq, DecidableEq

/-- A command and whether it should keep quiet. -/
structure Invocation where
  command : Command
  quiet : Bool := false
  deriving Repr, BEq, DecidableEq

/-- What may be given before the command. -/
def topLevel : Level :=
  { about := "Index a source tree into a symbol-level dependency graph", hasVersion := true }

/-- How many symbols are listed if nothing is said about it. -/
def defaultTop : Nat := 20

/-- What may be given to each command. -/
def commandLevels : List (String × Level) :=
  [("init",
      { about := "Create `.tessera/config.toml` and build the initial index"
        options :=
          [{ name := "languages", about := "Comma-separated list of languages to index (default: all)",
             takes := .oneValue },
            { name := "db-path", about := "Custom database location", takes := .oneValue, form := .path },
            { name := "force", about := "Overwrite an existing config" },
            { name := "no-index", about := "Write the config without building the index" }]
        arguments := 1 }),
    ("index",
      { about := "Rebuild the index, or reindex specific files"
        options :=
          [{ name := "files", about := "Reindex only these files (relative to the workspace root)",
             takes := .someValues, form := .path }]
        arguments := 1 }),
    ("watch",
      { about := "Index, then keep the graph fresh as files change"
        options :=
          [{ name := "debounce-ms", about := "Debounce window in milliseconds (overrides config)",
             takes := .oneValue, form := .number }]
        arguments := 1 }),
    ("status",
      { about := "Show what the index currently holds"
        options := [{ name := "json", about := "Print machine-readable JSON" }]
        arguments := 1 }),
    ("graph",
      { about := "List the most-referenced symbols"
        options :=
          [{ name := "top", about := "Number of symbols to list", takes := .oneValue, form := .number,
             preset? := toString defaultTop }]
        arguments := 1 })]

/-- The command that gives help. -/
def helpCommand : String := "help"

/-- The path that is meant if none is given. -/
def defaultPath : String := "."

/-- The command of that name with what was given to it. -/
def commandOf (name : String) (g : Given) : Command :=
  let path := g.arguments.headD defaultPath
  match name with
  | "init" => .init path (g.value? "languages") (g.value? "db-path") (g.has "force") (g.has "no-index")
  | "index" => .index path (g.values "files")
  | "watch" => .watch path ((g.value? "debounce-ms").bind number?)
  | "status" => .status path (g.has "json")
  | _ => .graph path (((g.value? "top").bind number?).getD defaultTop)

/-- What help is asked about by what follows the command for it. -/
def helpTopic : List String → Except Stop (Option String)
  | [] => .ok none
  | [name] => if name = helpCommand ∨ (commandLevels.lookup name).isSome then .ok name else .error .misuse
  | _ => .error .misuse

/-- What the arguments ask for. -/
def invocation (args : List String) : Except Stop Invocation := do
  let (top, rest) ← topLevel.read (args.length + 1) {} args
  match rest with
  | [] => throw .misuse
  | name :: rest =>
    match commandLevels.lookup name with
    | some level =>
      match level.read (rest.length + 1) {} rest with
      | .ok (given, _) => return ⟨commandOf name given, top.has "quiet" || given.has "quiet"⟩
      | .error (.help _) => throw (.help name)
      | .error stop => throw stop
    | none => if name = helpCommand then throw (.help (← helpTopic rest)) else throw .misuse

end SymbolGraph.Cli
