import SymbolGraph.Config.Basic
import SymbolGraph.Disk.Basic
import SymbolGraph.Index.Error
import SymbolGraph.Index.Stats

/-! A workspace as an index sees it: which files it has, which of them are indexed and what they
    hold. -/

namespace SymbolGraph.Index

/-- How texts become syntax trees. -/
abbrev Parser := Language → String → Option Tree.Node

/-- What an index is made of. -/
structure Workspace where
  /-- Where the workspace is. -/
  root : Disk.Location := []
  config : Config := {}
  registry : Registry := .full
  ignore : Ignore.RuleSet := {}
  disk : Disk := {}
  parser : Parser := fun _ _ => none
  /-- The time of the clock. -/
  now : Time.Instant := .epoch
  /-- How long a run takes. -/
  elapsed : Duration := {}

namespace Workspace

/-- The text of the ignore file, empty if there is none. -/
def ignoreText (disk : Disk) (root : String) : Except IoError String :=
  let path := Path.append root Config.ignoreFile
  if disk.isFile path then disk.readText path else .ok ""

/-- The ignore rules of the settings and of the workspace's ignore file. -/
def loadIgnore (disk : Disk) (root : String) (excluded : List String) : Except Error Ignore.RuleSet :=
  match ignoreText disk root with
  | .error e => .error (.io e)
  | .ok text =>
    match Ignore.RuleSet.ofSettings excluded text with
    | .ok rules => .ok rules
    | .error e => .error (.ignoreLine e)

/-- The workspace at the absolute path with the settings. -/
def load (disk : Disk) (path : String) (config : Config) : Except Error Workspace :=
  match disk.find path with
  | .error e => .error (.io e)
  | .ok (root, _) => do
    let ignore ← loadIgnore disk (Disk.Location.path root) config.excludeDirs
    return { root, config, registry := config.languages.registry, ignore, disk }

/-- The absolute path of the workspace. -/
def rootPath (w : Workspace) : String := Disk.Location.path w.root

/-! ### Which files are indexed -/

/-- The language of a path, if it is indexed. -/
def classify (w : Workspace) (path : String) : Option Language :=
  (w.registry.forPath? path).filter fun language => w.config.languages.allows language.id

/-- The language of a path that is indexed and not left out. -/
def accepts (w : Workspace) (path : String) : Option Language :=
  if w.ignore.ignores path then none else w.classify path

/-- The names of the directories around what the names lead to, from the outermost on, each with the
    names before it. -/
def enclosing : List String → List (List String)
  | [] => []
  | [_] => []
  | n :: rest => [n] :: (enclosing rest).map (n :: ·)

/-- Whether a directory around the names is left out. -/
def inIgnoredDirectory (w : Workspace) (names : List String) : Bool :=
  (enclosing names).any fun directory => w.ignore.ignores (Text.join '/' directory ++ "/")

/-- Whether a location on the disk holds a file itself. -/
def holdsFile (w : Workspace) (at_ : Disk.Location) : Bool :=
  match w.disk.entry? at_ with
  | some (.file _) => true
  | _ => false

/-- The names that lead from the workspace to the location, if it lies below. -/
def below? (w : Workspace) (at_ : Disk.Location) : Option (List String) :=
  if w.root.isPrefixOf at_ && w.root != at_ then some (at_.drop w.root.length) else none

/-- Whether the workspace and every directory around the names can be listed. -/
def reaches (w : Workspace) (names : List String) : Bool :=
  ([] :: enclosing names).all fun directory => w.disk.canList (w.root ++ directory)

/-- A file that is to be indexed. -/
structure Found where
  path : String
  language : Language
  deriving Repr, BEq, DecidableEq

/-- The file at the location, if it is to be indexed. Directories that are left out are not entered, those
    that cannot be listed are passed over, and links are not followed. -/
def found? (w : Workspace) (at_ : Disk.Location) : Option Found := do
  let names ← w.below? at_
  let path := Text.join '/' names
  if w.holdsFile at_ && w.reaches names && !w.inIgnoredDirectory names then
    (w.accepts path).map fun language => ⟨path, language⟩
  else none

/-- The files that are to be indexed, by path. -/
def scan (w : Workspace) : List Found :=
  (w.disk.locations.filterMap w.found?).mergeSort fun a b => decide (a.path ≤ b.path)

/-! ### What files hold -/

/-- The absolute path of a path in the workspace. -/
def absolute (w : Workspace) (path : String) : String := Path.append w.rootPath path

/-- The text of a file that is not too long and has no zero byte. -/
def source? (w : Workspace) (path : String) : Option String :=
  match w.disk.content (w.absolute path) with
  | .ok (.text s) =>
    if s.utf8ByteSize ≤ w.config.maxFileBytes && !s.toList.contains '\x00' then some s else none
  | _ => none

/-- What a text in the language holds. -/
def extract (w : Workspace) (language : Language) (text : String) : Extract :=
  Extraction.extractOrRecover language (some text) w.config.maxFileBytes
    (w.parser language (Text.dropMark text))

end Workspace
end SymbolGraph.Index
