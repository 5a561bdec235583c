import SymbolGraph.Config.Error
import SymbolGraph.Document.Record
import SymbolGraph.Extraction
import SymbolGraph.Language.Registry

/-! The settings of a workspace. -/

namespace SymbolGraph

open Document

/-- Which languages are indexed. -/
inductive LanguageChoice where
  /-- All of them. -/
  | auto
  /-- Those with the given names. -/
  | only (ids : List String)
  deriving Repr, BEq, DecidableEq

namespace LanguageChoice

/-- Whether the language of that name is indexed. -/
def allows : LanguageChoice → String → Bool
  | auto, _ => true
  | only ids, id => ids.contains id

/-- The languages to look for. -/
def registry : LanguageChoice → Registry
  | auto => .full
  | only ids => .ofIds ids

/-- The choice that a value stands for: the word `auto` in any case, or a list of names. -/
def ofValue? : Value → Option LanguageChoice
  | .text word => if Text.lowerAscii word = "auto" then some auto else none
  | v => v.texts?.map only

end LanguageChoice

/-- The settings of an index. -/
structure Config where
  /-- How many files are read before a pause. -/
  batchSize : Nat := 50
  /-- The size above which a file is not read. -/
  maxFileBytes : Nat := Extraction.defaultCap
  /-- The length of the pause in milliseconds. -/
  batchPause : Nat := 10
  /-- The directories that are left out. -/
  excludeDirs : List String :=
    ["node_modules", ".git", "target", "dist", "build", "out", "bin", "obj", "vendor",
      "__pycache__", ".venv", "venv", ".next", ".gradle", ".idea", ".vscode", ".tessera"]
  languages : LanguageChoice := .auto
  /-- Whether changes are followed after an index. -/
  watch : Bool := true
  /-- How long a change has to rest, in milliseconds. -/
  debounce : Nat := 300
  /-- The database, seen from the workspace. -/
  storePath : String := ".tessera/graph.db"
  deriving Repr, BEq, DecidableEq

namespace Config

/-- The directory of a workspace that holds settings and database. -/
def stateDirectory : String := ".tessera"

/-- The file with the settings of the workspace at `root`. -/
def pathFor (root : String) : String := Path.append (Path.append root stateDirectory) "config.toml"

/-- The file with the ignore rules of a workspace. -/
def ignoreFile : String := ".tesseraignore"

/-- The database of the workspace at `root`. -/
def databasePath (c : Config) (root : String) : String := Path.append root c.storePath

/-- Checks that an index with the settings can make progress. -/
def validate (c : Config) : Except ConfigError Unit :=
  if c.batchSize = 0 then .error (.invalid .batchSize)
  else if c.maxFileBytes = 0 then .error (.invalid .maxFileBytes)
  else .ok ()

/-- The settings with the ones that a value gives for the index. -/
def readIndex (rule : RecordRule) (c : Config) (v : Value) : Option Config := do
  let names := ["batch_size", "max_file_bytes", "batch_pause_ms", "exclude_dirs", "languages"]
  let [size, bytes, pause, dirs, languages] ← fields rule names v | none
  return { c with
    batchSize := ← fieldOr c.batchSize Value.count? size
    maxFileBytes := ← fieldOr c.maxFileBytes Value.count? bytes
    batchPause := ← fieldOr c.batchPause Value.count? pause
    excludeDirs := ← fieldOr c.excludeDirs Value.texts? dirs
    languages := ← fieldOr c.languages LanguageChoice.ofValue? languages }

/-- The settings with the ones that a value gives for watching. -/
def readWatch (rule : RecordRule) (c : Config) (v : Value) : Option Config := do
  let [enabled, debounce] ← fields rule ["enabled", "debounce_ms"] v | none
  return { c with
    watch := ← fieldOr c.watch Value.bool? enabled
    debounce := ← fieldOr c.debounce Value.count? debounce }

/-- The settings with the ones that a value gives for the store. -/
def readStore (rule : RecordRule) (c : Config) (v : Value) : Option Config := do
  let [path] ← fields rule ["path"] v | none
  return { c with storePath := ← fieldOr c.storePath Value.text? path }

/-- The settings that a value gives. What is not given keeps its default. -/
def ofValue? (rule : RecordRule) (v : Value) : Option Config := do
  let [index, watch, store] ← fields rule ["index", "watch", "store"] v | none
  let c ← fieldOr {} (readIndex rule {}) index
  let c ← fieldOr c (readWatch rule c) watch
  fieldOr c (readStore rule c) store

end Config
end SymbolGraph
