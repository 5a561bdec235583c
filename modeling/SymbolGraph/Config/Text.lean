import SymbolGraph.Config.Basic
import SymbolGraph.Disk.Basic
import SymbolGraph.Document.Toml.Read
import SymbolGraph.Document.Toml.Write

/-! Settings as text and as a file. -/

namespace SymbolGraph.Config

open Document

/-- How settings are read from a text. -/
def textRule : RecordRule := { otherItems := true }

/-- The settings that a text gives. -/
def read (text : String) : Except ConfigError Config := do
  match (Toml.read text).bind (ofValue? textRule) with
  | some c => do c.validate; return c
  | none => throw .parse

/-- The choice of languages as text. -/
def languagesText : LanguageChoice → String
  | .auto => Toml.writeText "auto"
  | .only ids => Toml.writeTexts ids

/-- Whether the numbers fit in 64 bits with a sign. -/
def isWritable (c : Config) : Bool :=
  [c.batchSize, c.maxFileBytes, c.batchPause, c.debounce].all (· < 9223372036854775808)

/-- The settings as text. -/
def text (c : Config) : String :=
  "[index]\n" ++
    s!"batch_size = {c.batchSize}\n" ++
    s!"max_file_bytes = {c.maxFileBytes}\n" ++
    s!"batch_pause_ms = {c.batchPause}\n" ++
    "exclude_dirs = " ++ Toml.writeTexts c.excludeDirs ++ "\n" ++
    "languages = " ++ languagesText c.languages ++ "\n" ++
    "\n[watch]\n" ++
    s!"enabled = {c.watch}\n" ++
    s!"debounce_ms = {c.debounce}\n" ++
    "\n[store]\n" ++
    "path = " ++ Toml.writeText c.storePath ++ "\n"

/-- The settings as text, unless a number does not fit. -/
def write (c : Config) : Except ConfigError String :=
  if c.isWritable then .ok c.text else .error .parse

/-! ### Files -/

/-- The settings in the file at the path. -/
def loadFrom (d : Disk) (path : String) : Except ConfigError Config :=
  match d.readText path with
  | .ok text => read text
  | .error .notFound => .error (.missing path)
  | .error e => .error (.invalid (.file path e))

/-- The settings of the workspace at `root`, the default ones if there is no file. -/
def load (d : Disk) (root : String) : Except ConfigError Config :=
  if d.exists (pathFor root) then loadFrom d (pathFor root) else .ok {}

/-- Writes the settings of the workspace at `root`. -/
def save (c : Config) (d : Disk) (root : String) : Except ConfigError Disk := do
  let directory := Path.append root stateDirectory
  match d.makeDirectories directory with
  | .error e => throw (.invalid (.file directory e))
  | .ok d =>
    let text ← c.write
    match d.write (pathFor root) (.text text) with
    | .error e => throw (.invalid (.file (pathFor root) e))
    | .ok d => return d

end SymbolGraph.Config
