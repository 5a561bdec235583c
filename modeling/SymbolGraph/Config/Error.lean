import SymbolGraph.Disk.Error
import SymbolGraph.Report

/-! What can be wrong with the settings. -/

namespace SymbolGraph

/-- Why settings cannot be used. -/
inductive InvalidConfig where
  | batchSize
  | maxFileBytes
  /-- The file cannot be read or written. -/
  | file (path : String) (cause : IoError)
  deriving Repr, BEq, DecidableEq

/-- What is said about the settings. -/
def InvalidConfig.detail : InvalidConfig → String
  | batchSize => "index.batch_size must be at least 1"
  | maxFileBytes => "index.max_file_bytes must be at least 1"
  | file path cause => path ++ ": " ++ cause.text

/-- Why there are no settings. -/
inductive ConfigError where
  /-- There is no such file. -/
  | missing (path : String)
  | invalid (cause : InvalidConfig)
  /-- The text or the value does not have the form of settings. -/
  | parse
  deriving Repr, BEq, DecidableEq

/-- What is said about the failure. -/
def ConfigError.report : ConfigError → Report
  | missing path => ⟨.configMissing, path⟩
  | invalid cause => ⟨.configInvalid, cause.detail⟩
  | parse => ⟨.configParse, "unexpected content"⟩

end SymbolGraph
