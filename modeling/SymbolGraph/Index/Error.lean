import SymbolGraph.Config.Error
import SymbolGraph.Ignore.Rules
import SymbolGraph.Store.Error

/-! Everything that can go wrong with an index. -/

namespace SymbolGraph

/-- Why something fails. -/
inductive Error where
  | store (cause : StoreError)
  | io (cause : IoError)
  | ignoreLine (cause : Ignore.LineError)
  | config (cause : ConfigError)
  deriving Repr, BEq, DecidableEq

/-- What is said about the failure. -/
def Error.report : Error → Report
  | store cause => cause.report
  | io cause => ⟨.io, cause.text⟩
  | ignoreLine cause => cause.report
  | config cause => cause.report

end SymbolGraph
