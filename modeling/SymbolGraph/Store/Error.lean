import SymbolGraph.Report

/-! What can go wrong in a store. -/

namespace SymbolGraph

/-- What is wrong with a row. -/
inductive RowFault where
  | unknownSymbolKind (word : String)
  | negativeStart (offset : Int)
  | negativeStop (offset : Int)
  | unknownEdgeKind (word : String)
  | badTimestamp (text : String)
  /-- Rows of the path must not be written. -/
  | writeRefused (path : String)
  deriving Repr, BEq, DecidableEq

/-- What is said about the row. -/
def RowFault.detail : RowFault → String
  | unknownSymbolKind word => "unknown symbol kind `" ++ word ++ "`"
  | negativeStart offset => s!"negative start byte {offset}"
  | negativeStop offset => s!"negative end byte {offset}"
  | unknownEdgeKind word => "unknown edge kind `" ++ word ++ "`"
  | badTimestamp text => "bad timestamp `" ++ text ++ "`"
  | writeRefused path => "write refused for " ++ path

/-- A transaction call at the wrong time. -/
inductive TransactionFault where
  | alreadyActive
  | noneToCommit
  | noneToRollBack
  /-- Saving has to wait for the end of the transaction. -/
  | openAtCheckpoint
  deriving Repr, BEq, DecidableEq

/-- What is said about the transaction. -/
def TransactionFault.detail : TransactionFault → String
  | alreadyActive => "transaction already active"
  | noneToCommit => "no active transaction to commit"
  | noneToRollBack => "no active transaction to roll back"
  | openAtCheckpoint => "cannot checkpoint inside an open transaction"

/-- What is wrong with a database. -/
inductive DatabaseFault where
  /-- A column holds a value of another type. -/
  | columnType
  /-- The file is no database. -/
  | notADatabase
  /-- The file cannot be opened. -/
  | cannotOpen
  /-- There is such a row already. -/
  | duplicateKey
  deriving Repr, BEq, DecidableEq

/-- What is said about the database. -/
def DatabaseFault.detail : DatabaseFault → String
  | columnType => "invalid column type"
  | notADatabase => "file is not a database"
  | cannotOpen => "unable to open database file"
  | duplicateKey => "constraint failed"

/-- Why a store refuses a call. -/
inductive StoreError where
  | database (fault : DatabaseFault)
  | invalidRow (fault : RowFault)
  /-- A stored text does not hold what it should. -/
  | serialization
  | transaction (fault : TransactionFault)
  deriving Repr, BEq, DecidableEq

/-- What is said about the failure. -/
def StoreError.report : StoreError → Report
  | database fault => ⟨.database, fault.detail⟩
  | invalidRow fault => ⟨.invalidRow, fault.detail⟩
  | serialization => ⟨.serialization, "unexpected content"⟩
  | transaction fault => ⟨.transaction, fault.detail⟩

end SymbolGraph
