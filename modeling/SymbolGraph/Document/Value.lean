/-! Values of a structured document. -/

namespace SymbolGraph.Document

/-- How a table came to be. -/
inductive TableForm where
  /-- It stands between braces and is complete. -/
  | closed
  /-- It has a header of its own. -/
  | headed
  /-- The header of a table below it mentions it. -/
  | implied
  /-- A key with dots mentions it. -/
  | dotted
  deriving Repr, BEq, DecidableEq

/-- A value. -/
inductive Value where
  | null
  | bool (value : Bool)
  | integer (value : Int)
  /-- A number that is not an integer, by its text. -/
  | real (text : String)
  | text (value : String)
  /-- A date, a time or both, by their text. -/
  | date (text : String)
  | list (items : List Value)
  /-- A list of tables with a header each. -/
  | headedList (items : List Value)
  | table (form : TableForm) (entries : List (String × Value))
  deriving Repr, BEq, Inhabited

namespace Value

/-- The items of a list. -/
def items? : Value → Option (List Value)
  | list items => some items
  | headedList items => some items
  | _ => none

/-- The entries of a table. -/
def entries? : Value → Option (List (String × Value))
  | table _ entries => some entries
  | _ => none

/-- The integer, if it is not negative and fits in 64 bits. -/
def count? : Value → Option Nat
  | integer n => if 0 ≤ n ∧ n < 18446744073709551616 then some n.toNat else none
  | _ => none

def text? : Value → Option String
  | text s => some s
  | _ => none

def bool? : Value → Option Bool
  | bool b => some b
  | _ => none

/-- The texts of a list of texts. -/
def texts? (v : Value) : Option (List String) := v.items?.bind (·.mapM text?)

end Value
end SymbolGraph.Document
