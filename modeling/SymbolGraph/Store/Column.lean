import SymbolGraph.Document.Reader
import SymbolGraph.Graph.Basic
import SymbolGraph.Number.Scaling
import SymbolGraph.Store.Error

/-! What the columns of a store make of the values that are put into them. A column of texts turns
    numbers into texts; a column of numbers turns texts that spell numbers into numbers, and keeps
    others. -/

namespace SymbolGraph.Store

/-- A value that is put into a column. -/
inductive Cell where
  | integer (value : Int)
  | real (value : Decimal)
  | text (value : String)
  deriving Repr, BEq, DecidableEq

/-- What a column of integers holds. -/
inductive Stored where
  | integer (value : Int)
  /-- A value that is not an integer. -/
  | other
  deriving Repr, BEq, DecidableEq

/-- What a column of weights holds. -/
inductive StoredWeight where
  | weight (value : Weight)
  /-- A value that is not a number. -/
  | other
  deriving Repr, BEq, DecidableEq

/-- The smallest integer that a column holds. -/
def smallestInteger : Int := -9223372036854775808

/-- The largest integer that a column holds. -/
def largestInteger : Int := 9223372036854775807

/-- The integer, unless the column holds something else. -/
def Stored.integer? : Stored → Except StoreError Int
  | integer n => .ok n
  | other => .error (.database .columnType)

/-- How a size or an offset is stored: what is too large becomes the largest integer. -/
def Stored.ofNat (n : Nat) : Stored := .integer (min n largestInteger)

/-- The weight, unless the column holds something else. -/
def StoredWeight.weight? : StoredWeight → Except StoreError Weight
  | weight w => .ok w
  | other => .error (.database .columnType)

/-! ### Texts that spell numbers -/

open Document Reader

/-- Whether the character may stand around a number. -/
def isAround (c : Char) : Bool := c == ' ' || ('\t' ≤ c && c ≤ '\r')

/-- A sign, if there is one: whether it is a minus. -/
def minus : Reader Bool := do
  let sign ← maybe (one fun c => c == '-' || c == '+')
  return sign == some '-'

/-- The power of ten after a number. A larger one than 99999 makes no difference. -/
def power : Reader Int := do
  let _ ← one fun c => c == 'e' || c == 'E'
  let negative ← minus
  let size : Int := min 99999 (numberIn 10 ((← run1 Char.isDigit).dropWhile (· == '0') |>.take 6))
  return if negative then -size else size

/-- A number as it is spelt. -/
structure Numeral where
  negative : Bool
  /-- The digits before the point. -/
  whole : List Char
  /-- The digits after the point, if there is one. -/
  fraction : Option (List Char)
  power : Option Int
  deriving Repr, BEq, DecidableEq

/-- A number, with blanks around it. -/
def numeral : Reader Numeral := do
  let _ ← run isAround
  let negative ← minus
  let whole ← run Char.isDigit
  let fraction ← if ← skip? "." then some <$> run Char.isDigit else pure none
  if whole.isEmpty && (fraction.getD []).isEmpty then failure
  let power ← maybe power
  let _ ← run isAround
  atEnd
  return { negative, whole, fraction, power }

/-- The number that a text spells. -/
def numeral? (text : String) : Option Numeral := onText numeral text

namespace Numeral

/-- The number with the sign of the numeral. -/
def signed (x : Numeral) (size : Int) : Int := if x.negative then -size else size

/-- The integer that is spelt, if there is neither point nor power. -/
def integer? (x : Numeral) : Option Int :=
  if x.fraction.isSome ∨ x.power.isSome then none else some (x.signed (numberIn 10 x.whole))

/-- From here on there is no room for another digit. -/
def fullFrom : Nat := (UInt64.size - 1 - 9) / 10

/-- The digits `n` and those after them that there is room for, and how many digits are left. -/
def fill : (n : Nat) → List Char → Nat × Nat
  | n, [] => (n, 0)
  | n, c :: rest =>
    if n < fullFrom then fill (n * 10 + numberIn 10 [c]) rest else (n, rest.length + 1)

/-- The number that is spelt, as a store reads it: 19 or 20 digits of it count. There is none if it
    is too large. -/
def value? (x : Numeral) : Option Decimal :=
  let (n, left) := fill 0 x.whole
  let fraction := x.fraction.getD []
  let (n, dropped) := fill n fraction
  let exponent : Int := x.power.getD 0 + left - (fraction.length - dropped)
  (Scaled.read? n exponent).map fun d => ⟨x.signed d.mantissa, d.places⟩

end Numeral

/-! ### The columns -/

/-- The number of decimal digits that a number has when it becomes a text. -/
def textDigits : Nat := 15

/-- What a column of texts makes of a value. -/
def Cell.toText : Cell → String
  | integer n => toString n
  | real d => ((d.nearestBinary?).getD d).leading.significant textDigits
  | text s => s

/-- A number in a column of integers: it becomes an integer if it is one, unless that is the smallest
    or the largest. -/
def Stored.ofDecimal (d : Option Decimal) : Stored :=
  match d.bind (·.whole?) with
  | some n => if smallestInteger < n ∧ n < largestInteger then .integer n else .other
  | none => .other

/-- What a column of integers makes of a value. -/
def Cell.toInteger : Cell → Stored
  | integer n => .integer n
  | real d => .ofDecimal d.nearestBinary?
  | text s =>
    match numeral? s with
    | none => .other
    | some x =>
      match x.integer?.filter fun n => smallestInteger ≤ n ∧ n ≤ largestInteger with
      | some n => .integer n
      | none => .ofDecimal x.value?

/-- What a column of weights makes of a value. -/
def Cell.toWeight : Cell → StoredWeight
  | integer n => .weight (.ofDecimal ⟨n, 0⟩)
  | real d => .weight (.ofDecimal d)
  | text s =>
    match numeral? s with
    | none => .other
    | some x => .weight ((x.value?.map .finite).getD .infinite)

end SymbolGraph.Store
