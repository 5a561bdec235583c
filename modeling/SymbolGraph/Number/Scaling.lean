import SymbolGraph.Number.Binary

/-! Numbers with 64 binary digits, and how they are multiplied by powers of ten: in steps of a
    hundred, ten and one, each of them rounded. The results are near the exact ones and not always
    the nearest. A store reads and writes numbers with a fraction in this way. -/

namespace SymbolGraph

/-- A number that is not negative: `digits` times two to the power of `exponent`. -/
structure Scaled where
  digits : Nat
  exponent : Int := 0
  deriving Repr, BEq, DecidableEq

namespace Scaled

/-- How many binary digits are kept. -/
def width : Nat := 64

/-- The nearest number to a quotient, of two the one with an even last digit. -/
def ofQuotient (n d : Nat) : Scaled :=
  if n = 0 then ⟨0, 0⟩
  else
    let unit := Decimal.binaryExponent n d - (width - 1)
    let digits :=
      if unit < 0 then Decimal.roundEvenDiv (n * Nat.pow 2 unit.natAbs) d
      else Decimal.roundEvenDiv n (d * Nat.pow 2 unit.toNat)
    ⟨digits, unit⟩

/-- The numerator of the number as a quotient. -/
def numerator (x : Scaled) : Nat := x.digits * Nat.pow 2 x.exponent.toNat

/-- The denominator of the number as a quotient. -/
def denominator (x : Scaled) : Nat := Nat.pow 2 (-x.exponent).toNat

/-- Whether the first number is less than the second. -/
def less (x y : Scaled) : Bool := x.numerator * y.denominator < y.numerator * x.denominator

/-- The integer part of the number. -/
def floor (x : Scaled) : Nat := x.numerator / x.denominator

/-- The product, rounded. -/
def times (x y : Scaled) : Scaled :=
  let product := ofQuotient (x.digits * y.digits) 1
  ⟨product.digits, product.exponent + x.exponent + y.exponent⟩

/-- Ten to the power of `e`, rounded. -/
def tenTo (e : Int) : Scaled :=
  if e < 0 then ofQuotient 1 (Nat.pow 10 e.natAbs) else ofQuotient (Nat.pow 10 e.toNat) 1

/-- The number times ten to the power of `e`, a hundred, ten and one digits at a time. -/
def shift (e : Int) (x : Scaled) : Scaled :=
  let step (size : Nat) := tenTo (if e < 0 then -size else size)
  let by100 := Nat.repeat (step 100).times (e.natAbs / 100) x
  let by10 := Nat.repeat (step 10).times (e.natAbs % 100 / 10) by100
  Nat.repeat (step 1).times (e.natAbs % 10) by10

/-! ### Reading -/

/-- The largest number with 53 binary digits that is less than two to the power of 1024. -/
def largest : Scaled := ⟨9007199254740991, 971⟩

/-- The nearest number with 53 binary digits, unless the number is more than the largest of them. -/
def toDecimal? (x : Scaled) : Option Decimal :=
  if largest.less x then none else Decimal.nearestQuotient? x.numerator x.denominator

/-- The digits `n` with zeros added as long as the power of ten is positive and they stay below
    2 ^ 64, at most `limit` times. -/
def addZeros : (limit : Nat) → Nat → Int → Nat × Int
  | 0, n, e => (n, e)
  | limit + 1, n, e => if 0 < e ∧ n < (UInt64.size - 1) / 10 then addZeros limit (n * 10) (e - 1) else (n, e)

/-- The digits `n` without zeros at their end as long as the power of ten is negative, at most
    `limit` times. -/
def dropZeros : (limit : Nat) → Nat → Int → Nat × Int
  | 0, n, e => (n, e)
  | limit + 1, n, e => if e < 0 ∧ n % 10 = 0 then dropZeros limit (n / 10) (e + 1) else (n, e)

/-- The number with the digits `n`, which are less than 2 ^ 64, times ten to the power of `e`. -/
def read? (n : Nat) (e : Int) : Option Decimal :=
  if n = 0 then some ⟨0, 0⟩
  else
    let (n, e) := addZeros 20 n e
    let (n, e) := dropZeros 20 n e
    if e = 0 then Decimal.nearestQuotient? n 1 else ((ofQuotient n 1).shift e).toDecimal?

/-! ### Writing -/

/-- The number times ten to the power of `step` as long as `goesOn` holds, at most `limit` times, and
    the power of ten by which it is to be multiplied then. -/
def shiftWhile (goesOn : Scaled → Bool) (step : Int) : (limit : Nat) → Scaled × Int → Scaled × Int
  | 0, (x, e) => (x, e)
  | limit + 1, (x, e) =>
    if goesOn x then shiftWhile goesOn step limit (x.times (tenTo step), e - step) else (x, e)

/-- The number with its point after 18 or 19 digits, and the power of ten by which it is to be
    multiplied then. -/
def leading (x : Scaled) : Scaled × Int :=
  let least (e : Int) (x : Scaled) := !x.less (tenTo e)
  let below (e : Int) (x : Scaled) := x.less (tenTo e)
  if least 19 x then
    (x, 0) |> shiftWhile (least 119) (-100) 4 |> shiftWhile (least 29) (-10) 11
      |> shiftWhile (least 19) (-1) 11
  else
    (x, 0) |> shiftWhile (below (-97)) 100 4 |> shiftWhile (below 7) 10 12
      |> shiftWhile (below 17) 1 11

end Scaled

/-- The first 18 or 19 digits of a number with 53 binary digits. -/
def Decimal.leading (d : Decimal) : Decimal :=
  let size := d.mantissa.natAbs
  if size = 0 then d
  else
    let (x, e) := (Scaled.ofQuotient size (Nat.pow 10 d.places)).leading
    .scaled (if d.mantissa < 0 then -x.floor else x.floor) e

end SymbolGraph
