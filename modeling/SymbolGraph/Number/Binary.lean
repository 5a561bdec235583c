import SymbolGraph.Number.Decimal

/-! Numbers with 53 binary digits, the ones that fit in a floating-point number of 64 bits. The units
    of their last digits are the powers of two from the one to -1074 on. -/

namespace SymbolGraph.Decimal

/-- The quotient rounded to the nearest integer, a half to the even one. -/
def roundEvenDiv (n d : Nat) : Nat :=
  let quotient := n / d
  let twice := 2 * (n % d)
  if d < twice ∨ (twice = d ∧ quotient % 2 = 1) then quotient + 1 else quotient

/-- The largest `e` such that two to the power of `e` is at most the quotient of the two positive
    numbers. -/
def binaryExponent (n d : Nat) : Int :=
  let e : Int := (n.log2 : Int) - d.log2
  let isLess := if e < 0 then n * Nat.pow 2 e.natAbs < d else n < d * Nat.pow 2 e.toNat
  if isLess then e - 1 else e

/-- The nearest number with 53 binary digits to a quotient, of two the one with an even last digit.
    There is none if it would have to be two to the power of 1024 or more. -/
def nearestQuotient? (n d : Nat) : Option Decimal :=
  if n = 0 then some ⟨0, 0⟩
  else
    let unit := max (binaryExponent n d - 52) (-1074)
    if unit < 0 then
      let digits := roundEvenDiv (n * Nat.pow 2 unit.natAbs) d
      some (trimmed ⟨digits * Nat.pow 5 unit.natAbs, unit.natAbs⟩)
    else
      let value := roundEvenDiv n (d * Nat.pow 2 unit.toNat) * Nat.pow 2 unit.toNat
      if value < Nat.pow 2 1024 then some ⟨value, 0⟩ else none

/-- The nearest number with 53 binary digits, of two the one with an even last digit. There is none
    if it would have to be two to the power of 1024 or more. -/
def nearestBinary? (d : Decimal) : Option Decimal :=
  (nearestQuotient? d.mantissa.natAbs (Nat.pow 10 d.places)).map fun size =>
    if d.mantissa < 0 then ⟨-size.mantissa, size.places⟩ else size

end SymbolGraph.Decimal
