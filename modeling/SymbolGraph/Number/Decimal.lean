import SymbolGraph.Time.Instant

/-! Decimal numbers. -/

namespace SymbolGraph

/-- A decimal number: `mantissa` with its last `places` digits after the point. -/
structure Decimal where
  mantissa : Int
  places : Nat := 0
  deriving Repr, BEq, DecidableEq

namespace Decimal

/-- The number `mantissa` times a power of ten. -/
def scaled (mantissa exponent : Int) : Decimal :=
  if exponent < 0 then ⟨mantissa, exponent.natAbs⟩ else ⟨mantissa * Nat.pow 10 exponent.toNat, 0⟩

/-- The number without at most `n` zeros at the end of its places. -/
def dropZeros : (n : Nat) → Decimal → Decimal
  | 0, d => d
  | n + 1, d =>
    if d.places = 0 ∨ d.mantissa % 10 ≠ 0 then d
    else dropZeros n ⟨d.mantissa / 10, d.places - 1⟩

/-- The number with as few places as it needs. -/
def trimmed (d : Decimal) : Decimal := d.dropZeros d.places

/-- The integer that the number is, if it is one. -/
def whole? (d : Decimal) : Option Int :=
  if d.mantissa % Nat.pow 10 d.places = 0 then some (d.mantissa / Nat.pow 10 d.places) else none

/-- The number in digits, with at least one of them after the point. -/
def text (d : Decimal) : String :=
  let (size, places) := if d.places = 0 then (d.mantissa.natAbs * 10, 1) else (d.mantissa.natAbs, d.places)
  let sign := if d.mantissa < 0 then "-" else ""
  sign ++ toString (size / Nat.pow 10 places) ++ "." ++ Time.padded places (size % Nat.pow 10 places)

/-! ### Significant digits -/

/-- The quotient rounded to the nearest integer, a half upwards. -/
def roundUpDiv (n d : Nat) : Nat := (2 * n + d) / (2 * d)

/-- The first `count` digits of a number of `width` digits, rounded, and by how much the rounding has
    made the number longer. -/
def leadingDigits (count width n : Nat) : Nat × Nat :=
  let first := if count < width then roundUpDiv n (Nat.pow 10 (width - count)) else n * Nat.pow 10 (count - width)
  if first = Nat.pow 10 count then (first / 10, 1) else (first, 0)

/-- The digits without the zeros at their end, but for one if there is nothing else. -/
def fractionText (digits : List Char) : String :=
  let kept := (digits.reverse.dropWhile (· == '0')).reverse
  String.ofList (if kept.isEmpty then ['0'] else kept)

/-- The exponent with its sign and at least two digits. -/
def exponentText (e : Int) : String := (if e < 0 then "-" else "+") ++ Time.padded 2 e.natAbs

/-- The number to `count` significant digits, with at least one of them after the point. Numbers of
    more than `count` digits before the point, and those with four zeros or more after it, are
    written with an exponent. -/
def significant (count : Nat) (d : Decimal) : String :=
  let size := d.mantissa.natAbs
  if size = 0 then "0.0"
  else
    let width := (Nat.toDigits 10 size).length
    let (first, longer) := leadingDigits count width size
    let digits := Nat.toDigits 10 first
    let exponent : Int := width - 1 - d.places + longer
    let sign := if d.mantissa < 0 then "-" else ""
    if exponent < -4 ∨ count ≤ exponent then
      sign ++ String.ofList (digits.take 1) ++ "." ++ fractionText (digits.drop 1) ++ "e" ++ exponentText exponent
    else if exponent < 0 then
      sign ++ "0." ++ fractionText (List.replicate (exponent.natAbs - 1) '0' ++ digits)
    else
      let whole := exponent.toNat + 1
      sign ++ String.ofList (digits.take whole) ++ "." ++ fractionText (digits.drop whole)

end Decimal
end SymbolGraph
