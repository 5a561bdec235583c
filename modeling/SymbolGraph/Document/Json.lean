import SymbolGraph.Document.Value
import SymbolGraph.Document.Reader

/-! Reading JSON. -/

namespace SymbolGraph.Document.Json

open Reader

/-- Whether the character may stand between tokens. -/
def isSpace (c : Char) : Bool := c == ' ' || c == '\t' || c == '\n' || c == '\r'

/-- Takes the spaces. -/
def spaces : Reader Unit := do let _ ← run isSpace

/-- Four hexadecimal digits. -/
def unit16 : Reader Nat := do
  let digits := [← one isHexDigit, ← one isHexDigit, ← one isHexDigit, ← one isHexDigit]
  return numberIn 16 digits

/-- The character that stands after a backslash. A unit that is half of a pair and stands alone gives
    none. -/
def escaped : Reader (Option Char) := do
  match ← next with
  | '\x22' => return some '\x22'
  | '\\' => return some '\\'
  | '/' => return some '/'
  | 'b' => return some '\x08'
  | 'f' => return some '\x0c'
  | 'n' => return some '\n'
  | 'r' => return some '\r'
  | 't' => return some '\t'
  | 'u' =>
    let high ← unit16
    if 0xD800 ≤ high && high ≤ 0xDBFF then
      match ← maybe (do word "\\u"; unit16) with
      | some low =>
        if 0xDC00 ≤ low && low ≤ 0xDFFF then
          return scalar? (0x10000 + (high - 0xD800) * 0x400 + (low - 0xDC00))
        else return none
      | none => return none
    else return scalar? high
  | _ => failure

/-- The characters up to the closing quote, none if a unit stands alone among them. -/
def stringBody : (fuel : Nat) → (done : Option (List Char)) → Reader (Option (List Char))
  | 0, _ => failure
  | fuel + 1, done => do
    match ← next with
    | '\x22' => return done.map List.reverse
    | '\\' =>
      let c ← escaped
      stringBody fuel (do return (← c) :: (← done))
    | c => if c.toNat < 0x20 then failure else stringBody fuel (done.map (c :: ·))

/-- A text in quotes, none if a unit stands alone in it. -/
def string (fuel : Nat) : Reader (Option String) := do
  mark '\x22'
  return (← stringBody fuel (some [])).map String.ofList

/-- The digits before the point: a zero stands alone. -/
def wholeDigits : Reader (List Char) := do
  match ← one Char.isDigit with
  | '0' => return ['0']
  | c => return c :: (← run Char.isDigit)

/-- The point and the digits after it. -/
def fractionDigits : Reader (List Char) := do
  mark '.'
  return '.' :: (← run1 Char.isDigit)

/-- The power of ten. -/
def exponent : Reader (List Char) := do
  let e ← one fun c => c == 'e' || c == 'E'
  let sign ← maybe (one fun c => c == '+' || c == '-')
  return e :: sign.toList ++ (← run1 Char.isDigit)

/-- A number. What has no point and no power is an integer, if it fits in 64 bits and is not a
    negative zero. -/
def number : Reader Value := do
  let negative ← skip? "-"
  let whole ← wholeDigits
  let fraction ← maybe fractionDigits
  let power ← maybe exponent
  let text := String.ofList ((if negative then ['-'] else []) ++ whole ++ fraction.getD [] ++ power.getD [])
  let size : Int := numberIn 10 whole
  let value := if negative then -size else size
  if fraction.isNone && power.isNone && -9223372036854775808 ≤ value && value < 18446744073709551616 &&
      !(negative && size == 0) then
    return .integer value
  else if (fraction.isNone && (← peek?) == some '.') ||
      (power.isNone && (← peek?).any fun c => c == 'e' || c == 'E') then failure
  else return .real text

/-! Every reader below takes a character before it calls another one, and every bracket is closed, so
    `fuel` lasts if there is as much of it as there are characters and one more. -/

mutual

/-- A value, with spaces before and after it. In the keys of a table inside another value a unit may
    stand alone. -/
def value (inner : Bool) : (fuel : Nat) → Reader Value
  | 0 => failure
  | fuel + 1 => do
    spaces
    let v ← match ← peek? with
      | some 'n' => do word "null"; pure .null
      | some 't' => do word "true"; pure (.bool true)
      | some 'f' => do word "false"; pure (.bool false)
      | some '\x22' => do pure (.text ((← string fuel).getD "\uFFFD"))
      | some '[' => do
        mark '['; spaces
        if ← skip? "]" then pure (.list []) else .list <$> items fuel
      | some '\x7b' => do
        mark '\x7b'; spaces
        if ← skip? "\x7d" then pure (.table .closed []) else .table .closed <$> entries inner fuel
      | _ => number
    spaces
    return v

/-- The values of a list, to its closing bracket. -/
def items : (fuel : Nat) → Reader (List Value)
  | 0 => failure
  | fuel + 1 => do
    let v ← value true fuel
    match ← next with
    | ',' => return v :: (← items fuel)
    | ']' => return [v]
    | _ => failure

/-- The entries of a table, to its closing brace. -/
def entries (inner : Bool) : (fuel : Nat) → Reader (List (String × Value))
  | 0 => failure
  | fuel + 1 => do
    spaces
    let key ← string fuel
    if key.isNone && !inner then failure
    let key := key.getD "\uFFFD"
    spaces; mark ':'
    let v ← value true fuel
    match ← next with
    | ',' => return (key, v) :: (← entries inner fuel)
    | '\x7d' => return [(key, v)]
    | _ => failure

end

/-- The value that the text spells. -/
def read (text : String) : Option Value :=
  onText (do let v ← value false (text.toList.length + 1); atEnd; return v) text

end SymbolGraph.Document.Json
