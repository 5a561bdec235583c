import SymbolGraph.Document.Value
import SymbolGraph.Document.Reader
import SymbolGraph.Time.Calendar

/-! The texts, numbers, dates and words of TOML. -/

namespace SymbolGraph.Document.Toml

open Reader

/-- A space or a tab. -/
def isSpace (c : Char) : Bool := c == ' ' || c == '\t'

/-- Takes spaces and tabs. -/
def spaces : Reader Unit := do let _ ← run isSpace

/-- Whether the character may stand in a comment: no control character but the tab. -/
def isPlain (c : Char) : Bool := c == '\t' || (0x20 ≤ c.toNat && c.toNat != 0x7F)

/-- Takes the end of a line. -/
def newline : Reader Unit := do
  if ← skip? "\n" then pure () else word "\r\n"

/-! ### Texts -/

/-- Whether the character stands for itself in a text between double quotes. -/
def isBasic (c : Char) : Bool := isPlain c && c != '\x22' && c != '\\'

/-- Whether the character stands for itself in a text between single quotes. -/
def isLiteral (c : Char) : Bool := isPlain c && c != '\x27'

/-- So many hexadecimal digits. -/
def hexDigits : Nat → Reader (List Char)
  | 0 => return []
  | n + 1 => do return (← one isHexDigit) :: (← hexDigits n)

/-- The character with the number that the next `n` hexadecimal digits spell. -/
def numbered (n : Nat) : Reader Char := do
  match scalar? (numberIn 16 (← hexDigits n)) with
  | some c => return c
  | none => failure

/-- The character that stands after a backslash. -/
def escaped : Reader Char := do
  match ← next with
  | 'b' => return '\x08'
  | 't' => return '\t'
  | 'n' => return '\n'
  | 'f' => return '\x0c'
  | 'r' => return '\r'
  | '\x22' => return '\x22'
  | '\\' => return '\\'
  | 'u' => numbered 4
  | 'U' => numbered 8
  | _ => failure

/-- The characters of a text between double quotes, to the closing one. -/
def basicBody : (fuel : Nat) → Reader (List Char)
  | 0 => failure
  | fuel + 1 => do
    match ← next with
    | '\x22' => return []
    | '\\' =>
      let c ← escaped
      return c :: (← basicBody fuel)
    | c => if isBasic c then return c :: (← basicBody fuel) else failure

/-- Takes the ends of lines and the spaces between them. -/
def blankLines : (fuel : Nat) → Reader Unit
  | 0 => pure ()
  | fuel + 1 => do
    spaces
    match ← maybe newline with
    | some () => blankLines fuel
    | none => pure ()

/-- The end of a line and the blanks after it, which a backslash takes out of a text. -/
def foldedLine (fuel : Nat) : Reader Unit := do
  spaces; newline; blankLines fuel

/-- The quotes at the end of a text between three of them. Three close it, and up to two more before
    them belong to it; fewer than three all belong to it. Says how many belong to it and whether it
    is closed. -/
def quotes (quote : Char) : Reader (Nat × Bool) := do
  let cs ← rest
  let n := (cs.takeWhile (· == quote)).length
  if n < 3 then
    set (cs.drop n)
    return (n, false)
  else
    let inside := min (n - 3) 2
    set (cs.drop (inside + 3))
    return (inside, true)

/-- The characters of a text between three double quotes, to the closing ones. -/
def basicLines : (fuel : Nat) → Reader (List Char)
  | 0 => failure
  | fuel + 1 => do
    match ← peek? with
    | some '\x22' =>
      let (inside, closed) ← quotes '\x22'
      let before := List.replicate inside '\x22'
      if closed then return before else return before ++ (← basicLines fuel)
    | some '\\' =>
      mark '\\'
      match ← maybe (foldedLine fuel) with
      | some () => basicLines fuel
      | none =>
        let c ← escaped
        return c :: (← basicLines fuel)
    | some c =>
      if isBasic c then
        mark c
        return c :: (← basicLines fuel)
      else
        newline
        return '\n' :: (← basicLines fuel)
    | none => failure

/-- The characters of a text between three single quotes, to the closing ones. -/
def literalLines : (fuel : Nat) → Reader (List Char)
  | 0 => failure
  | fuel + 1 => do
    match ← peek? with
    | some '\x27' =>
      let (inside, closed) ← quotes '\x27'
      let before := List.replicate inside '\x27'
      if closed then return before else return before ++ (← literalLines fuel)
    | some c =>
      if isLiteral c then
        mark c
        return c :: (← literalLines fuel)
      else
        newline
        return '\n' :: (← literalLines fuel)
    | none => failure

/-- The characters of a text between single quotes, to the closing one. -/
def literalBody : Reader (List Char) := do
  let cs ← run isLiteral
  mark '\x27'
  return cs

/-- A text on one line. -/
def lineText : Reader String := do
  let fuel := (← rest).length + 1
  if ← skip? "\x22" then return String.ofList (← basicBody fuel)
  else
    mark '\x27'
    return String.ofList (← literalBody)

/-- A text of either kind on one line or several. A line end right after the opening quotes does not
    count. -/
def text : Reader String := do
  let fuel := (← rest).length + 1
  if ← skip? "\x22\x22\x22" then
    let _ ← maybe newline
    return String.ofList (← basicLines fuel)
  else if ← skip? "\x27\x27\x27" then
    let _ ← maybe newline
    return String.ofList (← literalLines fuel)
  else lineText

/-! ### Numbers -/

/-- Digits with single underscores between them. -/
def digitGroups (isDigit : Char → Bool) : (fuel : Nat) → Reader (List Char)
  | 0 => failure
  | fuel + 1 => do
    let digits ← run1 isDigit
    if ← skip? "_" then return digits ++ (← digitGroups isDigit fuel) else return digits

/-- Digits with single underscores between them. -/
def digits (isDigit : Char → Bool) : Reader (List Char) := do
  digitGroups isDigit ((← rest).length + 1)

/-- A sign, if there is one: whether the number is negative. -/
def sign : Reader Bool := do
  match ← maybe (one fun c => c == '+' || c == '-') with
  | some c => return c == '-'
  | none => return false

/-- The digits of a decimal integer: a zero stands alone. -/
def wholeDigits : Reader (List Char) := do
  if ← skip? "0" then return ['0'] else digits Char.isDigit

/-- The integer, if it fits in 64 bits with a sign. -/
def fitting (value : Int) : Reader Value :=
  if -9223372036854775808 ≤ value ∧ value < 9223372036854775808 then return .integer value else failure

/-- Whether a decimal is too large for a number of double precision: `mantissa` with the point moved
    `exponent` places to the right. What lies half a unit above the largest such number counts as too
    large. -/
def tooLarge (mantissa : Nat) (exponent : Int) : Bool :=
  let bound := Nat.pow 2 1024 - Nat.pow 2 970
  let width : Int := (Nat.toDigits 10 mantissa).length
  if mantissa = 0 then false
  else if 400 < width + exponent then true
  else if width + exponent < 0 then false
  else if 0 ≤ exponent then bound ≤ mantissa * Nat.pow 10 exponent.toNat
  else bound * Nat.pow 10 (-exponent).toNat ≤ mantissa

/-- A power of ten: its sign and digits. -/
def power : Reader Int := do
  let _ ← one fun c => c == 'e' || c == 'E'
  let negative ← sign
  let size : Int := numberIn 10 (← digits Char.isDigit)
  return if negative then -size else size

/-- A number in decimal digits. With a point or a power of ten it is no integer. -/
def decimal : Reader Value := do
  let negative ← sign
  let whole ← wholeDigits
  let fraction ← if ← skip? "." then digits Char.isDigit else pure []
  let isPower := (← peek?).any fun c => c == 'e' || c == 'E'
  let exponent ← if isPower then power else pure 0
  if fraction.isEmpty && !isPower then
    let size : Int := numberIn 10 whole
    fitting (if negative then -size else size)
  else if !negative && tooLarge (numberIn 10 (whole ++ fraction)) (exponent - fraction.length) then
    failure
  else return .real (String.ofList (whole ++ '.' :: fraction))

/-- A number that a word stands for. -/
def special : Reader Value := do
  let _ ← sign
  if ← skip? "inf" then return .real "inf"
  else
    word "nan"
    return .real "nan"

/-- An integer in another base, after its mark. -/
def based (base : Nat) (isDigit : Char → Bool) : Reader Value := do
  fitting (numberIn base (← digits isDigit))

/-- A number. -/
def number : Reader Value := do
  if ← skip? "0x" then based 16 isHexDigit
  else if ← skip? "0o" then based 8 fun c => '0' ≤ c && c ≤ '7'
  else if ← skip? "0b" then based 2 fun c => c == '0' || c == '1'
  else
    match ← maybe special with
    | some v => return v
    | none => decimal

/-! ### Dates -/

/-- A number of exactly two digits that is at most `most`. -/
def twoDigits (least most : Nat) : Reader Nat := do
  let n := numberIn 10 [← one Char.isDigit, ← one Char.isDigit]
  if least ≤ n ∧ n ≤ most then return n else failure

/-- The year of a date and the dash after it. -/
def yearMark : Reader Nat := do
  let digits := [← one Char.isDigit, ← one Char.isDigit, ← one Char.isDigit, ← one Char.isDigit]
  mark '-'
  return numberIn 10 digits

/-- Month and day of a date in the year. -/
def monthDay (year : Nat) : Reader Unit := do
  let month ← twoDigits 1 12
  mark '-'
  let day ← twoDigits 1 31
  if day ≤ Time.daysInMonth year month then pure () else failure

/-- The hour of a time and the colon after it. -/
def hourMark : Reader Unit := do
  let _ ← twoDigits 0 23
  mark ':'

/-- Minute and second of a time. -/
def minuteSecond : Reader Unit := do
  let _ ← twoDigits 0 59
  mark ':'
  let _ ← twoDigits 0 60
  if (← peek?) == some '.' then
    mark '.'
    let _ ← run1 Char.isDigit

/-- The distance from universal time, if it is given. -/
def zone : Reader Unit := do
  match ← peek? with
  | some 'Z' => mark 'Z'
  | some 'z' => mark 'z'
  | some '+' => mark '+'; hourMark; let _ ← twoDigits 0 59
  | some '-' => mark '-'; hourMark; let _ ← twoDigits 0 59
  | _ => pure ()

/-- The mark between date and time and the hour, if a time follows. -/
def timeStart : Reader Bool := do
  match ← maybe (do let _ ← one fun c => c == 'T' || c == 't' || c == ' '; hourMark) with
  | some () => return true
  | none => return false

/-- What a reader takes, as text. -/
def taken (r : Reader Unit) : Reader String := do
  let before ← rest
  r
  return String.ofList (before.take (before.length - (← rest).length))

/-- The rest of a date in the year, with or without a time. -/
def dateRest (year : Nat) : Reader Unit := do
  monthDay year
  if ← timeStart then
    minuteSecond
    zone

/-- A date or a time if one starts here, a number otherwise. -/
def numberOrDate : Reader Value := do
  match ← maybe yearMark with
  | some year => return .date (← taken (dateRest year))
  | none =>
    match ← maybe hourMark with
    | some () => return .date (← taken minuteSecond)
    | none => number

end SymbolGraph.Document.Toml
