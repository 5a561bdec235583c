import SymbolGraph.Time.Calendar

/-! Moments in universal time and their text after RFC 3339. -/

namespace SymbolGraph.Time

/-- A moment. -/
structure Instant where
  /-- The days since 1 March of the year 0. -/
  day : Int
  /-- The minute of the day. -/
  minute : Nat
  /-- The second of the minute, 60 in a leap second. -/
  second : Nat
  nano : Nat
  deriving Repr, BEq, DecidableEq

/-! ### Reading -/

/-- The value of a digit. -/
def digit? (c : Char) : Option Nat := if c.isDigit then some (c.toNat - 48) else none

/-- The number that exactly `n` digits at the start spell, and the characters after them. -/
def digits? : (n : Nat) → (value : Nat) → List Char → Option (Nat × List Char)
  | 0, value, cs => some (value, cs)
  | _ + 1, _, [] => none
  | n + 1, value, c :: cs => (digit? c).bind fun d => digits? n (value * 10 + d) cs

/-- The characters after the given one. -/
def after? (isMark : Char → Bool) : List Char → Option (List Char)
  | c :: cs => if isMark c then some cs else none
  | [] => none

/-- The number that exactly `n` digits after a mark spell. -/
def digitsAfter? (isMark : Char → Bool) (n : Nat) (cs : List Char) : Option (Nat × List Char) :=
  (after? isMark cs).bind (digits? n 0)

/-- The nanoseconds of a fraction of a second, of which nine digits count, and what follows. Where
    there is no point there is no fraction. -/
def fraction? : List Char → Option (Nat × List Char)
  | '.' :: cs =>
    let digits := cs.takeWhile Char.isDigit
    if digits.isEmpty then none
    else
      let nine := (digits ++ List.replicate 9 '0').take 9
      (digits? 9 0 nine).map fun (nanos, _) => (nanos, cs.dropWhile Char.isDigit)
  | cs => some (0, cs)

/-- The minutes that the place is ahead of universal time. Nothing may follow. -/
def offset? : List Char → Option Int
  | [] => none
  | c :: cs =>
    if c == 'Z' || c == 'z' then (if cs.isEmpty then some 0 else none)
    else if c == '+' || c == '-' || c == '\u2212' then do
      let (hours, cs) ← digits? 2 0 cs
      let (minutes, cs) ← digitsAfter? (· == ':') 2 cs
      let ahead : Int := hours * 60 + minutes
      if cs.isEmpty && hours < 24 && minutes < 60 then some (if c == '+' then ahead else -ahead)
      else none
    else none

/-- Whether the character may stand between date and time. -/
def isTimeMark (c : Char) : Bool := c == 'T' || c == 't' || c == ' '

/-- The moment that the text names. -/
def Instant.read (text : String) : Option Instant := do
  let (year, cs) ← digits? 4 0 text.toList
  let (month, cs) ← digitsAfter? (· == '-') 2 cs
  let (day, cs) ← digitsAfter? (· == '-') 2 cs
  let (hour, cs) ← digitsAfter? isTimeMark 2 cs
  let (minute, cs) ← digitsAfter? (· == ':') 2 cs
  let (second, cs) ← digitsAfter? (· == ':') 2 cs
  let (nano, cs) ← fraction? cs
  let ahead ← offset? cs
  let date : Date := ⟨year, month, day⟩
  if date.isValid && hour < 24 && minute < 60 && second ≤ 60 then
    let minutes : Int := date.toDays * 1440 + hour * 60 + minute - ahead
    some ⟨minutes / 1440, (minutes % 1440).toNat, second, nano⟩
  else none

/-! ### Writing -/

/-- The number with zeros in front up to the width. -/
def padded (width n : Nat) : String :=
  let digits := Nat.toDigits 10 n
  String.ofList (List.replicate (width - digits.length) '0' ++ digits)

/-- A year in four digits, with a sign if it needs more or lies before the year 0. -/
def yearText (year : Int) : String :=
  if 0 ≤ year then (if year ≤ 9999 then padded 4 year.toNat else "+" ++ padded 4 year.toNat)
  else "-" ++ padded 4 (-year).toNat

/-- The fraction of a second with as many groups of three digits as it needs. -/
def fractionText (nano : Nat) : String :=
  if nano = 0 then ""
  else if nano % 1000000 = 0 then "." ++ padded 3 (nano / 1000000)
  else if nano % 1000 = 0 then "." ++ padded 6 (nano / 1000)
  else "." ++ padded 9 nano

/-- The text of a moment, in universal time. -/
def Instant.text (t : Instant) : String :=
  let date := Date.ofDays t.day
  yearText date.year ++ "-" ++ padded 2 date.month ++ "-" ++ padded 2 date.day ++ "T" ++
    padded 2 (t.minute / 60) ++ ":" ++ padded 2 (t.minute % 60) ++ ":" ++ padded 2 t.second ++
    fractionText t.nano ++ "+00:00"

/-- The first moment of 1970. -/
def Instant.epoch : Instant := ⟨719468, 0, 0, 0⟩

end SymbolGraph.Time
