import SymbolGraph.Document.Reader

/-! Writing settings as TOML. A text is written in the plainest form that can hold it, and a list of
    two or more texts has one line for each. -/

namespace SymbolGraph.Document.Toml

/-- What decides in which form a text is written. -/
structure TextTraits where
  /-- It holds a control character other than tab and newline. -/
  hasControl : Bool
  hasBackslash : Bool
  hasNewline : Bool
  /-- The longest run of double quotes. -/
  doubleQuotes : Nat
  /-- The longest run of single quotes. -/
  singleQuotes : Nat
  deriving Repr, BEq, DecidableEq

/-- Whether the character is a control character that only an escape can stand for. -/
def isControl (c : Char) : Bool :=
  (c.toNat < 0x20 && c != '\t' && c != '\n') || c.toNat == 0x7F

/-- The longest run of the character; the run that is being read has the length `current`. -/
def longestRun (c : Char) : (current longest : Nat) → List Char → Nat
  | current, longest, [] => max current longest
  | current, longest, d :: ds =>
    if d = c then longestRun c (current + 1) longest ds else longestRun c 0 (max current longest) ds

/-- The traits of a text. -/
def TextTraits.of (cs : List Char) : TextTraits where
  hasControl := cs.any isControl
  hasBackslash := cs.contains '\\'
  hasNewline := cs.contains '\n'
  doubleQuotes := longestRun '\x22' 0 0 cs
  singleQuotes := longestRun '\x27' 0 0 cs

/-- A form of writing a text. -/
inductive TextForm where
  /-- Between double quotes, with escapes. -/
  | basic
  /-- Between single quotes, as it is. -/
  | literal
  /-- Between three double quotes, with escapes. -/
  | basicLines
  /-- Between three single quotes, as it is. -/
  | literalLines
  deriving Repr, BEq, DecidableEq

/-- The form in which a text is written. -/
def TextForm.of (t : TextTraits) : TextForm :=
  if !t.hasControl && !t.hasBackslash && t.doubleQuotes = 0 && !t.hasNewline then .basic
  else if !t.hasControl && t.singleQuotes = 0 && !t.hasNewline then .literal
  else if !t.hasControl && !t.hasBackslash && t.doubleQuotes ≤ 2 then .basicLines
  else if !t.hasControl && t.singleQuotes ≤ 2 then .literalLines
  else if t.hasNewline then .basicLines
  else .basic

/-- The digit for a number below sixteen. -/
def upperHexDigit (n : Nat) : Char := Char.ofNat (if n < 10 then 48 + n else 55 + n)

/-- The escape of a character by its number. -/
def numberedEscape (c : Char) : List Char :=
  ['\\', 'u'] ++ [c.toNat / 4096 % 16, c.toNat / 256 % 16, c.toNat / 16 % 16, c.toNat % 16].map upperHexDigit

/-- The characters between double quotes. On several lines newlines stand for themselves and of three
    double quotes in a row only the last is escaped; `run` is the number of double quotes before. -/
def basicChars (onLines : Bool) : (run : Nat) → List Char → List Char
  | _, [] => []
  | run, c :: cs =>
    if c = '\x22' then
      if onLines && run < 2 then c :: basicChars onLines (run + 1) cs
      else '\\' :: c :: basicChars onLines 0 cs
    else
      let written :=
        match c with
        | '\x08' => ['\\', 'b']
        | '\t' => ['\\', 't']
        | '\n' => if onLines then ['\n'] else ['\\', 'n']
        | '\x0c' => ['\\', 'f']
        | '\r' => ['\\', 'r']
        | '\\' => ['\\', '\\']
        | c => if isControl c then numberedEscape c else [c]
      written ++ basicChars onLines 0 cs

/-- The text between quotes. After three quotes a newline is put in that does not count, if the text
    has newlines itself. -/
def writeText (s : String) : String :=
  let traits := TextTraits.of s.toList
  let start := if traits.hasNewline then "\n" else ""
  match TextForm.of traits with
  | .basic => "\x22" ++ String.ofList (basicChars false 0 s.toList) ++ "\x22"
  | .literal => "\x27" ++ s ++ "\x27"
  | .basicLines => "\x22\x22\x22" ++ start ++ String.ofList (basicChars true 0 s.toList) ++ "\x22\x22\x22"
  | .literalLines => "\x27\x27\x27" ++ start ++ s ++ "\x27\x27\x27"

/-- The texts between brackets. -/
def writeTexts : List String → String
  | [] => "[]"
  | [s] => "[" ++ writeText s ++ "]"
  | ss => "[\n" ++ String.join (ss.map fun s => "    " ++ writeText s ++ ",\n") ++ "]"

end SymbolGraph.Document.Toml
