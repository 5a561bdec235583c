import SymbolGraph.Document.Value
import SymbolGraph.Text.Split

/-! Writing JSON, with two blanks for each level. -/

namespace SymbolGraph.Document.Json

/-- The digit for a number below sixteen. -/
def hexDigit (n : Nat) : Char := Char.ofNat (if n < 10 then 48 + n else 87 + n)

/-- A character of a text as it stands between quotes. -/
def writtenChar (c : Char) : List Char :=
  match c with
  | '\x22' => ['\\', '\x22']
  | '\\' => ['\\', '\\']
  | '\x08' => ['\\', 'b']
  | '\x0c' => ['\\', 'f']
  | '\n' => ['\\', 'n']
  | '\r' => ['\\', 'r']
  | '\t' => ['\\', 't']
  | c =>
    if c.toNat < 0x20 then ['\\', 'u', '0', '0', hexDigit (c.toNat / 16), hexDigit (c.toNat % 16)]
    else [c]

/-- A text between quotes. -/
def writtenText (s : String) : String := "\x22" ++ String.ofList (s.toList.flatMap writtenChar) ++ "\x22"

/-- A new line at the level. -/
def lineAt (level : Nat) : String := "\n" ++ String.ofList (List.replicate (2 * level) ' ')

/-- The parts in brackets, each on a line of its own. -/
def block (start stop : String) (level : Nat) (parts : List String) : String :=
  if parts.isEmpty then start ++ stop
  else
    let lines := parts.map (lineAt (level + 1) ++ ·)
    start ++ Text.join ',' lines ++ lineAt level ++ stop

mutual

/-- The value as text. -/
def written (level : Nat) : Value → String
  | .null => "null"
  | .bool b => if b then "true" else "false"
  | .integer n => toString n
  | .real text => text
  | .text s => writtenText s
  | .date text => writtenText text
  | .list items => block "[" "]" level (writtenAll (level + 1) items)
  | .headedList items => block "[" "]" level (writtenAll (level + 1) items)
  | .table _ entries => block "\x7b" "\x7d" level (writtenEntries (level + 1) entries)

/-- The values as texts. -/
def writtenAll (level : Nat) : List Value → List String
  | [] => []
  | v :: rest => written level v :: writtenAll level rest

/-- The entries as texts. -/
def writtenEntries (level : Nat) : List (String × Value) → List String
  | [] => []
  | (key, v) :: rest => (writtenText key ++ ": " ++ written level v) :: writtenEntries level rest

end

/-- The value as text. -/
def write (v : Value) : String := written 0 v

end SymbolGraph.Document.Json
