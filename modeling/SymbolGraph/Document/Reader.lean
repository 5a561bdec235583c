import SymbolGraph.Text.Split

/-! Reading characters from the front of a text. A reader takes what it needs and leaves the rest, or
    fails. -/

namespace SymbolGraph.Document

/-- A reader of characters. -/
abbrev Reader := StateT (List Char) Option

namespace Reader

/-- What is left. -/
def rest : Reader (List Char) := get

/-- The next character, which is not taken. -/
def peek? : Reader (Option Char) := return (← get).head?

/-- Takes the next character. -/
def next : Reader Char := do
  match ← get with
  | c :: cs => set cs; return c
  | [] => failure

/-- Takes the next character, which must be of the class. -/
def one (isIn : Char → Bool) : Reader Char := do
  match ← get with
  | c :: cs => if isIn c then set cs; return c else failure
  | [] => failure

/-- Takes the character. -/
def mark (c : Char) : Reader Unit := do let _ ← one (· == c)

/-- Takes the longest run of characters of the class. -/
def run (isIn : Char → Bool) : Reader (List Char) := do
  let cs ← get
  set (cs.dropWhile isIn)
  return cs.takeWhile isIn

/-- Takes the longest run of characters of the class, which must not be empty. -/
def run1 (isIn : Char → Bool) : Reader (List Char) := do
  let cs ← run isIn
  if cs.isEmpty then failure else return cs

/-- Takes the text if it comes next. -/
def skip? (text : String) : Reader Bool := do
  match Text.dropStart? text.toList (← get) with
  | some rest => set rest; return true
  | none => return false

/-- Takes the text. -/
def word (text : String) : Reader Unit := do if ← skip? text then pure () else failure

/-- Succeeds at the end of the text only. -/
def atEnd : Reader Unit := do if (← get).isEmpty then pure () else failure

/-- Runs the reader if it succeeds, and takes nothing otherwise. -/
def maybe {α : Type} (r : Reader α) : Reader (Option α) := fun cs =>
  match r cs with
  | some (a, rest) => some (some a, rest)
  | none => some (none, cs)

/-- The result on a whole text. -/
def onText {α : Type} (r : Reader α) (text : String) : Option α := (r text.toList).map (·.1)

end Reader

/-! ### Numbers in digits -/

/-- The value of a digit in bases up to sixteen. -/
def digitValue (c : Char) : Nat :=
  if c.isDigit then c.toNat - 48 else if c.toNat < 97 then c.toNat - 55 else c.toNat - 87

/-- The number that the digits spell in the base. -/
def numberIn (base : Nat) (digits : List Char) : Nat :=
  digits.foldl (fun n c => n * base + digitValue c) 0

/-- Whether the character is a digit in base sixteen. -/
def isHexDigit (c : Char) : Bool := c.isDigit || ('a' ≤ c && c ≤ 'f') || ('A' ≤ c && c ≤ 'F')

/-- The character with the number, unless there is none. -/
def scalar? (n : Nat) : Option Char :=
  if n < 0xD800 ∨ (0xDFFF < n ∧ n < 0x110000) then some (Char.ofNat n) else none

end SymbolGraph.Document
