import SymbolGraph.Text.Split

/-! Places in a text, counted in the bytes of its UTF-8 form. A place between two characters is a
    boundary; a text can be cut at boundaries only. -/

namespace SymbolGraph.Text

/-- The number of bytes that the characters take. -/
def byteLength : List Char → Nat
  | [] => 0
  | c :: cs => c.utf8Size + byteLength cs

/-- The last boundary that is at most so many bytes into the characters. -/
def floorBoundary : List Char → Nat → Nat
  | [], _ => 0
  | c :: cs, n => if c.utf8Size ≤ n then c.utf8Size + floorBoundary cs (n - c.utf8Size) else 0

/-- A place in a text together with the characters after it. -/
structure Tail where
  offset : Nat
  rest : List Char
  deriving Repr, BEq, DecidableEq

/-- The first boundary at or after byte `n` of the characters, which start at `offset`; none if
    they end before. -/
def tailFrom (offset : Nat) : List Char → Nat → Option Tail
  | cs, 0 => some ⟨offset, cs⟩
  | [], _ + 1 => none
  | c :: cs, n + 1 => tailFrom (offset + c.utf8Size) cs (n + 1 - c.utf8Size)

/-- The tail of `text` at the first boundary that is not before byte `n`. -/
def ceilTail? (text : List Char) (n : Nat) : Option Tail := tailFrom 0 text n

/-- The tail of `text` at byte `n`, if that is a boundary. -/
def tailAt? (text : List Char) (n : Nat) : Option Tail :=
  (ceilTail? text n).filter (·.offset = n)

/-- The offset of the last boundary at most `cap` bytes after the tail's start. -/
def Tail.limit (t : Tail) (cap : Nat) : Nat := t.offset + floorBoundary t.rest cap

/-- The bytes of `text` from `start` up to `stop`, if both are boundaries of it in this order. -/
def slice? (text : String) (start stop : Nat) : Option String :=
  if start ≤ stop ∧ stop ≤ text.utf8ByteSize then
    String.fromUTF8? (text.toUTF8.extract start stop)
  else none

/-- The text without one byte-order mark at its start. -/
def dropMark (text : String) : String := (afterStart? "\uFEFF" text).getD text

end SymbolGraph.Text
