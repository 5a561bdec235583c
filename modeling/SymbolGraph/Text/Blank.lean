/-! White space as Unicode defines it, and the cuts that are made at it. -/

namespace SymbolGraph.Text

/-- The character has the Unicode property White_Space. -/
def isBlank (c : Char) : Bool :=
  let n := c.toNat
  (0x09 ≤ n && n ≤ 0x0D) || n == 0x20 || n == 0x85 || n == 0xA0 || n == 0x1680 ||
    (0x2000 ≤ n && n ≤ 0x200A) || n == 0x2028 || n == 0x2029 || n == 0x202F || n == 0x205F ||
    n == 0x3000

/-- The characters without the blanks at either end. -/
def trimBlank (cs : List Char) : List Char :=
  ((cs.dropWhile isBlank).reverse.dropWhile isBlank).reverse

/-- The text without the blanks at either end. -/
def trim (s : String) : String := String.ofList (trimBlank s.toList)

/-- Splits at runs of blanks; `word` holds the characters of the word being read, last one first. -/
def splitBlank (word : List Char) : List Char → List (List Char)
  | [] => if word.isEmpty then [] else [word.reverse]
  | c :: cs =>
    if isBlank c then
      if word.isEmpty then splitBlank [] cs else word.reverse :: splitBlank [] cs
    else splitBlank (c :: word) cs

/-- The words of a text: its longest runs of characters that are not blank. -/
def words (s : String) : List String := (splitBlank [] s.toList).map String.ofList

end SymbolGraph.Text
