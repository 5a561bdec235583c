import SymbolGraph.Text.Blank
import SymbolGraph.Text.Offset

/-! Where a declaration ends when there is no syntax tree: at the brace that closes its first one, at
    the end of its indented block, or at the end of its line. Bodies are looked for in a window of
    limited length. -/

namespace SymbolGraph.Recovery

open Text

/-! ### Braces -/

/-- The offset after the brace that closes the last open one, or `limit` if the window ends before.
    `depth` braces are open; closing braces before the first open one do not count. -/
def closingBrace (limit : Nat) : (depth offset : Nat) → List Char → Nat
  | _, _, [] => limit
  | depth, offset, c :: cs =>
    if limit ≤ offset then limit
    else if c = '\x7b' then closingBrace limit (depth + 1) (offset + c.utf8Size) cs
    else if c = '\x7d' then
      match depth with
      | 0 => closingBrace limit 0 (offset + c.utf8Size) cs
      | 1 => offset + c.utf8Size
      | depth + 2 => closingBrace limit (depth + 1) (offset + c.utf8Size) cs
    else closingBrace limit depth (offset + c.utf8Size) cs

/-- The end of the braced body that starts in the tail, at most `cap` bytes on. -/
def Tail.braceEnd (t : Text.Tail) (cap : Nat) : Nat := closingBrace (t.limit cap) 0 t.offset t.rest

/-- The end of the braced body after byte `start` of the text. There is none if the window's end
    would lie before `start`: beyond the text, or inside the character that `start` is in. -/
def braceEnd? (text : List Char) (start cap : Nat) : Option Nat :=
  match ceilTail? text start with
  | none => none
  | some t =>
    let skipped := t.offset - start
    if skipped ≤ cap then some (Tail.braceEnd t (cap - skipped)) else none

/-! ### Indented blocks -/

/-- The number of spaces and tabs that the line starts with. -/
def indentation (line : List Char) : Nat := (line.takeWhile fun c => c == ' ' || c == '\t').length

/-- The lines with their offsets, the first of which is `offset`. -/
def placeLines (offset : Nat) : List (List Char) → List Text.Tail
  | [] => []
  | line :: rest => ⟨offset, line⟩ :: placeLines (offset + byteLength line + 1) rest

/-- The offset of the end of a placed line. -/
def placedEnd (line : Text.Tail) : Nat := line.offset + byteLength line.rest

/-- The characters up to the end of the last line that starts at or before `limit`. -/
def linesTo (limit : Nat) : (offset : Nat) → List Char → List Char
  | _, [] => []
  | offset, c :: cs =>
    if limit ≤ offset ∧ c = '\n' then [] else c :: linesTo limit (offset + c.utf8Size) cs

/-- The end of the last line of the block, where `last` is the end of its last line so far. A line
    with text that is indented by at most `indent` ends the block. -/
def blockEnd (indent last : Nat) : List Text.Tail → Nat
  | [] => last
  | line :: rest =>
    if line.rest.all isBlank then blockEnd indent last rest
    else if indentation line.rest ≤ indent then last
    else blockEnd indent (placedEnd line) rest

/-- The end of the indented block whose header starts the tail, at most `cap` bytes on. -/
def Tail.indentEnd (t : Text.Tail) (indent cap : Nat) : Nat :=
  let limit := t.limit cap
  match placeLines t.offset (splitChars '\n' (linesTo limit t.offset t.rest)) with
  | [] => t.offset
  | header :: later => min (blockEnd indent (placedEnd header) later) limit

/-- The end of the indented block whose header starts at byte `start`, which must be a boundary of
    the text. -/
def indentEnd? (text : List Char) (start indent cap : Nat) : Option Nat :=
  (tailAt? text start).map fun t => Tail.indentEnd t indent cap

/-! ### Lines -/

/-- The end of the line that the tail starts in. -/
def Tail.lineEnd (t : Text.Tail) : Nat := t.offset + byteLength (t.rest.takeWhile (· != '\n'))

end SymbolGraph.Recovery
