/-! Cutting a text at a separator and putting it together again, and cutting known text off its
    ends. All cuts work on the list of characters. -/

namespace SymbolGraph.Text

/-! ### Separators -/

/-- The pieces between the separators, of which there is one more than there are separators. -/
def splitChars (sep : Char) : List Char → List (List Char)
  | [] => [[]]
  | c :: cs =>
    if c = sep then [] :: splitChars sep cs
    else
      match splitChars sep cs with
      | [] => [[c]]
      | piece :: rest => (c :: piece) :: rest

/-- The pieces of `s` between the occurrences of `sep`. -/
def split (sep : Char) (s : String) : List String := (splitChars sep s.toList).map String.ofList

/-- The pieces with one separator between neighbours. -/
def joinChars (sep : Char) : List (List Char) → List Char
  | [] => []
  | [piece] => piece
  | piece :: rest => piece ++ sep :: joinChars sep rest

/-- The texts with one `sep` between neighbours. -/
def join (sep : Char) (pieces : List String) : String :=
  String.ofList (joinChars sep (pieces.map String.toList))

/-- The characters before and after the last `sep`, if there is one. -/
def cutLastChars (sep : Char) : List Char → Option (List Char × List Char)
  | [] => none
  | c :: cs =>
    match cutLastChars sep cs with
    | some (before, after) => some (c :: before, after)
    | none => if c = sep then some ([], cs) else none

/-- The text before and after the last `sep`, if there is one. -/
def cutLast (sep : Char) (s : String) : Option (String × String) :=
  (cutLastChars sep s.toList).map fun (before, after) => (String.ofList before, String.ofList after)

/-- The text before and after the first `sep`, if there is one. -/
def cutFirst (sep : Char) (s : String) : Option (String × String) :=
  let before := s.toList.takeWhile (· != sep)
  match s.toList.dropWhile (· != sep) with
  | [] => none
  | _ :: after => some (String.ofList before, String.ofList after)

/-- The piece after the last `sep`, the whole text if there is none. -/
def afterLast (sep : Char) (s : String) : String :=
  match cutLast sep s with
  | some (_, after) => after
  | none => s

/-! ### Ends -/

/-- What follows `start` in `cs`, if `cs` starts with it. -/
def dropStart? : List Char → List Char → Option (List Char)
  | [], cs => some cs
  | _ :: _, [] => none
  | p :: ps, c :: cs => if p = c then dropStart? ps cs else none

/-- The text after `start`, if `s` starts with it. -/
def afterStart? (start s : String) : Option String :=
  (dropStart? start.toList s.toList).map String.ofList

/-- The text before `stop`, if `s` ends with it. -/
def beforeEnd? (stop s : String) : Option String :=
  (dropStart? stop.toList.reverse s.toList.reverse).map fun cs => String.ofList cs.reverse

/-- Whether `s` starts with `start`. -/
def hasStart (start s : String) : Bool := (dropStart? start.toList s.toList).isSome

/-- Whether `s` ends with `stop`. -/
def hasEnd (stop s : String) : Bool := (dropStart? stop.toList.reverse s.toList.reverse).isSome

/-- Cuts `start` off at most `n` times. -/
def dropStarts (start : List Char) : Nat → List Char → List Char
  | 0, cs => cs
  | n + 1, cs =>
    match dropStart? start cs with
    | some rest => dropStarts start n rest
    | none => cs

/-- The text without the copies of `start` at its beginning. Each copy takes a character, so the
    length of the text bounds their number. -/
def trimStarts (start s : String) : String :=
  String.ofList (dropStarts start.toList s.toList.length s.toList)

/-- The text without the characters `c` at its end. -/
def trimEndChar (c : Char) (s : String) : String :=
  String.ofList (s.toList.reverse.dropWhile (· == c)).reverse

/-- The text without the characters `c` at its beginning. -/
def trimStartChar (c : Char) (s : String) : String := String.ofList (s.toList.dropWhile (· == c))

/-- Whether `part` occurs in `cs`. -/
def occursIn (part : List Char) : List Char → Bool
  | [] => part.isEmpty
  | c :: cs => (dropStart? part (c :: cs)).isSome || occursIn part cs

/-- Whether `part` occurs somewhere in `s`. -/
def hasPart (part s : String) : Bool := occursIn part.toList s.toList

/-- The characters without a carriage return at the end. -/
def dropReturn (cs : List Char) : List Char := if cs.getLast? = some '\r' then cs.dropLast else cs

/-- The lines of a text: each newline ends a line, together with a carriage return before it, and
    nothing follows a final newline. -/
def lines (s : String) : List String :=
  let pieces := splitChars '\n' s.toList
  let ended := pieces.dropLast.map dropReturn
  let unended := pieces.getLast?.filter (!·.isEmpty)
  (ended ++ unended.toList).map String.ofList

/-! ### Letters -/

/-- The text with the ASCII capitals made small. -/
def lowerAscii (s : String) : String := String.ofList (s.toList.map Char.toLower)

end SymbolGraph.Text
