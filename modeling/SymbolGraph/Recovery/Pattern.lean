import Std.Data.HashSet
import SymbolGraph.Text.Offset
import SymbolGraph.Text.Word

/-! Text patterns with ordered choice. The ends of a pattern at a place are the places where a match
    may end, the preferred one first; a repetition prefers more rounds. A search takes the first
    match, prefers its first end, and goes on behind it.

    From one place the rest of a pattern goes on in the same way, however the place was reached. So
    only the first way to reach it matters, and a place from which a search went on in vain need not
    be tried again: a search remembers the places that it has been at. -/

namespace SymbolGraph.Recovery

open Text

/-- A place in a text. -/
structure Cursor where
  /-- The character before the place. -/
  before : Option Char := none
  /-- The characters after the place. -/
  rest : List Char
  /-- The number of bytes before the place. -/
  offset : Nat := 0
  /-- The start of the line that the place is on. -/
  line : Text.Tail

namespace Cursor

/-- The start of a text. -/
def start (text : List Char) : Cursor := { rest := text, line := ⟨0, text⟩ }

/-- The place after the character `c`, which `rest` follows. -/
def advance (at_ : Cursor) (c : Char) (rest : List Char) : Cursor where
  before := some c
  rest := rest
  offset := at_.offset + c.utf8Size
  line := if c = '\n' then ⟨at_.offset + c.utf8Size, rest⟩ else at_.line

/-- The next place, if the text goes on. -/
def next? (at_ : Cursor) : Option Cursor :=
  match at_.rest with
  | [] => none
  | c :: rest => some (at_.advance c rest)

/-- Whether a line starts here. -/
def atLineStart (at_ : Cursor) : Bool := at_.before.all (· == '\n')

/-- Whether exactly one of the neighbours is a word character. -/
def atWordEdge (at_ : Cursor) : Bool := at_.before.any isWord != at_.rest.head?.any isWord

end Cursor

/-- How far a match has come. -/
structure Match where
  cursor : Cursor
  /-- Where the name that the pattern marks starts, and the offset where it ends. -/
  name? : Option (Cursor × Nat) := none

/-- A text pattern. -/
inductive Pattern where
  /-- Matches nothing, everywhere. -/
  | nothing
  /-- Holds at the start of a line. -/
  | lineStart
  /-- Holds between a word character and another. -/
  | wordEdge
  /-- One character of the class. -/
  | one (isIn : Char → Bool)
  /-- Any number of characters of the class, as many as possible. -/
  | run (isIn : Char → Bool)
  /-- Exactly this text. -/
  | literal (text : List Char)
  /-- The one, then the other. -/
  | andThen (first second : Pattern)
  /-- The one, or else the other. -/
  | orElse (first second : Pattern)
  /-- Any number of times, as often as possible. -/
  | many (body : Pattern)
  /-- The part of the match that is the declared name. -/
  | name (body : Pattern)

namespace Pattern

/-- The parts of a pattern, by number, with the offsets at which they have been tried. The halves of
    part `n` are `2 * n` and `2 * n + 1`. -/
abbrev Tried := Std.HashSet (Nat × Nat)

/-- Whether the part is at this offset for the first time, which is noted. -/
def isNew (part offset : Nat) : StateM Tried Bool := do
  if (← get).contains (part, offset) then return false
  modify (·.insert (part, offset))
  return true

/-- The ends of all the matches, in order, except where the part has been before. -/
def overNew (part : Nat) (ends : Match → StateM Tried (List Match)) :
    List Match → StateM Tried (List Match)
  | [] => return []
  | m :: ms => do
    if ← isNew part m.cursor.offset then
      let first ← ends m
      let others ← overNew part ends ms
      return first ++ others
    else overNew part ends ms

/-- The ends of a run of characters, longest first, before those in `shorter`. It stops where it
    has been before. -/
def runEnds (part : Nat) (isIn : Char → Bool) :
    List Char → Match → List Match → StateM Tried (List Match)
  | [], m, shorter => do
    if ← isNew part m.cursor.offset then return m :: shorter else return shorter
  | c :: cs, m, shorter => do
    if ← isNew part m.cursor.offset then
      if isIn c then runEnds part isIn cs { m with cursor := m.cursor.advance c cs } (m :: shorter)
      else return m :: shorter
    else return shorter

/-- The place after the given characters, if they come next. -/
def literalEnd? : List Char → Cursor → Option Cursor
  | [], at_ => some at_
  | c :: cs, at_ =>
    match at_.rest with
    | [] => none
    | r :: rest => if c = r then literalEnd? cs (at_.advance r rest) else none

/-- The ends after any number of rounds, more rounds first. Every round takes a character, so the
    characters left bound the number of rounds. -/
def rounds (part : Nat) (round : Match → StateM Tried (List Match)) :
    List Char → Match → StateM Tried (List Match)
  | [], m => return [m]
  | _ :: left, m => do
    let once ← round m
    let more ← overNew part (rounds part round left) once
    return more ++ [m]

/-- Where a match of the pattern, which is the part of that number, may end, preferred ends first. -/
def ends : Pattern → (part : Nat) → Match → StateM Tried (List Match)
  | nothing, _, m => return [m]
  | lineStart, _, m => return if m.cursor.atLineStart then [m] else []
  | wordEdge, _, m => return if m.cursor.atWordEdge then [m] else []
  | one isIn, _, m =>
    match m.cursor.rest with
    | [] => return []
    | c :: rest => return if isIn c then [{ m with cursor := m.cursor.advance c rest }] else []
  | run isIn, part, m => runEnds part isIn m.cursor.rest m []
  | literal text, _, m =>
    return ((literalEnd? text m.cursor).map fun c => { m with cursor := c }).toList
  | andThen first second, part, m => do
    let middle ← first.ends (2 * part) m
    overNew part (second.ends (2 * part + 1)) middle
  | orElse first second, part, m => do
    let preferred ← first.ends (2 * part) m
    let others ← second.ends (2 * part + 1) m
    return preferred ++ others
  | many body, part, m => do
    if ← isNew part m.cursor.offset then rounds part (body.ends (2 * part)) m.cursor.rest m
    else return []
  | name body, part, m => do
    let ends ← body.ends (2 * part) m
    return ends.map fun e => { e with name? := some (m.cursor, e.cursor.offset) }

/-- The preferred match that starts at the place. -/
def matchAt? (p : Pattern) (at_ : Cursor) : StateM Tried (Option Match) := do
  let ends ← p.ends 1 ⟨at_, none⟩
  return ends.head?

/-- The matches from a place on, none of which overlaps another. Every step goes forward, so the
    characters left bound the number of steps. What has been tried is remembered up to the next
    match. -/
def search (p : Pattern) : List Char → Tried → Cursor → List Match
  | [], tried, at_ => ((p.matchAt? at_).run tried).1.toList
  | _ :: left, tried, at_ =>
    match (p.matchAt? at_).run tried with
    | (some m, _) =>
      m :: p.search left ∅ (if at_.offset < m.cursor.offset then m.cursor else (at_.next?).getD at_)
    | (none, tried) =>
      match at_.next? with
      | some next => p.search left tried next
      | none => []

/-- The matches in a text, in order. -/
def searchAll (p : Pattern) (text : List Char) : List Match := p.search text ∅ (Cursor.start text)

/-! ### Putting patterns together -/

/-- The patterns one after the other. -/
def inOrder : List Pattern → Pattern
  | [] => nothing
  | [p] => p
  | p :: ps => andThen p (inOrder ps)

/-- The first of the patterns that fits. -/
def anyOf : List Pattern → Pattern
  | [] => one fun _ => false
  | [p] => p
  | p :: ps => orElse p (anyOf ps)

/-- The pattern, or else nothing. -/
def maybe (p : Pattern) : Pattern := orElse p nothing

/-- The text. -/
def text (s : String) : Pattern := literal s.toList

/-- At least one character of the class, as many as possible. -/
def run1 (isIn : Char → Bool) : Pattern := andThen (one isIn) (run isIn)

/-- Any character that is not among the given ones. -/
def noneOf (s : String) (c : Char) : Bool := !s.toList.contains c

/-- Any of the given characters. -/
def among (s : String) (c : Char) : Bool := s.toList.contains c

end Pattern
end SymbolGraph.Recovery
