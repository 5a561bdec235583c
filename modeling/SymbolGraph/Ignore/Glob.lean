import SymbolGraph.Text.Split

/-! Wildcard patterns for paths. `?` stands for one character, `*` for any number of them, `[ab]` and
    `[!ab]` for one character in or not in a set, and `**` for whole leading components. No wildcard
    stops at a slash. -/

namespace SymbolGraph.Ignore

/-- A part of a set of characters. -/
inductive CharSpec where
  | single (c : Char)
  /-- The characters from one to the other, both included. -/
  | range (low high : Char)
  deriving Repr, BEq, DecidableEq

/-- Whether the character is meant. -/
def CharSpec.holds (c : Char) : CharSpec → Bool
  | single d => c == d
  | range low high => decide (low ≤ c) && decide (c ≤ high)

/-- A part of a pattern. -/
inductive GlobToken where
  | char (c : Char)
  /-- Any one character. -/
  | anyChar
  /-- Any characters. -/
  | anyRun
  /-- Any number of leading components, or all that is left. -/
  | anyDirs
  | within (specs : List CharSpec)
  | except (specs : List CharSpec)
  deriving Repr, BEq, DecidableEq

/-- What is wrong with a pattern. -/
inductive GlobFault where
  /-- More than two stars in a row. -/
  | wildcards
  /-- Two stars that share their component with something else. -/
  | recursiveWildcards
  /-- A bracket that is not closed. -/
  | invalidRange
  deriving Repr, BEq, DecidableEq

/-- A fault and the number of characters before it. -/
structure GlobError where
  position : Nat
  fault : GlobFault
  deriving Repr, BEq, DecidableEq

/-- What is said about the fault. -/
def GlobFault.message : GlobFault → String
  | wildcards => "wildcards are either regular `*` or recursive `**`"
  | recursiveWildcards => "recursive wildcards must form a single path component"
  | invalidRange => "invalid range pattern"

/-- What is said about the error. -/
def GlobError.message (e : GlobError) : String :=
  s!"Pattern syntax error near position {e.position}: {e.fault.message}"

/-- A pattern that was read. -/
structure Glob where
  tokens : List GlobToken
  deriving Repr, BEq, DecidableEq

namespace Glob

/-! ### Reading -/

/-- The specifications in the text between brackets: a dash between two characters makes a range. -/
def charSpecs : List Char → List CharSpec
  | low :: '-' :: high :: rest => .range low high :: charSpecs rest
  | c :: rest => .single c :: charSpecs rest
  | [] => []

/-- The set after an opening bracket and the characters after its closing one. The first character
    of a set, after a `!` the next one, never closes it. -/
def bracket? : List Char → Option (GlobToken × List Char)
  | '!' :: c :: rest =>
    if rest.contains ']' then
      some (.except (charSpecs (c :: rest.takeWhile (· != ']'))), (rest.dropWhile (· != ']')).drop 1)
    else none
  | '!' :: [] => none
  | c :: rest =>
    if rest.contains ']' then
      some (.within (charSpecs (c :: rest.takeWhile (· != ']'))), (rest.dropWhile (· != ']')).drop 1)
    else none
  | [] => none

/-- The tokens before and a wildcard for directories; further ones next to it mean the same. -/
def pushDirs (before : List GlobToken) : List GlobToken :=
  if 1 < before.length ∧ before.head? = some .anyDirs then before else .anyDirs :: before

/-- What reading one token leaves. -/
structure Reading where
  /-- The tokens so far, last one first. -/
  before : List GlobToken
  /-- The last character that was read. -/
  last : Char
  /-- The number of characters that were read. -/
  taken : Nat
  /-- The characters that are left. -/
  rest : List Char

/-- Reads one token at position `position` after the character `previous`. `before` holds the tokens
    so far, last one first. -/
def readToken (previous : Option Char) (position : Nat) (before : List GlobToken) :
    Char → List Char → Except GlobError Reading
  | '?', rest => .ok ⟨.anyChar :: before, '?', 1, rest⟩
  | '*', rest =>
    let extra := (rest.takeWhile (· == '*')).length
    let after := rest.dropWhile (· == '*')
    if 1 < extra then .error ⟨position + 2, .wildcards⟩
    else if extra = 0 then .ok ⟨.anyRun :: before, '*', 1, rest⟩
    else if previous.all (· == '/') then
      match after with
      | [] => .ok ⟨pushDirs before, '*', 2, []⟩
      | '/' :: after => .ok ⟨pushDirs before, '/', 3, after⟩
      | _ :: _ => .error ⟨position + 2, .recursiveWildcards⟩
    else .error ⟨position - 1, .recursiveWildcards⟩
  | '[', rest =>
    match bracket? rest with
    | some (token, after) => .ok ⟨token :: before, ']', 1 + (rest.length - after.length), after⟩
    | none => .error ⟨position, .invalidRange⟩
  | c, rest => .ok ⟨.char c :: before, c, 1, rest⟩

/-- Reads the characters from position `position` on. Every token takes a character, so `fuel` lasts
    if there is as much of it as there are characters. -/
def readTokens : (fuel : Nat) → (previous : Option Char) → (position : Nat) →
    (before : List GlobToken) → List Char → Except GlobError (List GlobToken)
  | 0, _, _, before, _ => .ok before.reverse
  | _ + 1, _, _, before, [] => .ok before.reverse
  | fuel + 1, previous, position, before, c :: cs =>
    match readToken previous position before c cs with
    | .error e => .error e
    | .ok r => readTokens fuel (some r.last) (position + r.taken) r.before r.rest

/-- The pattern that the text spells. -/
def read (pattern : String) : Except GlobError Glob :=
  (readTokens pattern.toList.length none 0 [] pattern.toList).map Glob.mk

/-! ### Meaning -/

/-- Whether some tail of the characters passes the test. -/
def someTail (test : List Char → Bool) : List Char → Bool
  | [] => test []
  | c :: cs => test (c :: cs) || someTail test cs

/-- Whether the characters after some slash pass the test, or no characters at all. -/
def someBelow (test : List Char → Bool) : List Char → Bool
  | [] => test []
  | c :: cs => (c == '/' && test cs) || someBelow test cs

/-- Whether the tokens stand for the characters. -/
def standFor : List GlobToken → List Char → Bool
  | [], cs => cs.isEmpty
  | .anyRun :: ts, cs => someTail (standFor ts) cs
  | .anyDirs :: ts, cs => standFor ts cs || someBelow (standFor ts) cs
  | .char _ :: _, [] => false
  | .char d :: ts, c :: cs => d == c && standFor ts cs
  | .anyChar :: _, [] => false
  | .anyChar :: ts, _ :: cs => standFor ts cs
  | .within _ :: _, [] => false
  | .within specs :: ts, c :: cs => specs.any (·.holds c) && standFor ts cs
  | .except _ :: _, [] => false
  | .except specs :: ts, c :: cs => !specs.any (·.holds c) && standFor ts cs

/-! ### Matching

The answers for a text and all its tails are found together, from the last token to the first, so
that no token is looked at twice at the same place. -/

/-- The answers of a test for the characters and their tails, the empty one last. -/
def onTails (test : List Char → Bool) : List Char → List Bool
  | [] => [test []]
  | c :: cs => test (c :: cs) :: onTails test cs

/-- The answers for one character of a class and then what `after` holds the answers for. -/
def oneThen (holds : Char → Bool) : List Char → List Bool → List Bool
  | c :: cs, _ :: after => (holds c && after.headD false) :: oneThen holds cs after
  | _, _ => [false]

/-- For each place, whether the answer there or at a later place is positive. -/
def hereOrLater : List Bool → List Bool
  | [] => []
  | b :: after =>
    let later := hereOrLater after
    (b || later.headD false) :: later

/-- For each place, whether the answer after a later slash or at the end is positive. -/
def belowOrEnd : List Char → List Bool → List Bool
  | c :: cs, _ :: after =>
    let later := belowOrEnd cs after
    ((c == '/' && after.headD false) || later.headD false) :: later
  | _, after => after

/-- The answers for the token and then what `after` holds the answers for. -/
def tokenThen (cs : List Char) (after : List Bool) : GlobToken → List Bool
  | .char d => oneThen (d == ·) cs after
  | .anyChar => oneThen (fun _ => true) cs after
  | .anyRun => hereOrLater after
  | .anyDirs => List.zipWith (· || ·) after (belowOrEnd cs after)
  | .within specs => oneThen (fun c => specs.any (·.holds c)) cs after
  | .except specs => oneThen (fun c => !specs.any (·.holds c)) cs after

/-- For the characters and each of their tails, whether the tokens stand for it. -/
def answers (cs : List Char) : List GlobToken → List Bool
  | [] => onTails List.isEmpty cs
  | t :: ts => tokenThen cs (answers cs ts) t

/-- Whether the tokens stand for the characters. Up to the first wildcard of any length the two are
    compared one by one. -/
def matchTokens : List GlobToken → List Char → Bool
  | .char d :: ts, c :: cs => d == c && matchTokens ts cs
  | .anyChar :: ts, _ :: cs => matchTokens ts cs
  | .within specs :: ts, c :: cs => specs.any (·.holds c) && matchTokens ts cs
  | .except specs :: ts, c :: cs => !specs.any (·.holds c) && matchTokens ts cs
  | ts, cs => (answers cs ts).headD false

/-- Whether the pattern stands for the whole text. -/
def «matches» (g : Glob) (text : String) : Bool := matchTokens g.tokens text.toList

@[simp]
theorem head?_onTails (test : List Char → Bool) (cs : List Char) :
    (onTails test cs).head? = some (test cs) := by
  cases cs <;> rfl

theorem oneThen_onTails (holds : Char → Bool) (test : List Char → Bool) (cs : List Char) :
    oneThen holds cs (onTails test cs) =
      onTails (fun | [] => false | c :: cs => holds c && test cs) cs := by
  induction cs with
  | nil => rfl
  | cons c cs ih => simp [oneThen, onTails, ih]

theorem hereOrLater_onTails (test : List Char → Bool) (cs : List Char) :
    hereOrLater (onTails test cs) = onTails (someTail test) cs := by
  induction cs with
  | nil => simp [onTails, hereOrLater, someTail]
  | cons c cs ih => simp [onTails, hereOrLater, someTail, ih]

theorem belowOrEnd_onTails (test : List Char → Bool) (cs : List Char) :
    belowOrEnd cs (onTails test cs) = onTails (someBelow test) cs := by
  induction cs with
  | nil => simp [onTails, belowOrEnd, someBelow]
  | cons c cs ih => simp [onTails, belowOrEnd, someBelow, ih]

theorem zipWith_onTails (first second : List Char → Bool) (cs : List Char) :
    List.zipWith (· || ·) (onTails first cs) (onTails second cs) =
      onTails (fun cs => first cs || second cs) cs := by
  induction cs with
  | nil => rfl
  | cons c cs ih => simp [onTails, ih]

theorem onTails_congr {first second : List Char → Bool} (h : ∀ cs, first cs = second cs)
    (cs : List Char) : onTails first cs = onTails second cs := by
  rw [funext h]

/-- The answers are those of the meaning at every tail. -/
theorem answers_eq_onTails (tokens : List GlobToken) (cs : List Char) :
    answers cs tokens = onTails (standFor tokens) cs := by
  induction tokens with
  | nil => exact onTails_congr (fun cs => by simp [standFor]) cs
  | cons t ts ih =>
    cases t <;>
      simp only [answers, tokenThen, ih, oneThen_onTails, hereOrLater_onTails, belowOrEnd_onTails,
        zipWith_onTails] <;>
      exact onTails_congr (fun cs => by cases cs <;> simp [standFor]) cs

/-- Matching finds what the tokens stand for. -/
theorem matchTokens_eq_standFor (tokens : List GlobToken) (cs : List Char) :
    matchTokens tokens cs = standFor tokens cs := by
  fun_induction matchTokens tokens cs with
  | case1 d ts c cs ih => simp [standFor, ih]
  | case2 ts c cs ih => simp [standFor, ih]
  | case3 specs ts c cs ih => simp [standFor, ih]
  | case4 specs ts c cs ih => simp [standFor, ih]
  | case5 ts cs => simp [answers_eq_onTails]

/-- A pattern matches the texts that its tokens stand for. -/
theorem matches_eq_standFor (g : Glob) (text : String) :
    g.matches text = standFor g.tokens text.toList := matchTokens_eq_standFor _ _

end Glob
end SymbolGraph.Ignore
