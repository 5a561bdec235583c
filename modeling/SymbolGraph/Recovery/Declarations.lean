import Std.Data.HashSet
import SymbolGraph.Recovery.SpanEnd
import SymbolGraph.Recovery.Rules

/-! Finding declarations without a syntax tree. The rules of the language are tried in order on the
    whole text; a line belongs to the first match whose name lies on it. Imports and calls are never
    guessed. -/

namespace SymbolGraph.Recovery

open Text

/-- Words that look like the name of a declaration and are not. -/
def controlWords : List String :=
  ["if", "for", "while", "switch", "catch", "return", "function", "else", "do", "try", "new",
    "throw", "using", "lock", "foreach", "synchronized"]

/-- The characters up to the end offset. -/
def takeTo (stop : Nat) : Nat → List Char → List Char
  | _, [] => []
  | offset, c :: cs => if offset < stop then c :: takeTo stop (offset + c.utf8Size) cs else []

/-- The text between the place and the end offset. -/
def Cursor.textTo (at_ : Cursor) (stop : Nat) : String :=
  String.ofList (takeTo stop at_.offset at_.rest)

/-- The kind of a declaration of `name` that is indented by `indent`. -/
def KindRule.kindOf (name : String) (indent : Nat) : KindRule → SymbolKind
  | .fixed kind => kind
  | .byIndent top nested => if indent = 0 then top else nested
  | .byCase =>
    if name.toList.any Char.isUpper && !name.toList.any Char.isLower then .constant else .variable

/-- The end of a declaration that starts the tail and is indented by `indent`. -/
def Extent.endOf (t : Text.Tail) (indent : Nat) : Extent → Nat
  | .braces cap => Tail.braceEnd t cap
  | .indent cap => Tail.indentEnd t indent cap
  | .line => Tail.lineEnd t

/-- The declaration that a match of the rule stands for. It starts at the first character of its
    line that is neither a space nor a tab. -/
def Rule.declaration (rule : Rule) (name : String) (line : Text.Tail) : Symbol :=
  let indent := indentation line.rest
  let start : Text.Tail := ⟨line.offset + indent, line.rest.drop indent⟩
  { name
    fqname := name
    kind := rule.kind.kindOf name indent
    span := ⟨start.offset, rule.extent.endOf start indent⟩ }

/-- A line that a rule has found a name on. -/
structure Claim where
  /-- The offset of the line. -/
  line : Nat
  symbol : Symbol
  deriving Repr, BEq, DecidableEq

/-- The claim of a match, unless its name is a control word. -/
def Rule.claim? (rule : Rule) (m : Match) : Option Claim :=
  match m.name? with
  | none => none
  | some (at_, stop) =>
    let name := at_.textTo stop
    if controlWords.contains name then none
    else some ⟨at_.line.offset, rule.declaration name at_.line⟩

/-- The claims of a rule, in the order of the text. -/
def Rule.claims (rule : Rule) (text : List Char) : List Claim :=
  (rule.pattern.searchAll text).filterMap rule.claim?

/-- The claims that are first on their lines; `taken` holds the lines that are gone. -/
def firstClaims (taken : Std.HashSet Nat) : List Claim → List Claim
  | [] => []
  | c :: cs =>
    if taken.contains c.line then firstClaims taken cs
    else c :: firstClaims (taken.insert c.line) cs

/-- The symbols that the rules find in a text, by their starts. -/
def symbolsBy (rules : List Rule) (text : List Char) : List Symbol :=
  let claims := firstClaims ∅ (rules.flatMap (·.claims text))
  (claims.map (·.symbol)).mergeSort fun a b => a.span.start ≤ b.span.start

/-- The declarations of a text in the language of that name. A language without rules has none. -/
def declarations (languageId text : String) : List Symbol :=
  match Language.ofId? languageId with
  | some language => symbolsBy (rulesOf language) text.toList
  | none => []

end SymbolGraph.Recovery
