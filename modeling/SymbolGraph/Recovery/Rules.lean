import SymbolGraph.Symbol
import SymbolGraph.Text.Blank
import SymbolGraph.Language.Basic
import SymbolGraph.Recovery.Pattern

/-! The lines of text that count as declarations when there is no syntax tree: for each language an
    ordered list of rules. -/

namespace SymbolGraph.Recovery

open Text Pattern

/-- How far a declaration reaches. -/
inductive Extent where
  /-- To the end of its braced body, within so many bytes. -/
  | braces (cap : Nat)
  /-- To the end of its indented block, within so many bytes. -/
  | indent (cap : Nat)
  /-- To the end of its line. -/
  | line
  deriving Repr, BEq, DecidableEq

/-- Which kind a declaration is of. -/
inductive KindRule where
  | fixed (kind : SymbolKind)
  /-- By whether it starts its line or is indented. -/
  | byIndent (top nested : SymbolKind)
  /-- A constant if the name has capitals and no small letters, a variable otherwise. -/
  | byCase
  deriving Repr, BEq, DecidableEq

/-- A form of declaration. -/
structure Rule where
  pattern : Pattern
  kind : KindRule
  extent : Extent

/-- The window for the bodies of functions and methods. -/
def functionCap : Nat := 500

/-- The window for the bodies of types. -/
def typeCap : Nat := 1000

/-- A function's or method's braced body. -/
def functionBody : Extent := .braces functionCap

/-- A type's braced body. -/
def typeBody : Extent := .braces typeCap

/-- A function at the start of a line, a method otherwise. -/
def functionOrMethod : KindRule := .byIndent .function .method

/-! ### Common parts -/

/-- Blanks, at least one. -/
def blanks : Pattern := run1 isBlank

/-- Blanks, if there are any. -/
def blanks0 : Pattern := run isBlank

/-- Spaces and tabs, if there are any. -/
def margin0 : Pattern := run (among " \t")

/-- Spaces and tabs, at least one. -/
def margin : Pattern := run1 (among " \t")

/-- The word and the blanks after it. -/
def lead (word : String) : Pattern := andThen (text word) blanks

/-- The word and the blanks after it, if it is there. -/
def lead0 (word : String) : Pattern := maybe (lead word)

/-- The words. -/
def wordOf (words : List String) : Pattern := anyOf (words.map text)

/-- Any number of the words, each with the blanks after it. -/
def leads (words : List String) : Pattern := many (andThen (wordOf words) blanks)

/-- The declared name: a letter or underscore and word characters. -/
def plainName : Pattern :=
  name (andThen (one fun c => c.isAlpha || c == '_') (run isWord))

/-- The declared name, in which a dollar sign may stand. -/
def dollarName : Pattern :=
  name (andThen (one fun c => c.isAlpha || c == '_' || c == '$') (run fun c => isWord c || c == '$'))

/-- A character of a written type. -/
def isTypeChar (c : Char) : Bool := isWord c || among "<>[],.? " c

/-- Parameters in parentheses on one line. -/
def parameters : Pattern := inOrder [text "(", run (noneOf ")\n"), text ")"]

/-- An opening brace. -/
def openBrace : Pattern := text "\x7b"

/-! ### The languages -/

/-- The declarations of TypeScript and JavaScript. -/
def ecmaRules : List Rule :=
  let value := run fun c => noneOf "=\n" c
  let binding := inOrder [lineStart, lead0 "export", wordOf ["const", "let", "var"], blanks, dollarName]
  let plain := andThen (one fun c => c.isAlpha || c == '_' || c == '$') (run fun c => isWord c || c == '$')
  [ { pattern := inOrder [lineStart, margin0, lead0 "export", lead0 "default", lead0 "async",
        text "function", blanks0, maybe (text "*"), blanks0, dollarName]
      kind := .fixed .function, extent := functionBody },
    { pattern := inOrder [lineStart, margin0, lead0 "export", lead0 "default", lead0 "abstract",
        lead "class", dollarName]
      kind := .fixed .class, extent := typeBody },
    { pattern := inOrder [lineStart, margin0, lead0 "export", lead "interface", dollarName]
      kind := .fixed .interface, extent := typeBody },
    { pattern := inOrder [lineStart, margin0, lead0 "export", lead0 "declare", lead0 "const",
        lead "enum", dollarName]
      kind := .fixed .type, extent := typeBody },
    { pattern := inOrder [lineStart, margin0, lead0 "export", lead0 "declare", lead "type",
        dollarName, value, text "="]
      kind := .fixed .type, extent := .line },
    { pattern := inOrder [binding, value, text "=", blanks0, lead0 "async", anyOf [
        andThen (text "function") wordEdge,
        inOrder [parameters, value, text "=>"],
        inOrder [plain, blanks0, text "=>"]]]
      kind := .fixed .function, extent := functionBody },
    { pattern := binding, kind := .fixed .variable, extent := .line },
    { pattern := inOrder [lineStart, margin,
        leads ["public", "private", "protected", "static", "async", "readonly", "override",
          "abstract", "get", "set"],
        dollarName, blanks0, parameters, blanks0,
        maybe (inOrder [text ":", blanks0, run1 (noneOf "\x7b\n")]), openBrace]
      kind := .fixed .method, extent := functionBody } ]

/-- The declarations of Python. -/
def pythonRules : List Rule :=
  [ { pattern := inOrder [lineStart, margin0, lead "class", plainName]
      kind := .fixed .class, extent := .indent typeCap },
    { pattern := inOrder [lineStart, margin0, lead0 "async", lead "def", plainName]
      kind := functionOrMethod, extent := .indent functionCap },
    { pattern := inOrder [lineStart, plainName, blanks0,
        maybe (andThen (text ":") (run1 (noneOf "=\n"))), text "=", one (noneOf "=")]
      kind := .byCase, extent := .line } ]

/-- The declarations of Go. -/
def goRules : List Rule :=
  [ { pattern := inOrder [lineStart, lead "func", text "(", run (noneOf ")"), text ")", blanks0,
        plainName]
      kind := .fixed .method, extent := functionBody },
    { pattern := inOrder [lineStart, lead "func", plainName]
      kind := .fixed .function, extent := functionBody },
    { pattern := inOrder [lineStart, lead "type", plainName, blanks, text "struct", wordEdge]
      kind := .fixed .struct, extent := typeBody },
    { pattern := inOrder [lineStart, lead "type", plainName, blanks, text "interface", wordEdge]
      kind := .fixed .interface, extent := typeBody },
    { pattern := inOrder [lineStart, lead "type", plainName, wordEdge]
      kind := .fixed .type, extent := .line },
    { pattern := inOrder [lineStart, lead "var", plainName]
      kind := .fixed .variable, extent := .line },
    { pattern := inOrder [lineStart, lead "const", plainName]
      kind := .fixed .constant, extent := .line } ]

/-- The declarations of Java. -/
def javaRules : List Rule :=
  let modifiers := leads ["public", "private", "protected", "static", "final", "abstract", "sealed",
    "strictfp"]
  [ { pattern := inOrder [lineStart, margin0, modifiers, wordOf ["class", "record"], blanks, plainName]
      kind := .fixed .class, extent := typeBody },
    { pattern := inOrder [lineStart, margin0, modifiers, maybe (text "@"), lead "interface", plainName]
      kind := .fixed .interface, extent := typeBody },
    { pattern := inOrder [lineStart, margin0, modifiers, lead "enum", plainName]
      kind := .fixed .type, extent := typeBody },
    { pattern := inOrder [lineStart, margin,
        leads ["public", "private", "protected", "static", "final", "abstract", "synchronized",
          "native", "default"],
        maybe (inOrder [text "<", run1 (noneOf ">\n"), text ">", blanks]),
        run1 isTypeChar, blanks, plainName, blanks0, parameters, blanks0,
        maybe (andThen (lead "throws") (run1 (noneOf "\x7b;\n"))), openBrace]
      kind := .fixed .method, extent := functionBody } ]

/-- The declarations of C#. -/
def csharpRules : List Rule :=
  let modifiers := leads ["public", "private", "protected", "internal", "static", "abstract",
    "sealed", "partial", "readonly", "unsafe", "new", "file"]
  [ { pattern := inOrder [lineStart, margin0, modifiers, wordOf ["class", "record", "struct"], blanks,
        plainName]
      kind := .fixed .class, extent := typeBody },
    { pattern := inOrder [lineStart, margin0, modifiers, lead "interface", plainName]
      kind := .fixed .interface, extent := typeBody },
    { pattern := inOrder [lineStart, margin0, modifiers, lead "enum", plainName]
      kind := .fixed .type, extent := typeBody },
    { pattern := inOrder [lineStart, margin0, modifiers, lead "delegate", run1 isTypeChar, blanks,
        plainName, blanks0, text "("]
      kind := .fixed .type, extent := .line },
    { pattern := inOrder [lineStart, margin,
        leads ["public", "private", "protected", "internal", "static", "virtual", "override",
          "abstract", "async", "extern", "sealed", "new"],
        run1 isTypeChar, blanks, plainName, blanks0, parameters, blanks0, openBrace]
      kind := .fixed .method, extent := functionBody } ]

/-- The declarations of Kotlin. -/
def kotlinRules : List Rule :=
  let modifiers := leads ["public", "private", "protected", "internal", "open", "abstract", "sealed",
    "data", "inner", "final", "value", "annotation"]
  let access := maybe (andThen (wordOf ["private", "internal", "public"]) blanks)
  [ { pattern := inOrder [lineStart, margin0, modifiers, lead "enum", lead "class", plainName]
      kind := .fixed .type, extent := typeBody },
    { pattern := inOrder [lineStart, margin0, modifiers, lead0 "fun", lead "interface", plainName]
      kind := .fixed .interface, extent := typeBody },
    { pattern := inOrder [lineStart, margin0, modifiers, wordOf ["class", "object"], blanks, plainName]
      kind := .fixed .class, extent := typeBody },
    { pattern := inOrder [lineStart, margin0, lead "typealias", plainName]
      kind := .fixed .type, extent := .line },
    { pattern := inOrder [lineStart, margin0,
        leads ["public", "private", "protected", "internal", "open", "override", "abstract",
          "suspend", "inline", "operator", "infix", "tailrec"],
        lead "fun", maybe (inOrder [text "<", run1 (noneOf ">\n"), text ">", blanks]),
        maybe (andThen (run1 fun c => isWord c || c == '.') (text ".")), plainName, blanks0, text "("]
      kind := functionOrMethod, extent := functionBody },
    { pattern := inOrder [lineStart, access, lead "const", lead "val", plainName]
      kind := .fixed .constant, extent := .line },
    { pattern := inOrder [lineStart, access, wordOf ["val", "var"], blanks, plainName]
      kind := .fixed .variable, extent := .line } ]

/-- The rules of a language, the first of which to claim a line wins. -/
def rulesOf : Language → List Rule
  | .typescript => ecmaRules
  | .tsx => ecmaRules
  | .javascript => ecmaRules
  | .python => pythonRules
  | .go => goRules
  | .java => javaRules
  | .csharp => csharpRules
  | .kotlin => kotlinRules

end SymbolGraph.Recovery
