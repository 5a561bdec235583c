import SymbolGraph.Text.Digest
import SymbolGraph.Language.Ecma
import SymbolGraph.Language.Python
import SymbolGraph.Language.Go
import SymbolGraph.Language.Java
import SymbolGraph.Language.CSharp
import SymbolGraph.Language.Kotlin
import SymbolGraph.Recovery.Declarations

/-! Reading one file. Input that cannot be source text is turned away, a syntax tree is walked, and
    where the tree is missing or too damaged the text patterns take over. Every result carries the
    digest of the text without its byte-order mark. -/

namespace SymbolGraph

open Text

/-- How a result came about. -/
inductive Method where
  /-- The syntax tree was walked. -/
  | tree
  /-- Declarations were recovered by patterns. -/
  | patterns
  /-- The input was turned away unread. -/
  | guarded
  deriving Repr, BEq, DecidableEq

/-- Everything read out of one file. -/
structure Extract where
  /-- The digest of the text without its byte-order mark. -/
  hash : String
  method : Method
  found : Findings := {}
  deriving Repr, BEq, DecidableEq

/-- The result of an attempt with the syntax tree. -/
inductive Outcome where
  | parsed (result : Extract)
  /-- There is no tree that could be trusted. -/
  | unparseable (hash : String)
  deriving Repr, BEq, DecidableEq

/-- The digest that the outcome carries. -/
def Outcome.hash : Outcome → String
  | .parsed result => result.hash
  | .unparseable hash => hash

/-- How the trees of the language are read. -/
def Language.dialect : Language → Tree.Dialect
  | .typescript => Ecma.dialect
  | .tsx => Ecma.dialect
  | .javascript => Ecma.dialect
  | .python => Python.dialect
  | .go => Go.dialect
  | .java => Java.dialect
  | .csharp => CSharp.dialect
  | .kotlin => Kotlin.dialect

namespace Extraction

/-- The size above which a file is not read unless the settings say otherwise. -/
def defaultCap : Nat := 200 * 1024

/-- Why input is turned away. -/
inductive Rejection where
  | missing
  | empty
  | oversized
  | binary
  deriving Repr, BEq, DecidableEq

/-- The reason to turn away the text, which has lost its byte-order mark. -/
def rejection? (text : Option String) (cap : Nat) : Option Rejection :=
  match text with
  | none => some .missing
  | some text =>
    if text.isEmpty then some .empty
    else if cap < text.utf8ByteSize then some .oversized
    else if text.toList.contains '\x00' then some .binary
    else none

/-- Whether most of the text lies under nodes that could not be parsed. -/
def mostlyErrors (text : String) (root : Tree.Node) : Bool :=
  root.label.hasError && text.utf8ByteSize < root.errorBytes * 2

/-- The outcome of walking a tree of the text. A damaged tree without declarations is not trusted. -/
def ofTree (language : Language) (text : String) (root : Tree.Node) : Outcome :=
  let hash := contentHash text
  if mostlyErrors text root then .unparseable hash
  else
    let found := language.dialect.findings text root
    if root.label.hasError && found.symbols.isEmpty then .unparseable hash
    else .parsed { hash, method := .tree, found }

/-- Reads a text of at most `cap` bytes with its syntax tree, if the parser gave one. The tree is
    that of the text without its byte-order mark. -/
def extract (language : Language) (text : Option String) (cap : Nat) (tree : Option Tree.Node) :
    Outcome :=
  let text := text.map dropMark
  let source := text.getD ""
  match rejection? text cap with
  | some _ => .parsed { hash := contentHash source, method := .guarded }
  | none =>
    match tree with
    | some root => ofTree language source root
    | none => .unparseable (contentHash source)

/-- What the patterns recover from a text. -/
def recovered (languageId text hash : String) : Extract :=
  { hash, method := .patterns, found := { symbols := Recovery.declarations languageId text } }

/-- The outcome's result, recovered by patterns if it has none. -/
def recover (languageId text : String) : Outcome → Extract
  | .parsed result => result
  | .unparseable hash => recovered languageId text hash

/-- Reads a text, by patterns if its syntax tree cannot be trusted. -/
def extractOrRecover (language : Language) (text : Option String) (cap : Nat)
    (tree : Option Tree.Node) : Extract :=
  recover language.id ((text.map dropMark).getD "") (extract language text cap tree)

end Extraction
end SymbolGraph
