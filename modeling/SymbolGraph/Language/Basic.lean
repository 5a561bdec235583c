import SymbolGraph.Path.Components

/-! The languages that are indexed, their identifiers and the file extensions that tell them. -/

namespace SymbolGraph

/-- A language whose declarations, imports and calls are understood. -/
inductive Language where
  | typescript
  | tsx
  | javascript
  | python
  | go
  | java
  | csharp
  | kotlin
  deriving Repr, BEq, DecidableEq

namespace Language

/-- Every language, in the order in which they are registered. -/
def all : List Language := [typescript, tsx, javascript, python, go, java, csharp, kotlin]

/-- The name of the language in records and settings. -/
def id : Language → String
  | typescript => "typescript"
  | tsx => "tsx"
  | javascript => "javascript"
  | python => "python"
  | go => "go"
  | java => "java"
  | csharp => "csharp"
  | kotlin => "kotlin"

/-- The language of that name. -/
def ofId? (id : String) : Option Language := all.find? (·.id == id)

/-- The extensions of the language's files. -/
def extensions : Language → List String
  | typescript => ["ts", "mts", "cts"]
  | tsx => ["tsx"]
  | javascript => ["js", "jsx", "mjs", "cjs"]
  | python => ["py", "pyi"]
  | go => ["go"]
  | java => ["java"]
  | csharp => ["cs"]
  | kotlin => ["kt", "kts"]

/-- Every known extension with its language. -/
def extensionTable : List (String × Language) :=
  all.flatMap fun language => language.extensions.map fun extension => (extension, language)

/-- The language of an extension, whatever the case of its letters. -/
def ofExtension? (extension : String) : Option Language :=
  extensionTable.lookup (Text.lowerAscii extension)

/-- The language of a path, told by its extension. -/
def ofPath? (path : String) : Option Language := (Path.extension? path).bind ofExtension?

end Language
end SymbolGraph
