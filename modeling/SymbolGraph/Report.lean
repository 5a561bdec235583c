/-! The wording of failures. Every failure has a topic, and its text is the topic's lead and a
    detail; a longer text says first which part of the program it comes from. -/

namespace SymbolGraph

/-- What a failure is about. -/
inductive Topic where
  /-- A source file could not be parsed. -/
  | parse
  | unsupportedLanguage
  /-- The parser itself failed. -/
  | parser
  /-- The database failed. -/
  | database
  | invalidRow
  | serialization
  | transaction
  | io
  | watch
  | ignorePattern
  | configMissing
  | configInvalid
  | configParse
  deriving Repr, BEq, DecidableEq

namespace Topic

/-- The part of the program that the topic belongs to. -/
def area : Topic → String
  | parse | unsupportedLanguage | parser => "Graph engine error: "
  | database | invalidRow | serialization | transaction => "Store error: "
  | io | watch | ignorePattern => "Index error: "
  | configMissing | configInvalid | configParse => "Configuration error: "

/-- The words before the detail. -/
def lead : Topic → String
  | parse => "Parse error in "
  | unsupportedLanguage => "Unsupported language: "
  | parser => "Tree-sitter error: "
  | database => "SQLite error: "
  | invalidRow => "Invalid row: "
  | serialization => "Serialization error: "
  | transaction => "Transaction state error: "
  | io => "IO error: "
  | watch => "Watcher error: "
  | ignorePattern => "Invalid ignore pattern "
  | configMissing => "Config file not found: "
  | configInvalid => "Invalid config: "
  | configParse => "Parse error: "

end Topic

/-- A failure in words. -/
structure Report where
  topic : Topic
  detail : String
  deriving Repr, BEq, DecidableEq

namespace Report

/-- What is said by the part of the program that failed. -/
def text (r : Report) : String := r.topic.lead ++ r.detail

/-- What is said to the outside. -/
def fullText (r : Report) : String := r.topic.area ++ r.text

/-- A source file that could not be parsed. -/
def ofParse (path message : String) : Report := ⟨.parse, path ++ ": " ++ message⟩

/-- A line that is no ignore rule. -/
def ofIgnoreLine (line message : String) : Report := ⟨.ignorePattern, "`" ++ line ++ "`: " ++ message⟩

end Report
end SymbolGraph
