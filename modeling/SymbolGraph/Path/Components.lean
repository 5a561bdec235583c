import SymbolGraph.Text.Split

/-! Slash-separated paths as lists of components. Repeated slashes count as one, a `.` counts only at
    the very start, and `..` is kept. -/

namespace SymbolGraph.Path

open Text

/-- A part of a path. -/
inductive Component where
  /-- The slash that an absolute path starts with. -/
  | root
  /-- A `.` at the start. -/
  | current
  /-- A `..`. -/
  | parent
  | name (text : String)
  deriving Repr, BEq, DecidableEq

/-- Whether the path starts at the root. -/
def isAbsolute (path : String) : Bool := hasStart "/" path

/-- The component that a later segment stands for. -/
def Component.ofSegment? : String → Option Component
  | "" => none
  | "." => none
  | ".." => some .parent
  | s => some (.name s)

/-- The components of a path. -/
def components (path : String) : List Component :=
  let segments := split '/' path
  let first :=
    if isAbsolute path then [Component.root]
    else if segments.head? = some "." then [Component.current]
    else []
  first ++ segments.filterMap Component.ofSegment?

/-- The texts of a path up to the end of each of its components, after the text `before`. -/
def prefixesAfter (before : String) : List String → List String
  | [] => []
  | segment :: rest =>
    let text := before ++ "/" ++ segment
    let later := prefixesAfter text rest
    if (Component.ofSegment? segment).isSome then text :: later else later

/-- The texts of an absolute path up to the end of each of its components, the shortest first. -/
def prefixes (path : String) : List String := "/" :: prefixesAfter "" ((split '/' path).drop 1)

/-- The last component, if it is a name. -/
def fileName? (path : String) : Option String :=
  match (components path).getLast? with
  | some (.name s) => some s
  | _ => none

/-- The part of the file name after its last dot. A name whose only dot is its first character has
    none. -/
def extension? (path : String) : Option String :=
  match (fileName? path).bind (cutLast '.') with
  | some ("", _) => none
  | some (_, after) => some after
  | none => none

/-- `path` seen from `base`: an absolute path stands for itself. -/
def append (base path : String) : String :=
  if isAbsolute path || base.isEmpty then path
  else if hasEnd "/" base then base ++ path
  else base ++ "/" ++ path

/-! ### Paths below a root -/

/-- What follows `base` in the components, if they start with it. -/
def dropBase? : List Component → List Component → Option (List Component)
  | [], cs => some cs
  | _ :: _, [] => none
  | b :: bs, c :: cs => if b = c then dropBase? bs cs else none

/-- The names of the components, which must be names or a leading `.`. -/
def names? : List Component → Option (List String)
  | [] => some []
  | .name s :: cs => (names? cs).map (s :: ·)
  | .current :: cs => names? cs
  | .root :: _ => none
  | .parent :: _ => none

/-- The components of `path` that lead on from `root`. An absolute path must lie under `root`; a
    relative one is taken from `root`, after a relative `root` that it repeats. -/
def belowRoot? (root path : String) : Option (List Component) :=
  let inner := dropBase? (components root) (components path)
  if isAbsolute path then inner
  else if isAbsolute root then some (components path)
  else some (inner.getD (components path))

/-- The one spelling of a path below `root`: its names with a slash between neighbours. There is
    none for `root` itself, for a path outside it and for one that climbs. -/
def relative? (root path : String) : Option String :=
  match (belowRoot? root path).bind names? with
  | none => none
  | some [] => none
  | some names => some (join '/' names)

end SymbolGraph.Path
