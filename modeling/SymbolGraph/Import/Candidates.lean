import SymbolGraph.Language.Basic

/-! The files that a relative import may mean. Paths are relative to the workspace and folded as
    text; which of the candidates exists is for the caller to find out. -/

namespace SymbolGraph

open Text

/-- How relative imports are spelled. -/
inductive RelativeStyle where
  /-- As a path: `./x`, `../x/y`. -/
  | path
  /-- With leading dots: `.x`, `..x.y`, `.`. -/
  | dots
  /-- There are none. -/
  | none
  deriving Repr, BEq, DecidableEq

/-- How import specifiers lead to files. -/
structure ModuleResolution where
  style : RelativeStyle := .none
  /-- The endings tried after the specifier, in order. -/
  extensions : List String := []
  /-- The file names tried when the specifier names a directory, in order. -/
  indexFiles : List String := []
  deriving Repr, BEq, DecidableEq

namespace Language

/-- The resolution of the TypeScript family. -/
def typescriptResolution : ModuleResolution where
  style := .path
  extensions := [".ts", ".tsx", ".d.ts", ".js", ".jsx"]
  indexFiles := ["index.ts", "index.tsx", "index.js"]

/-- How imports of the language lead to files. -/
def resolution : Language → ModuleResolution
  | typescript => typescriptResolution
  | tsx => typescriptResolution
  | javascript =>
    { style := .path
      extensions := [".js", ".jsx", ".mjs", ".cjs", ".ts"]
      indexFiles := ["index.js", "index.jsx", "index.mjs"] }
  | python =>
    { style := .dots
      extensions := [".py", ".pyi"]
      indexFiles := ["__init__.py"] }
  | go => { style := .path, extensions := [".go"] }
  | java => {}
  | csharp => {}
  | kotlin => {}

end Language

namespace ModuleResolution

/-- Whether the specifier is relative to the importing file. -/
def isRelative (res : ModuleResolution) (specifier : String) : Bool :=
  match res.style with
  | .path => hasStart "./" specifier || hasStart "../" specifier
  | .dots => hasStart "." specifier
  | .none => false

/-- Whether the specifier can only mean a directory: its last segment is empty, `.` or `..`, or it
    is nothing but dots. -/
def namesDirectory (res : ModuleResolution) (specifier : String) : Bool :=
  match res.style with
  | .path => ["", ".", ".."].contains (afterLast '/' specifier)
  | .dots => specifier.toList.all (· == '.')
  | .none => false

/-- Whether the path already ends in one of the extensions. -/
def hasKnownExtension (res : ModuleResolution) (path : String) : Bool :=
  res.extensions.any (hasEnd · path)

end ModuleResolution

namespace Import

/-- The directory of a file, empty at the top. -/
def directoryOf (path : String) : String :=
  match cutLast '/' path with
  | some (dir, _) => dir
  | none => ""

/-- The file `name` in the directory `dir`. -/
def inDirectory (dir name : String) : String := if dir.isEmpty then name else dir ++ "/" ++ name

/-- Walks the segments from the directories `parts`, innermost first. There is no way above the
    top. -/
def foldSegments : List String → List String → Option (List String)
  | parts, [] => some parts
  | parts, segment :: rest =>
    if segment = "" ∨ segment = "." then foldSegments parts rest
    else if segment = ".." then
      match parts with
      | [] => none
      | _ :: outer => foldSegments outer rest
    else foldSegments (segment :: parts) rest

/-- The path `rel` taken from the directory `dir`, without `.` and `..`. -/
def normalize (dir rel : String) : Option String :=
  let start := (split '/' dir).filter (· ≠ "")
  (foldSegments start.reverse (split '/' rel)).map fun parts => join '/' parts.reverse

/-- The path that a specifier with leading dots means: one dot is the directory, each further dot
    its parent. -/
def dottedPath (specifier : String) : String :=
  let dots := specifier.toList.takeWhile (· == '.')
  let rest := String.ofList (specifier.toList.dropWhile (· == '.'))
  let ups := List.replicate (dots.length - 1) ".."
  join '/' (["."] ++ ups ++ (split '.' rest).filter (· ≠ ""))

/-- The path that the specifier means when it is imported from the directory `dir`. -/
def basePath (res : ModuleResolution) (dir specifier : String) : Option String :=
  match res.style with
  | .path => normalize dir specifier
  | .dots => normalize dir (dottedPath specifier)
  | .none => none

/-- The files with the base path for a name. -/
def fileCandidates (res : ModuleResolution) (specifier base : String) : List String :=
  if base.isEmpty || res.namesDirectory specifier then []
  else
    let literal := if res.style = .path ∧ res.hasKnownExtension base then [base] else []
    literal ++ res.extensions.map (base ++ ·)

/-- The files that stand for the directory at the base path. -/
def directoryCandidates (res : ModuleResolution) (base : String) : List String :=
  res.indexFiles.map (inDirectory base)

/-- Every path that `specifier` may mean in the file `importer`, in the order in which they are
    tried. There is none for an import that is not relative or that leaves the workspace. -/
def candidates (res : ModuleResolution) (importer specifier : String) : List String :=
  if res.isRelative specifier then
    match basePath res (directoryOf importer) specifier with
    | some base => fileCandidates res specifier base ++ directoryCandidates res base
    | none => []
  else []

end Import
end SymbolGraph
