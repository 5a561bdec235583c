/-! What can go wrong with files. -/

namespace SymbolGraph

/-- Why a file operation fails. -/
inductive IoError where
  | notFound
  | alreadyExists
  /-- A file stands where a directory is needed. -/
  | notADirectory
  | isADirectory
  /-- Links lead to links too often. -/
  | linkLoop
  /-- A name or a path is longer than the disk allows. -/
  | nameTooLong
  /-- A path holds a zero byte, which ends every path. -/
  | zeroByte
  /-- The file holds bytes that are no UTF-8. -/
  | notText
  /-- What is there must not be used in this way. -/
  | permissionDenied
  deriving Repr, BEq, DecidableEq

/-- What is said about the failure. -/
def IoError.text : IoError → String
  | notFound => "No such file or directory (os error 2)"
  | alreadyExists => "File exists (os error 17)"
  | notADirectory => "Not a directory (os error 20)"
  | isADirectory => "Is a directory (os error 21)"
  | linkLoop => "Too many levels of symbolic links (os error 40)"
  | nameTooLong => "File name too long (os error 36)"
  | zeroByte => "file name contained an unexpected NUL byte"
  | notText => "stream did not contain valid UTF-8"
  | permissionDenied => "Permission denied (os error 13)"

end SymbolGraph
