import SymbolGraph.Disk.Basic
import SymbolGraph.Document.Json

/-! The files of a workspace in one text: a JSON table from paths to texts. -/

namespace SymbolGraph.Cli

open Document

/-- Where the files of a bundle are put. -/
def bundleRoot : String := "/workspace"

/-- Adds a file to the disk, with the directories above it. -/
def addFile (d : Disk) (entry : String × Value) : Option Disk := do
  let path := Path.append bundleRoot entry.1
  let text ← entry.2.text?
  let above ← (d.makeParents path).toOption
  (above.write path (.text text)).toOption

/-- The disk with the files of a bundle. A blank text stands for no files. -/
def readBundle (text : String) : Option Disk := do
  let empty ← (({} : Disk).makeDirectories bundleRoot).toOption
  if text.toList.all Json.isSpace then return empty
  else
    let entries ← (Json.read text).bind Value.entries?
    entries.foldlM addFile empty

end SymbolGraph.Cli
