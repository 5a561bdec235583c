import SymbolGraph.Disk.Error
import SymbolGraph.Path.Components
import SymbolGraph.Store.Basic

/-! Files, directories and links. An entry is known by the names on the way to it from the root; a path
    leads to an entry when the links on the way are followed and names can be looked up in every directory on
    the way. A directory may be one that cannot be listed or in which nothing can be looked up, and a file one
    that cannot be read. -/

namespace SymbolGraph

open SymbolGraph.Path

namespace Disk

/-- What a file holds. -/
inductive Content where
  | text (value : String)
  /-- So many bytes that are no UTF-8. -/
  | bytes (count : Nat)
  /-- The tables of a store. -/
  | database (tables : Tables)
  /-- So many bytes that can be neither read nor written. -/
  | sealed (count : Nat)
  deriving Repr, BEq, DecidableEq

/-- What the file of a new store holds until the store is closed for the first time: a page of zero
    bytes, which are text. -/
def Content.newDatabase : Content := .text (String.ofList (List.replicate 4096 '\x00'))

/-- The content that the bytes are. -/
def Content.ofBytes (bytes : ByteArray) : Content :=
  match String.fromUTF8? bytes with
  | some s => .text s
  | none => .bytes bytes.size

/-- What can be done in a directory, besides changing its entries, which is always allowed. -/
structure Access where
  /-- Its entries can be listed. -/
  list : Bool := true
  /-- Names can be looked up in it. -/
  search : Bool := true
  deriving Repr, BEq, DecidableEq

/-- What stands at a place. -/
inductive Entry where
  | directory (access : Access := {})
  | file (content : Content)
  /-- A link that stands for the path, seen from the link's directory. -/
  | link (target : String)
  deriving Repr, BEq, DecidableEq

/-- Whether it is a directory. -/
def Entry.isDirectory : Entry → Bool
  | directory _ => true
  | _ => false

/-- Whether it is a directory in which names can be looked up. -/
def Entry.isSearchable : Entry → Bool
  | directory access => access.search
  | _ => false

/-- The names on the way from the root. What has a name on its way that is no text is left out, as no
    path in a workspace leads to it. -/
abbrev Location := List String

end Disk

open Disk

/-- Everything on a disk but the root directory, in which everything can be done. The first entry for a
    location counts. -/
structure Disk where
  entries : List (Location × Entry) := []
  deriving Repr, BEq, DecidableEq

namespace Disk

/-- The entry at a location. -/
def entry? (d : Disk) (at_ : Location) : Option Entry :=
  if at_.isEmpty then some .directory else d.entries.lookup at_

/-- Whether a directory is at the location. -/
def holdsDirectory (d : Disk) (at_ : Location) : Bool := (d.entry? at_).any Entry.isDirectory

/-- Whether a directory is at the location in which names can be looked up. -/
def searchable (d : Disk) (at_ : Location) : Bool := (d.entry? at_).any Entry.isSearchable

/-- Every location with an entry, once. -/
def locations (d : Disk) : List Location := (d.entries.map (·.1)).eraseDups

/-! ### Following paths -/

/-- How far one gets without following a link. -/
inductive Walked where
  | arrived (at_ : Location)
  /-- A link in the directory, and what follows it in the path. -/
  | met (directory : Location) (target : String) (rest : List Component)
  deriving Repr, BEq, DecidableEq

/-- Fails unless a directory is at the location. -/
def needDirectory (d : Disk) (at_ : Location) : Except IoError Unit :=
  match d.entry? at_ with
  | some e => if e.isDirectory then .ok () else .error .notADirectory
  | none => .error .notFound

/-- Fails unless names can be looked up in a directory at the location. -/
def needSearch (d : Disk) (at_ : Location) : Except IoError Unit := do
  d.needDirectory at_
  if d.searchable at_ then return () else throw .permissionDenied

/-- The number of bytes that a name may have. -/
def nameLimit : Nat := 255

/-- Fails if the name is too long. -/
def checkName (n : String) : Except IoError Unit :=
  if n.utf8ByteSize ≤ nameLimit then .ok () else .error .nameTooLong

/-- Walks on from a location up to the first link. Everything that is walked through has to be a
    directory in which names can be looked up; what is arrived at need not exist. -/
def walk (d : Disk) : Location → List Component → Except IoError Walked
  | at_, [] => .ok (.arrived at_)
  | _, .root :: rest => walk d [] rest
  | at_, .current :: rest => do d.needDirectory at_; walk d at_ rest
  | at_, .parent :: rest => do d.needSearch at_; walk d at_.dropLast rest
  | at_, .name n :: rest => do
    d.needSearch at_
    checkName n
    match d.entry? (at_ ++ [n]) with
    | some (.link target) => return .met at_ target rest
    | _ => walk d (at_ ++ [n]) rest

/-- How many links are followed on the way along one path. -/
def linkLimit : Nat := 40

/-- Whether the path can only mean a directory. -/
def meansDirectory (path : String) : Bool := Text.hasEnd "/" path || Text.hasEnd "/." path

/-- The components of a link's target. One that can only mean a directory has to lead to one. -/
def targetComponents (target : String) : List Component :=
  components target ++ if meansDirectory target then [.current] else []

/-- Walks on from a location and follows at most `links` links. -/
def follow (d : Disk) : (links : Nat) → Location → List Component → Except IoError Location
  | 0, at_, cs => do
    match ← d.walk at_ cs with
    | .arrived at_ => return at_
    | .met _ _ _ => throw .linkLoop
  | links + 1, at_, cs => do
    match ← d.walk at_ cs with
    | .arrived at_ => return at_
    | .met directory target rest => follow d links directory (targetComponents target ++ rest)

/-- The number of bytes that a path may not reach. -/
def pathLimit : Nat := 4096

/-- Fails if the text cannot be given as a path. -/
def checkPath (path : String) : Except IoError Unit :=
  if path.toList.contains '\x00' then .error .zeroByte
  else if path.utf8ByteSize < pathLimit then .ok ()
  else .error .nameTooLong

/-- Where the absolute path leads, however long it is. What is there need not exist, but its directory
    does. -/
def resolve (d : Disk) (path : String) : Except IoError Location := do
  let at_ ← d.follow linkLimit [] (components path)
  if meansDirectory path && (d.entry? at_).any (!·.isDirectory) then throw .notADirectory
  return at_

/-- Where the absolute path leads. What is there need not exist, but its directory does. -/
def locate (d : Disk) (path : String) : Except IoError Location := do
  checkPath path
  d.resolve path

/-- Where the absolute path leads and what is there. -/
def find (d : Disk) (path : String) : Except IoError (Location × Entry) := do
  let at_ ← d.locate path
  match d.entry? at_ with
  | some e => return (at_, e)
  | none => throw .notFound

/-- The absolute path of a location. -/
def Location.path (at_ : Location) : String := "/" ++ Text.join '/' at_

/-- The absolute path without links that the path means, however long it is. -/
def canonical (d : Disk) (path : String) : Except IoError String := do
  let at_ ← d.resolve path
  if (d.entry? at_).isNone then throw .notFound
  return Location.path at_

/-- Whether the path leads to anything. -/
def «exists» (d : Disk) (path : String) : Bool := (d.find path).isOk

/-- Whether the path leads to a directory. -/
def isDirectory (d : Disk) (path : String) : Bool :=
  match d.find path with
  | .ok (_, .directory _) => true
  | _ => false

/-- Whether the entries of the directory at the location can be listed, which takes a path that leads
    there. -/
def canList (d : Disk) (at_ : Location) : Bool :=
  match d.find at_.path with
  | .ok (_, .directory access) => access.list
  | _ => false

/-- What the file holds that the path leads to. -/
def content (d : Disk) (path : String) : Except IoError Content := do
  match ← d.find path with
  | (_, .file content) => return content
  | (_, .directory _) => throw .isADirectory
  | (_, .link _) => throw .linkLoop

/-- Whether the path leads to a file. -/
def isFile (d : Disk) (path : String) : Bool := (d.content path).isOk

/-- The text of the file that the path leads to. -/
def readText (d : Disk) (path : String) : Except IoError String := do
  match ← d.content path with
  | .text s => return s
  | .bytes _ => throw .notText
  | .database _ => throw .notText
  | .sealed _ => throw .permissionDenied

/-- The locations whose entries are not the same on two disks. -/
def differences (a b : Disk) : List Location :=
  (a.locations ++ b.locations).eraseDups.filter fun at_ => a.entry? at_ != b.entry? at_

/-! ### Changes -/

/-- The disk with the entry at the location. -/
def put (d : Disk) (at_ : Location) (e : Entry) : Disk :=
  ⟨(at_, e) :: d.entries.filter (·.1 != at_)⟩

/-- The disk without the location and everything below it. -/
def erase (d : Disk) (at_ : Location) : Disk := ⟨d.entries.filter fun (l, _) => !at_.isPrefixOf l⟩

/-- Whether the path ends in a name with a slash after it. -/
def endsInSlash (path : String) : Bool :=
  Text.hasEnd "/" path && ((Text.split '/' path).reverse.find? (· ≠ "")) != some "."

/-- Walks on from a location to a file that is to be written, and follows at most `links` links. One
    that ends in a slash cannot be written through. -/
def followToWrite (d : Disk) : (links : Nat) → Location → List Component → Except IoError Location
  | 0, at_, cs => do
    match ← d.walk at_ cs with
    | .arrived at_ => return at_
    | .met _ _ _ => throw .linkLoop
  | links + 1, at_, cs => do
    match ← d.walk at_ cs with
    | .arrived at_ => return at_
    | .met directory target rest =>
      if rest.isEmpty && endsInSlash target then
        d.needSearch (← d.follow links directory (components target).dropLast)
        throw .isADirectory
      followToWrite d links directory (targetComponents target ++ rest)

/-- Writes a file, through a link if the path leads there. -/
def write (d : Disk) (path : String) (content : Content) : Except IoError Disk := do
  checkPath path
  let at_ ← d.followToWrite linkLimit [] (components path)
  d.needDirectory at_.dropLast
  match d.entry? at_ with
  | some (.directory _) => throw .isADirectory
  | some (.file (.sealed _)) => throw .permissionDenied
  | _ => return d.put at_ (.file content)

/-- The location of the last name of a path itself, which is not followed. -/
def locateLast (d : Disk) (cs : List Component) : Except IoError Location := do
  match cs.getLast? with
  | some (.name n) =>
    let directory ← d.follow linkLimit [] cs.dropLast
    d.needSearch directory
    checkName n
    return directory ++ [n]
  | _ => d.follow linkLimit [] cs

/-- Makes one directory. -/
def makeDirectory (d : Disk) (path : String) : Except IoError Disk := do
  checkPath path
  let at_ ← d.locateLast (components path)
  match d.entry? at_ with
  | some _ => throw .alreadyExists
  | none => return d.put at_ .directory

/-- Makes a directory, unless it is there already. -/
def ensureDirectory (d : Disk) (path : String) : Except IoError Disk :=
  match d.makeDirectory path with
  | .ok d => .ok d
  | .error e => if d.isDirectory path then .ok d else .error e

/-- Makes a directory and those above it that are missing. They are given from below. The directories
    that were made before something fails stay. -/
def ensureDirectories (d : Disk) : List String → Disk × Except IoError Unit
  | [] => (d, .ok ())
  | path :: above =>
    match d.ensureDirectory path with
    | .ok d => (d, .ok ())
    | .error .notFound =>
      match ensureDirectories d above with
      | (d, .error e) => (d, .error e)
      | (d, .ok ()) =>
        match d.ensureDirectory path with
        | .ok d => (d, .ok ())
        | .error e => (d, .error e)
    | .error e => (d, .error e)

/-- Makes the directories above an absolute path. Those that were made before something fails stay. -/
def ensureParents (d : Disk) (path : String) : Disk × Except IoError Unit :=
  d.ensureDirectories ((prefixes path).reverse.drop 1)

/-- The disk of a change that was made in full. -/
def ifDone : Disk × Except IoError Unit → Except IoError Disk
  | (d, .ok ()) => .ok d
  | (_, .error e) => .error e

/-- Makes the directory of an absolute path and those above it that are missing. -/
def makeDirectories (d : Disk) (path : String) : Except IoError Disk :=
  ifDone (d.ensureDirectories (prefixes path).reverse)

/-- Makes the directories above an absolute path. -/
def makeParents (d : Disk) (path : String) : Except IoError Disk := ifDone (d.ensureParents path)

/-- Removes what the path itself names, with everything below it. -/
def remove (d : Disk) (path : String) : Except IoError Disk := do
  let at_ ← d.locateLast (components path)
  match d.entry? at_ with
  | some _ => return d.erase at_
  | none => throw .notFound

/-- Makes a link. -/
def makeLink (d : Disk) (path target : String) : Except IoError Disk := do
  let at_ ← d.locateLast (components path)
  match d.entry? at_ with
  | some _ => throw .alreadyExists
  | none => return d.put at_ (.link target)

end Disk
end SymbolGraph
