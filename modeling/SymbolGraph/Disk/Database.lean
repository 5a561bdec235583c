import SymbolGraph.Disk.Basic

/-! The file of a store. A path leads to it in a way of its own, and other files may stand beside it
    for as long as it is open; opening fails if one of them cannot be used. -/

namespace SymbolGraph.Disk

/-! ### Where the file is -/

/-- The number of bytes that the path of a store may have. The files beside it have longer names. -/
def storePathLimit : Nat := 504

/-- The number of bytes that a path may have on the way there. -/
def storeWayLimit : Nat := 511

/-- How many links are followed on the way to a store. -/
def storeLinkLimit : Nat := 201

/-- Whether one can ask what is there under the name at the location. -/
def canLookUp (d : Disk) (at_ : Location) (n : String) : Bool :=
  match d.entry? at_ with
  | some (.directory access) => access.search && (checkName n).isOk
  | some _ => false
  | none => true

/-- Walks on from a location up to the first link, name by name: a directory that is left again need
    not exist. -/
def walkNames? (d : Disk) : Location → List Path.Component → Option Walked
  | at_, [] => some (.arrived at_)
  | _, .root :: rest => walkNames? d [] rest
  | at_, .current :: rest => walkNames? d at_ rest
  | at_, .parent :: rest => walkNames? d at_.dropLast rest
  | at_, .name n :: rest =>
    if (Location.path (at_ ++ [n])).utf8ByteSize ≤ storeWayLimit && d.canLookUp at_ n then
      match d.entry? (at_ ++ [n]) with
      | some (.link target) => some (.met at_ target rest)
      | _ => walkNames? d (at_ ++ [n]) rest
    else none

/-- Walks on from a location name by name and follows at most `links` links. -/
def followNames? (d : Disk) : (links : Nat) → Location → List Path.Component → Option Location
  | links, at_, cs => do
    match ← d.walkNames? at_ cs, links with
    | .arrived at_, _ => return at_
    | .met _ _ _, 0 => none
    | .met directory target rest, links + 1 =>
      followNames? d links directory (Path.components target ++ rest)

/-- Where the store is that the path means, unless there can be none. -/
def storeLocation? (d : Disk) (path : String) : Option Location := do
  guard !path.toList.contains '\x00'
  let at_ ← d.followNames? storeLinkLimit [] (Path.components path)
  guard ((Location.path at_).utf8ByteSize ≤ storePathLimit)
  guard (d.needSearch at_.dropLast).isOk
  return at_

/-! ### The files beside it -/

/-- A file beside the file of a store. -/
inductive Beside where
  /-- What a change is going to replace. -/
  | journal
  /-- What was changed since the store was opened. -/
  | log
  /-- Where to find it in the log. -/
  | lookup
  deriving Repr, BEq, DecidableEq

/-- What the name of the file has after the name of the store. -/
def Beside.ending : Beside → String
  | journal => "-journal"
  | log => "-wal"
  | lookup => "-shm"

/-- Where the file beside a store is. -/
def Location.beside (at_ : Location) (b : Beside) : Location :=
  at_.dropLast ++ [at_.getLast?.getD "" ++ b.ending]

/-- The number of bytes of a file. A store has more than none. -/
def Content.size : Content → Nat
  | text s => s.utf8ByteSize
  | bytes n => n
  | database _ => 4096
  | sealed n => n

/-- Whether something that is not empty is there, or where a link leads. -/
def holdsAnything (d : Disk) (at_ : Location) : Bool :=
  match d.find (Location.path at_) with
  | .ok (_, .file content) => 0 < content.size
  | .ok (_, .directory _) => true
  | _ => false

/-- Whether a file of that name can be used or made: neither a directory nor a link is there, nor a file
    that cannot be read. -/
def canUse (d : Disk) (at_ : Location) : Bool :=
  (checkName (at_.getLast?.getD "")).isOk &&
    match d.entry? at_ with
    | none => true
    | some (.file (.sealed _)) => false
    | some (.file _) => true
    | some _ => false

/-- The disk without the files beside a store that are there only while it is open. -/
def withoutLog (d : Disk) (at_ : Location) : Disk :=
  (d.erase (at_.beside .log)).erase (at_.beside .lookup)

/-! ### Opening it -/

/-- The disk, and whether it can be gone on with. -/
abbrev Step := Disk × Bool

/-- Goes on unless that cannot be done. -/
def Step.andThen (s : Step) (next : Disk → Step) : Step := if s.2 then next s.1 else s

/-- Removes the journal that another store has left beside an empty one, unless it is a directory. -/
def dropJournal (at_ : Location) (d : Disk) : Step :=
  let journal := at_.beside .journal
  let isStale := d.holdsAnything journal && !d.holdsDirectory journal
  (if isStale then d.erase journal else d, true)

/-- Removes the log that another store has left beside an empty one. -/
def dropLog (at_ : Location) (d : Disk) : Step :=
  let log := at_.beside .log
  if d.holdsDirectory log then (d, false)
  else (if d.holdsAnything log then d.erase log else d, true)

/-- Writes the first page of a store, with a journal beside it. -/
def writeFirstPage (at_ : Location) (d : Disk) : Step :=
  let journal := at_.beside .journal
  if d.canUse journal then ((d.erase journal).put at_ (.file (.database {})), true) else (d, false)

/-- Takes back the changes of a journal that is left beside a store; it holds none that count. -/
def settleJournal (at_ : Location) (d : Disk) : Step :=
  let journal := at_.beside .journal
  if d.holdsAnything journal then
    match d.entry? journal with
    | some (.file (.text s)) => (if Text.hasStart "\x00" s then d else d.erase journal, true)
    | some (.file (.sealed _)) => (d, false)
    | some (.file _) => (d.erase journal, true)
    | _ => (d, false)
  else (d, true)

/-- Opens the log and what finds the changes in it. -/
def openLog (at_ : Location) (d : Disk) : Step :=
  let log := at_.beside .log
  if d.canUse log then
    if d.canUse (at_.beside .lookup) then (d, true)
    else (if (d.entry? log).isNone then d.put log (.file (.text "")) else d, false)
  else (d, false)

/-- The disk after an empty store was opened at the location. -/
def openEmpty (at_ : Location) (d : Disk) : Step :=
  (dropJournal at_ d).andThen (dropLog at_) |>.andThen (writeFirstPage at_) |>.andThen (openLog at_)

/-- The disk after a store with tables was opened at the location. -/
def openFilled (at_ : Location) (d : Disk) : Step := (settleJournal at_ d).andThen (openLog at_)

/-- The disk after a file was looked at that turned out not to be a store. Only a log that holds
    something is opened then, and removed. -/
def lookAt (at_ : Location) (d : Disk) : Disk :=
  let settled := settleJournal at_ d
  if settled.2 && settled.1.holdsAnything (at_.beside .log) then
    match openLog at_ settled.1 with
    | (d, true) => d.withoutLog at_
    | (d, false) => d
  else settled.1

/-- The number of bytes that a file may have and still be an empty store. -/
def emptyStoreSize : Nat := 1

/-- Opens the store at the location, which is made if it is missing. -/
def openStore (d : Disk) (at_ : Location) : Disk × Except StoreError Store :=
  let empty (d : Disk) : Disk × Except StoreError Store :=
    match openEmpty at_ d with
    | (d, true) => (d.put at_ (.file .newDatabase), .ok (.fresh .disk))
    | (d, false) => (d, .error (.database .cannotOpen))
  match d.entry? at_ with
  | none => empty (d.put at_ (.file (.text "")))
  | some (.file (.database tables)) =>
    match openFilled at_ d with
    | (d, true) => (d, .ok (.ofTables tables))
    | (d, false) => (d, .error (.database .cannotOpen))
  | some (.file (.sealed _)) => (d, .error (.database .cannotOpen))
  | some (.file content) =>
    if content.size ≤ emptyStoreSize then empty d
    else (lookAt at_ d, .error (.database .notADatabase))
  | some _ => (d, .error (.database .cannotOpen))

/-- Closes the store at the location: what lasts of it is kept in its file. -/
def closeStore (d : Disk) (at_ : Location) (s : Store) : Disk :=
  (d.withoutLog at_).put at_ (.file (.database s.committed))

end SymbolGraph.Disk
