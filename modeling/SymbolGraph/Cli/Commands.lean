import SymbolGraph.Cli.Failure
import SymbolGraph.Cli.Help
import SymbolGraph.Config.Text
import SymbolGraph.Disk.Database
import SymbolGraph.Document.JsonText
import SymbolGraph.Index.Watch

/-! What the commands do to a disk and what they print. -/

namespace SymbolGraph.Cli

open Index Document

/-- What a command works on. -/
structure Machine where
  disk : Disk := {}
  /-- The absolute path of the directory that the command is called in. -/
  directory : String := "/"
  parser : Parser := fun _ _ => none
  now : Time.Instant := .epoch
  elapsed : Duration := {}
  /-- The lines printed so far. -/
  printed : List String := []

/-- Work on a machine that may fail. What it did before it failed stays done. -/
abbrev Work := ExceptT Failure (StateM Machine)

namespace Work

/-- Prints texts, each of which ends its line. -/
def printAll (texts : List String) : Work Unit :=
  modify fun m => { m with printed := m.printed ++ texts.flatMap (Text.split '\n') }

/-- Prints a text and ends the line. -/
def print (text : String) : Work Unit := printAll [text]

/-- The absolute path that is meant by a path. -/
def absolute (path : String) : Work String := return Path.append (← get).directory path

/-- The result, or a failure with the message. -/
def orFail {ε α : Type} (message : String) (cause : ε → Cause) : Except ε α → Work α
  | .ok a => return a
  | .error e => throw ⟨message, cause e⟩

end Work

/-! ### Workspaces -/

/-- A workspace that was set up. -/
structure Opened where
  /-- The absolute path without links. -/
  root : String
  config : Config
  deriving Repr, BEq, DecidableEq

/-- The absolute path without links that a path means. -/
def canonicalRoot (path : String) : Work String := do
  Work.orFail ("Cannot resolve path: " ++ path) .io ((← get).disk.canonical (← Work.absolute path))

/-- Opens the workspace at a path. It has to be set up. -/
def openWorkspace (path : String) : Work Opened := do
  let root ← canonicalRoot path
  if !(← get).disk.exists (Path.append root Config.stateDirectory) then
    throw ⟨"Tessera is not initialized in " ++ root ++ ". Run `tessera init` first.", .nothing⟩
  let config ← Work.orFail "Cannot load config" .config (Config.load (← get).disk root)
  return ⟨root, config⟩

namespace Opened

/-- The path of the database. -/
def databasePath (o : Opened) : String := o.config.databasePath o.root

/-- A store and the place of its file. -/
structure Database where
  location : Disk.Location
  store : Store

/-- Opens the database at the path, which is made if it is missing, and the directories above it. -/
def openDatabase (d : Disk) (path : String) : Disk × Except Error Database :=
  match d.ensureParents path with
  | (d, .error e) => (d, .error (.io e))
  | (d, .ok ()) =>
    match d.storeLocation? path with
    | none => (d, .error (.store (.database .cannotOpen)))
    | some location =>
      match d.openStore location with
      | (d, .error e) => (d, .error (.store e))
      | (d, .ok store) => (d, .ok ⟨location, store⟩)

/-- Opens the database. -/
def database (o : Opened) : Work Database := do
  let m ← get
  let (disk, result) := openDatabase m.disk o.databasePath
  set { m with disk }
  Work.orFail ("Cannot open database: " ++ o.databasePath) .index result

/-- Closes a database: what lasts of its store is kept in its file. -/
def Database.close (b : Database) : Work Unit :=
  modify fun m => { m with disk := m.disk.closeStore b.location b.store }

/-- The store of a workspace, whose database has to exist. -/
def existingStore (o : Opened) : Work Store := do
  if !(← get).disk.exists o.databasePath then
    throw ⟨"Database not found: " ++ o.databasePath ++ ". Run `tessera index` first.", .nothing⟩
  let b ← o.database
  b.close
  return b.store

/-- Runs work on the index of a workspace. -/
def run {α : Type} (o : Opened) (message : String) (work : Workspace → Action α) : Work α := do
  let b ← o.database
  let m ← get
  match Workspace.load m.disk o.root o.config with
  | .error e =>
    b.close
    throw ⟨"Cannot load ignore rules", .index e⟩
  | .ok w =>
    let w := { w with parser := m.parser, now := m.now, elapsed := m.elapsed }
    let (result, session) := work w { store := b.store }
    { b with store := session.store }.close
    Work.orFail message .index result

end Opened

/-! ### Printed text -/

/-- A span of time in whole seconds. -/
def durationText (d : Duration) : String :=
  let secs := d.secs + (if 500000000 ≤ d.nanos then 1 else 0)
  if secs = 1 then "1 second" else s!"{secs} seconds"

/-- What is printed after an index. -/
def summaryLines (s : Stats) : List String :=
  let unresolved :=
    if 0 < s.unresolvedImports + s.unresolvedCalls then
      [s!"  unresolved: {s.unresolvedImports} imports, {s.unresolvedCalls} calls"]
    else []
  [s!"Indexed {s.indexed} of {s.filesSeen} files in {durationText s.duration}",
    s!"  unchanged {s.unchanged}, skipped {s.skipped}, failed {s.failed}, fallback {s.fallback}",
    s!"  {s.nodesCreated} symbols, {s.importEdges} import edges, {s.callEdges} call edges"] ++ unresolved

/-- Whether one kind is printed before another: more of it first, then the smaller name. -/
def kindBefore (a b : String × Nat) : Bool :=
  if a.2 = b.2 then decide (a.1 ≤ b.1) else decide (b.2 < a.2)

/-- A line for each kind. -/
def kindLines (kinds : List (String × Nat)) : List String :=
  (kinds.mergeSort kindBefore).map fun (kind, count) =>
    "    " ++ padRight 20 kind ++ " " ++ padLeft 6 (toString count)

/-- What is printed about the last full index. -/
def lastIndexLines (time : Option String) (stats : Option Stats) : List String :=
  match time, stats with
  | some time, some s =>
    ["  Last full index: " ++ time,
      s!"    {s.indexed} files indexed, {s.skipped} skipped, {s.failed} failed, {s.fallback} via fallback",
      s!"    {s.unresolvedImports} unresolved imports, {s.unresolvedCalls} unresolved calls"]
  | _, _ => ["  Last full index: (none)"]

/-- What is printed about a workspace. -/
def statusLines (o : Opened) (s : Store.Summary) (time : Option String) (stats : Option Stats) :
    List String :=
  ["Tessera status for " ++ o.root, "", "  Database: " ++ o.databasePath, "",
    s!"  Files: {s.files}", "", s!"  Symbols: {s.nodes} total"] ++ kindLines s.nodesByKind ++
    ["", s!"  Edges: {s.edges} total"] ++ kindLines s.edgesByKind ++ [""] ++ lastIndexLines time stats

/-- A table of counts. -/
def countsValue (counts : List (String × Nat)) : Value :=
  .table .closed (counts.map fun (name, n) => (name, .integer n))

/-- The counts of an index as a value. -/
def statsValue (s : Stats) : Value :=
  let duration := countsValue [("secs", s.duration.secs), ("nanos", s.duration.nanos)]
  .table .closed ((s.counters.map fun (name, n) => (name, Value.integer n)) ++ [("duration", duration)])

/-- What is said about a workspace as a value. -/
def statusValue (o : Opened) (s : Store.Summary) (time : Option String) (stats : Option Stats) : Value :=
  let store : Value := .table .closed
    [("total_files", .integer s.files), ("total_nodes", .integer s.nodes),
      ("total_edges", .integer s.edges), ("nodes_by_kind", countsValue s.nodesByKind),
      ("edges_by_kind", countsValue s.edgesByKind)]
  .table .closed
    [("root", .text o.root), ("database", .text o.databasePath), ("store", store),
      ("last_index", (stats.map statsValue).getD .null),
      ("last_index_at", (time.map Value.text).getD .null)]

/-- A line of the table of symbols. -/
def symbolLine (refs kind name path : String) : String :=
  "  " ++ padLeft 5 refs ++ "  " ++ padRight 12 kind ++ " " ++ padRight 40 name ++ " " ++ path

/-- What is printed about a graph. -/
def graphLines (v : GraphView) (top : Nat) : List String :=
  let ranked := v.mostReferenced top
  s!"{v.nodes.length} symbols, {v.edges.length} edges" ::
    if ranked.isEmpty then ["No references recorded."]
    else
      ["", symbolLine "REFS" "KIND" "SYMBOL" "PATH"] ++ ranked.map fun r =>
        symbolLine (toString r.count) r.node.symbol.kind.text r.node.symbol.fqname r.node.path

/-! ### Commands -/

/-- The names in a list with commas between them. -/
def splitNames (text : String) : List String :=
  ((Text.split ',' text).map Text.trim).filter (· ≠ "")

/-- Indexes a workspace from scratch and prints the counts. -/
def indexAll (o : Opened) (quiet : Bool) : Work Unit := do
  let stats ← o.run "Indexing failed" Run.fullIndex
  if !quiet then Work.printAll (summaryLines stats)

/-- The settings that a new workspace gets. -/
def initialConfig (languages databasePath : Option String) : Config :=
  { languages := (languages.map fun names => LanguageChoice.only (splitNames names)).getD .auto
    storePath := databasePath.getD ({} : Config).storePath }

/-- Sets up a workspace. -/
def runInit (path : String) (languages databasePath : Option String) (force noIndex quiet : Bool) :
    Work Unit := do
  let root ← canonicalRoot path
  let file := Config.pathFor root
  if (← get).disk.exists file && !force then
    throw ⟨"Config already exists at " ++ file ++ ". Use --force to overwrite.", .nothing⟩
  let config := initialConfig languages databasePath
  Work.orFail "Invalid config" .config config.validate
  let disk ← Work.orFail "Cannot write config" .config (config.save (← get).disk root)
  modify fun m => { m with disk }
  if !quiet then Work.print ("Wrote " ++ file)
  if !noIndex then indexAll (← openWorkspace root) quiet

/-- Indexes a workspace or some of its files. -/
def runIndex (path : String) (files : List String) (quiet : Bool) : Work Unit := do
  let o ← openWorkspace path
  if files.isEmpty then indexAll o quiet
  else
    let stats ← o.run "Indexing failed" fun w => Run.indexFiles w files
    if !quiet then Work.printAll (summaryLines stats)

/-- Indexes a workspace and goes on to follow its changes. -/
def runWatch (path : String) (debounce : Option Nat) (quiet : Bool) : Work Unit := do
  let o ← openWorkspace path
  let o := { o with config := { o.config with watch := true, debounce := debounce.getD o.config.debounce } }
  let stats ← o.run "Indexing failed" Watch.start
  if !quiet then
    Work.printAll (summaryLines stats ++ ["Watching " ++ o.root ++ " (Ctrl-C to stop)"])

/-- Prints what the index of a workspace holds. -/
def runStatus (path : String) (json : Bool) : Work Unit := do
  let o ← openWorkspace path
  let store ← o.existingStore
  let stats ← Work.orFail "Failed to read last index stats" .index ((lastStats store).mapError .store)
  let time := store.checkpoint? timeKey
  if json then Work.printAll (Text.lines (Json.write (statusValue o store.summary time stats)))
  else Work.printAll (statusLines o store.summary time stats)

/-- Prints the symbols of a workspace that are referred to most. -/
def runGraph (path : String) (top : Nat) : Work Unit := do
  let o ← openWorkspace path
  let store ← o.existingStore
  let view ← Work.orFail "Failed to load graph from database" .index (store.graph.mapError .store)
  Work.printAll (graphLines view top)

/-- Does what a command says. -/
def Invocation.run (i : Invocation) : Work Unit :=
  match i.command with
  | .init path languages databasePath force noIndex =>
    runInit path languages databasePath force noIndex i.quiet
  | .index path files => runIndex path files i.quiet
  | .watch path debounce => runWatch path debounce i.quiet
  | .status path json => runStatus path json
  | .graph path top => runGraph path top

/-! ### Whole runs -/

/-- How a run ended. -/
inductive Ending where
  | success
  | failed (failure : Failure)
  /-- The arguments did not lead to a command. -/
  | stopped (stop : Stop)
  deriving Repr, BEq, DecidableEq

/-- The exit status of a run. -/
def Ending.status : Ending → Nat
  | success => Outcome.success.status
  | failed f => f.outcome.status
  | stopped (.help _) => 0
  | stopped .version => 0
  | stopped .misuse => 2

/-- The line that tells the version. -/
def versionLine : String := programName ++ " 0.1.0"

/-- Runs the command that the arguments ask for. -/
def runArgs (m : Machine) (args : List String) : Ending × Machine :=
  match invocation args with
  | .error .version => (.stopped .version, { m with printed := m.printed ++ [versionLine] })
  | .error (.help topic) =>
    (.stopped (.help topic), { m with printed := m.printed ++ (pageAbout topic).lines })
  | .error .misuse => (.stopped .misuse, m)
  | .ok i =>
    match i.run m with
    | (.ok (), m) => (.success, m)
    | (.error f, m) => (.failed f, m)

end SymbolGraph.Cli
