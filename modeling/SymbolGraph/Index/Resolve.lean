import SymbolGraph.Import.Candidates
import SymbolGraph.Index.Pending
import SymbolGraph.Index.Session
import SymbolGraph.Language.Registry

/-! Turning imports and calls into edges, once the nodes of all files are stored. An import leads from
    the first node of its file to the nodes that it names in the file that it means; a call leads from
    the node around it to the first node that its callee may mean. -/

namespace SymbolGraph.Index

/-- What a resolution counted. -/
structure Resolved where
  importEdges : Nat := 0
  callEdges : Nat := 0
  unresolvedImports : Nat := 0
  unresolvedCalls : Nat := 0
  deriving Repr, BEq, DecidableEq

/-- The counts of both. -/
def Resolved.add (a b : Resolved) : Resolved where
  importEdges := a.importEdges + b.importEdges
  callEdges := a.callEdges + b.callEdges
  unresolvedImports := a.unresolvedImports + b.unresolvedImports
  unresolvedCalls := a.unresolvedCalls + b.unresolvedCalls

/-- The counts with those of a resolution. -/
def Stats.absorb (s : Stats) (r : Resolved) : Stats :=
  { s with
    importEdges := s.importEdges + r.importEdges
    callEdges := s.callEdges + r.callEdges
    unresolvedImports := s.unresolvedImports + r.unresolvedImports
    unresolvedCalls := s.unresolvedCalls + r.unresolvedCalls }

/-- What is known of files that imports may mean: their nodes, or that they have no record. -/
abbrev Known := List (String × Option (List GraphNode))

namespace Resolve

/-- The nodes of a path if it has a record. What was looked up once is not looked up again. -/
def nodesFor (known : Known) (path : String) : Action (Option (List GraphNode) × Known) := do
  match known.lookup path with
  | some nodes => return (nodes, known)
  | none =>
    let nodes ← match ← Action.file? path with
      | some _ => some <$> Action.nodesOf path
      | none => pure none
    return (nodes, (path, nodes) :: known)

/-- The nodes of the first of the paths that has a record. -/
def firstTarget (known : Known) : List String → Action (Option (List GraphNode) × Known)
  | [] => return (none, known)
  | path :: rest => do
    match ← nodesFor known path with
    | (some nodes, known) => return (some nodes, known)
    | (none, known) => firstTarget known rest

/-- Whether the name names the node. -/
def named (name : String) (n : GraphNode) : Bool := n.symbol.name == name || n.symbol.fqname == name

/-- Adds an edge from the source to the first node with each name. -/
def importNames (now : Time.Instant) (source : NodeId) (targets : List GraphNode) :
    List String → Action Resolved
  | [] => return {}
  | name :: rest => do
    let counted : Resolved ← match targets.find? (named name) with
      | some target => do
        let _ ← Action.insertEdge now .imports source target.id
        pure { importEdges := 1 }
      | none => pure { unresolvedImports := 1 }
    return counted.add (← importNames now source targets rest)

/-- Resolves an import of a file in a language with the resolution. -/
def importOf (now : Time.Instant) (res : ModuleResolution) (p : Pending) (known : Known)
    (i : ImportDeclaration) : Action (Resolved × Known) := do
  let candidates := Import.candidates res p.path i.specifier
  if candidates.isEmpty then return ({ unresolvedImports := 1 }, known)
  else
    let (target, known) ← firstTarget known candidates
    match target, p.firstNode? with
    | some targets, some source => return (← importNames now source targets i.names, known)
    | _, _ => return ({ unresolvedImports := 1 }, known)

/-- Resolves the imports of a file. -/
def importsOf (now : Time.Instant) (res : ModuleResolution) (p : Pending) (known : Known) :
    List ImportDeclaration → Action (Resolved × Known)
  | [] => return ({}, known)
  | i :: rest => do
    let (counted, known) ← importOf now res p known i
    let (more, known) ← importsOf now res p known rest
    return (counted.add more, known)

/-- The parts of a callee that may name something: before and after its last dot. -/
def calleeParts (callee : String) : List String :=
  let parts := match Text.cutLast '.' callee with
    | some (head, tail) => [head, tail]
    | none => [callee]
  parts.filter (· ≠ "")

/-- Adds an edge from the caller to the first node that each part may mean. Gives the number of
    edges. -/
def callParts (now : Time.Instant) (nodes : List GraphNode) (caller : NodeId) :
    List String → Action Nat
  | [] => return 0
  | part :: rest => do
    match nodes.find? (·.symbol.matchesReference part) with
    | some target =>
      let _ ← Action.insertEdge now .calls caller target.id
      return (← callParts now nodes caller rest) + 1
    | none => callParts now nodes caller rest

/-- Resolves a call of a file. A call outside of all symbols does not count. -/
def callOf (now : Time.Instant) (nodes : List GraphNode) (p : Pending) (c : CallSite) :
    Action Resolved := do
  match p.enclosing? c with
  | none => return {}
  | some caller =>
    let created ← callParts now nodes caller (calleeParts c.callee)
    return { callEdges := created, unresolvedCalls := if created = 0 then 1 else 0 }

/-- Resolves the calls of a file. -/
def callsOf (now : Time.Instant) (nodes : List GraphNode) (p : Pending) :
    List CallSite → Action Resolved
  | [] => return {}
  | c :: rest => do
    let counted ← callOf now nodes p c
    return counted.add (← callsOf now nodes p rest)

/-- Resolves the imports and the calls of a file. Imports of a language that is not registered do not
    count. -/
def fileOf (now : Time.Instant) (registry : Registry) (nodes : List GraphNode) (known : Known)
    (p : Pending) : Action (Resolved × Known) := do
  let (imports, known) ← match registry.get? p.language with
    | some language => importsOf now language.resolution p known p.found.imports
    | none => pure ({}, known)
  let calls ← callsOf now nodes p p.found.calls
  return (imports.add calls, known)

/-- Resolves the files one after the other. -/
def filesOf (now : Time.Instant) (registry : Registry) (nodes : List GraphNode) (known : Known) :
    List Pending → Action Resolved
  | [] => return {}
  | p :: rest => do
    let (counted, known) ← fileOf now registry nodes known p
    return counted.add (← filesOf now registry nodes known rest)

/-- Resolves the files in one transaction. If a call of the store fails, the edges are taken back. -/
def pending (now : Time.Instant) (registry : Registry) (files : List Pending) : Action Resolved := do
  if files.isEmpty then return {}
  else
    let nodes ← Action.allNodes
    Action.begin
    match ← Action.attempt (filesOf now registry nodes [] files) with
    | .ok counted =>
      Action.commit
      return counted
    | .error e =>
      Action.tryRollback
      throw e

end Resolve
end SymbolGraph.Index
