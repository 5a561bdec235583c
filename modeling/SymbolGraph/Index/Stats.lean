/-! What an indexing run counted. Counters and seconds have 64 bits, and there is no sum where they
    would need more. -/

namespace SymbolGraph.Index

/-- A span of time, to the nanosecond. -/
structure Duration where
  secs : Nat := 0
  /-- The nanoseconds beyond the whole seconds. -/
  nanos : Nat := 0
  deriving Repr, BEq, DecidableEq

/-- The sum of two spans of time; a full thousand million of nanoseconds makes a second. -/
def Duration.add (a b : Duration) : Duration :=
  let nanos := a.nanos + b.nanos
  ⟨a.secs + b.secs + nanos / 1000000000, nanos % 1000000000⟩

/-- The counts of one run or of several. -/
structure Stats where
  filesSeen : Nat := 0
  /-- Files that were read and recorded. -/
  indexed : Nat := 0
  /-- Files whose record was already right. -/
  unchanged : Nat := 0
  /-- Files that are not to be read. -/
  skipped : Nat := 0
  failed : Nat := 0
  /-- Files that were read by patterns. -/
  fallback : Nat := 0
  nodesCreated : Nat := 0
  importEdges : Nat := 0
  callEdges : Nat := 0
  unresolvedImports : Nat := 0
  unresolvedCalls : Nat := 0
  duration : Duration := {}
  deriving Repr, BEq, DecidableEq

namespace Stats

/-- The number of edges created, if it fits in 64 bits. -/
def edgesCreated? (s : Stats) : Option Nat :=
  let edges := s.importEdges + s.callEdges
  if edges < UInt64.size then some edges else none

/-- The counts of both. -/
def merge (a b : Stats) : Stats where
  filesSeen := a.filesSeen + b.filesSeen
  indexed := a.indexed + b.indexed
  unchanged := a.unchanged + b.unchanged
  skipped := a.skipped + b.skipped
  failed := a.failed + b.failed
  fallback := a.fallback + b.fallback
  nodesCreated := a.nodesCreated + b.nodesCreated
  importEdges := a.importEdges + b.importEdges
  callEdges := a.callEdges + b.callEdges
  unresolvedImports := a.unresolvedImports + b.unresolvedImports
  unresolvedCalls := a.unresolvedCalls + b.unresolvedCalls
  duration := a.duration.add b.duration

/-- The counters with their names in records. -/
def counters (s : Stats) : List (String × Nat) :=
  [("files_seen", s.filesSeen), ("indexed", s.indexed), ("unchanged", s.unchanged),
    ("skipped", s.skipped), ("failed", s.failed), ("fallback", s.fallback),
    ("nodes_created", s.nodesCreated), ("import_edges", s.importEdges),
    ("call_edges", s.callEdges), ("unresolved_imports", s.unresolvedImports),
    ("unresolved_calls", s.unresolvedCalls)]

/-- Whether the counters and the seconds fit in 64 bits. -/
def fits (s : Stats) : Bool := s.counters.all (·.2 < UInt64.size) && s.duration.secs < UInt64.size

/-- The counts of both, if they fit. -/
def merge? (a b : Stats) : Option Stats :=
  let sum := a.merge b
  if sum.fits then some sum else none

/-- The counts after each of the runs, from `total` on, if all of them fit. -/
def totals? (total : Stats) : List Stats → Option (List Stats)
  | [] => some []
  | run :: runs => do
    let total ← total.merge? run
    return total :: (← totals? total runs)

end Stats
end SymbolGraph.Index
