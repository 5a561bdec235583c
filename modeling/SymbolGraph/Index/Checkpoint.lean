import SymbolGraph.Document.Json
import SymbolGraph.Document.Record
import SymbolGraph.Index.Stats
import SymbolGraph.Store.Basic

/-! The counts of the last full index, kept as a checkpoint of the store. -/

namespace SymbolGraph.Index

open Document

/-- The checkpoint with the counts of the last full index. -/
def statsKey : String := "last_index_stats"

/-- The checkpoint with the time of the last full index. -/
def timeKey : String := "last_index_at"

/-- A named number. -/
def entryText (entry : String × Nat) : String := s!"\x22{entry.1}\x22:{entry.2}"

/-- The counts as text. -/
def Stats.text (s : Stats) : String :=
  let counters := s.counters.map entryText
  let duration := [("secs", s.duration.secs), ("nanos", s.duration.nanos)].map entryText
  "\x7b" ++ Text.join ',' (counters ++ ["\x22duration\x22:\x7b" ++ Text.join ',' duration ++ "\x7d"]) ++ "\x7d"

/-- The values of the named fields, none of which may be missing. -/
def allFields (rule : RecordRule) (names : List String) (v : Value) : Option (List Value) :=
  (fields rule names v).bind (·.mapM id)

/-- The span of time that a value stands for. -/
def Duration.ofValue? (v : Value) : Option Duration := do
  let [secs, nanos] ← allFields { otherFields := false } ["secs", "nanos"] v | none
  let secs ← secs.count?
  let nanos ← nanos.count?
  let whole := secs + nanos / 1000000000
  if nanos < UInt32.size ∧ whole < UInt64.size then some ⟨whole, nanos % 1000000000⟩ else none

/-- The counts that a value stands for. -/
def Stats.ofValue? (v : Value) : Option Stats := do
  let names := ({} : Stats).counters.map (·.1)
  let values ← allFields {} (names ++ ["duration"]) v
  let duration ← values.getLast?.bind Duration.ofValue?
  let [seen, indexed, unchanged, skipped, failed, fallback, nodes, imports, calls, lostImports,
    lostCalls] ← values.dropLast.mapM Value.count? | none
  return ⟨seen, indexed, unchanged, skipped, failed, fallback, nodes, imports, calls, lostImports,
    lostCalls, duration⟩

/-- The counts that a text stands for. -/
def Stats.read (text : String) : Option Stats := (Json.read text).bind Stats.ofValue?

/-- The counts of the last full index, if there was one. -/
def lastStats (s : Store) : Except StoreError (Option Stats) :=
  match s.checkpoint? statsKey with
  | none => .ok none
  | some text =>
    match Stats.read text with
    | some stats => .ok (some stats)
    | none => .error .serialization

end SymbolGraph.Index
