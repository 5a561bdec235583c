import SymbolGraph.Cli.Args
import SymbolGraph.Cli.Bundle
import SymbolGraph.Cli.Commands
import SymbolGraph.Cli.Failure
import SymbolGraph.Cli.Help
import SymbolGraph.Config.Basic
import SymbolGraph.Config.Error
import SymbolGraph.Config.Text
import SymbolGraph.Disk.Basic
import SymbolGraph.Disk.Database
import SymbolGraph.Disk.Error
import SymbolGraph.Document.Json
import SymbolGraph.Document.JsonText
import SymbolGraph.Document.Reader
import SymbolGraph.Document.Record
import SymbolGraph.Document.Toml.Read
import SymbolGraph.Document.Toml.Scalar
import SymbolGraph.Document.Toml.Table
import SymbolGraph.Document.Toml.Write
import SymbolGraph.Document.Value
import SymbolGraph.Extraction
import SymbolGraph.Graph.Basic
import SymbolGraph.Graph.View
import SymbolGraph.Ignore.Glob
import SymbolGraph.Ignore.Rules
import SymbolGraph.Import.Candidates
import SymbolGraph.Index.Checkpoint
import SymbolGraph.Index.Error
import SymbolGraph.Index.Pending
import SymbolGraph.Index.Progress
import SymbolGraph.Index.Queue
import SymbolGraph.Index.Resolve
import SymbolGraph.Index.Run
import SymbolGraph.Index.Session
import SymbolGraph.Index.Stats
import SymbolGraph.Index.Watch
import SymbolGraph.Index.Workspace
import SymbolGraph.Language.Basic
import SymbolGraph.Language.CSharp
import SymbolGraph.Language.Ecma
import SymbolGraph.Language.Go
import SymbolGraph.Language.Java
import SymbolGraph.Language.Kotlin
import SymbolGraph.Language.Python
import SymbolGraph.Language.Registry
import SymbolGraph.Main
import SymbolGraph.Number.Binary
import SymbolGraph.Number.Decimal
import SymbolGraph.Number.Scaling
import SymbolGraph.Path.Components
import SymbolGraph.Proofs.Action
import SymbolGraph.Proofs.Alike
import SymbolGraph.Proofs.ChangeQueue
import SymbolGraph.Proofs.Coherence
import SymbolGraph.Proofs.FileStep
import SymbolGraph.Proofs.FirstPass
import SymbolGraph.Proofs.Locations
import SymbolGraph.Proofs.Order
import SymbolGraph.Proofs.Positions
import SymbolGraph.Proofs.Rebuild
import SymbolGraph.Proofs.Renumbering
import SymbolGraph.Proofs.Resolution
import SymbolGraph.Proofs.Rows
import SymbolGraph.Proofs.Runs
import SymbolGraph.Proofs.Snapshot
import SymbolGraph.Recovery.Declarations
import SymbolGraph.Recovery.Pattern
import SymbolGraph.Recovery.Rules
import SymbolGraph.Recovery.SpanEnd
import SymbolGraph.Report
import SymbolGraph.Scope
import SymbolGraph.Span
import SymbolGraph.Store.Basic
import SymbolGraph.Store.Column
import SymbolGraph.Store.Error
import SymbolGraph.Store.Row
import SymbolGraph.Symbol
import SymbolGraph.Text.Blank
import SymbolGraph.Text.Digest
import SymbolGraph.Text.Offset
import SymbolGraph.Text.Split
import SymbolGraph.Text.Word
import SymbolGraph.Time.Calendar
import SymbolGraph.Time.Instant
import SymbolGraph.Tree.Node
import SymbolGraph.Tree.Walk
import SymbolGraph.Proofs.Repetition
import SymbolGraph.Proofs.LiveEdges
import SymbolGraph.Proofs.Numbers
import SymbolGraph.Proofs.Moments
import SymbolGraph.Proofs.Script
import SymbolGraph.Proofs.StaleEdges
import SymbolGraph.Proofs.Convergence
import SymbolGraph.Proofs.Retry
import SymbolGraph.Proofs.EventLog
import SymbolGraph.Proofs.Faults
import SymbolGraph.Proofs.Counters
import SymbolGraph.Proofs.Pruning
import SymbolGraph.Proofs.Grammars
import SymbolGraph.Proofs.QualifiedNames
import SymbolGraph.Proofs.Places
import SymbolGraph.Proofs.CallSites
import SymbolGraph.Proofs.Requests
import SymbolGraph.Proofs.StoreContract
import SymbolGraph.Proofs.Boundaries
import SymbolGraph.Proofs.Matching
import SymbolGraph.Proofs.Recovered
import SymbolGraph.Proofs.Ranges
import SymbolGraph.Proofs.Lookups
import SymbolGraph.Proofs.Atomicity
import SymbolGraph.Proofs.NamedImports
import SymbolGraph.Proofs.Candidates
import SymbolGraph.Proofs.Enclosing
import SymbolGraph.Proofs.Methods
import SymbolGraph.Proofs.Reading
import SymbolGraph.Proofs.Scanning
import SymbolGraph.Proofs.Specifiers
import SymbolGraph.Proofs.Spellings
import SymbolGraph.Proofs.DeclaredNames
import SymbolGraph.Proofs.ClaimedLines
import SymbolGraph.Proofs.References
import SymbolGraph.Proofs.Fallbacks
import SymbolGraph.Proofs.BlankNames
import SymbolGraph.Proofs.Readers
import SymbolGraph.Proofs.TomlTexts
import SymbolGraph.Proofs.TomlValues
import SymbolGraph.Proofs.TomlLines
import SymbolGraph.Proofs.PathNames
import SymbolGraph.Proofs.WrittenFiles
import SymbolGraph.Proofs.SavedConfig
import SymbolGraph.Proofs.Damage
import SymbolGraph.Proofs.BracedBodies
import SymbolGraph.Proofs.IndentedBlocks
import SymbolGraph.Proofs.Wording
import SymbolGraph.Proofs.ExitStatus
import SymbolGraph.Proofs.Pieces
import SymbolGraph.Proofs.DirectoryRules
