import Containment.Checksum
import Containment.Classifier
import Containment.Cli.Grammar
import Containment.Cli.Help
import Containment.Cli.Invocation
import Containment.Cli.Parser
import Containment.Cli.Run
import Containment.Cli.Usage
import Containment.Cli.Workspace
import Containment.Config.Basic
import Containment.Config.Toml
import Containment.Container.Basic
import Containment.Container.Change
import Containment.Container.Error
import Containment.ContainerId
import Containment.Context
import Containment.Describe
import Containment.Dispatch.Dispatcher
import Containment.Dispatch.Mailbox
import Containment.Event
import Containment.Export
import Containment.Index.Archive
import Containment.Index.Basic
import Containment.Index.Call
import Containment.Index.Entry
import Containment.Index.Memory
import Containment.Index.Table
import Containment.Kind
import Containment.Lock.Gate
import Containment.Lock.Table
import Containment.Main
import Containment.Member
import Containment.Program
import Containment.Proofs.Cli.Repairing
import Containment.Proofs.Cli.Verbose
import Containment.Proofs.Concurrency.Bare
import Containment.Proofs.Concurrency.Calls
import Containment.Proofs.Concurrency.Cancellation
import Containment.Proofs.Concurrency.Chronicle
import Containment.Proofs.Concurrency.Conclusions
import Containment.Proofs.Concurrency.Course
import Containment.Proofs.Concurrency.Creation
import Containment.Proofs.Concurrency.Deadlock
import Containment.Proofs.Concurrency.Endurance
import Containment.Proofs.Concurrency.Gate
import Containment.Proofs.Concurrency.Guards
import Containment.Proofs.Concurrency.Identifiers
import Containment.Proofs.Concurrency.LockOrder
import Containment.Proofs.Concurrency.Progress
import Containment.Proofs.Concurrency.Reclaiming
import Containment.Proofs.Concurrency.Registry
import Containment.Proofs.Concurrency.Serial
import Containment.Proofs.Concurrency.Standing
import Containment.Proofs.Concurrency.Steps
import Containment.Proofs.Concurrency.Turns
import Containment.Proofs.Concurrency.Usage
import Containment.Proofs.Container.Changes
import Containment.Proofs.Container.Persistence
import Containment.Proofs.Container.Properties
import Containment.Proofs.Container.Rules
import Containment.Proofs.Container.Telling
import Containment.Proofs.Container.Timeless
import Containment.Proofs.Cursor.Batches
import Containment.Proofs.Cursor.Draining
import Containment.Proofs.Cursor.Insertion
import Containment.Proofs.Cursor.Numbers
import Containment.Proofs.Dealings
import Containment.Proofs.Dispatch.FanOut
import Containment.Proofs.Dispatch.Mailbox
import Containment.Proofs.Events.FaithfulLog
import Containment.Proofs.Events.Replay
import Containment.Proofs.Hierarchy.Depth
import Containment.Proofs.Hierarchy.Forest
import Containment.Proofs.Hierarchy.Links
import Containment.Proofs.Index.Alongside
import Containment.Proofs.Index.Catalogue
import Containment.Proofs.Index.Chronology
import Containment.Proofs.Index.Contract
import Containment.Proofs.Index.Damage
import Containment.Proofs.Index.Equivalence
import Containment.Proofs.Index.Keeping
import Containment.Proofs.Index.Listing
import Containment.Proofs.Index.MemoryCatalogue
import Containment.Proofs.Index.Numbering
import Containment.Proofs.Index.Ordering
import Containment.Proofs.Index.Outline
import Containment.Proofs.Index.TableCatalogue
import Containment.Proofs.Looking
import Containment.Proofs.Maps
import Containment.Proofs.Objections
import Containment.Proofs.Orderly
import Containment.Proofs.Outcome
import Containment.Proofs.Parallel
import Containment.Proofs.Record.Checksum
import Containment.Proofs.Record.Codec
import Containment.Proofs.Record.Damage
import Containment.Proofs.Repository.Admission
import Containment.Proofs.Repository.Agreement
import Containment.Proofs.Repository.Alike
import Containment.Proofs.Repository.Amending
import Containment.Proofs.Repository.Arising
import Containment.Proofs.Repository.Ascent
import Containment.Proofs.Repository.Beside
import Containment.Proofs.Repository.Calls
import Containment.Proofs.Repository.Clean
import Containment.Proofs.Repository.Commit
import Containment.Proofs.Repository.Comparison
import Containment.Proofs.Repository.Covering
import Containment.Proofs.Repository.Deciding
import Containment.Proofs.Repository.Descent
import Containment.Proofs.Repository.Effects
import Containment.Proofs.Repository.Failures
import Containment.Proofs.Repository.Finishing
import Containment.Proofs.Repository.Independence
import Containment.Proofs.Repository.IndexWrites
import Containment.Proofs.Repository.Invariants
import Containment.Proofs.Repository.Lifecycle
import Containment.Proofs.Repository.Listing
import Containment.Proofs.Repository.Making
import Containment.Proofs.Repository.Managing
import Containment.Proofs.Repository.Moves
import Containment.Proofs.Repository.Navigation
import Containment.Proofs.Repository.NewestFirst
import Containment.Proofs.Repository.OrderlyCalls
import Containment.Proofs.Repository.Questions
import Containment.Proofs.Repository.Reachable
import Containment.Proofs.Repository.Reading
import Containment.Proofs.Repository.Rebuild
import Containment.Proofs.Repository.Relocation
import Containment.Proofs.Repository.Renewal
import Containment.Proofs.Repository.Repair
import Containment.Proofs.Repository.Restoring
import Containment.Proofs.Repository.Rewriting
import Containment.Proofs.Repository.RowChanges
import Containment.Proofs.Repository.Seeding
import Containment.Proofs.Repository.Segments
import Containment.Proofs.Repository.Single
import Containment.Proofs.Repository.Spending
import Containment.Proofs.Repository.Surveying
import Containment.Proofs.Repository.Timekeeping
import Containment.Proofs.Repository.Trust
import Containment.Proofs.Repository.Verdict
import Containment.Proofs.Repository.Verification
import Containment.Proofs.Repository.Walks
import Containment.Proofs.Runs
import Containment.Proofs.Store.Contents
import Containment.Proofs.Store.Directory
import Containment.Proofs.Store.Equivalence
import Containment.Proofs.Store.FileNames
import Containment.Proofs.Store.Reopening
import Containment.Proofs.Store.Swapping
import Containment.Proofs.Text.Path
import Containment.Proofs.Text.Utf8
import Containment.Proofs.Time.Calendar
import Containment.Proofs.Time.Forward
import Containment.Proofs.Time.Rfc3339
import Containment.Proofs.Undisturbed
import Containment.Record.Basic
import Containment.Record.Codec
import Containment.Record.Frame
import Containment.Repository.Call
import Containment.Repository.Commit
import Containment.Repository.Cursor
import Containment.Repository.Error
import Containment.Repository.Hierarchy
import Containment.Repository.Lifecycle
import Containment.Repository.Loading
import Containment.Repository.Membership
import Containment.Repository.Options
import Containment.Repository.Recovery
import Containment.Repository.Report
import Containment.Schedule
import Containment.Store.Basic
import Containment.Store.Call
import Containment.Store.Directory
import Containment.Store.Error
import Containment.Store.Memory
import Containment.Text.Blank
import Containment.Text.Decimal
import Containment.Text.Hex
import Containment.Text.Json
import Containment.Text.Path
import Containment.Text.Printable
import Containment.Text.Quoted
import Containment.Text.Toml.Reader
import Containment.Text.Toml.Scalar
import Containment.Text.Toml.Value
import Containment.Text.Toml.Writer
import Containment.Text.Utf8
import Containment.Text.Uuid
import Containment.Time.Calendar
import Containment.Time.Clock
import Containment.Time.Instant
import Containment.Time.Rfc3339
import Containment.Time.Rfc3339.Reader
import Containment.World
