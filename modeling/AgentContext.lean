import AgentContext.Lib.Transition
import AgentContext.Lib.HashChain
import AgentContext.Lib.WaitFor
import AgentContext.Lib.Keyset
import AgentContext.Ledger.Append
import AgentContext.Ledger.Invariant
import AgentContext.Ledger.Outcomes
import AgentContext.Ledger.Concurrent
import AgentContext.Ledger.Guarantees
import AgentContext.Ledger.Deadlock
import AgentContext.Ledger.Verify
import AgentContext.Projection.Checkpoints
import AgentContext.Projection.Runtime
import AgentContext.Projection.Safety
import AgentContext.Projection.Progress
import AgentContext.Projection.Verify
import AgentContext.Lib.Delivery
import AgentContext.Projection.Replay
import AgentContext.Code.Events
import AgentContext.Code.Facts
import AgentContext.Code.Derive
import AgentContext.Code.Project
import AgentContext.Code.Locality
import AgentContext.Code.Membership
import AgentContext.Code.AsOf
import AgentContext.Code.Frame
import AgentContext.Code.Converge
import AgentContext.Projection.Appends
import AgentContext.Retrieval.Freshness
import AgentContext.Retrieval.Watermark
import AgentContext.Retrieval.Instant
import AgentContext.Lib.Base64
import AgentContext.Retrieval.Cursor
import AgentContext.Retrieval.Token
import AgentContext.Projection.Rebuild
import AgentContext.Knowledge.Decisions
import AgentContext.Knowledge.States
import AgentContext.Knowledge.Closure
import AgentContext.Knowledge.Refinement
import AgentContext.Temporal.Failures
import AgentContext.Temporal.Dirty
import AgentContext.Temporal.Graph
import AgentContext.Temporal.Reads
import AgentContext.Temporal.Snapshot
import AgentContext.Retrieval.Backlog
import AgentContext.Temporal.Isolation
import AgentContext.Retrieval.Evidence
import AgentContext.Retrieval.Windows
import AgentContext.Retrieval.Pages
import AgentContext.Retrieval.Spelling
import AgentContext.Retrieval.Partition
import AgentContext.Security.Bearer
import AgentContext.Security.Authenticator
import AgentContext.Security.Revocation
import AgentContext.Security.RateLimit
import AgentContext.Lib.Locks
import AgentContext.Content.Store
import AgentContext.Content.System
import AgentContext.Content.Dangling
import AgentContext.Search.Documents
import AgentContext.Search.System
import AgentContext.Search.Purges
import AgentContext.Projection.History
import AgentContext.Projection.Marker
import AgentContext.Lib.Properties
import AgentContext.Lib.Provenance
import AgentContext.Activity.Order
import AgentContext.Activity.Projectors
import AgentContext.Activity.Converge
import AgentContext.Indexing.Identity
import AgentContext.Indexing.Lineage
import AgentContext.Indexing.Commits
import AgentContext.Indexing.Completion
import AgentContext.Indexing.Apply
import AgentContext.Indexing.Replay
import AgentContext.Ledger.RoundTrip
import AgentContext.Ledger.Reject
import AgentContext.Ledger.Tail
import AgentContext.Indexing.Imports
import AgentContext.Content.Grace
import AgentContext.Lib.Bindings
import AgentContext.Search.Replay
import AgentContext.Search.ReplayCheck
import AgentContext.Search.Workers
import AgentContext.Search.Answers
import AgentContext.Adapters.GoConst
import AgentContext.Adapters.GoEdits
import AgentContext.Indexing.NetEntries
import AgentContext.Indexing.SnapshotIdentity
import AgentContext.Code.Absence
import AgentContext.Projection.Digest
import AgentContext.Content.AllOrNothing
import AgentContext.Ledger.DecodeGate
import AgentContext.Security.Verification
import AgentContext.Security.ProtocolGuard
import AgentContext.Retrieval.Walk
import AgentContext.Lib.Chains
import AgentContext.Temporal.History
import AgentContext.Temporal.HistoryWhole
import AgentContext.Temporal.Soundness
import AgentContext.Ledger.OtlpPlain
import AgentContext.Indexing.ScipGuard
import AgentContext.Ledger.OtlpGuard
import AgentContext.Indexing.Positions
import AgentContext.Indexing.Provisional
import AgentContext.Indexing.Structural
import AgentContext.Indexing.StructuralRuns
import AgentContext.Ledger.Export
import AgentContext.Ledger.PartialSuccess
import AgentContext.Indexing.References
import AgentContext.Indexing.Overflow
import AgentContext.Indexing.Emission
import AgentContext.Indexing.Names
import AgentContext.Indexing.ScipImport
import AgentContext.Indexing.ScipOrder
import AgentContext.Indexing.Records
import AgentContext.Indexing.Intervals
