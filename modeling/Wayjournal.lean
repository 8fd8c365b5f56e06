import Wayjournal.Batch.Manifest
import Wayjournal.Batch.ManifestLaws
import Wayjournal.Batch.Ownership
import Wayjournal.Batch.Prepare
import Wayjournal.Batch.PreparedLaws
import Wayjournal.Batch.Singleton
import Wayjournal.Batch.TextLength
import Wayjournal.Builtin
import Wayjournal.Capability
import Wayjournal.CapabilityLaws
import Wayjournal.Causal.Ancestry
import Wayjournal.Causal.Graph
import Wayjournal.Causal.GraphLaws
import Wayjournal.Causal.Relabel
import Wayjournal.Collections.BTreeMap
import Wayjournal.Collections.BinarySearch
import Wayjournal.Collections.Dag
import Wayjournal.Collections.Grouping
import Wayjournal.Collections.SelfDelimiting
import Wayjournal.Collections.Separated
import Wayjournal.Collections.Sorted
import Wayjournal.Concurrency.Locking
import Wayjournal.Control.BufRead
import Wayjournal.Control.Ensures
import Wayjournal.Control.Except
import Wayjournal.Control.Safely
import Wayjournal.Control.Total
import Wayjournal.Crash.Fault
import Wayjournal.Crash.Guarantee
import Wayjournal.Crash.Program
import Wayjournal.Crash.ReadOnly
import Wayjournal.Crash.Simulation
import Wayjournal.Crash.Triple
import Wayjournal.Crash.View
import Wayjournal.Crypto.Blake3
import Wayjournal.Domains.Convergence
import Wayjournal.Domains.Fold
import Wayjournal.Domains.FoldLaws
import Wayjournal.Domains.FoldRun
import Wayjournal.Domains.FoldSpec
import Wayjournal.Domains.LoadedFold
import Wayjournal.Domains.LoadedLaws
import Wayjournal.Domains.Operation
import Wayjournal.Domains.Payload
import Wayjournal.Domains.Union
import Wayjournal.EncodingLaws
import Wayjournal.Federation.AdditionCodec
import Wayjournal.Federation.AdditionRoundTrip
import Wayjournal.Federation.AdditionSource
import Wayjournal.Federation.Additions
import Wayjournal.Federation.Checkpoint
import Wayjournal.Federation.CheckpointLaws
import Wayjournal.Federation.CheckpointReplace
import Wayjournal.Federation.CleanupLaws
import Wayjournal.Federation.DiscoverLaws
import Wayjournal.Federation.Document
import Wayjournal.Federation.DocumentLaws
import Wayjournal.Federation.DocumentReplace
import Wayjournal.Federation.DurableReplacement
import Wayjournal.Federation.GitCommand
import Wayjournal.Federation.GitFrame
import Wayjournal.Federation.GitObjects
import Wayjournal.Federation.GitReader
import Wayjournal.Federation.GitReaderLaws
import Wayjournal.Federation.GitRepository
import Wayjournal.Federation.GitStream
import Wayjournal.Federation.History
import Wayjournal.Federation.LocalRepository
import Wayjournal.Federation.Multi
import Wayjournal.Federation.MultiLaws
import Wayjournal.Federation.MultiSync
import Wayjournal.Federation.Pending
import Wayjournal.Federation.PendingLaws
import Wayjournal.Federation.PhaseLaws
import Wayjournal.Federation.Protocol
import Wayjournal.Federation.ProtocolSteps
import Wayjournal.Federation.Quarantine
import Wayjournal.Federation.QuarantineLaws
import Wayjournal.Federation.Quarantined
import Wayjournal.Federation.RecoverSteps
import Wayjournal.Federation.RepositoryFiles
import Wayjournal.Federation.RepositoryFrame
import Wayjournal.Federation.RepositoryTransfer
import Wayjournal.Federation.SlotSteps
import Wayjournal.Federation.Staging
import Wayjournal.Federation.StagingLaws
import Wayjournal.Federation.StartSteps
import Wayjournal.Federation.Sync
import Wayjournal.Federation.SyncFrame
import Wayjournal.Federation.SyncRecover
import Wayjournal.Federation.SyncRules
import Wayjournal.Federation.SyncRun
import Wayjournal.Federation.SyncSafety
import Wayjournal.Federation.SyncStart
import Wayjournal.Federation.SyncSteps
import Wayjournal.Federation.TornRoots
import Wayjournal.Federation.TreeLaws
import Wayjournal.Federation.Types
import Wayjournal.Federation.VerifyLaws
import Wayjournal.Federation.Wedged
import Wayjournal.Federation.WireLaws
import Wayjournal.Federation.Within
import Wayjournal.Framing
import Wayjournal.Fs.FileSystem
import Wayjournal.Fs.Subtree
import Wayjournal.Hash
import Wayjournal.Identity
import Wayjournal.Ids
import Wayjournal.Json.Compact
import Wayjournal.Json.Length
import Wayjournal.Json.Parse
import Wayjournal.Json.Print
import Wayjournal.Json.RoundTrip
import Wayjournal.Json.Serde
import Wayjournal.Json.SerdeLaws
import Wayjournal.Json.Soundness
import Wayjournal.Json.Value
import Wayjournal.Layout
import Wayjournal.LogicalStore
import Wayjournal.OfferCodec
import Wayjournal.Preimage
import Wayjournal.Projection
import Wayjournal.ProjectionLaws
import Wayjournal.ProofCache.Authorities
import Wayjournal.ProofCache.Cache
import Wayjournal.ProofCache.CacheLaws
import Wayjournal.ProofCache.Entry
import Wayjournal.ProofCache.EntryLaws
import Wayjournal.ProofCache.Freshness
import Wayjournal.ProofCache.HitLaws
import Wayjournal.ProofCache.Locality
import Wayjournal.ProofCache.LockLaws
import Wayjournal.ProofCache.Locks
import Wayjournal.ProofVector
import Wayjournal.Record.Codec
import Wayjournal.Record.CodecLaws
import Wayjournal.Record.Length
import Wayjournal.Record.RoundTrip
import Wayjournal.Revision
import Wayjournal.RevisionLaws
import Wayjournal.Store.Conflict
import Wayjournal.Store.CrashAtomic
import Wayjournal.Store.Directory
import Wayjournal.Store.DirectoryLaws
import Wayjournal.Store.Discard
import Wayjournal.Store.EntryCount
import Wayjournal.Store.Error
import Wayjournal.Store.Exclusive
import Wayjournal.Store.ExclusiveLaws
import Wayjournal.Store.Extension
import Wayjournal.Store.FactSize
import Wayjournal.Store.FirstBatch
import Wayjournal.Store.Idempotency
import Wayjournal.Store.IdentityLaws
import Wayjournal.Store.Immutable
import Wayjournal.Store.JournalLaws
import Wayjournal.Store.LoadLaws
import Wayjournal.Store.Name
import Wayjournal.Store.PathGrammar
import Wayjournal.Store.Paths
import Wayjournal.Store.PreviewExact
import Wayjournal.Store.Publication
import Wayjournal.Store.PublishLaws
import Wayjournal.Store.ReadLaws
import Wayjournal.Store.RecoverLaws
import Wayjournal.Store.RecoveryBase
import Wayjournal.Store.RemovalLaws
import Wayjournal.Store.Replacement
import Wayjournal.Store.ReplayCost
import Wayjournal.Store.ReplayFailures
import Wayjournal.Store.ReplayLaws
import Wayjournal.Store.ResidueLaws
import Wayjournal.Store.Scan
import Wayjournal.Store.ScanLaws
import Wayjournal.Store.SingleBatch
import Wayjournal.Store.SortFiles
import Wayjournal.Store.SortFilesLaws
import Wayjournal.Store.SorterCost
import Wayjournal.Store.SorterLaws
import Wayjournal.Store.StageLaws
import Wayjournal.Store.Streaming
import Wayjournal.Store.Transaction
import Wayjournal.Store.Visible
import Wayjournal.Store.VisibleLaws
import Wayjournal.Store.Walk
import Wayjournal.Text.Bytes
import Wayjournal.Text.Hex
import Wayjournal.Text.Utf8
