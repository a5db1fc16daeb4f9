import LedgerFS.Library.ByteOrder
import LedgerFS.Library.WireFormat
import LedgerFS.Library.Truncation
import LedgerFS.Library.CompactJson
import LedgerFS.Library.PrettyJson
import LedgerFS.Library.JsonText
import LedgerFS.Library.CivilDate
import LedgerFS.Library.WriteLog
import LedgerFS.Library.OrderedScan
import LedgerFS.Library.Resumption
import LedgerFS.Library.GuardedCalls
import LedgerFS.Library.CallProgress
import LedgerFS.Library.Lockstep
import LedgerFS.Library.Rollback
import LedgerFS.Library.WorkQueue
import LedgerFS.Library.RunningMean
import LedgerFS.Library.CheckedReplay
import LedgerFS.Library.Totals
import LedgerFS.Library.Reordering
import LedgerFS.Library.Sharding
import LedgerFS.Library.Interning
import LedgerFS.Core.Collections
import LedgerFS.Core.Time
import LedgerFS.Core.Rfc3339
import LedgerFS.Core.Types
import LedgerFS.Core.Amounts
import LedgerFS.Core.Events
import LedgerFS.Core.Crates
import LedgerFS.Core.Hash
import LedgerFS.EventStore.Bincode
import LedgerFS.EventStore.Serialization
import LedgerFS.EventStore.KeyOrder
import LedgerFS.EventStore.RocksDb
import LedgerFS.EventStore.Store
import LedgerFS.EventStore.Append
import LedgerFS.EventStore.Runs
import LedgerFS.EventStore.EventIds
import LedgerFS.EventStore.Durability
import LedgerFS.EventStore.Query
import LedgerFS.EventStore.StoredOrder
import LedgerFS.EventStore.Reference
import LedgerFS.EventStore.ReadPaths
import LedgerFS.EventStore.Completeness
import LedgerFS.EventStore.AppendOrder
import LedgerFS.EventStore.Reopening
import LedgerFS.EventStore.Paging
import LedgerFS.EventStore.LivePaging
import LedgerFS.EventStore.TornRecords
import LedgerFS.EventStore.Concurrent
import LedgerFS.EventStore.ConcurrentApi
import LedgerFS.EventStore.Rollback
import LedgerFS.EventStore.Indistinguishable
import LedgerFS.EventStore.BytesWritten
import LedgerFS.Batch.Flush
import LedgerFS.Batch.SyncWriter
import LedgerFS.Batch.Processor
import LedgerFS.Batch.Conservation
import LedgerFS.Batch.Shutdown
import LedgerFS.Batch.Accounting
import LedgerFS.Batch.Draining
import LedgerFS.Batch.WritePaths
import LedgerFS.Batch.Order
import LedgerFS.Batch.Latency
import LedgerFS.Recovery.Recover
import LedgerFS.Recovery.Scan
import LedgerFS.Recovery.Coverage
import LedgerFS.Recovery.TornRecords
import LedgerFS.Recovery.Balances
import LedgerFS.Recovery.Transfers
import LedgerFS.Recovery.Reordering
import LedgerFS.Recovery.AccountAudits
import LedgerFS.Recovery.LedgerMeaning
import LedgerFS.Recovery.Overdrafts
import LedgerFS.Recovery.TrialBalance
import LedgerFS.Recovery.FreshStore
import LedgerFS.Recovery.CrashRecovery
import LedgerFS.Fuse.Paths
import LedgerFS.Fuse.PathResolver
import LedgerFS.Fuse.Filesystem
import LedgerFS.Fuse.InodeTable
import LedgerFS.Fuse.Sizes
import LedgerFS.Fuse.Listing
import LedgerFS.Fuse.RestrictedRuns
import LedgerFS.Fuse.Directories
import LedgerFS.Fuse.Reads
import LedgerFS.Fuse.UuidText
import LedgerFS.Fuse.PathParsers
import LedgerFS.Fuse.Canonical
import LedgerFS.Fuse.ResumedListing
import LedgerFS.Fuse.FileTexts
import LedgerFS.Fuse.WholeReads
