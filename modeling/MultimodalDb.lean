import MultimodalDb.Lib.Bytes
import MultimodalDb.Lib.Crash
import MultimodalDb.Codec
import MultimodalDb.Durability.RecordBlob
import MultimodalDb.Lib.Frames
import MultimodalDb.Generic.OrderCustomer
import MultimodalDb.Generic.RecordBlob
import MultimodalDb.Generic.InsertLog
import MultimodalDb.Generic.InsertLogRules
import MultimodalDb.Generic.InsertLogTears
import MultimodalDb.Generic.SlotFile
import MultimodalDb.Generic.SlotFileImage
import MultimodalDb.Generic.SlotFileRules
import MultimodalDb.Generic.MmapStore
import MultimodalDb.Generic.MmapMaps
import MultimodalDb.Generic.MmapStoreRules
import MultimodalDb.Generic.MmapReopen
import MultimodalDb.Generic.MmapAnswers
import MultimodalDb.Generic.MmapCompact
import MultimodalDb.Generic.MmapRecovery
import MultimodalDb.Generic.MmapRuns
import MultimodalDb.Generic.MmapCrash
import MultimodalDb.Generic.MmapPartialTail
import MultimodalDb.Server.Protocol
import MultimodalDb.Server.Journal
import MultimodalDb.Server.JournalTears
import MultimodalDb.Lib.Machine
import MultimodalDb.Server.CommitGroup
import MultimodalDb.Server.CommitGroupSteps
import MultimodalDb.Server.CommitGroupHistory
import MultimodalDb.Server.CommitGroupOrder
import MultimodalDb.Lib.FieldWrites
import MultimodalDb.Server.Stack
import MultimodalDb.Server.Domain
import MultimodalDb.Server.Adapters
import MultimodalDb.Server.Journaled
import MultimodalDb.Server.JournaledAtomic
import MultimodalDb.Server.JournaledRestart
import MultimodalDb.Server.WriteBatch
import MultimodalDb.Server.JournaledSurvivors
import MultimodalDb.Server.TableAfterRestart
import MultimodalDb.Lib.Program
import MultimodalDb.Server.Query
import MultimodalDb.Server.Tables
import MultimodalDb.Server.Connection
import MultimodalDb.Server.Serving
import MultimodalDb.Server.Requests
import MultimodalDb.Server.AuthGate
import MultimodalDb.Server.Catalog
import MultimodalDb.Server.Sessions
import MultimodalDb.Lib.Capped
import MultimodalDb.Server.SnapshotReads
import MultimodalDb.Lib.Checks
import MultimodalDb.Server.Reads
import MultimodalDb.Server.Versions
import MultimodalDb.Server.VersionGates
import MultimodalDb.Server.VersionRule
import MultimodalDb.Lib.NeighborLists
import MultimodalDb.Generic.EdgeFiles
import MultimodalDb.Generic.MultiSymmetric
import MultimodalDb.Generic.Symmetric
import MultimodalDb.Generic.RecordStoreLaws
import MultimodalDb.Generic.EdgeInvariant
import MultimodalDb.Generic.EdgeOpening
import MultimodalDb.Generic.SymmetricInvariant
import MultimodalDb.Generic.EdgeRuns
import MultimodalDb.Lib.TwinRuns
import MultimodalDb.Generic.MmapTwins
import MultimodalDb.Generic.ProductionStack
import MultimodalDb.Generic.EdgeTwins
import MultimodalDb.Generic.StackTwins
import MultimodalDb.Generic.StartOver
import MultimodalDb.Generic.IndexLayers
import MultimodalDb.Generic.IndexLayerRules
import MultimodalDb.Generic.IndexRebuild
import MultimodalDb.Lib.MapPairs
import MultimodalDb.Durability.LogStores
import MultimodalDb.Durability.LogStoreRules
import MultimodalDb.Durability.RefusedUpdates
import MultimodalDb.Durability.TornLogs
import MultimodalDb.Durability.LsmRules
import MultimodalDb.Durability.LsmHistory
import MultimodalDb.Durability.Leftovers
import MultimodalDb.Durability.AgeColumns
import MultimodalDb.Durability.DogBlob
import MultimodalDb.Durability.MmapAgeStore
import MultimodalDb.Durability.DogRules
import MultimodalDb.Durability.DogRuns
import MultimodalDb.Durability.DogMemory
import MultimodalDb.Lib.Newest
import MultimodalDb.Server.NewestWins
import MultimodalDb.Server.Acceptance
import MultimodalDb.Server.ValidatedStages
import MultimodalDb.Lib.Parsing
import MultimodalDb.Server.Sql
import MultimodalDb.Server.SqlTokens
import MultimodalDb.Server.SqlGrammar
import MultimodalDb.Server.SqlQueries
import MultimodalDb.Server.Aggregates
import MultimodalDb.Server.Joins
import MultimodalDb.Store.Layouts
import MultimodalDb.Store.LayoutsAgree
import MultimodalDb.Server.FailureTable
import MultimodalDb.Server.LoginBudget
import MultimodalDb.Server.UnlabelledNeighbors
import MultimodalDb.Generic.SlotFileTorn
import MultimodalDb.Generic.MmapScan
import MultimodalDb.Generic.MmapCompactFailures
import MultimodalDb.Generic.InsertLogShort
import MultimodalDb.Generic.RefusedWrites
import MultimodalDb.Server.OwnWrites
import MultimodalDb.Lib.Pages
import MultimodalDb.Lib.Histories
import MultimodalDb.Lib.Locks
import MultimodalDb.Lib.Actors
import MultimodalDb.Generic.MergeLog
import MultimodalDb.Lib.Breadth
import MultimodalDb.Server.Client
import MultimodalDb.Server.Traverse
import MultimodalDb.Server.QueryJoin
import MultimodalDb.Generic.BlobsExact
import MultimodalDb.Lib.Base64
import MultimodalDb.Server.Pem
import MultimodalDb.Server.PemBlocks
import MultimodalDb.Durability.TornImage
import MultimodalDb.Server.Wire
import MultimodalDb.Lib.Unpack
import MultimodalDb.Python.Codec
import MultimodalDb.Python.Specs
import MultimodalDb.Python.RoundTrip
import MultimodalDb.Python.Protocol
import MultimodalDb.Python.Mirror
import MultimodalDb.Python.Agreement
import MultimodalDb.Server.Paging
import MultimodalDb.Concurrency.Stores
import MultimodalDb.Concurrency.Linearizable
import MultimodalDb.Concurrency.ShardedScan
import MultimodalDb.Lib.Pieces
import MultimodalDb.Server.Framing
import MultimodalDb.Python.Exchange
import MultimodalDb.Python.Conversation
