import InvertedIndex.Build
import InvertedIndex.ByteSize
import InvertedIndex.Command.Arguments
import InvertedIndex.Command.Help
import InvertedIndex.Command.Run
import InvertedIndex.Config
import InvertedIndex.Error
import InvertedIndex.Fault
import InvertedIndex.FileSystem
import InvertedIndex.Filter
import InvertedIndex.Handle
import InvertedIndex.Index
import InvertedIndex.Journal.Entry
import InvertedIndex.Journal.Shard
import InvertedIndex.Json.Printer
import InvertedIndex.Json.Token
import InvertedIndex.Json.Value
import InvertedIndex.Main
import InvertedIndex.Path
import InvertedIndex.PlainText
import InvertedIndex.Posting
import InvertedIndex.Preindex
import InvertedIndex.Query
import InvertedIndex.Reader
import InvertedIndex.Region
import InvertedIndex.Search.Backend
import InvertedIndex.Search.Range
import InvertedIndex.Search.Scalar
import InvertedIndex.Search.Vector
import InvertedIndex.Source
import InvertedIndex.Stats
import InvertedIndex.Store.Batch
import InvertedIndex.Store.Encoding
import InvertedIndex.Store.Header
import InvertedIndex.Store.Lookup
import InvertedIndex.TracedError
import InvertedIndex.Word
import InvertedIndex.World
import InvertedIndex.Proofs.Checked
import InvertedIndex.Proofs.Search
import InvertedIndex.Proofs.StoreHeader
import InvertedIndex.Proofs.StoreLookup
import InvertedIndex.Proofs.StoreRoundTrip
import InvertedIndex.Proofs.StoreBatch
import InvertedIndex.Proofs.Words
import InvertedIndex.Proofs.AcceptedIndex
import InvertedIndex.Proofs.Actions
import InvertedIndex.Proofs.Answers
import InvertedIndex.Proofs.KeyedLists
import InvertedIndex.Proofs.Postings
import InvertedIndex.Proofs.Collapsing
import InvertedIndex.Proofs.TermLists
import InvertedIndex.Proofs.Files
import InvertedIndex.Proofs.Requests
import InvertedIndex.Proofs.PreindexLists
import InvertedIndex.Proofs.PreindexFiles
import InvertedIndex.Proofs.Possessions
import InvertedIndex.Proofs.Cleanup
import InvertedIndex.Proofs.PairStores
import InvertedIndex.Proofs.Layout
import InvertedIndex.Proofs.Finalization
import InvertedIndex.Proofs.FailedFinalization
import InvertedIndex.Proofs.Parcels
import InvertedIndex.Proofs.Reduction
import InvertedIndex.Proofs.Shards
import InvertedIndex.Proofs.Builds
import InvertedIndex.Proofs.BuiltIndex
import InvertedIndex.Proofs.CanonicalOutput
import InvertedIndex.Proofs.BackendAgreement
import InvertedIndex.Proofs.FilterAlgebra
import InvertedIndex.Proofs.Exposure
import InvertedIndex.Proofs.PreindexCreation
import InvertedIndex.Proofs.Ownership
import InvertedIndex.Proofs.FailedShards
import InvertedIndex.Proofs.TemporaryFiles
import InvertedIndex.Proofs.DirectoryConsistency
import InvertedIndex.Proofs.JournalRoundTrip
import InvertedIndex.Proofs.JournaledBuilds
import InvertedIndex.Proofs.Retirement
import InvertedIndex.Proofs.JournalReading
import InvertedIndex.Proofs.PreindexHandles
import InvertedIndex.Proofs.PreindexOwnership
import InvertedIndex.Proofs.BuildSteps
import InvertedIndex.Proofs.BatchAgreement
import InvertedIndex.Proofs.OpenPreindexes
import InvertedIndex.Proofs.Merging
import InvertedIndex.Proofs.Constructing
import InvertedIndex.Proofs.FinishedLayout
import InvertedIndex.Proofs.HeaderReading
import InvertedIndex.Proofs.PreindexOpening
import InvertedIndex.Proofs.FinishedBuilds
import InvertedIndex.Proofs.QueryLines
import InvertedIndex.Proofs.HandleRuns
import InvertedIndex.Proofs.PostingsStreams
import InvertedIndex.Proofs.Directories
import InvertedIndex.Proofs.ShardDiscovery
import InvertedIndex.Proofs.DegradedReaders
import InvertedIndex.Proofs.IndexSummaries
