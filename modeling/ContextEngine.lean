import ContextEngine.Admission.ProjectScope
import ContextEngine.Canonical.StreamedFingerprint
import ContextEngine.Chunking.DocumentChunker
import ContextEngine.Chunking.DocumentEmission
import ContextEngine.Chunking.MergeFixpoint
import ContextEngine.Chunking.MergedMetadata
import ContextEngine.Chunking.Segmentation
import ContextEngine.Chunking.TextSplitter
import ContextEngine.Delta.EntityReconstruction
import ContextEngine.Delta.RecordRoundTrip
import ContextEngine.Document.ContextPaths
import ContextEngine.Document.GroupSearchText
import ContextEngine.Freshness.FreshIds
import ContextEngine.Glob.ComponentMatching
import ContextEngine.Graph.CycleReports
import ContextEngine.Graph.FileClosures
import ContextEngine.HotUpdate.ChangeDetector
import ContextEngine.HotUpdate.MarkerTruth
import ContextEngine.HotUpdate.SharedDebounce
import ContextEngine.HotUpdate.WatchDelivery
import ContextEngine.HotUpdate.WatchReports
import ContextEngine.Index.EntityRemap
import ContextEngine.Index.FileTraces
import ContextEngine.Index.GuardedRemoval
import ContextEngine.Index.LoadedIndex
import ContextEngine.Index.PrepopulateOrder
import ContextEngine.IndexState.DeadLetter
import ContextEngine.Layered.Counters
import ContextEngine.Operation.Exclusion
import ContextEngine.Query.Fusion
import ContextEngine.Query.RelationSearcher
import ContextEngine.Query.RetryRuns
import ContextEngine.Query.ShortestPaths
import ContextEngine.Query.SingleFlight
import ContextEngine.Query.Traversal
import ContextEngine.Runtime.CircuitBreaker
import ContextEngine.Runtime.PublicationRuns
import ContextEngine.Storage.CompactionCopies
import ContextEngine.Storage.EpochChoice
import ContextEngine.Storage.FileMapRuns
import ContextEngine.Storage.FileMaps
import ContextEngine.Storage.KeptSnapshots
import ContextEngine.Storage.PublicationRetries
import ContextEngine.SymbolTable.TypeIncrement
import ContextEngine.Symbols.Bijection
import ContextEngine.TypeInference.IncrementalPropagation
import ContextEngine.Types.SymbolIdentity
import ContextEngine.Vector.FilterOracle
import ContextEngine.Vector.LocalSearch
