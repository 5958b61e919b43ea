import Librairii.OperationAccounting
import Librairii.OperationReporting
import Librairii.SavedQueryCodec
import Librairii.SavedQueryRoundTrip
import Librairii.JsonValues
import Librairii.NavigationCodec
import Librairii.NavigationRoundTrip
import Librairii.JsonReader
import Librairii.NavigationHistory
import Librairii.ShelfWarnings
import Librairii.LibraryGate
import Librairii.OperationProjection
import Librairii.ArchiveFormats
import Librairii.AgeFacets
import Librairii.CatalogRows
import Librairii.AgeProjection
import Librairii.CatalogRefresh
import Librairii.AgeOrder
import Librairii.CollectionRows
import Librairii.TagDeletion
import Librairii.StoryPages
import Librairii.CollectionInspection
import Librairii.RuntimeAcceptance
import Librairii.CollectionViews
import Librairii.OperationTransitions
import Librairii.PolicyRefinement
import Librairii.ArchiveInventory
import Librairii.JsonGrammar
import Librairii.StudioScanner
import Librairii.ScannerCorrectness
import Librairii.StudioStrings
import Librairii.ReviewTickets
import Librairii.CompletionOutcomes
import Librairii.ExportPlans
import Librairii.ExportRemoval
import Librairii.DisplayNames
import Librairii.ExportScopes
import Librairii.ExportPreparation
import Librairii.ExportStarts
import Librairii.ControlFiles
import Librairii.ControlStages
import Librairii.ControlReplacement
import Librairii.ProfileStore
import Librairii.ProfileReads
import Librairii.ProfilePublications
import Librairii.ProfileCalls
import Librairii.ProfileSessions
import Librairii.NativeRecords
import Librairii.NativeLibraries
import Librairii.ControlMoves
import Librairii.NativeTransitions
import Librairii.NativeReconciliation
import Librairii.NativeCourses
import Librairii.NativeOperations
import Librairii.NativeMoves
import Librairii.NativeOpenings
import Librairii.NativeRuns
import Librairii.NativeAdmissions
import Librairii.GregorianCalendar
import Librairii.UtcTimestamps
import Librairii.TaggedFields
import Librairii.TemporaryScopes
import Librairii.MoveJournals
import Librairii.JobScheduler
import Librairii.JobDispatch
import Librairii.RowChanges
import Librairii.JobExecutors
import Librairii.JobRows
import Librairii.JobIntake
import Librairii.JobEntries
import Librairii.EntryKeeping
import Librairii.CommandIntake
import Librairii.PreviewWorker
import Librairii.EntryNames
import Librairii.ChunkedReads
import Librairii.PayloadReading
import Librairii.HeaderPreflight
import Librairii.OperationEffects
import Librairii.ExclusionPaths
import Librairii.ReviewPlans
import Librairii.ShelfReviews
import Librairii.HandoverDecoding
import Librairii.PreferenceTransfer
import Librairii.RecentEntries
import Librairii.ThumbnailCache
import Librairii.BrowserHistories
import Librairii.CompletionFolds
import Librairii.NavigationZippers
import Librairii.ProgressSlots
import Librairii.KeyedOccurrences
import Librairii.RuntimeNormalization
import Librairii.ScopeResolution
import Librairii.PreparedPlans
import Librairii.OrderedMerges
import Librairii.UnionCounts
import Librairii.FilterEdits
import Librairii.DescendingWindows
import Librairii.HistoryWindows
import Librairii.CatalogLocales
import Librairii.OperationRetries
import Librairii.PassCounts
import Librairii.SegmentNormalization
import Librairii.StartupRecovery
import Librairii.QueryMeanings
import Librairii.BrokenFlags
import Librairii.AgeBands
