import HelixSync.Server.Accounting
import HelixSync.Server.Allocator
import HelixSync.Server.AuthRequestSafety
import HelixSync.Server.DownloadRace
import HelixSync.Server.ExactlyOnce
import HelixSync.Server.FullHistory
import HelixSync.Server.Isolation
import HelixSync.Server.LiveCount
import HelixSync.Server.VisitHours
import HelixSync.Client.BulkResume
import HelixSync.Client.CatchUp
import HelixSync.Client.CloseWins
import HelixSync.Client.DeviceUpdates
import HelixSync.Client.FieldConvergence
import HelixSync.Client.HistoryScopes
import HelixSync.Client.Liveness
import HelixSync.Client.MicroBatch
import HelixSync.Client.NoLostChange
import HelixSync.Client.Provenance
import HelixSync.Client.SnapshotConsistency
import HelixSync.Client.SnapshotResync
import HelixSync.Client.SyncCounters
import HelixSync.Client.SyncSlot
import HelixSync.Client.UploadCall
import HelixSync.Server.Folding
import HelixSync.Server.CompleteAnswers
import HelixSync.Server.RestorePointCaps
import HelixSync.Server.DeviceCredentialSafety
import HelixSync.Server.RevocationSafety
import HelixSync.Server.PasswordOvertaking
import HelixSync.Client.MappingBijection
import HelixSync.Client.Backfill
import HelixSync.Client.BatchResolution
import HelixSync.Client.KeyText
import HelixSync.Client.RestoreEverything
import HelixSync.Client.BuriedNodes
import HelixSync.Client.StagedTabOps
import HelixSync.Client.TabActivations
import HelixSync.Server.RateLimit
import HelixSync.Server.RestorePointEviction
import HelixSync.Client.HistoryPaging
import HelixSync.Client.HistoryShape
import HelixSync.Client.FieldStateGc
import HelixSync.Client.CachedMoves
import HelixSync.Client.MoveOrder
import HelixSync.Server.RateLimitCounts
import HelixSync.Lib.JsonGrammar
import HelixSync.Server.PayloadDensity
import HelixSync.Client.IndexWalks
import HelixSync.Client.RecoveryCodes
import HelixSync.Server.BatchSplit
import HelixSync.Client.PointCapture
import HelixSync.Client.CapturedPoints
import HelixSync.Client.BookmarkCapture
import HelixSync.Client.InsertPositions
import HelixSync.Client.PositionedNodes
import HelixSync.Client.KeyedLock
import HelixSync.Client.RestorePointOutbox
import HelixSync.Client.PointsAccounted
import HelixSync.Client.EchoGuard
import HelixSync.Client.RestoreResumes
import HelixSync.Client.RestoreUndone
import HelixSync.Client.RestoreJob
import HelixSync.Client.SafetyCopy
import HelixSync.Client.OperationAad
