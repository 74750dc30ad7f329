import MyS3.Library.Tables
import MyS3.Library.Runs
import MyS3.Library.KeyValue
import MyS3.Library.Strings
import MyS3.Library.Calendar
import MyS3.Library.Timestamps
import MyS3.Library.Paths
import MyS3.Library.Like
import MyS3.Models
import MyS3.Objects
import MyS3.Database
import MyS3.Engine
import MyS3.Repository
import MyS3.Outbox
import MyS3.Rbac
import MyS3.Http
import MyS3.Keys
import MyS3.S3Routes
import MyS3.Purge
import MyS3.GrpcServer
import MyS3.ReceiveFailure
import MyS3.AntiEntropy
import MyS3.PeerManager
import MyS3.Worker
import MyS3.Versions
import MyS3.UploadFailure
import MyS3.WebChanges
import MyS3.S3Map
import MyS3.SessionAuth
import MyS3.MediaAccess
import MyS3.Shares
import MyS3.ContentRoutes
import MyS3.ContentScope
import MyS3.GrpcClient
import MyS3.BucketNames
import MyS3.Delivery
import MyS3.UploadRuns
import MyS3.Convergence
import MyS3.OutboxRefs
import MyS3.TwoNodes
import MyS3.PurgedObjects
import MyS3.ReceivedPaths
import MyS3.Listings
import MyS3.FolderPrefixes
import MyS3.BucketDeletion
import MyS3.DigestRounds
import MyS3.DeliveryOrder
import MyS3.Library.Interleaving
import MyS3.Library.Calls
import MyS3.Reconcile
import MyS3.Requests
import MyS3.RequestSteps
import MyS3.RequestsAlone
import MyS3.RequestInvariants
import MyS3.PurgeRaces
import MyS3.Blobs
import MyS3.ReconcileRaces
import MyS3.ConcurrentUploads
import MyS3.HardQuota
import MyS3.BlobRuns
import MyS3.Library.Encodings
import MyS3.Library.Fields
import MyS3.AccessTokens
import MyS3.Library.Words
import MyS3.Library.SigV4
import MyS3.AuthSigv4
import MyS3.SignedRequests
import MyS3.Accounts
import MyS3.Bootstrap
import MyS3.SettingsRoutes
import MyS3.LastOwner
import MyS3.Library.Permits
import MyS3.ConnectionPool
import MyS3.WebUploads
import MyS3.Migrations
import MyS3.ReplicationEdits
import MyS3.PurgeTargets
import MyS3.ReadRoutes
import MyS3.Revocation
import MyS3.Delimiters
import MyS3.ShareListings
import MyS3.CoveringShares
import MyS3.Redelivery
import MyS3.ClaimHistory
import MyS3.BucketOwners
import MyS3.Library.Logs
import MyS3.PasswordResets
import MyS3.EtagRuns
import MyS3.EtagResults
import MyS3.EtagStatus
import MyS3.Library.OsPaths
import MyS3.Library.FileTree
import MyS3.Library.FileCalls
import MyS3.Relocate
import MyS3.StorageRoot
import MyS3.LevelTotals
import MyS3.Pages
import MyS3.FolderRenames
import MyS3.BucketReceivers
import MyS3.NodeQuotas
import MyS3.ShareMarkers
import MyS3.KeyForms
import MyS3.RetentionLimits
import MyS3.ShareCreation
import MyS3.AccountRequests
import MyS3.BootstrapFailures
import MyS3.BucketPatches
import MyS3.FailedRequests
import MyS3.Library.StreamHashes
import MyS3.Library.TimestampOrder
import MyS3.ByteRanges
import MyS3.Hasher
import MyS3.UploadOrder
import MyS3.SearchFolders
import MyS3.SearchTotals
import MyS3.ArchiveEntries
import MyS3.PeerEndpoints
import MyS3.Library.FileEffects
import MyS3.Library.RootedTrees
import MyS3.FailedMoves
import MyS3.TreeCopies
import MyS3.NestedCopies
import MyS3.MovedRoots
import MyS3.FolderArchive
import MyS3.QuotaChecks
import MyS3.ObjectsDirectory
import MyS3.EndpointForms
import MyS3.TransferQueue
import MyS3.TransferBuckets
import MyS3.TransferCancels
import MyS3.AccountDeletion
import MyS3.Library.Xml
import MyS3.ListDocument
import MyS3.VideoPreview
import MyS3.PreviewSteps
import MyS3.PreviewSeeks
import MyS3.WebWrites
import MyS3.ConfinedWrites
import MyS3.WriteConfinement
import MyS3.BucketIsolation
import MyS3.AccessRequests
import MyS3.Escalation
import MyS3.ShareRequests
import MyS3.ShareLinks
import MyS3.ShareRights
import MyS3.ShareUse
import MyS3.Library.UriComponents
import MyS3.ShareUrls
import MyS3.RepairRounds
import MyS3.Library.Backoff
import MyS3.JobProgress
import MyS3.Library.VersionedStore
import MyS3.StoreRefinement
import MyS3.CrashRecovery
import MyS3.Library.FormQuery
import MyS3.MediaUrls
import MyS3.MediaLinks
import MyS3.FolderUploads
import MyS3.Library.Lifetimes
import MyS3.SessionLife
import MyS3.StoreReads
