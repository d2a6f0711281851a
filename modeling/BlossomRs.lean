import BlossomRs.Lib.Sha256
import BlossomRs.Lib.SpliceDelta
import BlossomRs.Lib.Hex
import BlossomRs.Lib.RustInt
import BlossomRs.Lib.RustStr
import BlossomRs.Lib.Json
import BlossomRs.Lib.Checks
import BlossomRs.Lib.ParentChain
import BlossomRs.Lib.RawFrame
import BlossomRs.Lib.Runs
import BlossomRs.Protocol
import BlossomRs.Auth
import BlossomRs.Auth.Client
import BlossomRs.Auth.Binding
import BlossomRs.Storage
import BlossomRs.Storage.Filesystem
import BlossomRs.Storage.FilesystemRuns
import BlossomRs.Storage.Restart
import BlossomRs.Database
import BlossomRs.Access
import BlossomRs.Access.Identity
import BlossomRs.Access.Roles
import BlossomRs.System.Roles
import BlossomRs.RateLimit
import BlossomRs.Server.ReplayCache
import BlossomRs.Server.Http
import BlossomRs.Server.State
import BlossomRs.Server.Upload
import BlossomRs.Server.Get
import BlossomRs.Server.Accept
import BlossomRs.Server.UploadRuns
import BlossomRs.Server.Presigned
import BlossomRs.Server.TrackedRuns
import BlossomRs.Server.PlainRuns
import BlossomRs.Lfs.Codec
import BlossomRs.Lfs.Version
import BlossomRs.Lfs.Reconstruct
import BlossomRs.Lfs.Pipeline
import BlossomRs.Lfs.Store
import BlossomRs.Lfs.WellStored
import BlossomRs.Lfs.Xdelta3
import BlossomRs.Lfs.Tracked
import BlossomRs.Lfs.SqliteVersions
import BlossomRs.Lfs.VersionAgreement
import BlossomRs.Lfs.Rebase
import BlossomRs.Lfs.StoreAgain
import BlossomRs.Lfs.Plain
import BlossomRs.Server.DirectStore
import BlossomRs.Server.RepeatedStores
import BlossomRs.Lib.Assoc
import BlossomRs.Lib.ReplayWindow
import BlossomRs.Locks
import BlossomRs.Locks.Isolation
import BlossomRs.Locks.Lawful
import BlossomRs.Database.Accounting
import BlossomRs.Database.Ledger
import BlossomRs.Database.Sql
import BlossomRs.Database.SameTables
import BlossomRs.Database.Agreement
import BlossomRs.Database.OwnerRows
import BlossomRs.Server.ReplayInvariants
import BlossomRs.Server.ReplayRefinement
import BlossomRs.Server.AuthRuns
import BlossomRs.Server.Delete
import BlossomRs.Server.Admin
import BlossomRs.Server.Locks
import BlossomRs.Transport.ReplayCache
import BlossomRs.Transport.ReplayInvariants
import BlossomRs.Transport.Wire
import BlossomRs.Transport.Auth
import BlossomRs.Transport.Handlers
import BlossomRs.Transport.Stream
import BlossomRs.Transport.StreamRuns
import BlossomRs.GitServer.PushAuth
import BlossomRs.Relay.Policy
import BlossomRs.System.Sections
import BlossomRs.System.Commits
import BlossomRs.System.Effects
import BlossomRs.System.Consistency
import BlossomRs.System.Ownership
import BlossomRs.System.Quota
import BlossomRs.Server.Stretches
import BlossomRs.System.Revocation
import BlossomRs.System.Failures
import BlossomRs.System.Denied
import BlossomRs.System.UploadPaths
import BlossomRs.System.UploadAgreement
import BlossomRs.Integrity.Manifest
import BlossomRs.System.BodyBinding
import BlossomRs.Server.Removal
import BlossomRs.System.StoredSections
import BlossomRs.System.PhysicalDeletes
import BlossomRs.System.ServedContent
import BlossomRs.System.VersionNumbers
import BlossomRs.Lib.Paging
import BlossomRs.Locks.Postgres
import BlossomRs.Locks.Listings
import BlossomRs.System.LockAgreement
import BlossomRs.Lib.Chunks
import BlossomRs.Transport.Framing
import BlossomRs.Lib.Utf8
import BlossomRs.Lib.LastWrite
import BlossomRs.GitServer.PktLine
import BlossomRs.GitServer.PktStream
import BlossomRs.GitServer.Repository
import BlossomRs.GitServer.Validation
import BlossomRs.GitServer.ReceivePack
import BlossomRs.Lib.Merkle
import BlossomRs.Integrity.SourceFiles
import BlossomRs.Integrity.Merkle
import BlossomRs.Lib.Metered
import BlossomRs.RateLimit.Window
import BlossomRs.Lib.FixedWindow
import BlossomRs.Relay.Events
import BlossomRs.System.Unlocks
import BlossomRs.Locks.Pages
import BlossomRs.System.Heads
import BlossomRs.Lib.Calendar
import BlossomRs.Server.Dates
import BlossomRs.Server.Nip96List
import BlossomRs.Lib.CriticalSections
import BlossomRs.Access.RoleReads
import BlossomRs.System.Interleavings
