import MyS3.Library.Timestamps

/-!
Records of the metadata database, as `db/models.rs` declares them. Integers of
the source are 64-bit and signed; row ids and sizes stay far inside the range,
and the arithmetic that can leave it saturates. Instants are nanoseconds since
1970 in UTC, and the database clock is their whole second.
-/

namespace MyS3.Models

open Library.Strings Library.Timestamps

/-- Hash algorithms of an ETag. -/
inductive EtagType
  | md5
  | sha256
  | sha512
  | blake2_128
  | blake2_256
  | blake3_128
  | blake3_256
  deriving DecidableEq, Repr

namespace EtagType

def display : EtagType → Text
  | .md5 => "md5".toList
  | .sha256 => "sha256".toList
  | .sha512 => "sha512".toList
  | .blake2_128 => "blake2-128".toList
  | .blake2_256 => "blake2-256".toList
  | .blake3_128 => "blake3-128".toList
  | .blake3_256 => "blake3-256".toList

def all : List EtagType :=
  [.md5, .sha256, .sha512, .blake2_128, .blake2_256, .blake3_128, .blake3_256]

def fromStr (t : Text) : Option EtagType := all.find? fun e => e.display == t

theorem fromStr_display (e : EtagType) : fromStr e.display = some e := by
  cases e <;> decide

end EtagType

/-- An instant that the system clock shows, within the years 0 to 9999 that the
database can write as text. -/
structure Instant where
  nanos : Int
  lower : minSecs * nanosPerSec ≤ nanos
  upper : nanos < maxSecs * nanosPerSec
  deriving DecidableEq

def Instant.ofSecs (secs : Int) (hmin : minSecs ≤ secs) (hmax : secs < maxSecs) : Instant where
  nanos := secs * nanosPerSec
  lower := by
    unfold nanosPerSec
    omega
  upper := by
    unfold nanosPerSec
    omega

def Instant.epoch : Instant := Instant.ofSecs 0 (by decide) (by decide)

/-- A whole second of the database clock. -/
structure DbTime where
  secs : Int
  lower : minSecs ≤ secs
  upper : secs < maxSecs
  deriving DecidableEq

def Instant.currentTimestamp (now : Instant) : DbTime where
  secs := now.nanos / nanosPerSec
  lower := by
    have h := now.lower
    unfold nanosPerSec at *
    omega
  upper := by
    have h := now.upper
    unfold nanosPerSec at *
    omega

def DbTime.text (t : DbTime) : Text := Library.Timestamps.currentTimestamp t.secs

structure ObjectRecord where
  id : Int
  originalFilename : Text
  filepath : Text
  fileFormat : Text
  filesizeBytes : Int
  etagType : EtagType
  etag : Text
  /-- Text of the column; a peer may have supplied it. -/
  dateUploaded : Text
  dateModified : Text
  bucketId : Int
  deletedAt : Option DbTime
  deriving DecidableEq

structure BucketRecord where
  id : Int
  name : Text
  ownerAccountId : Option Int
  replicateToAll : Bool
  etagType : EtagType
  etagRehashStatus : Option Text := none
  etagRehashProcessed : Int := 0
  etagRehashTotal : Int := 0
  etagRehashError : Option Text := none
  deriving DecidableEq

structure ClusterPeer where
  id : Text
  wireguardEndpoint : Text
  isActive : Bool
  deriving DecidableEq

inductive QuotaMode
  | soft
  | hard
  deriving DecidableEq, Repr

structure BucketNodeAssignment where
  bucketId : Int
  peerId : Text
  allocatedBytes : Int
  quotaMode : QuotaMode
  deriving DecidableEq

inductive OutboxOperation
  | put
  | delete
  deriving DecidableEq, Repr

inductive OutboxStatus
  | pending
  | inFlight
  | completed
  | failed
  deriving DecidableEq, Repr

/-- A row of `replication_outbox`. -/
structure OutboxRow where
  id : Int
  peerId : Text
  objectId : Option Int
  filepathUuid : Option Text
  etag : Option Text
  operation : OutboxOperation
  status : OutboxStatus
  attemptCount : Int
  nextRetryUtc : Int
  deriving DecidableEq

/-- A claimed job: the outbox row joined with its peer, object and bucket. -/
structure OutboxJob where
  id : Int
  peerId : Text
  objectId : Option Int
  filepathUuid : Option Text
  etag : Option Text
  operation : OutboxOperation
  attemptCount : Int
  wireguardEndpoint : Text
  originalFilename : Option Text
  filepath : Option Text
  fileFormat : Option Text
  filesizeBytes : Option Int
  etagType : Option EtagType
  objectEtag : Option Text
  dateUploaded : Option Text
  dateModified : Option Text
  bucketName : Option Text
  deriving DecidableEq

inductive RetentionUnit
  | second
  | minute
  | hour
  | day
  | month
  | year
  | decade
  deriving DecidableEq, Repr

/-- Seconds of one unit; a month is 30 days, a year 365, a decade 3650. -/
def RetentionUnit.unitSecs : RetentionUnit → Int
  | .second => 1
  | .minute => 60
  | .hour => 3600
  | .day => 86400
  | .month => 30 * 86400
  | .year => 365 * 86400
  | .decade => 3650 * 86400

def RetentionUnit.toSeconds (u : RetentionUnit) (value : Int) : Int :=
  saturate (value * u.unitSecs)

structure AppSettings where
  recycleRetentionValue : Int
  recycleRetentionUnit : RetentionUnit
  deriving DecidableEq

structure AccountRecord where
  id : Int
  usernameHex : Text
  passwordHash : Text
  displayName : Text
  isDisabled : Bool
  createdByAccountId : Option Int
  deriving DecidableEq

structure RoleRecord where
  id : Int
  name : Text
  position : Int
  isOwner : Bool
  deriving DecidableEq

structure CrudPerms where
  canCreate : Bool
  canRead : Bool
  canUpdate : Bool
  canDelete : Bool
  deriving DecidableEq

namespace CrudPerms

def full : CrudPerms := ⟨true, true, true, true⟩

def none : CrudPerms := ⟨false, false, false, false⟩

def or (p q : CrudPerms) : CrudPerms :=
  ⟨p.canCreate || q.canCreate, p.canRead || q.canRead, p.canUpdate || q.canUpdate,
    p.canDelete || q.canDelete⟩

end CrudPerms

inductive CrudAction
  | create
  | read
  | update
  | delete
  deriving DecidableEq, Repr

def CrudPerms.allows (p : CrudPerms) : CrudAction → Bool
  | .create => p.canCreate
  | .read => p.canRead
  | .update => p.canUpdate
  | .delete => p.canDelete

structure RoleBucketPermission where
  roleId : Int
  bucketId : Int
  perms : CrudPerms
  deriving DecidableEq

structure AccountRole where
  accountId : Int
  roleId : Int
  deriving DecidableEq

structure SessionRow where
  token : Text
  accountId : Int
  expiresUtc : Int
  deriving DecidableEq

inductive ShareTargetKind
  | file
  | folder
  deriving DecidableEq, Repr

inductive ShareAccessMode
  | specificUsers
  | bucketReaders
  | publicAccess
  deriving DecidableEq, Repr

structure ShareLinkRecord where
  id : Int
  token : Text
  shortCode : Option Text
  bucketId : Int
  targetKey : Text
  targetKind : ShareTargetKind
  accessMode : ShareAccessMode
  expiresAt : Option Int
  createdByAccountId : Int
  revokedAt : Option Int
  createdAt : DbTime := Instant.epoch.currentTimestamp
  deriving DecidableEq

structure ShareLinkUser where
  shareId : Int
  accountId : Int
  deriving DecidableEq

end MyS3.Models
