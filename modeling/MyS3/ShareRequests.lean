import MyS3.CoveringShares
import MyS3.ShareCreation
import MyS3.ShareListings
import MyS3.Library.Interleaving
import MyS3.Library.Runs

/-!
The requests of `server/share_routes.rs`, all of them at the same time and statement by
statement: a link is made, listed, revoked and used. A visitor's request reads the row of the
link once, and goes on with that copy. Everything else that the node does meanwhile may change
any other table.
-/

namespace MyS3.ShareRequests

open Library.Strings Library.Tables Library.Interleaving Library.Runs Library.Timestamps
open Models Objects Database Engine Repository Rbac Http Keys SessionAuth MediaAccess Listings
open Shares ShareCreation ShareListings ContentRoutes S3Routes CoveringShares

/-- The node: the database with its clock, and the files. -/
structure Shared where
  config : Config
  store : ShareStore
  disk : Disk
  now : Instant

abbrev Shared.links (s : Shared) : List ShareLinkRecord := s.store.db.shareLink

def Shared.app (s : Shared) : AppState := ⟨s.config, s.store.db, s.disk⟩

/-- What the platform and the libraries do. -/
structure Node where
  platform : Platform
  codec : MediaCodec
  limit : Limit1 ObjectRecord
  instant : Text → Int
  order : NewestFirst

def shareUrlPath (share : ShareLinkRecord) : Text :=
  match share.shortCode with
  | some code => "/s/".toList ++ code
  | none => "/share/".toList ++ share.token

structure ShareView where
  id : Int
  token : Text
  shortCode : Option Text
  urlPath : Text
  bucketId : Int
  targetKey : Text
  targetKind : ShareTargetKind
  accessMode : ShareAccessMode
  expiresAt : Option Int
  createdAt : DbTime
  accountIds : List Int
  deriving DecidableEq

def toView (share : ShareLinkRecord) (accountIds : List Int) : ShareView where
  id := share.id
  token := share.token
  shortCode := share.shortCode
  urlPath := shareUrlPath share
  bucketId := share.bucketId
  targetKey := share.targetKey
  targetKind := share.targetKind
  accessMode := share.accessMode
  expiresAt := share.expiresAt
  createdAt := share.createdAt
  accountIds := accountIds

/-- `list_share_recipients`, in the order of the ids. -/
def listShareRecipients (db : Db) (shareId : Int) : List Int :=
  ((db.shareLinkUser.filter fun u => u.shareId == shareId).map (·.accountId)).insertionSort (· ≤ ·)

structure CreateShareBody where
  bucket : Option Text
  key : Text
  kind : ShareTargetKind
  accessMode : ShareAccessMode
  accountIds : List Int
  expiresAt : Option Int
  shorten : Bool

/-- The statement that `create_share` executes next. -/
inductive CreateStage
  | resolve
  | perm (bucketId : Int)
  | target (req : NewShare)
  | link (req : NewShare) (attempt : Nat)
  | recipients (req : NewShare) (id : Int) (accountIds : List Int)
  | reload (id : Int)
  | listRecipients (share : ShareLinkRecord)
  | created (view : ShareView)
  | refused (response : Response)

def targetKeyOf (body : CreateShareBody) : Except Text Text :=
  match body.kind with
  | .file => normalizeObjectKey body.key
  | .folder => normalizeFolderPrefix body.key

/-- What is checked between the permission and the first statement of `shares::create_share`. -/
def CreateShareBody.check (body : CreateShareBody) (now : Instant) (actor bucketId : Int) :
    CreateStage :=
  match targetKeyOf body with
  | .error msg => .refused (.failure .badRequest (.message msg))
  | .ok key =>
    if body.expiresAt.any (· ≤ now.nanos) then
      .refused (.failure .badRequest (.message "expires_at must be in the future".toList))
    else
      .target {
        bucketId := bucketId
        targetKey := key
        targetKind := body.kind
        accessMode := body.accessMode
        expiresAt := body.expiresAt
        createdByAccountId := actor
        accountIds := body.accountIds
        shorten := body.shorten }

/-- The answer to an error of `shares::create_share`, chosen by words of its message. -/
def creationFailure (err : ShareError) : Response :=
  match err with
  | .objectNotFound => .failure .notFound (message err)
  | .folderNotFound => .failure .notFound (message err)
  | .noRecipients => .failure .badRequest (message err)
  | _ => .failure .internalServerError (message err)
where message (err : ShareError) : ErrorBody := (err.message.map ErrorBody.message).getD .database

/-- The recipients that are left, or the reload. -/
def afterRecipients (req : NewShare) (id : Int) : List Int → CreateStage
  | [] => .reload id
  | accountIds => .recipients req id accountIds

def callCreate (s : Shared) (actor : Int) (body : CreateShareBody) (rng : ShareRandom) :
    CreateStage → Shared × CreateStage
  | .resolve =>
    match resolveBucketId s.app body.bucket with
    | .error response => (s, .refused response)
    | .ok (bucketId, _) => (s, .perm bucketId)
  | .perm bucketId =>
    match requireBucketPerm s.app actor bucketId .read with
    | .error response => (s, .refused response)
    | .ok () => (s, body.check s.now actor bucketId)
  | .target req =>
    match targetError s.store.db req with
    | some err => (s, .refused (creationFailure err))
    | none =>
      if req.accessMode = .specificUsers ∧ req.accountIds = [] then
        (s, .refused (creationFailure .noRecipients))
      else (s, .link req 0)
  | .link req attempt =>
    match insertShareLink s.store s.now req (tokenAt rng attempt) (shortCodeAt rng req attempt) with
    | .ok store =>
      ({ s with store := store }, afterRecipients req s.store.nextId (recipientsOf req))
    | .error .unique =>
      if attempt + 1 < 8 then (s, .link req (attempt + 1))
      else (s, .refused (creationFailure .exhausted))
    | .error err => (s, .refused (creationFailure err))
  | .recipients req id accountIds =>
    match accountIds with
    | [] => (s, .reload id)
    | accountId :: rest =>
      match insertShareLinkUser s.store id accountId with
      | .error err => (s, .refused (creationFailure err))
      | .ok store => ({ s with store := store }, afterRecipients req id rest)
  | .reload id =>
    match getShareById s.store.db id with
    | none => (s, .refused (creationFailure .missing))
    | some share => (s, .listRecipients share)
  | .listRecipients share => (s, .created (toView share (listShareRecipients s.store.db share.id)))
  | .created view => (s, .created view)
  | .refused response => (s, .refused response)

/-- What a failing statement leads to. -/
def CreateStage.onFailure : CreateStage → CreateStage
  -- The recipients of the answer are then empty.
  | .listRecipients share => .created (toView share [])
  | _ => .refused databaseError

def CreateStage.isOver : CreateStage → Bool
  | .created _ => true
  | .refused _ => true
  | _ => false

structure ListSharesQuery where
  bucket : Option Text
  key : Text

/-- The statement that `list_shares` executes next. -/
inductive ListStage
  | resolve
  | perm (bucketId : Int)
  | select (bucketId : Int) (key : Text)
  /-- The recipients of the first link of those that are left. -/
  | recipients (share : ShareLinkRecord) (rest : List ShareLinkRecord) (out : List ShareView)
  | listed (views : List ShareView)
  | refused (response : Response)

def listSharesForTarget (order : NewestFirst) (db : Db) (bucketId : Int) (key : Text)
    (createdBy : Int) : List ShareLinkRecord :=
  order.sort (db.shareLink.filter fun share => share.bucketId == bucketId &&
    share.targetKey == key && share.createdByAccountId == createdBy && share.revokedAt.isNone)

/-- The next link that is usable; the others are passed over. -/
def nextUsable (now : Instant) (out : List ShareView) : List ShareLinkRecord → ListStage
  | [] => .listed out
  | share :: rest =>
    if (shareIsUsable share now).isOk then .recipients share rest out else nextUsable now out rest

def callList (node : Node) (s : Shared) (actor : Int) (q : ListSharesQuery) : ListStage → ListStage
  | .resolve =>
    match resolveBucketId s.app q.bucket with
    | .error response => .refused response
    | .ok (bucketId, _) => .perm bucketId
  | .perm bucketId =>
    match requireBucketPerm s.app actor bucketId .read with
    | .error response => .refused response
    | .ok () =>
      let key := trimStartMatches (· == '/') (trim q.key)
      if key = [] then .refused (.failure .badRequest (.message "key is required".toList))
      else .select bucketId key
  | .select bucketId key =>
    nextUsable s.now [] (listSharesForTarget node.order s.store.db bucketId key actor)
  | .recipients share rest out =>
    nextUsable s.now (out ++ [toView share (listShareRecipients s.store.db share.id)]) rest
  | .listed views => .listed views
  | .refused response => .refused response

def ListStage.onFailure (now : Instant) : ListStage → ListStage
  | .recipients share rest out => nextUsable now (out ++ [toView share []]) rest
  | _ => .refused databaseError

def ListStage.isOver : ListStage → Bool
  | .listed _ => true
  | .refused _ => true
  | _ => false

/-- The statement that `revoke_share` executes next. -/
inductive RevokeStage
  | isOwner
  | get (owner : Bool)
  | perm (owner : Bool) (bucketId : Int)
  | again (owner : Bool)
  | update
  | answered (response : Response)

/-- The row of a link after `revoke_share`. -/
def revokeRow (id : Int) (now : Instant) (share : ShareLinkRecord) : ShareLinkRecord :=
  if share.id = id ∧ share.revokedAt = none then
    { share with revokedAt := some (now.currentTimestamp.secs * nanosPerSec) }
  else share

theorem revokeRow_id (id : Int) (now : Instant) (share : ShareLinkRecord) :
    (revokeRow id now share).id = share.id := by
  unfold revokeRow
  split_ifs <;> rfl

theorem revokeRow_lt (s : ShareStore) (id : Int) (now : Instant) :
    ∀ share ∈ s.db.shareLink.map (revokeRow id now), share.id < s.nextId := by
  intro share hshare
  obtain ⟨row, hrow, rfl⟩ := List.mem_map.mp hshare
  rw [revokeRow_id]
  exact s.link_lt row hrow

def revokeLink (s : ShareStore) (id : Int) (now : Instant) : ShareStore where
  db := { s.db with shareLink := s.db.shareLink.map (revokeRow id now) }
  nextId := s.nextId
  link_lt := revokeRow_lt s id now
  user_lt := s.user_lt

def callRevoke (s : Shared) (actor id : Int) : RevokeStage → Shared × RevokeStage
  | .isOwner => (s, .get (accountIsOwner s.store.db actor))
  | .get owner =>
    match getShareById s.store.db id with
    | none => (s, .answered (.failure .notFound (.message "share not found".toList)))
    | some share => (s, if owner then .again owner else .perm owner share.bucketId)
  | .perm owner bucketId =>
    match requireBucketPerm s.app actor bucketId .read with
    | .error response => (s, .answered response)
    | .ok () => (s, .again owner)
  | .again owner =>
    match getShareById s.store.db id with
    | none => (s, .answered (.failure .notFound (.message "share not found".toList)))
    | some share =>
      if share.revokedAt.isSome then (s, .answered .noContent)
      else if owner = false ∧ share.createdByAccountId ≠ actor then
        (s, .answered (.failure .forbidden (.message "not allowed to revoke this share".toList)))
      else (s, .update)
  | .update => ({ s with store := revokeLink s.store id s.now }, .answered .noContent)
  | .answered response => (s, .answered response)

/-- What a visitor's URL says of the link. -/
inductive ShareName
  | token (token : Text)
  | code (code : Text)
  deriving DecidableEq

def ShareName.load (db : Db) : ShareName → Option ShareLinkRecord
  | .token t => getShareByToken db t
  | .code c => getShareByShortCode db c

inductive ShareQuery
  | info
  | list (pre : Text)
  | content (rawKey : Text) (headers : Headers)

/-- A request to a link, once its session has been looked up. -/
structure Visit where
  name : ShareName
  auth : Option AccountRecord
  access : Option Text
  query : ShareQuery

structure ShareMeta where
  targetKind : ShareTargetKind
  targetKey : Text
  displayName : Text
  accessMode : ShareAccessMode
  expiresAt : Option Int
  loginRequired : Bool
  bucketName : Option Text
  filesizeBytes : Option Int
  contentTypeHint : Option Text
  deriving DecidableEq

/-- What follows the last slash. -/
def baseName (key : Text) : Text := ((split '/' key).getLast?).getD key

def displayNameFor (share : ShareLinkRecord) : Text :=
  match share.targetKind with
  | .file => baseName share.targetKey
  | .folder => baseName (trimEndMatches (· == '/') share.targetKey)

inductive VisitAnswer
  | refused (response : Response)
  /-- 401 with what the page shows before the login. -/
  | loginRequired (displayName : Text) (kind : ShareTargetKind) (mode : ShareAccessMode)
  | info (body : ShareMeta)
  /-- A listing of `none` is a panic. -/
  | listing (result : Option PrefixListResult)
  | content (served : Served)

/-- A query of `authorize_share`. -/
inductive LinkCheck
  | reader (accountId : Int)
  | recipient (accountId : Int)

/-- `authorize_share` up to its query; without a query the share may be used. -/
def authorizeFirst (M : MediaCodec) (s : AppState) (now : Instant) (share : ShareLinkRecord)
    (auth : Option AccountRecord) (access : Option Text) : Except Response (Option LinkCheck) :=
  match shareIsUsable share now with
  | .error _ => failWith .gone "share is no longer available"
  | .ok () =>
    if share.accessMode = .publicAccess then .ok none
    else if accessTokenGrantsShare M s now share access then .ok none
    else
      match auth with
      | none => failWith .unauthorized "authentication required"
      | some account =>
        .ok (some (if share.accessMode = .bucketReaders then .reader account.id
          else .recipient account.id))

def LinkCheck.answer (db : Db) (share : ShareLinkRecord) : LinkCheck → Except Response Unit
  | .reader accountId =>
    if checkPerm db accountId share.bucketId .read then .ok ()
    else failWith .forbidden "insufficient permissions"
  | .recipient accountId =>
    if shareAllowsAccount db share.id accountId then .ok ()
    else failWith .forbidden "not on share recipient list"

/-- The two parts on one database are `authorize_share`. -/
theorem authorizeShare_eq (M : MediaCodec) (s : AppState) (now : Instant) (share : ShareLinkRecord)
    (auth : Option AccountRecord) (access : Option Text) :
    authorizeShare M s now share auth access =
      authorizeFirst M s now share auth access >>= fun check =>
        match check with
        | none => .ok ()
        | some check => check.answer s.db share := by
  unfold authorizeShare authorizeFirst
  cases husable : shareIsUsable share now with
  | error reason => rfl
  | ok u =>
    cases hmode : share.accessMode with
    | publicAccess => rfl
    | bucketReaders =>
      cases hgrants : accessTokenGrantsShare M s now share access with
      | true => rfl
      | false => cases auth <;> rfl
    | specificUsers =>
      cases hgrants : accessTokenGrantsShare M s now share access with
      | true => rfl
      | false => cases auth <;> rfl

/-- The statement that a visitor's request executes next, once the link is loaded. -/
inductive VisitStage
  | authorize (check : LinkCheck)
  | bucketName
  | objectInfo (name : Option Text)
  | list (pre : Text)
  | lookUp (key : Text) (headers : Headers)
  | serve (key : Text) (headers : Headers)
  | answered (answer : VisitAnswer)

def VisitStage.refuse (status : Status) (message : String) : VisitStage :=
  .answered (.refused (.failure status (.message message.toList)))

/-- What follows the authorization, up to the next statement. -/
def Visit.granted (v : Visit) (share : ShareLinkRecord) : VisitStage :=
  match v.query with
  | .info => .bucketName
  | .list pre =>
    if share.targetKind ≠ .folder then .refuse .badRequest "share is not a folder"
    else
      match listPrefix share pre with
      | .error msg => .answered (.refused (.failure .badRequest (.message msg)))
      | .ok p => .list p
  | .content rawKey headers =>
    match parseKey rawKey with
    | .error response => .answered (.refused response)
    | .ok key =>
      if keyInShareScope share key then .lookUp key headers
      else .refuse .forbidden "key outside share scope"

/-- Whether the metadata of a link are withheld until the visitor signs in. -/
def Visit.isProbe (M : MediaCodec) (s : Shared) (v : Visit) (share : ShareLinkRecord) : Bool :=
  match v.query with
  | .info => share.accessMode != .publicAccess && v.auth.isNone &&
      !accessTokenGrantsShare M s.app s.now share v.access
  | _ => false

/-- What follows the load of the link, up to the next statement. -/
def Visit.loaded (M : MediaCodec) (s : Shared) (v : Visit) (share : ShareLinkRecord) : VisitStage :=
  if v.isProbe M s share then
    match shareIsUsable share s.now with
    | .error _ => .refuse .gone "share is no longer available"
    | .ok () =>
      .answered (.loginRequired (displayNameFor share) share.targetKind share.accessMode)
  else
    match authorizeFirst M s.app s.now share v.auth v.access with
    | .error response => .answered (.refused response)
    | .ok none => v.granted share
    | .ok (some check) => .authorize check

def shareMeta (share : ShareLinkRecord) (bucketName : Option Text) (object : Option ObjectRecord) :
    ShareMeta where
  targetKind := share.targetKind
  targetKey := share.targetKey
  displayName := displayNameFor share
  accessMode := share.accessMode
  expiresAt := share.expiresAt
  loginRequired := share.accessMode != .publicAccess
  bucketName := bucketName
  filesizeBytes := object.map (·.filesizeBytes)
  contentTypeHint := (object.map (·.fileFormat)).filter (· ≠ [])

/-- The object is looked up for a file only. -/
def afterBucketName (share : ShareLinkRecord) (name : Option Text) : VisitStage :=
  if share.targetKind = .file then .objectInfo name
  else .answered (.info (shareMeta share name none))

def callVisit (node : Node) (s : Shared) (v : Visit) (share : ShareLinkRecord) :
    VisitStage → VisitStage
  | .authorize check =>
    match check.answer s.store.db share with
    | .error response => .answered (.refused response)
    | .ok () => v.granted share
  | .bucketName => afterBucketName share ((getBucketById s.store.db share.bucketId).map (·.name))
  | .objectInfo name =>
    .answered (.info (shareMeta share name
      (getObjectByFilenameInBucket s.store.db share.targetKey share.bucketId)))
  | .list pre =>
    .answered (.listing ((listObjectsWithPrefix node.platform node.instant s.store.db pre ['/'] none
      (some share.bucketId) 0 0).map hideMarkers))
  | .lookUp key headers =>
    match getObjectByFilenameInBucket s.store.db key share.bucketId with
    | some _ => .serve key headers
    | none => .answered (.refused objectNotFound)
  | .serve key headers =>
    .answered (.content (getObjectKeyedWithHeaders node.platform node.limit s.app key headers))
  | .answered answer => .answered answer

def VisitStage.onFailure (share : ShareLinkRecord) : VisitStage → VisitStage
  | .bucketName => afterBucketName share none
  | .objectInfo name => .answered (.info (shareMeta share name none))
  | _ => .answered (.refused databaseError)

inductive Task
  | create (actor : Int) (body : CreateShareBody) (rng : ShareRandom) (stage : CreateStage)
  | list (actor : Int) (q : ListSharesQuery) (stage : ListStage)
  | revoke (actor id : Int) (stage : RevokeStage)
  /-- A visitor whose link is not loaded yet. -/
  | visit (v : Visit)
  | missed (response : Response)
  | loaded (v : Visit) (share : ShareLinkRecord) (stage : VisitStage)
  | dropped

/-- The next statement of a request, or its failure; `none` when the request is over. -/
def serve (node : Node) (fails : Bool) (s : Shared) : Task → Option (Shared × Task)
  | .create actor body rng stage =>
    if stage.isOver then none
    else if fails then some (s, .create actor body rng stage.onFailure)
    else some (Prod.map id (Task.create actor body rng) (callCreate s actor body rng stage))
  | .list actor q stage =>
    if stage.isOver then none
    else if fails then some (s, .list actor q (stage.onFailure s.now))
    else some (s, .list actor q (callList node s actor q stage))
  | .revoke _ _ (.answered _) => none
  | .revoke actor id stage =>
    if fails then some (s, .revoke actor id (.answered databaseError))
    else some (Prod.map (fun s => s) (Task.revoke actor id) (callRevoke s actor id stage))
  | .visit v =>
    if fails then some (s, .missed databaseError)
    else
      match v.name.load s.store.db with
      | none => some (s, .missed (.failure .notFound (.message "share not found".toList)))
      | some share => some (s, .loaded v share (v.loaded node.codec s share))
  | .missed _ => none
  | .loaded _ _ (.answered _) => none
  | .loaded v share stage =>
    if fails then some (s, .loaded v share (stage.onFailure share))
    else some (s, .loaded v share (callVisit node s v share stage))
  | .dropped => none

inductive Action
  | create (actor : Int) (body : CreateShareBody) (rng : ShareRandom)
  | list (actor : Int) (q : ListSharesQuery)
  | revoke (actor id : Int)
  | visit (v : Visit)
  | advance (i : Nat) (fails : Bool)
  /-- The client goes away. -/
  | drop (i : Nat)
  /-- Time passes. -/
  | tick (now : Instant)
  /-- Everything but the links and their recipients becomes as it is in another database. -/
  | others (db : Db) (disk : Disk)

abbrev State := Pool Shared Task

/-- The tables of links, with everything else as in another database. -/
def withOthers (s : ShareStore) (db : Db) : ShareStore where
  db := { db with shareLink := s.db.shareLink, shareLinkUser := s.db.shareLinkUser }
  nextId := s.nextId
  link_lt := s.link_lt
  user_lt := s.user_lt

def step (node : Node) (p : State) : Action → Option State
  | .create actor body rng => some (p.spawn (.create actor body rng .resolve))
  | .list actor q => some (p.spawn (.list actor q .resolve))
  | .revoke actor id => some (p.spawn (.revoke actor id .isOwner))
  | .visit v => some (p.spawn (.visit v))
  | .advance i fails => p.turn (serve node fails) i
  | .drop i => (p.tasks[i]?).map fun _ => p.replace i p.shared .dropped
  | .tick now =>
    if p.shared.now.nanos ≤ now.nanos then some { p with shared := { p.shared with now := now } }
    else none
  | .others db disk =>
    some { p with shared := { p.shared with store := withOthers p.shared.store db, disk := disk } }

end MyS3.ShareRequests
