import MyS3.S3Routes
import MyS3.Shares

/-!
The web routes that serve the content of an object: by session, by a personal
access token, and by a share. Each of them authorizes a bucket and a key and looks
for an object of that bucket under that key, and then hands the key to the reader
of the S3 API, which looks it up again in every bucket.
-/

namespace MyS3.ContentRoutes

open Library.Strings Library.Tables
open Models Objects Database Engine Repository Http Keys S3Routes SessionAuth MediaAccess Shares

def parseKey (rawKey : Text) : Except Response Text :=
  match normalizeObjectKey rawKey with
  | .error msg => .error (.failure .badRequest (.message msg))
  | .ok key => .ok key

/-- What a session may read: the bucket that the query names, and the key. -/
def sessionGrant (s : AppState) (accountId : Int) (rawKey : Text) (bucket : Option Text) :
    Except Response (Int × Text) := do
  let key ← parseKey rawKey
  let (bucketId, _) ← resolveBucketId s bucket
  requireBucketPerm s accountId bucketId .read
  return (bucketId, key)

/-- What a personal access token may read. -/
def personalGrant (M : MediaCodec) (s : AppState) (now : Instant) (rawKey : Text)
    (bucket : Option Text) (access : Text) : Except Response (Int × Text) := do
  let key ← parseKey rawKey
  match verifyAccessToken M s.config now access with
  | .error err => .error (.failure .unauthorized (.message err))
  | .ok (.share _ _ _) => failWith .unauthorized "access token is not a personal media grant"
  | .ok (.personal _ bucketId tokKey _) =>
    if tokKey ≠ key then failWith .forbidden "key mismatch"
    else do
      let (resolvedBucketId, _) ← resolveBucketId s bucket
      if resolvedBucketId ≠ bucketId then failWith .forbidden "bucket mismatch"
      else return (bucketId, key)

/-- What the user of a share may read. -/
def shareGrant (M : MediaCodec) (s : AppState) (now : Instant) (share : ShareLinkRecord)
    (auth : Option AccountRecord) (rawKey : Text) (access : Option Text) :
    Except Response (Int × Text) := do
  authorizeShare M s now share auth access
  let key ← parseKey rawKey
  if keyInShareScope share key then return (share.bucketId, key)
  else failWith .forbidden "key outside share scope"

/-- The common end of the routes: the object of the bucket is looked for, and then
the key is read without the bucket. -/
def serveGranted (P : Platform) (q : Limit1 ObjectRecord) (s : AppState) (headers : Headers)
    (missing : Response) : Except Response (Int × Text) → Served
  | .error response => ⟨none, response⟩
  | .ok (bucketId, key) =>
    match getObjectByFilenameInBucket s.db key bucketId with
    | some _ => getObjectKeyedWithHeaders P q s key headers
    | none => ⟨none, missing⟩

def objectNotFound : Response := .failure .notFound (.message "object not found".toList)

def webGetObjectContent (P : Platform) (q : Limit1 ObjectRecord) (s : AppState) (now : Instant)
    (rawKey : Text) (bucket : Option Text) (headers : Headers) : Served :=
  match authAccount s now headers with
  | (.error response, _) => ⟨none, response⟩
  | (.ok account, s) =>
    serveGranted P q s headers noSuchKey (sessionGrant s account.id rawKey bucket)

def mediaContentByAccess (P : Platform) (M : MediaCodec) (q : Limit1 ObjectRecord)
    (s : AppState) (now : Instant) (rawKey : Text) (bucket : Option Text) (access : Text)
    (headers : Headers) : Served :=
  serveGranted P q s headers objectNotFound (personalGrant M s now rawKey bucket access)

def contentForShare (P : Platform) (M : MediaCodec) (q : Limit1 ObjectRecord) (s : AppState)
    (now : Instant) (share : ShareLinkRecord) (auth : Option AccountRecord) (rawKey : Text)
    (access : Option Text) (headers : Headers) : Served :=
  serveGranted P q s headers objectNotFound (shareGrant M s now share auth rawKey access)

def shareContentByToken (P : Platform) (M : MediaCodec) (q : Limit1 ObjectRecord)
    (s : AppState) (now : Instant) (token rawKey : Text) (access : Option Text)
    (headers : Headers) : Served :=
  let (auth, s) := optionalAuth s now headers
  match loadShareByToken s token with
  | .error response => ⟨none, response⟩
  | .ok share => contentForShare P M q s now share auth rawKey access headers

def shareContentByCode (P : Platform) (M : MediaCodec) (q : Limit1 ObjectRecord)
    (s : AppState) (now : Instant) (code rawKey : Text) (access : Option Text)
    (headers : Headers) : Served :=
  let (auth, s) := optionalAuth s now headers
  match loadShareByCode s code with
  | .error response => ⟨none, response⟩
  | .ok share => contentForShare P M q s now share auth rawKey access headers

end MyS3.ContentRoutes
