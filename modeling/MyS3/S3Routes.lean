import MyS3.Http
import MyS3.Keys
import MyS3.Outbox

/-!
The S3 routes and the handlers they share with the web API. An upload writes its
blob, recycles the active row of the key on one connection, and inserts the new
row and its outbox jobs in a transaction on another; each step may fail, and what
the failure leaves is part of the result.
-/

namespace MyS3.S3Routes

open Library.Strings Library.Tables Library.Paths
open Models Objects Database Engine Repository Outbox Http Keys

def resolveEtagType (headers : Headers) (default : EtagType) : EtagType :=
  let header := (headers.get "x-amz-meta-etag-type".toList).orElse fun _ =>
    headers.get "x-etag-type".toList
  (header.bind fun value => value.bind EtagType.fromStr).getD default

/-- The calls of an upload that fail. A failed soft delete is its query or its
update; the flag for a removed file is among those of the blob store. -/
structure PutFaults where
  defaultBucketId : Bool := false
  bucketEtagType : Bool := false
  io : IoFaults := {}
  beginTx : Bool := false
  previousSize : Bool := false
  hardQuota : Bool := false
  softDelete : Bool := false
  insert : Bool := false
  enqueue : Bool := false
  commit : Bool := false
  deriving DecidableEq

/-- Size of the active version that the upload replaces. -/
def previousSize (db : Db) (key : Text) (bucketId : Int) : Int :=
  (getObjectByFilenameInBucket db key bucketId).elim 0 (·.filesizeBytes)

/-- The answer to a refused quota check; a failed query inside it is no refusal. -/
def quotaResponse (db : Db) (bucketId netGrowth : Int) (fails : Bool) : Option Response :=
  if fails then some databaseError
  else
    match checkHardQuota db bucketId netGrowth with
    | .ok () => none
    | .error .query => some databaseError
    | .error err => some (.failure .payloadTooLarge (.quota err))

/-- The database steps of an upload, with the database that an error leaves. -/
def registerObject (s : AppState) (now : Instant) (key : Text) (bucketId : Int)
    (stored : StoredObject) (faults : PutFaults) : Option Response × Db :=
  if faults.beginTx then (some databaseError, s.db)
  else if faults.previousSize then (some databaseError, s.db)
  else
    let netGrowth := saturate (stored.filesizeBytes - previousSize s.db key bucketId)
    match quotaResponse s.db bucketId netGrowth faults.hardQuota with
    | some refusal => (some refusal, s.db)
    | none =>
      if faults.softDelete then (some databaseError, s.db)
      else
        -- Committed on its own connection: no later rollback undoes it.
        let recycled :=
          (softDeleteObjectByFilename Limit1.first s.db now key (some bucketId)).2
        match query faults.insert (insertObjectTx recycled now key stored.filepath
            stored.fileFormat stored.filesizeBytes stored.etagType stored.etag bucketId) with
        | none => (some databaseError, recycled)
        | some (objId, inserted) =>
          if faults.enqueue then (some databaseError, recycled)
          else if faults.commit then (some databaseError, recycled)
          else (none, enqueuePutForActivePeers inserted now objId stored.filepath stored.etag
            s.config.nodeId)

def uploadBucket (db : Db) (bucketId : Option Int) (fails : Bool) : Option Int :=
  bucketId.orElse fun _ => query fails (defaultBucketId db)

/-- Every error after the blob is written removes it again. -/
def putObjectKeyedInBucket (P : Platform) (s : AppState) (now : Instant) (uuid : Uuid)
    (key : Text) (headers : Headers) (body : List (Option Bytes)) (bucketId : Option Int)
    (faults : PutFaults) : Response × AppState :=
  match uploadBucket s.db bucketId faults.defaultBucketId with
  | none => (databaseError, s)
  | some bucketId =>
    match query faults.bucketEtagType (bucketEtagType s.db bucketId) with
    | none => (databaseError, s)
    | some bucketDefault =>
      let etagType := resolveEtagType headers bucketDefault
      match putChunks P s.config.storageRoot s.disk body key etagType none (.fresh uuid)
          faults.io with
      | (.error err, disk) =>
        (.failure .internalServerError (.engine err), { s with disk := disk })
      | (.ok stored, disk) =>
        match registerObject s now key bucketId stored faults with
        | (some failure, db) =>
          (failure, { s with
            db := db
            disk := unlink s.config.storageRoot disk stored.filepath faults.io.unlink })
        | (none, db) =>
          (.stored (etagHeaders stored.etag stored.etagType), { s with db := db, disk := disk })

def putObject (P : Platform) (s : AppState) (now : Instant) (uuid : Uuid) (rawKey : Text)
    (headers : Headers) (body : List (Option Bytes)) (faults : PutFaults) :
    Response × AppState :=
  match normalizeObjectKey rawKey with
  | .error msg => (.failure .badRequest (.message msg), s)
  | .ok key => putObjectKeyedInBucket P s now uuid key headers body none faults

/-- A single range of `Range: bytes=…`, as its first and last byte. -/
def parseBytesRange (rangeVal : Text) (fileLen : Nat) : Option (Nat × Nat) :=
  (stripPrefix "bytes=".toList (trim rangeVal)).bind fun rest =>
    let unit := trim ((split ',' (trim rest)).headD [])
    if fileLen = 0 then none
    else
      match stripPrefix ['-'] unit with
      | some suffix =>
        (parseU64 suffix).bind fun n =>
          if n = 0 then none else some (fileLen - min n fileLen, fileLen - 1)
      | none =>
        (splitOnce '-' unit).bind fun parts =>
          (parseU64 parts.1).bind fun start =>
            if fileLen ≤ start then none
            else
              let last :=
                if parts.2 = [] then some (fileLen - 1)
                else (parseU64 parts.2).map fun n => min n (fileLen - 1)
              last.bind fun last => if last < start then none else some (start, last)

/-- Answer a read from an object row. -/
def serveRecord (P : Platform) (s : AppState) (record : ObjectRecord) (headers : Headers) :
    Response :=
  let fileLen := record.filesizeBytes.toNat
  let rangeHdr := (headers.get "range".toList).bind id
  let range := rangeHdr.bind fun r => parseBytesRange r fileLen
  if rangeHdr.isSome && range.isNone && decide (0 < fileLen) then .unsatisfiable fileLen
  else
    match openRead s.config.storageRoot s.disk record.filepath with
    | none => .failure .internalServerError .io
    | some data =>
      let contentHeaders (len : Nat) (range : Option (Nat × Nat × Nat)) : ContentHeaders :=
        { etag := etagHeaders record.etag record.etagType
          contentType := headerValue (P.mimeFromPath record.originalFilename)
            "application/octet-stream".toList
          contentLength := len
          contentRange := range }
      match range with
      | some (start, last) =>
        .content .partialContent
          (contentHeaders (last - start + 1) (some (start, last, fileLen)))
          ((data.drop start).take (last - start + 1))
      | none => .content .ok (contentHeaders fileLen none) data

/-- A read answer, beside the row that it is made from. -/
structure Served where
  row : Option ObjectRecord
  response : Response
  deriving DecidableEq

def noSuchKey : Response :=
  .failure .notFound (.message "The specified key does not exist.".toList)

/-- The row is looked up by its key alone. -/
def getObjectKeyedWithHeaders (P : Platform) (q : Limit1 ObjectRecord) (s : AppState)
    (key : Text) (headers : Headers) : Served :=
  match getObjectByFilename q s.db key with
  | none => ⟨none, noSuchKey⟩
  | some record => ⟨some record, serveRecord P s record headers⟩

def getObject (P : Platform) (q : Limit1 ObjectRecord) (s : AppState) (rawKey : Text) : Served :=
  match normalizeObjectKey rawKey with
  | .error msg => ⟨none, .failure .badRequest (.message msg)⟩
  | .ok key => getObjectKeyedWithHeaders P q s key []

/-- A missing key is answered like a deleted one. -/
def deleteObjectKeyedInBucket (q : Limit1 ObjectRecord) (s : AppState) (now : Instant)
    (key : Text) (bucketId : Option Int) (fails : Bool) : Response × AppState :=
  if fails then (databaseError, s)
  else
    (.noContent, { s with db := (softDeleteObjectByFilename q s.db now key bucketId).2 })

def deleteObject (q : Limit1 ObjectRecord) (s : AppState) (now : Instant) (rawKey : Text)
    (fails : Bool) : Response × AppState :=
  match normalizeObjectKey rawKey with
  | .error msg => (.failure .badRequest (.message msg), s)
  | .ok key => deleteObjectKeyedInBucket q s now key none fails

def xmlEscapeChar (c : Char) : Text :=
  if c = '&' then "&amp;".toList
  else if c = '<' then "&lt;".toList
  else if c = '>' then "&gt;".toList
  else if c = '"' then "&quot;".toList
  else [c]

/-- The four replacements in order are one pass: only the first meets an ampersand. -/
def xmlEscape (t : Text) : Text := t.flatMap xmlEscapeChar

def listEntry (P : Platform) (obj : ObjectRecord) : ListEntry where
  key := xmlEscape obj.originalFilename
  size := obj.filesizeBytes
  etag := xmlEscape obj.etag
  lastModified := P.columnToRfc3339 obj.dateModified

def listObjectsRoute (P : Platform) (s : AppState) (fails : Bool) : Response :=
  if fails then databaseError else .listed ((listObjects s.db).map (listEntry P))

end MyS3.S3Routes
