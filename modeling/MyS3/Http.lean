import MyS3.Repository

/-!
Requests and responses of the HTTP side, and the state that the handlers share.
A header value is `none` where the code cannot read it as text. Responses keep
the data that the code puts into them; the text of a library error is not modelled.
-/

namespace MyS3.Http

open Library.Strings Library.Paths
open Models Database Engine Repository

structure Config where
  nodeId : Text
  storageRoot : Path
  awsSecretAccessKey : Text
  /-- The environment variable `MEDIA_LINK_SECRET`. -/
  mediaLinkSecret : Option Text
  deriving DecidableEq

structure AppState where
  config : Config
  db : Db
  disk : Disk

/-- A node with an empty disk, after its migrations. -/
def AppState.migrated (nodeId : Text) : AppState where
  config := {
    nodeId := nodeId
    storageRoot := [".data".toList]
    awsSecretAccessKey := "minioadmin".toList
    mediaLinkSecret := none }
  db := Db.migrated
  disk := fun _ => none

inductive Status
  | ok
  | partialContent
  | noContent
  | badRequest
  | unauthorized
  | forbidden
  | notFound
  | conflict
  | gone
  | payloadTooLarge
  | rangeNotSatisfiable
  | internalServerError
  deriving DecidableEq, Repr

/-- Header names and values of a request. -/
abbrev Headers := List (Text × Option Text)

def Headers.get (headers : Headers) (name : Text) : Option (Option Text) :=
  (headers.find? fun h => h.1 == name).map (·.2)

/-- The message of an error response. -/
inductive ErrorBody
  | message (t : Text)
  | database
  | io
  | engine (err : EngineError)
  | quota (err : QuotaError)
  deriving DecidableEq

/-- A character that a header value may hold. -/
def isHeaderChar (c : Char) : Bool := (32 ≤ c.toNat && c.toNat ≠ 127) || c == '\t'

def headerValue (t fallback : Text) : Text := if t.all isHeaderChar then t else fallback

/-- The ETag header; the other two are sent for a type other than md5. -/
structure EtagHeaders where
  etag : Text
  customEtag : Option Text
  etagType : Option Text
  deriving DecidableEq

def etagHeaders (etag : Text) (etagType : EtagType) : EtagHeaders where
  etag := headerValue ('"' :: etag ++ ['"']) ['"', '"']
  customEtag := if etagType = .md5 then none else some (headerValue etag [])
  etagType := if etagType = .md5 then none else some (headerValue etagType.display [])

structure ContentHeaders where
  etag : EtagHeaders
  contentType : Text
  contentLength : Nat
  /-- First and last byte of a partial answer, and the length of the object. -/
  contentRange : Option (Nat × Nat × Nat)
  deriving DecidableEq

/-- One `<Contents>` element of a listing. -/
structure ListEntry where
  key : Text
  size : Int
  etag : Text
  lastModified : Text
  deriving DecidableEq

inductive Response
  | failure (status : Status) (body : ErrorBody)
  /-- 416 with `Content-Range: bytes */len`. -/
  | unsatisfiable (fileLen : Nat)
  | noContent
  | stored (headers : EtagHeaders)
  | listed (entries : List ListEntry)
  | content (status : Status) (headers : ContentHeaders) (body : Bytes)
  deriving DecidableEq

def Response.isFailure : Response → Bool
  | .failure _ _ => true
  | _ => false

/-- A query result; a query that fails has none. -/
def query {α : Type} (fails : Bool) (result : Option α) : Option α := if fails then none else result

@[simp] theorem query_false {α : Type} (result : Option α) : query false result = result := rfl

@[simp] theorem query_true {α : Type} (result : Option α) : query true result = none := rfl

def databaseError : Response := .failure .internalServerError .database

end MyS3.Http
