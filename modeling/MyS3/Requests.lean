import MyS3.Library.Interleaving
import MyS3.Library.Runs
import MyS3.Purge
import MyS3.Reconcile
import MyS3.SessionAuth

/-!
Requests that are served at the same time. Each handler reads the database, decides, and
writes later, and between its steps the others take theirs. A step is one call on the
database or on the disk. A transaction that has written keeps every other writer waiting
until it ends; a reader sees what is committed.
-/

namespace MyS3.Requests

open Library.Strings Library.Interleaving Library.Runs
open Models Objects Database Engine Repository Outbox Http S3Routes Rbac SessionAuth Purge
open Reconcile

/-- What one step of a request does to the node. -/
inductive Effect
  | keep
  | create (filepath : Text)
  /-- The stream reaches the file, unless it was removed since it was created. -/
  | fill (filepath : Text) (data : Option Bytes)
  | unlink (filepath : Text) (fails : Bool)
  | recycle (now : Instant) (id : Int)
  | restore (now : Instant) (id : Int)
  /-- The transaction of an upload: the row, inserted earlier, and its jobs. -/
  | register (insertedAt now : Instant) (key : Text) (bucketId : Int) (stored : StoredObject)
  /-- The transaction of a purge: the jobs, and the removal of the row. -/
  | purge (now : Instant) (record : ObjectRecord)

def insertUpload (db : Db) (now : Instant) (key : Text) (bucketId : Int) (stored : StoredObject) :
    Option (Int × Db) :=
  insertObjectTx db now key stored.filepath stored.fileFormat stored.filesizeBytes
    stored.etagType stored.etag bucketId

def registerUpload (s : AppState) (insertedAt now : Instant) (key : Text) (bucketId : Int)
    (stored : StoredObject) : Option Db :=
  (insertUpload s.db insertedAt key bucketId stored).map fun r =>
    enqueuePutForActivePeers r.2 now r.1 stored.filepath stored.etag s.config.nodeId

def purgeRecord (s : AppState) (now : Instant) (record : ObjectRecord) : Db :=
  (enqueueDeleteForActivePeers s.db now record.id record.filepath record.etag
    s.config.nodeId).deleteObjects fun r => r.id == record.id

def restoreById (db : Db) (now : Instant) (id : Int) : Option Db :=
  db.updateObjectsChecked (fun r => r.id == id) (Objects.restore now)

def Effect.run (s : AppState) : Effect → AppState
  | .keep => s
  | .create filepath =>
    { s with disk := setFile s.disk (absolutePathFor s.config.storageRoot filepath) (some []) }
  | .fill filepath data =>
    let path := absolutePathFor s.config.storageRoot filepath
    if (s.disk path).isSome then { s with disk := setFile s.disk path data } else s
  | .unlink filepath fails =>
    { s with disk := Engine.unlink s.config.storageRoot s.disk filepath fails }
  | .recycle now id => { s with db := recycleById s.db now id }
  | .restore now id => { s with db := (restoreById s.db now id).getD s.db }
  | .register insertedAt now key bucketId stored =>
    { s with db := (registerUpload s insertedAt now key bucketId stored).getD s.db }
  | .purge now record => { s with db := purgeRecord s now record }

/-- What a step meets: the clock, the calls that fail, and what the objects directory lists
to the step that reads it. -/
structure Input where
  now : Instant
  fails : Bool := false
  unlinkFails : Bool := false
  names : Option (List Text) := none

structure PutRequest where
  uuid : Uuid
  key : Text
  headers : Headers
  body : List (Option Bytes)
  bucketId : Option Int
  faults : PutFaults

/-- Where `put_object_keyed_in_bucket` stands. The flag of the last two says whether the
quota check had passed. -/
inductive PutStage
  | received
  | created (bucketId : Int) (etagType : EtagType)
  | stored (bucketId : Int) (stored : StoredObject)
  | sized (bucketId : Int) (stored : StoredObject) (previousSize : Int)
  | checked (bucketId : Int) (stored : StoredObject)
  | selected (bucketId : Int) (stored : StoredObject) (previous : Option Int)
  | retired (bucketId : Int) (stored : StoredObject)
  | inserted (bucketId : Int) (stored : StoredObject) (insertedAt : Instant)
  /-- The transaction is gone, and the blob is still to be removed. -/
  | refused (checked : Bool) (filepath : Text) (response : Response)
  | done (checked : Bool) (response : Response)

/-- The blob of an upload that is neither refused nor answered. -/
def PutStage.blob : PutStage → Option (Int × StoredObject)
  | .stored b o => some (b, o)
  | .sized b o _ => some (b, o)
  | .checked b o => some (b, o)
  | .selected b o _ => some (b, o)
  | .retired b o => some (b, o)
  | .inserted b o _ => some (b, o)
  | _ => none

/-- The upload passed its quota check and was not refused. -/
def PutStage.isChecked : PutStage → Bool
  | .checked _ _ => true
  | .selected _ _ _ => true
  | .retired _ _ => true
  | .inserted _ _ _ => true
  | _ => false

def PutRequest.filepath (P : Platform) (req : PutRequest) : Text :=
  (Target.fresh req.uuid).filepath P req.key

/-- Copying the body into the file that was created. -/
def PutRequest.write (P : Platform) (s : AppState) (req : PutRequest) (etagType : EtagType) :
    Except EngineError StoredObject × Option Bytes :=
  let written := putChunks P s.config.storageRoot s.disk req.body req.key etagType none
    (.fresh req.uuid) req.faults.io
  (written.1, written.2 (absolutePathFor s.config.storageRoot (req.filepath P)))

def stepPut (P : Platform) (s : AppState) (free : Bool) (io : Input) (req : PutRequest) :
    PutStage → Option (Effect × PutStage)
  | .received =>
    match uploadBucket s.db req.bucketId req.faults.defaultBucketId with
    | none => some (.keep, .done false databaseError)
    | some bucketId =>
      match query req.faults.bucketEtagType (bucketEtagType s.db bucketId) with
      | none => some (.keep, .done false databaseError)
      | some bucketDefault =>
        if req.faults.io.createDir then
          some (.keep, .done false (.failure .internalServerError (.engine .createDir)))
        else if req.faults.io.createFile then
          some (.keep, .done false (.failure .internalServerError (.engine .createFile)))
        else
          some (.create (req.filepath P),
            .created bucketId (resolveEtagType req.headers bucketDefault))
  | .created bucketId etagType =>
    match req.write P s etagType with
    | (.error err, data) =>
      some (.fill (req.filepath P) data,
        .done false (.failure .internalServerError (.engine err)))
    | (.ok stored, data) => some (.fill (req.filepath P) data, .stored bucketId stored)
  | .stored bucketId stored =>
    if req.faults.beginTx || req.faults.previousSize then
      some (.keep, .refused false stored.filepath databaseError)
    else some (.keep, .sized bucketId stored (previousSize s.db req.key bucketId))
  | .sized bucketId stored previousSize =>
    match quotaResponse s.db bucketId (saturate (stored.filesizeBytes - previousSize))
        req.faults.hardQuota with
    | some refusal => some (.keep, .refused false stored.filepath refusal)
    | none => some (.keep, .checked bucketId stored)
  | .checked bucketId stored =>
    if req.faults.softDelete then some (.keep, .refused true stored.filepath databaseError)
    else
      some (.keep, .selected bucketId stored
        ((getObjectByFilenameInBucket s.db req.key bucketId).map (·.id)))
  | .selected bucketId stored none => some (.keep, .retired bucketId stored)
  | .selected bucketId stored (some id) =>
    -- Committed at once, on a connection of its own.
    if free then some (.recycle io.now id, .retired bucketId stored) else none
  | .retired bucketId stored =>
    if free then
      match query req.faults.insert (insertUpload s.db io.now req.key bucketId stored) with
      | none => some (.keep, .refused true stored.filepath databaseError)
      | some _ => some (.keep, .inserted bucketId stored io.now)
    else none
  | .inserted bucketId stored insertedAt =>
    if req.faults.enqueue || req.faults.commit then
      some (.keep, .refused true stored.filepath databaseError)
    else
      -- Nothing was written since the insert, so it is still possible.
      match registerUpload s insertedAt io.now req.key bucketId stored with
      | none => some (.keep, .refused true stored.filepath databaseError)
      | some _ =>
        some (.register insertedAt io.now req.key bucketId stored,
          .done true (.stored (etagHeaders stored.etag stored.etagType)))
  | .refused checked filepath response =>
    some (.unlink filepath req.faults.io.unlink, .done checked response)
  | .done _ _ => none

structure DeleteRequest where
  key : Text
  bucketId : Option Int
  pick : Library.Tables.Limit1 ObjectRecord

/-- Where `delete_object_keyed_in_bucket` stands. -/
inductive DeleteStage
  | received
  | selected (id : Int)
  | done (response : Response)

def stepDelete (s : AppState) (free : Bool) (io : Input) (req : DeleteRequest) :
    DeleteStage → Option (Effect × DeleteStage)
  | .received =>
    if io.fails then some (.keep, .done databaseError)
    else
      match softDeleteCandidate req.pick s.db req.key req.bucketId with
      | none => some (.keep, .done .noContent)
      | some r => some (.keep, .selected r.id)
  | .selected id =>
    if io.fails then some (.keep, .done databaseError)
    else if free then some (.recycle io.now id, .done .noContent)
    else none
  | .done _ => none

structure RestoreRequest where
  id : Int
  accountId : Int

/-- Where `restore_recycle_item` stands. -/
inductive RestoreStage
  | received
  | found
  /-- Seen in the recycle bin. -/
  | recycled (record : ObjectRecord)
  /-- No active row has its key. -/
  | clear (record : ObjectRecord)
  | restored
  | done (answer : Except Response ObjectRecord)

def textFailure (status : Status) (message : String) : Response :=
  .failure status (.message message.toList)

def stepRestore (s : AppState) (free : Bool) (io : Input) (req : RestoreRequest) :
    RestoreStage → Option (Effect × RestoreStage)
  | .received =>
    if io.fails then some (.keep, .done (.error databaseError))
    else
      match getObjectById s.db req.id with
      | none => some (.keep, .done (.error (textFailure .notFound "object not found")))
      | some o =>
        match requireBucketPerm s req.accountId o.bucketId .update with
        | .error refusal => some (.keep, .done (.error refusal))
        | .ok () => some (.keep, .found)
  | .found =>
    if io.fails then some (.keep, .done (.error (.failure .badRequest .database)))
    else
      match getObjectById s.db req.id with
      | none => some (.keep, .done (.error (textFailure .badRequest "object not found")))
      | some record =>
        if record.deletedAt = none then
          some (.keep, .done (.error (textFailure .conflict "object is not in recycle bin")))
        else some (.keep, .recycled record)
  | .recycled record =>
    if io.fails then some (.keep, .done (.error (.failure .badRequest .database)))
    else if s.db.object.rows.any fun r =>
        r.bucketId == record.bucketId && r.originalFilename == record.originalFilename &&
          isActive r && r.id != req.id then
      some (.keep, .done (.error (textFailure .conflict
        "an active object with the same key already exists in this bucket")))
    else some (.keep, .clear record)
  | .clear _ =>
    if io.fails then some (.keep, .done (.error (.failure .badRequest .database)))
    else if free then
      match restoreById s.db io.now req.id with
      | none => some (.keep, .done (.error (.failure .badRequest .database)))
      | some _ => some (.restore io.now req.id, .restored)
    else none
  | .restored =>
    if io.fails then some (.keep, .done (.error (.failure .badRequest .database)))
    else
      match getObjectById s.db req.id with
      | none =>
        some (.keep, .done (.error (textFailure .badRequest "object missing after restore")))
      | some record => some (.keep, .done (.ok record))
  | .done _ => none

/-- Who purges: the retention loop, or a request of an account. -/
inductive PurgeRequest
  | retention
  /-- `hard_delete_recycle_item`. -/
  | item (accountId : Int) (id : Int)
  /-- `purge_recycle_items`. -/
  | items (accountId : Int) (ids : List Int)
  /-- `purge_all_recycle_items`, with the buckets that it is limited to. -/
  | all (accountId : Int) (bucketIds : Option (List Int))

/-- What a purge still has to remove. -/
inductive PurgeItem
  /-- An id of the request, still to be looked up. -/
  | requested (id : Int)
  /-- A listed row, whose permission is still to be checked. -/
  | unchecked (record : ObjectRecord)
  /-- Seen in the recycle bin, and purged by its id. -/
  | selected (id : Int)
  /-- A listed row that is purged as it was listed. -/
  | listed (record : ObjectRecord)

structure PurgeResponse where
  deleted : Nat := 0
  failed : List Int := []
  deriving DecidableEq

inductive PurgeAnswer
  | refused (response : Response)
  | noContent
  | purged (response : PurgeResponse)
  /-- The retention loop answers nobody. -/
  | ended

inductive PurgeStage
  | received
  | working (items : List PurgeItem) (sofar : PurgeResponse)
  | unlinking (filepath : Text) (items : List PurgeItem) (sofar : PurgeResponse)
  | done (answer : PurgeAnswer)

/-- The items that a purge still has, in any stage. -/
def PurgeStage.items : PurgeStage → List PurgeItem
  | .working items _ => items
  | .unlinking _ items _ => items
  | _ => []

/-- The blob whose row a purge has removed. -/
def PurgeStage.blob : PurgeStage → Option Text
  | .unlinking filepath _ _ => some filepath
  | _ => none

/-- The row that an item was chosen for in an earlier step. -/
def PurgeItem.chosen : PurgeItem → Option Int
  | .requested _ => none
  | .unchecked record => some record.id
  | .selected id => some id
  | .listed record => some record.id

/-- `list_deleted_objects`. -/
def listDeletedObjects (db : Db) (bucketIds : Option (List Int)) : List ObjectRecord :=
  let rows := (db.object.rows.filter fun r => r.deletedAt.isSome).insertionSort fun a b =>
    Library.Timestamps.textLe (b.deletedAt.elim [] DbTime.text) (a.deletedAt.elim [] DbTime.text) =
      true
  match bucketIds with
  | none => rows
  | some ids => rows.filter fun r => ids.contains r.bucketId

theorem mem_listDeletedObjects {db : Db} {bucketIds : Option (List Int)} {r : ObjectRecord}
    (h : r ∈ listDeletedObjects db bucketIds) : r ∈ db.object.rows ∧ r.deletedAt ≠ none := by
  unfold listDeletedObjects at h
  cases bucketIds with
  | none =>
    simp only [List.mem_insertionSort, List.mem_filter, Option.isSome_iff_ne_none] at h
    exact h
  | some ids =>
    simp only [List.mem_filter, List.mem_insertionSort, Option.isSome_iff_ne_none] at h
    exact h.1

def purgeStart (s : AppState) (io : Input) : PurgeRequest → PurgeStage
  | .retention =>
    if io.fails then .done .ended
    else
      match cutoff s.db.appSettings io.now with
      | none => .done .ended
      | some c => .working ((listExpiredDeletedObjects s.db c).map .listed) {}
  | .item _ id => .working [.requested id] {}
  | .items _ ids =>
    if ids = [] then .done (.refused (textFailure .badRequest "ids must not be empty"))
    else if 1000 < ids.length then
      .done (.refused (textFailure .badRequest "too many ids (max 1000)"))
    else .working (ids.map .requested) {}
  | .all _ bucketIds =>
    if io.fails then .done (.refused databaseError)
    else .working ((listDeletedObjects s.db bucketIds).map .unchecked) {}

/-- An account may purge what it may delete; the retention loop asks nobody. -/
def mayPurge (s : AppState) (bucketId : Int) : PurgeRequest → Except Response Unit
  | .retention => .ok ()
  | .item accountId _ => requireBucketPerm s accountId bucketId .delete
  | .items accountId _ => requireBucketPerm s accountId bucketId .delete
  | .all accountId _ => requireBucketPerm s accountId bucketId .delete

/-- The item is not purged: the answer of a single delete, one failed id of the others. -/
def passOver (id : Int) (why : Response) (rest : List PurgeItem) (sofar : PurgeResponse) :
    PurgeRequest → PurgeStage
  | .item _ _ => .done (.refused why)
  | _ => .working rest { sofar with failed := sofar.failed ++ [id] }

def purgeAnswer (sofar : PurgeResponse) : PurgeRequest → PurgeAnswer
  | .retention => .ended
  | .item _ _ => .noContent
  | _ => .purged sofar

/-- One id of a request is looked up. -/
def lookUpItem (s : AppState) (io : Input) (req : PurgeRequest) (id : Int)
    (rest : List PurgeItem) (sofar : PurgeResponse) : PurgeStage :=
  if io.fails then passOver id databaseError rest sofar req
  else
    match getObjectById s.db id with
    | none => passOver id (textFailure .notFound "object not found") rest sofar req
    | some o =>
      if o.deletedAt = none then
        passOver id (textFailure .badRequest "object is not in recycle bin") rest sofar req
      else
        match mayPurge s o.bucketId req with
        | .error refusal => passOver id refusal rest sofar req
        | .ok () => .working (.selected id :: rest) sofar

def stepPurge (s : AppState) (free : Bool) (io : Input) (req : PurgeRequest) :
    PurgeStage → Option (Effect × PurgeStage)
  | .received => some (.keep, purgeStart s io req)
  | .working [] sofar => some (.keep, .done (purgeAnswer sofar req))
  | .working (.requested id :: rest) sofar => some (.keep, lookUpItem s io req id rest sofar)
  | .working (.unchecked o :: rest) sofar =>
    if io.fails then some (.keep, passOver o.id databaseError rest sofar req)
    else
      match mayPurge s o.bucketId req with
      | .error refusal => some (.keep, passOver o.id refusal rest sofar req)
      | .ok () => some (.keep, .working (.selected o.id :: rest) sofar)
  | .working (.selected id :: rest) sofar =>
    -- `hard_purge_object`, which asks for the row but not whether it is still recycled.
    if io.fails then some (.keep, passOver id databaseError rest sofar req)
    else if free then
      match getObjectById s.db id with
      | none =>
        some (.keep, passOver id (textFailure .internalServerError "object not found") rest
          sofar req)
      | some record =>
        some (.purge io.now record,
          .unlinking record.filepath rest { sofar with deleted := sofar.deleted + 1 })
    else none
  | .working (.listed obj :: rest) sofar =>
    -- The retention loop ends at the first transaction that fails.
    if io.fails then some (.keep, .done .ended)
    else if free then some (.purge io.now obj, .unlinking obj.filepath rest sofar)
    else none
  | .unlinking filepath rest sofar =>
    some (.unlink filepath io.unlinkFails, .working rest sofar)
  | .done _ => none

/-- Where `reconcile` stands. -/
inductive ReconcileStage
  | received
  | rowsListed (dbFiles : List DbObjectFile)
  | removing (orphans : List Text)
  | done

def stepReconcile (s : AppState) (io : Input) : ReconcileStage → Option (Effect × ReconcileStage)
  | .received =>
    some (.keep, if io.fails then .done else .rowsListed (listDbObjectFiles s.db))
  | .rowsListed dbFiles =>
    if io.fails then some (.keep, .done)
    else
      io.names.map fun names =>
        (.keep, .removing (classify dbFiles (listDiskObjectFiles names)).orphans)
  | .removing [] => some (.keep, .done)
  | .removing (rel :: rest) => some (.unlink rel io.unlinkFails, .removing rest)
  | .done => none

inductive Task
  | put (req : PutRequest) (stage : PutStage)
  | delete (req : DeleteRequest) (stage : DeleteStage)
  | restore (req : RestoreRequest) (stage : RestoreStage)
  | purge (req : PurgeRequest) (stage : PurgeStage)
  | reconcile (stage : ReconcileStage)
  /-- A handler that was dropped at one of its steps. -/
  | dropped

def Task.step (P : Platform) (s : AppState) (free : Bool) (io : Input) :
    Task → Option (Effect × Task)
  | .put req stage => (stepPut P s free io req stage).map (Prod.map id (Task.put req))
  | .delete req stage => (stepDelete s free io req stage).map (Prod.map id (Task.delete req))
  | .restore req stage => (stepRestore s free io req stage).map (Prod.map id (Task.restore req))
  | .purge req stage => (stepPurge s free io req stage).map (Prod.map id (Task.purge req))
  | .reconcile stage => (stepReconcile s io stage).map (Prod.map id Task.reconcile)
  | .dropped => none

def PutStage.holds : PutStage → Bool
  | .inserted _ _ _ => true
  | _ => false

/-- The transaction of the request has written. -/
def Task.holds : Task → Bool
  | .put _ stage => stage.holds
  | _ => false

/-- The request was only received. -/
def Task.isNew : Task → Bool
  | .put _ .received => true
  | .delete _ .received => true
  | .restore _ .received => true
  | .purge _ .received => true
  | .reconcile .received => true
  | _ => false

structure Server where
  app : AppState
  /-- Some transaction has written and has not ended. -/
  writing : Bool

def serve (P : Platform) (io : Input) (v : Server) (task : Task) : Option (Server × Task) :=
  (task.step P v.app (!v.writing) io).map fun r =>
    (⟨r.1.run v.app, r.2.holds || (v.writing && !task.holds)⟩, r.2)

inductive Action
  | begin (task : Task)
  | advance (i : Nat) (io : Input)
  /-- The client goes away: the handler ends where it waits, and its transaction with it. -/
  | drop (i : Nat)

abbrev State := Pool Server Task

def step (P : Platform) (s : State) : Action → Option State
  | .begin task => if task.isNew then some (s.spawn task) else none
  | .advance i io => s.turn (serve P io) i
  | .drop i =>
    (s.tasks[i]?).map fun task =>
      s.replace i { s.shared with writing := s.shared.writing && !task.holds } .dropped

end MyS3.Requests
