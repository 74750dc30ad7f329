import MyS3.S3Routes
import MyS3.Rbac

/-!
The replication service of `cluster/grpc_server.rs`. A received object is written
to the file that its metadata names before anything about it is checked, so an
error after that point has already replaced whatever the file held. An
acknowledgement repeats the ETag of the metadata, also when the row that holds the
filepath is recycled or carries another ETag.
-/

namespace MyS3.GrpcServer

open Library.Strings Library.Tables Library.Paths
open Models Objects Database Engine Repository Outbox Rbac Http

structure ObjectMetadata where
  originalFilename : Text
  filepathUuid : Text
  fileFormat : Text
  filesizeBytes : Int
  etagType : Text
  etag : Text
  dateUploaded : Text
  dateModified : Text
  bucketName : Text
  deriving DecidableEq

inductive ObjectChunk
  | metadata (m : ObjectMetadata)
  | payload (data : Bytes)
  | empty
  deriving DecidableEq

structure ReplicationAck where
  success : Bool
  message : Text
  etagConfirmed : Text
  deriving DecidableEq

inductive GrpcStatus
  | transport
  | invalidArgument (msg : Text)
  | writeVerify (err : EngineError)
  | bucketResolve
  | sqlite
  deriving DecidableEq

/-- Receive the whole stream; the last metadata wins, and `none` is a broken stream. -/
def collectChunks : List (Option ObjectChunk) → Option (Option ObjectMetadata × List Bytes)
  | [] => some (none, [])
  | none :: _ => none
  | some (.metadata m) :: rest =>
    (collectChunks rest).map fun c => (some (c.1.getD m), c.2)
  | some (.payload data) :: rest => (collectChunks rest).map fun c => (c.1, data :: c.2)
  | some .empty :: rest => collectChunks rest

structure ReceiveFaults where
  io : IoFaults := {}
  bucket : EnsureFaults := {}
  insert : Bool := false
  deriving DecidableEq

/-- The bucket of the metadata; an unnamed one is the default bucket. -/
def ObjectMetadata.bucket (m : ObjectMetadata) : Text :=
  if trim m.bucketName = [] then "storage".toList else trim m.bucketName

/-- The type the payload is hashed with; an unknown one counts as md5. -/
def ObjectMetadata.hashType (m : ObjectMetadata) : EtagType :=
  (EtagType.fromStr m.etagType).getD .md5

def nonEmpty (t : Text) : Option Text := if t = [] then none else some t

def replicateObject (P : Platform) (s : AppState) (now : Instant)
    (stream : List (Option ObjectChunk)) (faults : ReceiveFaults) :
    Except GrpcStatus ReplicationAck × AppState :=
  match collectChunks stream with
  | none => (.error .transport, s)
  | some (none, _) => (.error (.invalidArgument "Missing object metadata".toList), s)
  | some (some m, chunks) =>
    match putChunks P s.config.storageRoot s.disk (chunks.map some) m.originalFilename
        m.hashType (some m.etag) (.forced m.filepathUuid) faults.io with
    | (.error err, disk) => (.error (.writeVerify err), { s with disk := disk })
    | (.ok stored, disk) =>
      match ensureBucket s.db m.bucket faults.bucket with
      | (none, db) => (.error .bucketResolve, { s with db := db, disk := disk })
      | (some bucketId, db) =>
        match query faults.insert (insertObjectIdempotent db now m.originalFilename
            stored.filepath m.fileFormat stored.filesizeBytes m.etagType stored.etag
            (nonEmpty m.dateUploaded) (nonEmpty m.dateModified) bucketId) with
        | none => (.error .sqlite, { s with db := db, disk := disk })
        | some db' =>
          (.ok { success := true, message := "Object successfully replicated".toList
                 etagConfirmed := stored.etag }, { s with db := db', disk := disk })

structure DeleteRequest where
  filepathUuid : Text
  etag : Text
  deriving DecidableEq

/-- The row is deleted also when its blob cannot be removed. -/
def deleteObject (s : AppState) (req : DeleteRequest) (unlinkFails dbFails : Bool) :
    Except GrpcStatus ReplicationAck × AppState :=
  let disk := unlink s.config.storageRoot s.disk req.filepathUuid unlinkFails
  if dbFails then (.error .sqlite, { s with disk := disk })
  else
    (.ok { success := true, message := "Object deleted (idempotent)".toList
           etagConfirmed := req.etag },
      { s with db := deleteObjectByFilepath s.db req.filepathUuid, disk := disk })

/-- `sync_digest`. -/
def syncDigest (s : AppState) (bucketOrPrefix : Text) : List (Text × Text) :=
  digestMap s.db bucketOrPrefix

/-- The file that a received object is written to. -/
def targetFile (s : AppState) (filepath : Text) : Path :=
  absolutePathFor s.config.storageRoot filepath

theorem targetFile_congr {s t : AppState} (h : t.config = s.config) (filepath : Text) :
    targetFile t filepath = targetFile s filepath := by
  unfold targetFile
  rw [h]

/-- What an acknowledged replication did. -/
theorem replicateObject_ok {P : Platform} {s s' : AppState} {now : Instant}
    {stream : List (Option ObjectChunk)} {faults : ReceiveFaults} {ack : ReplicationAck}
    (h : replicateObject P s now stream faults = (.ok ack, s')) :
    ∃ m chunks bucketId db, collectChunks stream = some (some m, chunks) ∧
      P.digest m.hashType chunks.flatten = m.etag ∧ ack.success = true ∧
      ack.etagConfirmed = m.etag ∧ ensureBucket s.db m.bucket faults.bucket =
        (some bucketId, db) ∧
      insertObjectIdempotent db now m.originalFilename m.filepathUuid m.fileFormat
        chunks.flatten.length m.etagType m.etag (nonEmpty m.dateUploaded)
        (nonEmpty m.dateModified) bucketId = some s'.db ∧
      s'.config = s.config ∧
      s'.disk = setFile s.disk (targetFile s m.filepathUuid) (some chunks.flatten) := by
  unfold replicateObject at h
  rcases hcollect : collectChunks stream with _ | ⟨_ | m, chunks⟩
  · simp [hcollect] at h
  · simp [hcollect] at h
  rw [hcollect] at h
  simp only at h
  rcases hput : putChunks P s.config.storageRoot s.disk (chunks.map some) m.originalFilename
    m.hashType (some m.etag) (.forced m.filepathUuid) faults.io with ⟨res, disk⟩
  rw [hput] at h
  cases res with
  | error err => simp at h
  | ok stored =>
    simp only at h
    rcases hbucket : ensureBucket s.db m.bucket faults.bucket with ⟨_ | bucketId, db⟩
    · simp [hbucket] at h
    rw [hbucket] at h
    simp only at h
    split at h
    · simp at h
    rename_i db' hins
    obtain ⟨hstored, hdisk, hetag⟩ := putChunks_ok hput
    have hcontent : content (chunks.map some) = chunks.flatten := by simp [content]
    rw [hcontent] at hstored hdisk hetag
    have hdigest := hetag m.etag rfl
    simp only [Prod.mk.injEq, Except.ok.injEq] at h
    rw [← h.1, ← h.2]
    refine ⟨m, chunks, bucketId, db, rfl, hdigest.symm, rfl, ?_, hbucket, ?_, rfl, hdisk⟩
    · rw [hstored, hdigest]
    · by_cases hfail : faults.insert = true
      · simp [hfail] at hins
      · simp only [Bool.not_eq_true] at hfail
        rw [hfail, query_false, hstored] at hins
        rw [← hins, hdigest]
        rfl

/-- A row that an acknowledged replication added. -/
structure Received (s s' : AppState) (m : ObjectMetadata) (data : Bytes) (row : ObjectRecord) :
    Prop where
  rows : ∀ r, r ∈ s'.db.object.rows ↔ r ∈ s.db.object.rows ∨ r = row
  id : row.id = s.db.object.nextId
  nextId : s'.db.object.nextId = s.db.object.nextId + 1
  config : s'.config = s.config
  disk : s'.disk = setFile s.disk (targetFile s m.filepathUuid) (some data)
  buckets : s.db.bucket.rows <+: s'.db.bucket.rows
  filepath : row.filepath = m.filepathUuid
  key : row.originalFilename = m.originalFilename
  format : row.fileFormat = m.fileFormat
  etag : row.etag = m.etag
  etagType : EtagType.fromStr m.etagType = some row.etagType
  active : row.deletedAt = none
  bucket : bucketNameOf s'.db row = some m.bucket
  absent : ∀ r ∈ s.db.object.rows, r.filepath ≠ m.filepathUuid
  keyFree : ∀ r ∈ s.db.object.rows, r.deletedAt = none →
    r.originalFilename = m.originalFilename → bucketNameOf s.db r ≠ some m.bucket

theorem bucketNameOf_mono {db db' : Db} (h : db.bucket.rows <+: db'.bucket.rows)
    {r : ObjectRecord} {name : Text} (hname : bucketNameOf db r = some name) :
    bucketNameOf db' r = some name := by
  obtain ⟨b, hb, hbid⟩ := bucketNameOf_eq_some.mp hname
  exact bucketNameOf_eq_some.mpr ⟨b, h.subset hb, hbid⟩

/-- An acknowledged replication finds a row with the filepath, or adds one. -/
theorem replicateObject_ok_cases {P : Platform} {s s' : AppState} {now : Instant}
    {stream : List (Option ObjectChunk)} {faults : ReceiveFaults} {ack : ReplicationAck}
    {m : ObjectMetadata} {chunks : List Bytes}
    (hcollect : collectChunks stream = some (some m, chunks))
    (h : replicateObject P s now stream faults = (.ok ack, s')) :
    ((∃ r ∈ s.db.object.rows, r.filepath = m.filepathUuid) ∧ s'.db.object = s.db.object) ∨
      ∃ row, Received s s' m chunks.flatten row := by
  obtain ⟨m', chunks', bucketId, db, hcollect', _, _, _, hensure, hins, hconfig, hdisk⟩ :=
    replicateObject_ok h
  rw [hcollect] at hcollect'
  cases hcollect'
  obtain ⟨hobject, _, _, hkept⟩ := ensureBucket_frame s.db m.bucket faults.bucket
  rw [hensure] at hobject hkept
  obtain ⟨b, hb, hbid, hbname⟩ := ensureBucket_some hensure
  have hbucket := insertObjectIdempotent_bucket hins
  rcases insertObjectIdempotent_eq hins with ⟨hfound, hsame⟩ | ⟨hfree, e, he, hdb⟩
  · rw [show db.object = s.db.object from hobject] at hfound
    rw [hsame]
    exact Or.inl ⟨hfound, hobject⟩
  · refine Or.inr ⟨_, {
      rows := fun r => by
        rw [Db.mem_insertObject hdb, show db.object.rows = s.db.object.rows from
          congrArg ObjectTable.rows hobject]
      id := congrArg ObjectTable.nextId hobject
      nextId := by
        rw [(Db.insertObject_eq hdb).2.2.1, show db.object.nextId = s.db.object.nextId from
          congrArg ObjectTable.nextId hobject]
      config := hconfig
      disk := hdisk
      buckets := by rwa [hbucket]
      filepath := rfl
      key := rfl
      format := rfl
      etag := rfl
      etagType := he
      active := rfl
      bucket := by
        rw [bucketNameOf_eq_some, hbucket]
        exact ⟨b, hb, hbid, hbname⟩
      absent := by rwa [show db.object = s.db.object from hobject] at hfree
      keyFree := ?_ }⟩
    intro r hr hd hkey hname
    obtain ⟨c, hc, hcid, hcname⟩ := bucketNameOf_eq_some.mp hname
    have hsame := db.bucket.eq_of_name (hkept.subset hc) hb (hcname.trans hbname.symm)
    rw [show s.db.object = db.object from hobject.symm] at hr
    apply (Db.insertObject_eq hdb).1.2 r hr
    rw [activeKey_eq_some]
    exact ⟨hd, by rw [← hcid, hsame, hbid]; rfl, hkey⟩

theorem replicateObject_config (P : Platform) (s : AppState) (now : Instant)
    (stream : List (Option ObjectChunk)) (faults : ReceiveFaults) :
    (replicateObject P s now stream faults).2.config = s.config := by
  unfold replicateObject
  split
  · rfl
  · rfl
  split
  · rfl
  split
  · rfl
  split <;> rfl

/-- A replication enqueues nothing. -/
theorem replicateObject_outbox (P : Platform) (s : AppState) (now : Instant)
    (stream : List (Option ObjectChunk)) (faults : ReceiveFaults) :
    (replicateObject P s now stream faults).2.db.replicationOutbox = s.db.replicationOutbox := by
  unfold replicateObject
  split
  · rfl
  · rfl
  rename_i m chunks _
  split
  · rfl
  have hframe := (ensureBucket_frame s.db m.bucket faults.bucket).2.2.1
  split
  · rename_i db hensure
    rw [hensure] at hframe
    exact hframe
  · rename_i bucketId db hensure
    rw [hensure] at hframe
    split
    · exact hframe
    · rename_i db' hins
      unfold query at hins
      split_ifs at hins
      rcases insertObjectIdempotent_eq hins with ⟨_, rfl⟩ | ⟨_, e, _, hdb⟩
      · exact hframe
      · exact (Db.insertObject_eq hdb).2.2.2.2.2.2.trans hframe

/-- Without faults, an object with a new filepath whose content has the ETag is refused
only for a taken key. -/
theorem replicateObject_clean {P : Platform} {s : AppState} (now : Instant)
    {stream : List (Option ObjectChunk)} {m : ObjectMetadata} {chunks : List Bytes}
    {e : EtagType} (hcollect : collectChunks stream = some (some m, chunks))
    (hdigest : P.digest m.hashType chunks.flatten = m.etag)
    (htype : EtagType.fromStr m.etagType = some e)
    (hnew : ∀ r ∈ s.db.object.rows, r.filepath ≠ m.filepathUuid) :
    (∃ ack s', replicateObject P s now stream {} = (.ok ack, s')) ↔
      ∀ r ∈ s.db.object.rows, r.deletedAt = none → r.originalFilename = m.originalFilename →
        bucketNameOf s.db r ≠ some m.bucket := by
  obtain ⟨stored, hput, hpath, _⟩ := putChunks_clean s.config.storageRoot s.disk
    m.originalFilename m.filepathUuid hdigest
  obtain ⟨id, db, hensure⟩ := ensureBucket_clean s.db m.bucket
  obtain ⟨b, hb, hbid, hbname⟩ := ensureBucket_some hensure
  obtain ⟨hobject, _, _, hkept⟩ := ensureBucket_frame s.db m.bucket {}
  rw [hensure] at hobject hkept
  have hinsert := insertObjectIdempotent_isSome now m.originalFilename m.fileFormat
    stored.filesizeBytes stored.etag (nonEmpty m.dateUploaded) (nonEmpty m.dateModified) htype
    (hobject ▸ hnew) ⟨b, hb, hbid⟩
  have hkeys : (∀ r ∈ db.object.rows, activeKey r ≠ some (id, m.originalFilename)) ↔
      ∀ r ∈ s.db.object.rows, r.deletedAt = none → r.originalFilename = m.originalFilename →
        bucketNameOf s.db r ≠ some m.bucket := by
    rw [show db.object = s.db.object from hobject]
    refine forall₂_congr fun r hr => ?_
    have hsame : r.bucketId = id ↔ bucketNameOf s.db r = some m.bucket := by
      rw [bucketNameOf_eq_some]
      constructor
      · intro hid
        obtain ⟨c, hc, hcid⟩ := s.db.object_bucket r hr
        refine ⟨c, hc, hcid, ?_⟩
        rw [db.bucket.eq_of_id (hkept.subset hc) hb (hcid.trans (hid.trans hbid.symm)), hbname]
      · intro h
        obtain ⟨c, hc, hcid, hcname⟩ := h
        rw [← hcid, db.bucket.eq_of_name (hkept.subset hc) hb (hcname.trans hbname.symm), hbid]
    rw [Ne, activeKey_eq_some, hsame]
    tauto
  rw [← hkeys, ← hinsert, Option.isSome_iff_exists]
  unfold replicateObject
  simp only [hcollect, hput, hensure, query_false]
  rw [hpath]
  cases insertObjectIdempotent db now m.originalFilename m.filepathUuid m.fileFormat
    stored.filesizeBytes m.etagType stored.etag (nonEmpty m.dateUploaded)
    (nonEmpty m.dateModified) id with
  | none => simp
  | some db' => simp

end MyS3.GrpcServer
