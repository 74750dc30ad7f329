import MyS3.GrpcServer

/-!
Messages that arrive again. The outbox of a peer sends a job until it is acknowledged, so
that a receiver may handle the same message any number of times. The first time decides:
it leaves a state in which the message gives the same answer and changes nothing, whether
the answer is an acknowledgement or an error.
-/

namespace MyS3.Redelivery

open Library.Strings Library.Tables Library.Paths
open Models Objects Database Engine Repository Outbox Rbac Http GrpcServer

/-- Writing the same stream to the same place again fails or succeeds in the same way. -/
theorem putChunks_twice (P : Platform) (root : Path) (disk : Disk) (stream : List (Option Bytes))
    (filename : Text) (etagType : EtagType) (expected : Option Text) (target : Target)
    (io : IoFaults) :
    putChunks P root (putChunks P root disk stream filename etagType expected target io).2
        stream filename etagType expected target io =
      putChunks P root disk stream filename etagType expected target io := by
  unfold putChunks
  simp only
  by_cases hdir : io.createDir = true
  · simp only [hdir, if_true]
  by_cases hfile : io.createFile = true
  · simp only [hdir, hfile, if_true, if_false, Bool.false_eq_true]
  simp only [hdir, hfile, Bool.false_eq_true, if_false]
  rcases writeChunks stream io.write [] with ⟨data, failed⟩
  cases failed with
  | some err => simp only [setFile_setFile]
  | none =>
    by_cases hflush : io.flush = true
    · simp only [hflush, if_true, setFile_setFile]
    simp only [hflush, Bool.false_eq_true, if_false]
    cases expected.filter (· ≠ P.digest etagType data) with
    | none => simp only [setFile_setFile]
    | some e =>
      by_cases hunlink : io.unlink = true
      · simp only [hunlink, if_true, setFile_setFile]
      · simp only [hunlink, Bool.false_eq_true, if_false, setFile_setFile]

/-- An error other than a failed grant leaves the buckets as they were. -/
theorem ensureBucket_none {db db' : Db} {name : Text} {faults : EnsureFaults}
    (hgrant : faults.grant = false) (h : ensureBucket db name faults = (none, db')) : db' = db := by
  unfold ensureBucket at h
  by_cases hselect : faults.select = true
  · rw [if_pos hselect] at h
    exact (Prod.mk.inj h).2.symm
  rw [if_neg hselect] at h
  cases hname : getBucketByName db name with
  | some b => simp [hname] at h
  | none =>
    rw [hname] at h
    simp only at h
    by_cases hins : faults.insert = true
    · rw [if_pos hins] at h
      exact (Prod.mk.inj h).2.symm
    rw [if_neg hins] at h
    cases hdb : db.insertBucket name none true .md5 with
    | none =>
      rw [hdb] at h
      exact (Prod.mk.inj h).2.symm
    | some inserted => simp [hdb, hgrant] at h

/-- A bucket that was ensured is found the next time. -/
theorem ensureBucket_found {db db' later : Db} {name : Text} {faults : EnsureFaults} {id : Int}
    (h : ensureBucket db name faults = (some id, db')) (hbucket : later.bucket = db'.bucket) :
    ensureBucket later name faults = (some id, later) := by
  obtain ⟨b, hb, hbid, hbname⟩ := ensureBucket_some h
  have hfound : getBucketByName later name = some b := by
    unfold getBucketByName
    rw [hbucket]
    exact BucketTable.byName_eq_some.mpr ⟨hb, hbname⟩
  have hselect : faults.select = false := by
    by_contra hfails
    rw [Bool.not_eq_false] at hfails
    simp [ensureBucket, hfails] at h
  unfold ensureBucket
  simp only [hselect, Bool.false_eq_true, if_false, hfound, hbid]

/-- Whether a row can be inserted depends on its indexed columns only. -/
theorem insertObject_isSome_congr {db : Db} {v w : ObjectTable.NewObject}
    (hpath : v.filepath = w.filepath) (hkey : v.originalFilename = w.originalFilename)
    (hbucket : v.bucketId = w.bucketId) :
    (db.insertObject v).isSome = (db.insertObject w).isSome := by
  by_cases hb : ∃ b ∈ db.bucket.rows, b.id = v.bucketId
  · have hb' : ∃ b ∈ db.bucket.rows, b.id = w.bucketId := hbucket ▸ hb
    rw [Bool.eq_iff_iff, Db.insertObject_isSome hb, Db.insertObject_isSome hb']
    unfold ObjectTable.Free
    rw [hpath, hkey, hbucket]
  · have hnone {u : ObjectTable.NewObject} (hu : ¬ ∃ b ∈ db.bucket.rows, b.id = u.bucketId) :
        db.insertObject u = none := by
      unfold Db.insertObject
      split
      · rfl
      · rw [dif_neg hu]
    rw [hnone hb, hnone (hbucket ▸ hb)]

section insert

variable {db : Db} {now : Instant} (now' : Instant) {filename filepath fileFormat : Text}
  {filesizeBytes : Int} {etagType etag : Text} {dateUploaded dateModified : Option Text}
  {bucketId : Int}

/-- An insert that was refused is refused again. -/
theorem insertObjectIdempotent_again_none
    (h : insertObjectIdempotent db now filename filepath fileFormat filesizeBytes etagType etag
      dateUploaded dateModified bucketId = none) :
    insertObjectIdempotent db now' filename filepath fileFormat filesizeBytes etagType etag
      dateUploaded dateModified bucketId = none := by
  unfold insertObjectIdempotent at h ⊢
  cases htype : EtagType.fromStr etagType with
  | none => rfl
  | some e =>
    simp only [htype] at h ⊢
    split_ifs at h with hfound
    rw [if_neg hfound, ← Option.isNone_iff_eq_none, ← Option.not_isSome]
    rw [← Option.isNone_iff_eq_none, ← Option.not_isSome] at h
    have hsame : (db.insertObject (replicaRow now' filename filepath fileFormat filesizeBytes e
        etag dateUploaded dateModified bucketId)).isSome =
        (db.insertObject (replicaRow now filename filepath fileFormat filesizeBytes e etag
          dateUploaded dateModified bucketId)).isSome := insertObject_isSome_congr rfl rfl rfl
    rw [hsame]
    exact h

/-- A row that was inserted or found is found by the next insert. -/
theorem insertObjectIdempotent_again {db' : Db}
    (h : insertObjectIdempotent db now filename filepath fileFormat filesizeBytes etagType etag
      dateUploaded dateModified bucketId = some db') :
    insertObjectIdempotent db' now' filename filepath fileFormat filesizeBytes etagType etag
      dateUploaded dateModified bucketId = some db' := by
  have hfound : (db'.object.rows.any fun r => r.filepath == filepath) = true := by
    rw [List.any_eq_true]
    rcases insertObjectIdempotent_eq h with ⟨⟨r, hr, hpath⟩, rfl⟩ | ⟨_, e, _, hdb⟩
    · exact ⟨r, hr, beq_iff_eq.mpr hpath⟩
    · exact ⟨_, (Db.mem_insertObject hdb).mpr (Or.inr rfl), beq_iff_eq.mpr rfl⟩
  unfold insertObjectIdempotent at h ⊢
  cases htype : EtagType.fromStr etagType with
  | none => simp [htype] at h
  | some e => simp only [hfound, if_true]

end insert

/-- A received object that arrives again gets the same answer and changes nothing. -/
theorem replicateObject_twice (P : Platform) (s : AppState) (now now' : Instant)
    (stream : List (Option ObjectChunk)) {faults : ReceiveFaults}
    (hgrant : faults.bucket.grant = false) :
    replicateObject P (replicateObject P s now stream faults).2 now' stream faults =
      replicateObject P s now stream faults := by
  rcases hcollect : collectChunks stream with _ | ⟨_ | m, chunks⟩
  · simp only [replicateObject, hcollect]
  · simp only [replicateObject, hcollect]
  have hput := putChunks_twice P s.config.storageRoot s.disk (chunks.map some) m.originalFilename
    m.hashType (some m.etag) (.forced m.filepathUuid) faults.io
  unfold replicateObject
  simp only [hcollect]
  rcases hwrite : putChunks P s.config.storageRoot s.disk (chunks.map some) m.originalFilename
    m.hashType (some m.etag) (.forced m.filepathUuid) faults.io with ⟨err | stored, disk⟩
  · rw [hwrite] at hput
    simp only [hput]
  rw [hwrite] at hput
  simp only
  rcases hensure : ensureBucket s.db m.bucket faults.bucket with ⟨_ | bucketId, db⟩
  · have hsame := ensureBucket_none hgrant hensure
    simp only [hput, hsame, hensure]
  simp only
  have hfound := ensureBucket_found hensure rfl
  cases hfails : faults.insert with
  | true => simp only [query_true, hput, hfound]
  | false =>
    simp only [query_false]
    cases hins : insertObjectIdempotent db now m.originalFilename stored.filepath m.fileFormat
      stored.filesizeBytes m.etagType stored.etag (nonEmpty m.dateUploaded)
      (nonEmpty m.dateModified) bucketId with
    | none => simp only [hput, hfound, insertObjectIdempotent_again_none now' hins]
    | some db' =>
      have hlater := ensureBucket_found hensure (insertObjectIdempotent_bucket hins)
      simp only [hput, hlater, insertObjectIdempotent_again now' hins]

/-- Deleting rows that are not there changes nothing. -/
theorem deleteObjects_of_none {db : Db} {p : ObjectRecord → Bool}
    (h : ∀ r ∈ db.object.rows, p r = false) : db.deleteObjects p = db := by
  have hkept : (db.object.rows.filter fun r => !p r) = db.object.rows :=
    List.filter_eq_self.mpr fun r hr => by rw [h r hr]; rfl
  have hgone : db.object.rows.filter p = [] :=
    List.filter_eq_nil_iff.mpr fun r hr => by rw [h r hr]; exact Bool.false_ne_true
  have hobject : db.object.deleteWhere p = db.object := by
    unfold ObjectTable.deleteWhere
    simp only [hkept]
  have houtbox : db.replicationOutbox.clearObjects (db.object.rows.filter p) =
      db.replicationOutbox := by
    rw [hgone]
    unfold OutboxTable.clearObjects OutboxTable.updateWhere
    simp only [List.any_nil, updateRows_of_none fun _ _ => rfl]
  unfold Db.deleteObjects
  simp only [hobject, houtbox]

theorem deleteObjectByFilepath_twice (db : Db) (filepath : Text) :
    deleteObjectByFilepath (deleteObjectByFilepath db filepath) filepath =
      deleteObjectByFilepath db filepath := by
  apply deleteObjects_of_none
  intro r hr
  exact (Db.mem_deleteObjects.mp hr).2

theorem unlink_twice (root : Path) (disk : Disk) (filepath : Text) (fails : Bool) :
    unlink root (unlink root disk filepath fails) filepath fails =
      unlink root disk filepath fails := by
  unfold unlink
  split_ifs
  · rfl
  · rw [setFile_setFile]

theorem deleteObject_twice (s : AppState) (req : DeleteRequest) (unlinkFails dbFails : Bool) :
    deleteObject (deleteObject s req unlinkFails dbFails).2 req unlinkFails dbFails =
      deleteObject s req unlinkFails dbFails := by
  unfold deleteObject
  cases dbFails with
  | true => simp only [if_true, unlink_twice]
  | false =>
    simp only [Bool.false_eq_true, if_false, unlink_twice, deleteObjectByFilepath_twice]

/-- The messages of a peer that change something. -/
inductive Message
  | replicateObject (stream : List (Option ObjectChunk))
  | deleteObject (req : DeleteRequest)

/-- What fails at a receiver: file system calls, and the queries other than the grant on a
bucket that was just created. -/
structure Failures where
  io : IoFaults := {}
  bucketSelect : Bool := false
  bucketInsert : Bool := false
  query : Bool := false

def Failures.receive (f : Failures) : ReceiveFaults where
  io := f.io
  bucket := { select := f.bucketSelect, insert := f.bucketInsert }
  insert := f.query

/-- The service of the receiver. -/
def handle (P : Platform) (f : Failures) (s : AppState) (now : Instant) :
    Message → Except GrpcStatus ReplicationAck × AppState
  | .replicateObject stream => GrpcServer.replicateObject P s now stream f.receive
  | .deleteObject req => GrpcServer.deleteObject s req f.io.unlink f.query

theorem handle_twice (P : Platform) (f : Failures) (s : AppState) (now now' : Instant)
    (msg : Message) : handle P f (handle P f s now msg).2 now' msg = handle P f s now msg := by
  cases msg with
  | replicateObject stream => exact replicateObject_twice P s now now' stream rfl
  | deleteObject req => exact deleteObject_twice s req f.io.unlink f.query

/-- Handle a message once more at each of some instants. -/
def handleAgain (P : Platform) (f : Failures) (msg : Message) :
    Except GrpcStatus ReplicationAck × AppState → List Instant →
      Except GrpcStatus ReplicationAck × AppState
  | first, [] => first
  | first, now :: rest => handleAgain P f msg (handle P f first.2 now msg) rest

end MyS3.Redelivery
