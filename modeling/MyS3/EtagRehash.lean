import MyS3.S3Routes

/-!
The ETag rehash of a bucket, `server/etag_rehash.rs`: every active object that is no folder
marker is hashed again, and its row and its replication follow one object at a time. An
object that cannot be hashed or updated is skipped. The progress columns of the bucket are
not kept here.
-/

namespace MyS3.EtagRehash

open Library.Strings Library.Tables Library.Like
open Models Objects Database Engine Repository Outbox Http

/-- `set_bucket_etag_type`; `none` is a missing bucket. -/
def setBucketEtagType (db : Db) (bucketId : Int) (etagType : EtagType) : Option Db :=
  if db.bucket.rows.any fun b => b.id == bucketId then
    some { db with
      bucket := db.bucket.updateWhere (fun b => b.id == bucketId)
        (fun b => { b with etagType := etagType }) (fun _ => rfl) (fun _ => rfl)
      object_bucket := by
        intro r hr
        obtain ⟨b, hb, hid⟩ := db.object_bucket r hr
        obtain ⟨c, hc, heq⟩ := exists_updateRows (·.id) (fun b => b.id == bucketId)
          (f := fun b => { b with etagType := etagType }) (fun _ => rfl) hb
        exact ⟨c, hc, heq.trans hid⟩ }
  else none

def listObjectsForEtagRehash (db : Db) (bucketId : Int) : List ObjectRecord :=
  orderByUploadedDesc (db.object.rows.filter fun r =>
    r.bucketId == bucketId && isActive r && r.originalFilename != ".keep".toList &&
      !like none "%/.keep".toList r.originalFilename)

/-- The calls that fail, object by object. -/
structure RehashFaults where
  list : Bool := false
  read : ObjectRecord → Bool := fun _ => false
  update : ObjectRecord → Bool := fun _ => false
  enqueue : ObjectRecord → Bool := fun _ => false
  bump : ObjectRecord → Bool := fun _ => false

/-- `hash_filepath`. -/
def hashFilepath (P : Platform) (s : AppState) (filepath : Text) (etagType : EtagType) :
    Option Text :=
  (openRead s.config.storageRoot s.disk filepath).map (P.digest etagType)

/-- The row is updated before its jobs are enqueued in a transaction of their own. -/
def rehashOne (P : Platform) (s : AppState) (now : Instant) (etagType : EtagType)
    (faults : RehashFaults) (obj : ObjectRecord) : Bool × AppState :=
  match query (faults.read obj) (hashFilepath P s obj.filepath etagType) with
  | none => (false, s)
  | some etag =>
    match query (faults.update obj) (updateObjectEtag s.db now obj.id etagType etag) with
    | none => (false, s)
    | some db =>
      if faults.enqueue obj then (false, { s with db := db })
      else
        (true, { s with
          db := enqueuePutForActivePeers db now obj.id obj.filepath etag s.config.nodeId })

/-- The loop ends early when the progress of a rehashed object cannot be recorded. -/
def rehashAll (P : Platform) (now : Instant) (etagType : EtagType) (faults : RehashFaults) :
    AppState → List ObjectRecord → AppState
  | s, [] => s
  | s, obj :: rest =>
    let (rehashed, s') := rehashOne P s now etagType faults obj
    if rehashed && faults.bump obj then s' else rehashAll P now etagType faults s' rest

def runBucketRehash (P : Platform) (s : AppState) (now : Instant) (bucketId : Int)
    (etagType : EtagType) (faults : RehashFaults) : AppState :=
  if faults.list then s
  else rehashAll P now etagType faults s (listObjectsForEtagRehash s.db bucketId)

theorem mem_listObjectsForEtagRehash {db : Db} {bucketId : Int} {r : ObjectRecord}
    (h : r ∈ listObjectsForEtagRehash db bucketId) : r ∈ db.object.rows := by
  unfold listObjectsForEtagRehash orderByUploadedDesc at h
  rw [List.mem_insertionSort] at h
  exact List.mem_of_mem_filter h

theorem setBucketEtagType_object {db db' : Db} {bucketId : Int} {etagType : EtagType}
    (h : setBucketEtagType db bucketId etagType = some db') : db'.object = db.object := by
  unfold setBucketEtagType at h
  split_ifs at h
  rw [← Option.some.inj h]

theorem updateObjectEtag_rows {db db' : Db} {now : Instant} {id : Int} {etagType : EtagType}
    {etag : Text} (h : updateObjectEtag db now id etagType etag = some db') :
    db'.object.rows =
      updateRows (fun r => r.id == id && isActive r) (setEtag now etagType etag).apply
        db.object.rows := by
  unfold updateObjectEtag at h
  split_ifs at h
  rw [← Option.some.inj h]
  rfl

/-- What the rehash of one object changes, if anything. -/
theorem rehashOne_cases (P : Platform) (s : AppState) (now : Instant) (etagType : EtagType)
    (faults : RehashFaults) (obj : ObjectRecord) :
    (rehashOne P s now etagType faults obj).2 = s ∨
      ∃ data, openRead s.config.storageRoot s.disk obj.filepath = some data ∧
        (rehashOne P s now etagType faults obj).2.config = s.config ∧
        (rehashOne P s now etagType faults obj).2.disk = s.disk ∧
        (rehashOne P s now etagType faults obj).2.db.object.rows =
          updateRows (fun r => r.id == obj.id && isActive r)
            (setEtag now etagType (P.digest etagType data)).apply s.db.object.rows := by
  unfold rehashOne
  cases hread : query (faults.read obj) (hashFilepath P s obj.filepath etagType) with
  | none => exact Or.inl rfl
  | some etag =>
    simp only
    cases hupdate : query (faults.update obj) (updateObjectEtag s.db now obj.id etagType etag) with
    | none => exact Or.inl rfl
    | some db =>
      have hhash : hashFilepath P s obj.filepath etagType = some etag := by
        unfold query at hread
        split_ifs at hread
        exact hread
      obtain ⟨data, hdata, rfl⟩ := Option.map_eq_some_iff.mp hhash
      have hrows : db.object.rows = _ := updateObjectEtag_rows (by
        unfold query at hupdate
        split_ifs at hupdate
        exact hupdate)
      refine Or.inr ⟨data, hdata, ?_⟩
      simp only
      split_ifs
      · exact ⟨rfl, rfl, hrows⟩
      · exact ⟨rfl, rfl, hrows⟩

end MyS3.EtagRehash
