import MyS3.S3Routes

/-!
Versions of a key. A soft delete takes one active row out of the active index; an
acknowledged upload takes out the previous version, if any, and adds one row with
a new id, a new filepath and the content of the body.
-/

namespace MyS3.Versions

open Library.Strings Library.Tables Library.Paths
open Models Objects Database Engine Repository Outbox Http S3Routes

theorem recycle_deletedAt (now : Instant) (r : ObjectRecord) :
    ((recycle now).apply r).deletedAt ≠ none := by
  simp [recycle]

/-- An active row survives the recycling of another one. -/
theorem mem_active_recycleById (db : Db) (now : Instant) (id : Int) (r : ObjectRecord) :
    (r ∈ (recycleById db now id).object.rows ∧ r.deletedAt = none) ↔
      r ∈ db.object.rows ∧ r.deletedAt = none ∧ r.id ≠ id := by
  rw [mem_recycleById]
  constructor
  · intro h
    rcases h with ⟨⟨hr, hid⟩ | ⟨a, _, _, rfl⟩, hactive⟩
    · exact ⟨hr, hactive, hid⟩
    · exact absurd hactive (recycle_deletedAt now a)
  · intro h
    obtain ⟨hr, hactive, hid⟩ := h
    exact ⟨Or.inl ⟨hr, hid⟩, hactive⟩

/-- A soft delete in a bucket takes out the active row of the key there. -/
theorem mem_active_softDelete (q : Limit1 ObjectRecord) (db : Db) (now : Instant) (key : Text)
    (b : Int) (r : ObjectRecord) :
    (r ∈ (softDeleteObjectByFilename q db now key (some b)).2.object.rows ∧
        r.deletedAt = none) ↔
      r ∈ db.object.rows ∧ r.deletedAt = none ∧ ¬ (r.bucketId = b ∧ r.originalFilename = key) := by
  have hcand : softDeleteCandidate q db key (some b) = getObjectByFilenameInBucket db key b := rfl
  cases hget : getObjectByFilenameInBucket db key b with
  | none =>
    rw [softDelete_of_none (hcand.trans hget)]
    have hnone := getObjectByFilenameInBucket_eq_none.mp hget
    constructor
    · intro h'
      obtain ⟨hr, hactive⟩ := h'
      exact ⟨hr, hactive, fun h => hnone r hr h.2 h.1 hactive⟩
    · intro h'
      obtain ⟨hr, hactive, _⟩ := h'
      exact ⟨hr, hactive⟩
  | some a =>
    rw [softDelete_of_some (hcand.trans hget), mem_active_recycleById]
    obtain ⟨ha, hkey, hbucket, hactive⟩ := getObjectByFilenameInBucket_eq_some.mp hget
    constructor
    · intro h'
      obtain ⟨hr, hract, hid⟩ := h'
      refine ⟨hr, hract, ?_⟩
      intro h'
      obtain ⟨hb, hk⟩ := h'
      have heq := db.object.eq_of_active hr ha hract hactive (hb.trans hbucket.symm)
        (hk.trans hkey.symm)
      exact hid (by rw [heq])
    · intro h'
      obtain ⟨hr, hract, hne⟩ := h'
      refine ⟨hr, hract, ?_⟩
      intro hid
      rw [db.object.eq_of_id hr ha hid] at hne
      exact hne ⟨hbucket, hkey⟩

/-- A soft delete keeps the rows of the other keys and buckets as they are. -/
theorem softDelete_other_rows {q : Limit1 ObjectRecord} {db : Db} {now : Instant} {key : Text}
    {b : Int} {r : ObjectRecord} (hr : r.bucketId ≠ b) :
    r ∈ (softDeleteObjectByFilename q db now key (some b)).2.object.rows ↔
      r ∈ db.object.rows := by
  have hcand : softDeleteCandidate q db key (some b) = getObjectByFilenameInBucket db key b := rfl
  cases hget : getObjectByFilenameInBucket db key b with
  | none => rw [softDelete_of_none (hcand.trans hget)]
  | some a =>
    rw [softDelete_of_some (hcand.trans hget), mem_recycleById]
    obtain ⟨ha, _, hbucket, _⟩ := getObjectByFilenameInBucket_eq_some.mp hget
    constructor
    · intro h
      rcases h with ⟨hmem, _⟩ | ⟨c, hc, hid, rfl⟩
      · exact hmem
      · have heq := db.object.eq_of_id hc ha hid
        exact absurd hbucket (heq ▸ hr)
    · intro hmem
      refine Or.inl ⟨hmem, fun hid => ?_⟩
      rw [db.object.eq_of_id hmem ha hid] at hr
      exact hr hbucket

theorem softDelete_tables (q : Limit1 ObjectRecord) (db : Db) (now : Instant) (key : Text)
    (bucketId : Option Int) :
    let db' := (softDeleteObjectByFilename q db now key bucketId).2
    db'.bucket = db.bucket ∧ db'.clusterPeer = db.clusterPeer ∧
      db'.bucketReplicationPeer = db.bucketReplicationPeer ∧
      db'.replicationOutbox = db.replicationOutbox ∧ db'.object.nextId = db.object.nextId := by
  unfold softDeleteObjectByFilename
  cases softDeleteCandidate q db key bucketId with
  | none => exact ⟨rfl, rfl, rfl, rfl, rfl⟩
  | some r => exact ⟨rfl, rfl, rfl, rfl, rfl⟩

/-- The database after an upload recycled the previous version of its key. -/
abbrev recycled (db : Db) (now : Instant) (key : Text) (b : Int) : Db :=
  (softDeleteObjectByFilename Limit1.first db now key (some b)).2

/-- The row that an upload inserts. -/
def uploadedRow (P : Platform) (now : Instant) (uuid : Uuid) (key : Text) (etagType : EtagType)
    (data : Bytes) (b : Int) : ObjectTable.NewObject where
  originalFilename := key
  filepath := (Target.fresh uuid).filepath P key
  fileFormat := extensionFromFilename P key
  filesizeBytes := data.length
  etagType := etagType
  etag := P.digest etagType data
  dateUploaded := now.currentTimestamp.text
  dateModified := now.currentTimestamp.text
  bucketId := b

/-- The file of a new blob. -/
def blobPath (P : Platform) (s : AppState) (uuid : Uuid) (key : Text) : Path :=
  absolutePathFor s.config.storageRoot ((Target.fresh uuid).filepath P key)

/-- What an acknowledged upload to a bucket did. -/
structure Uploaded (P : Platform) (s s' : AppState) (now : Instant) (uuid : Uuid) (key : Text)
    (data : Bytes) (b : Int) (etagType : EtagType) : Prop where
  config : s'.config = s.config
  disk : s'.disk = setFile s.disk (blobPath P s uuid key) (some data)
  bucket : s'.db.bucket = s.db.bucket
  clusterPeer : s'.db.clusterPeer = s.db.clusterPeer
  assignments : s'.db.bucketReplicationPeer = s.db.bucketReplicationPeer
  nextId : s'.db.object.nextId = s.db.object.nextId + 1
  free : (recycled s.db now key b).object.Free
    (uploadedRow P now uuid key etagType data b)
  rows : s'.db.object.rows =
    (recycled s.db now key b).object.rows ++
      [(uploadedRow P now uuid key etagType data b).record s.db.object.nextId]
  outbox : s'.db.replicationOutbox =
    enqueueAll now s.db.object.nextId ((Target.fresh uuid).filepath P key)
      (P.digest etagType data) .put s.db.replicationOutbox
      (targetPeers s'.db s.db.object.nextId s.config.nodeId)

/-- The upload of a stored blob fails before it recycles the previous version. -/
def FailsBeforeRecycle (db : Db) (key : Text) (bucketId size : Int) (faults : PutFaults) : Prop :=
  faults.beginTx = true ∨ faults.previousSize = true ∨
    quotaResponse db bucketId (saturate (size - previousSize db key bucketId))
      faults.hardQuota ≠ none ∨ faults.softDelete = true

theorem quotaResponse_isFailure {db : Db} {b netGrowth : Int} {fails : Bool}
    {refusal : Response} (h : quotaResponse db b netGrowth fails = some refusal) :
    refusal.isFailure = true := by
  unfold quotaResponse at h
  split_ifs at h
  · rw [← Option.some.inj h]
    rfl
  · split at h
    · cases h
    · rw [← Option.some.inj h]
      rfl
    · rw [← Option.some.inj h]
      rfl

/-- The active rows after an acknowledged upload: the new row, and all others but the
previous version. -/
theorem Uploaded.mem_active {P : Platform} {s s' : AppState} {now : Instant} {uuid : Uuid}
    {key : Text} {data : Bytes} {b : Int} {etagType : EtagType}
    (h : Uploaded P s s' now uuid key data b etagType) {r : ObjectRecord} :
    (r ∈ s'.db.object.rows ∧ r.deletedAt = none) ↔
      (r ∈ s.db.object.rows ∧ r.deletedAt = none ∧
          ¬ (r.bucketId = b ∧ r.originalFilename = key)) ∨
        r = (uploadedRow P now uuid key etagType data b).record s.db.object.nextId := by
  rw [h.rows, List.mem_append, List.mem_singleton, ← mem_active_softDelete Limit1.first s.db
    now]
  constructor
  · intro h'
    rcases h' with ⟨hr | rfl, hactive⟩
    · exact Or.inl ⟨hr, hactive⟩
    · exact Or.inr rfl
  · intro h'
    rcases h' with ⟨hr, hactive⟩ | rfl
    · exact ⟨Or.inl hr, hactive⟩
    · exact ⟨Or.inr rfl, rfl⟩

/-- The database steps of an upload: an error before the soft delete changes nothing,
a later one leaves the soft delete, and a success inserts and enqueues. -/
theorem registerObject_cases (s : AppState) (now : Instant) (key : Text) (b : Int)
    (stored : StoredObject) (faults : PutFaults) :
    (∃ refusal, registerObject s now key b stored faults = (some refusal, s.db) ∧
        refusal.isFailure = true ∧
        FailsBeforeRecycle s.db key b stored.filesizeBytes faults) ∨
      (registerObject s now key b stored faults =
          (some databaseError, recycled s.db now key b) ∧
        ¬ FailsBeforeRecycle s.db key b stored.filesizeBytes faults) ∨
      (∃ id inserted, insertObjectTx (recycled s.db now key b) now key stored.filepath
          stored.fileFormat stored.filesizeBytes stored.etagType stored.etag b =
            some (id, inserted) ∧
        registerObject s now key b stored faults = (none, enqueuePutForActivePeers inserted now id
          stored.filepath stored.etag s.config.nodeId) ∧
        ¬ FailsBeforeRecycle s.db key b stored.filesizeBytes faults) := by
  unfold registerObject
  by_cases hbegin : faults.beginTx = true
  · exact Or.inl ⟨databaseError, by simp [hbegin], rfl, Or.inl hbegin⟩
  by_cases hprev : faults.previousSize = true
  · exact Or.inl ⟨databaseError, by simp [hbegin, hprev], rfl, Or.inr (Or.inl hprev)⟩
  rw [if_neg hbegin, if_neg hprev]
  simp only
  cases hquota : quotaResponse s.db b
      (saturate (stored.filesizeBytes - previousSize s.db key b)) faults.hardQuota with
  | some refusal =>
    exact Or.inl ⟨refusal, rfl, quotaResponse_isFailure hquota,
      Or.inr (Or.inr (Or.inl (by simp [hquota])))⟩
  | none =>
    by_cases hsoft : faults.softDelete = true
    · exact Or.inl ⟨databaseError, by simp [hsoft], rfl, Or.inr (Or.inr (Or.inr hsoft))⟩
    have hlate : ¬ FailsBeforeRecycle s.db key b stored.filesizeBytes faults := by
      intro h'
      rcases h' with h | h | h | h
      · exact hbegin h
      · exact hprev h
      · exact h hquota
      · exact hsoft h
    simp only [if_neg hsoft]
    cases hins : query faults.insert (insertObjectTx (recycled s.db now key b) now key
        stored.filepath stored.fileFormat stored.filesizeBytes stored.etagType stored.etag b) with
    | none => exact Or.inr (Or.inl ⟨rfl, hlate⟩)
    | some row =>
      obtain ⟨id, inserted⟩ := row
      simp only
      by_cases henqueue : faults.enqueue = true
      · exact Or.inr (Or.inl ⟨by simp [henqueue], hlate⟩)
      by_cases hcommit : faults.commit = true
      · exact Or.inr (Or.inl ⟨by simp [henqueue, hcommit], hlate⟩)
      have hfail : faults.insert = false := by
        by_contra hf
        rw [Bool.not_eq_false] at hf
        simp [hf] at hins
      rw [hfail, query_false] at hins
      exact Or.inr (Or.inr ⟨id, inserted, hins, by simp [henqueue, hcommit], hlate⟩)

theorem uploaded_of_insert {P : Platform} {s : AppState} {now : Instant} {uuid : Uuid}
    {key : Text} {data : Bytes} {b : Int} {etagType : EtagType} {id : Int} {inserted db : Db}
    {disk : Disk}
    (hins : insertObjectTx (recycled s.db now key b) now
      key ((Target.fresh uuid).filepath P key) (extensionFromFilename P key) data.length etagType
      (P.digest etagType data) b = some (id, inserted))
    (hdb : db = enqueuePutForActivePeers inserted now id ((Target.fresh uuid).filepath P key)
      (P.digest etagType data) s.config.nodeId)
    (hdisk : disk = setFile s.disk (blobPath P s uuid key) (some data)) :
    Uploaded P s { s with db := db, disk := disk } now uuid key data b etagType := by
  obtain ⟨hbucket, hpeer, hassign, hout, hnext⟩ :=
    softDelete_tables Limit1.first s.db now key (some b)
  obtain ⟨inserted', hrow, hpair⟩ := Option.map_eq_some_iff.mp hins
  obtain ⟨hid, rfl⟩ := Prod.mk.inj hpair
  obtain ⟨hfree, hrows, hnext', hbucket', hpeer', hassign', hout'⟩ := Db.insertObject_eq hrow
  rw [hnext] at hid hrows hnext'
  subst hdb hid
  exact {
    config := rfl
    disk := hdisk
    bucket := hbucket'.trans hbucket
    clusterPeer := hpeer'.trans hpeer
    assignments := hassign'.trans hassign
    nextId := hnext'
    free := hfree
    rows := hrows
    outbox := by
      have hold := hout'.trans hout
      unfold enqueuePutForActivePeers enqueueForActivePeers
      rw [Db.withOutbox, hold]
      rfl }

/-- A refused upload writes no file but that of its blob, and recycles at most the
previous version of its key. -/
structure Refused (P : Platform) (s s' : AppState) (now : Instant) (uuid : Uuid) (key : Text)
    (b : Option Int) : Prop where
  config : s'.config = s.config
  disk : ∀ p, p ≠ blobPath P s uuid key → s'.disk p = s.disk p
  db : s'.db = s.db ∨ ∃ id, b = some id ∧ s'.db = recycled s.db now key id

/-- The two outcomes of an upload. -/
theorem putObjectKeyedInBucket_cases (P : Platform) (s : AppState) (now : Instant) (uuid : Uuid)
    (key : Text) (headers : Headers) (body : List (Option Bytes)) (bucketId : Option Int)
    (faults : PutFaults) :
    let call := putObjectKeyedInBucket P s now uuid key headers body bucketId faults
    (call.1.isFailure = true ∧ Refused P s call.2 now uuid key
        (uploadBucket s.db bucketId faults.defaultBucketId)) ∨
      ∃ b default, call.1 = .stored (etagHeaders (P.digest (resolveEtagType headers default)
          (content body)) (resolveEtagType headers default)) ∧
        uploadBucket s.db bucketId faults.defaultBucketId = some b ∧
        bucketEtagType s.db b = some default ∧ ¬ CopyBreaks body faults.io ∧
        Uploaded P s call.2 now uuid key (content body) b (resolveEtagType headers default) := by
  intro call
  have hdef : call = putObjectKeyedInBucket P s now uuid key headers body bucketId faults := rfl
  clear_value call
  unfold putObjectKeyedInBucket at hdef
  cases hbucket : uploadBucket s.db bucketId faults.defaultBucketId with
  | none =>
    rw [hbucket] at hdef
    subst hdef
    exact Or.inl ⟨rfl, rfl, fun _ _ => rfl, Or.inl rfl⟩
  | some b =>
    rw [hbucket] at hdef
    simp only at hdef
    cases hetag : query faults.bucketEtagType (bucketEtagType s.db b) with
    | none =>
      rw [hetag] at hdef
      subst hdef
      exact Or.inl ⟨rfl, rfl, fun _ _ => rfl, Or.inl rfl⟩
    | some default =>
      rw [hetag] at hdef
      simp only at hdef
      rcases hput : putChunks P s.config.storageRoot s.disk body key
        (resolveEtagType headers default) none (.fresh uuid) faults.io with ⟨res, disk⟩
      have hother : ∀ p, p ≠ blobPath P s uuid key → disk p = s.disk p := by
        intro p hp
        have hkeep := putChunks_other P s.config.storageRoot s.disk body key
          (resolveEtagType headers default) none (.fresh uuid) faults.io hp
        rwa [hput] at hkeep
      rw [hput] at hdef
      cases res with
      | error err =>
        subst hdef
        exact Or.inl ⟨rfl, rfl, hother, Or.inl rfl⟩
      | ok stored =>
        obtain ⟨hstored, hdisk, _⟩ := putChunks_ok hput
        have hundo : ∀ p, p ≠ blobPath P s uuid key →
            unlink s.config.storageRoot disk stored.filepath faults.io.unlink p = s.disk p := by
          intro p hp
          rw [← hother p hp]
          apply unlink_other
          rw [hstored]
          exact hp
        simp only at hdef
        rcases registerObject_cases s now key b stored faults with
          ⟨refusal, heq, hfailure, _⟩ | ⟨heq, _⟩ | ⟨id, inserted, hins, heq, _⟩
        · rw [heq] at hdef
          subst hdef
          exact Or.inl ⟨hfailure, rfl, hundo, Or.inl rfl⟩
        · rw [heq] at hdef
          subst hdef
          exact Or.inl ⟨rfl, rfl, hundo, Or.inr ⟨b, rfl, rfl⟩⟩
        · rw [heq] at hdef
          subst hdef
          have hfound : bucketEtagType s.db b = some default := by
            by_cases hfail : faults.bucketEtagType = true
            · simp [hfail] at hetag
            · rw [Bool.not_eq_true] at hfail
              rwa [hfail, query_false] at hetag
          subst hstored
          exact Or.inr ⟨b, default, rfl, rfl, hfound, putChunks_ok_copy hput,
            uploaded_of_insert hins rfl hdisk⟩

end MyS3.Versions
