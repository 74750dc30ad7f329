import Mathlib.Data.List.Sort
import MyS3.Database
import MyS3.Engine
import MyS3.Library.Like

/-!
Object queries and updates of `db/repository.rs`. A query whose filter is a
unique index returns the one matching row; an unordered LIMIT 1 over a filter
that may match several rows takes the choice as an argument.
-/

namespace MyS3.Repository

open Library.Strings Library.Tables Library.Timestamps Library.Like
open Models Objects Database

def isActive (r : ObjectRecord) : Bool := r.deletedAt.isNone

theorem isActive_iff {r : ObjectRecord} : isActive r = true ↔ r.deletedAt = none := by
  simp [isActive]

/-- Active rows under a key, in every bucket. -/
def activeByFilename (db : Db) (filename : Text) : List ObjectRecord :=
  db.object.rows.filter fun r => r.originalFilename == filename && isActive r

theorem mem_activeByFilename {db : Db} {filename : Text} {r : ObjectRecord} :
    r ∈ activeByFilename db filename ↔
      r ∈ db.object.rows ∧ r.originalFilename = filename ∧ r.deletedAt = none := by
  simp [activeByFilename, isActive]

/-- `get_object_by_filename` has no bucket in its filter. -/
def getObjectByFilename (q : Limit1 ObjectRecord) (db : Db) (filename : Text) :
    Option ObjectRecord := q.pick (activeByFilename db filename)

def getObjectByFilenameInBucket (db : Db) (filename : Text) (bucketId : Int) :
    Option ObjectRecord :=
  db.object.rows.find? fun r =>
    r.originalFilename == filename && r.bucketId == bucketId && isActive r

theorem getObjectByFilenameInBucket_eq_some {db : Db} {filename : Text} {bucketId : Int}
    {r : ObjectRecord} : getObjectByFilenameInBucket db filename bucketId = some r ↔
      r ∈ db.object.rows ∧ r.originalFilename = filename ∧ r.bucketId = bucketId ∧
        r.deletedAt = none := by
  constructor
  · intro h
    have hp := List.find?_some h
    simp only [Bool.and_eq_true, beq_iff_eq, isActive_iff] at hp
    exact ⟨List.mem_of_find?_eq_some h, hp.1.1, hp.1.2, hp.2⟩
  · intro h'
    obtain ⟨hr, rfl, rfl, hd⟩ := h'
    apply find_eq_of_unique hr (by simp [isActive, hd])
    intro a ha hp
    simp only [Bool.and_eq_true, beq_iff_eq, isActive_iff] at hp
    exact db.object.eq_of_active ha hr hp.2 hd hp.1.2 hp.1.1

theorem getObjectByFilenameInBucket_eq_none {db : Db} {filename : Text} {bucketId : Int} :
    getObjectByFilenameInBucket db filename bucketId = none ↔
      ∀ r ∈ db.object.rows, r.originalFilename = filename → r.bucketId = bucketId →
        r.deletedAt ≠ none := by
  simp only [getObjectByFilenameInBucket, List.find?_eq_none, Bool.and_eq_true, beq_iff_eq,
    isActive_iff, not_and, and_imp]

def getObjectById (db : Db) (id : Int) : Option ObjectRecord :=
  db.object.rows.find? fun r => r.id == id

theorem getObjectById_eq_some {db : Db} {id : Int} {r : ObjectRecord} :
    getObjectById db id = some r ↔ r ∈ db.object.rows ∧ r.id = id :=
  find_key_eq_some db.object.id_unique

def orderByUploadedDesc (rows : List ObjectRecord) : List ObjectRecord :=
  rows.insertionSort fun a b => textLe b.dateUploaded a.dateUploaded = true

/-- `list_objects`: the active rows of every bucket, newest first. -/
def listObjects (db : Db) : List ObjectRecord :=
  orderByUploadedDesc (db.object.rows.filter isActive)

def listObjectsInBucket (db : Db) (bucketId : Int) : List ObjectRecord :=
  orderByUploadedDesc (db.object.rows.filter fun r => r.bucketId == bucketId && isActive r)

/-- `soft_delete_object_by_filename`: without a bucket the row may be of any bucket. -/
def softDeleteCandidate (q : Limit1 ObjectRecord) (db : Db) (filename : Text) :
    Option Int → Option ObjectRecord
  | some bucketId => getObjectByFilenameInBucket db filename bucketId
  | none => q.pick (activeByFilename db filename)

def recycleById (db : Db) (now : Instant) (id : Int) : Db :=
  db.updateObjects (fun r => r.id == id) (recycle now)

def softDeleteObjectByFilename (q : Limit1 ObjectRecord) (db : Db) (now : Instant)
    (filename : Text) (bucketId : Option Int) : Option ObjectRecord × Db :=
  match softDeleteCandidate q db filename bucketId with
  | none => (none, db)
  | some r => (some r, recycleById db now r.id)

theorem softDelete_of_none {q : Limit1 ObjectRecord} {db : Db} {now : Instant} {filename : Text}
    {bucketId : Option Int} (h : softDeleteCandidate q db filename bucketId = none) :
    softDeleteObjectByFilename q db now filename bucketId = (none, db) := by
  simp only [softDeleteObjectByFilename, h]

theorem softDelete_of_some {q : Limit1 ObjectRecord} {db : Db} {now : Instant} {filename : Text}
    {bucketId : Option Int} {r : ObjectRecord}
    (h : softDeleteCandidate q db filename bucketId = some r) :
    softDeleteObjectByFilename q db now filename bucketId = (some r, recycleById db now r.id) := by
  simp only [softDeleteObjectByFilename, h]

/-- A row that a recycled database still holds active was active before. -/
theorem mem_recycleById {db : Db} {now : Instant} {id : Int} {r : ObjectRecord} :
    r ∈ (recycleById db now id).object.rows ↔
      (r ∈ db.object.rows ∧ r.id ≠ id) ∨
        ∃ a ∈ db.object.rows, a.id = id ∧ (recycle now).apply a = r := by
  simp [recycleById, mem_updateRows]

inductive RestoreError
  | notFound
  | notInRecycleBin
  | keyExists
  | uniqueViolation
  deriving DecidableEq

def restoreObject (db : Db) (now : Instant) (id : Int) : Except RestoreError Db :=
  match getObjectById db id with
  | none => .error .notFound
  | some record =>
    if record.deletedAt = none then .error .notInRecycleBin
    else if db.object.rows.any fun r =>
        r.bucketId == record.bucketId && r.originalFilename == record.originalFilename &&
          isActive r && r.id != id then .error .keyExists
    else
      match db.updateObjectsChecked (fun r => r.id == id) (restore now) with
      | none => .error .uniqueViolation
      | some db' => .ok db'

/-- The comparison is between the texts that SQLite holds and that sqlx binds. -/
def listExpiredDeletedObjects (db : Db) (olderThan : Int) : List ObjectRecord :=
  (db.object.rows.filter fun r => r.deletedAt.any fun d => textLe d.text (rfc3339 olderThan)).insertionSort
    fun a b => textLe (a.deletedAt.elim [] DbTime.text) (b.deletedAt.elim [] DbTime.text) = true

theorem mem_listExpiredDeletedObjects {db : Db} {olderThan : Int} {r : ObjectRecord} :
    r ∈ listExpiredDeletedObjects db olderThan ↔
      r ∈ db.object.rows ∧ ∃ d, r.deletedAt = some d ∧ textLe d.text (rfc3339 olderThan) = true := by
  simp [listExpiredDeletedObjects, Option.any_eq_true]

def likeEscape (t : Text) : Text :=
  t.flatMap fun c => if c = '\\' ∨ c = '%' ∨ c = '_' then ['\\', c] else [c]

/-- `original_filename LIKE ? ESCAPE '\'` with the escaped prefix and a percent sign. -/
def underPrefix (pre key : Text) : Bool := like (some '\\') (likeEscape pre ++ ['%']) key

def listKeysUnderPrefix (db : Db) (bucketId : Int) (pre : Text) : List ObjectRecord :=
  (db.object.rows.filter fun r =>
      isActive r && r.bucketId == bucketId && underPrefix pre r.originalFilename).insertionSort
    fun a b => textLe a.originalFilename b.originalFilename = true

/-- `soft_delete_prefix`, with the number of recycled rows. -/
def softDeletePrefix (db : Db) (now : Instant) (bucketId : Int) (pre : Text) : Nat × Db :=
  let p := fun r : ObjectRecord =>
    isActive r && r.bucketId == bucketId && underPrefix pre r.originalFilename
  ((db.object.rows.filter p).length, db.updateObjects p (recycle now))

inductive RenameError
  | emptyFolder
  | targetExists (key : Text)
  | uniqueViolation
  deriving DecidableEq

/-- The new keys of the listed rows, or the first that is already taken. A row that
matches only by letter case is skipped. -/
def planRenames (db : Db) (bucketId : Int) (fromPrefix toPrefix : Text) :
    List ObjectRecord → Except RenameError (List (Int × Text))
  | [] => .ok []
  | row :: rest =>
    match stripPrefix fromPrefix row.originalFilename with
    | none => planRenames db bucketId fromPrefix toPrefix rest
    | some tail =>
      let newKey := toPrefix ++ tail
      match getObjectByFilenameInBucket db newKey bucketId with
      | some _ => .error (.targetExists newKey)
      | none =>
        match planRenames db bucketId fromPrefix toPrefix rest with
        | .error err => .error err
        | .ok plan => .ok ((row.id, newKey) :: plan)

/-- One transaction: a refused update rolls all of them back. -/
def applyRenames (now : Instant) : Db → List (Int × Text) → Option Db
  | db, [] => some db
  | db, (id, newKey) :: rest =>
    (db.updateObjectsChecked (fun r => r.id == id && isActive r) (rename now newKey)).bind
      fun db' => applyRenames now db' rest

def renamePrefix (db : Db) (now : Instant) (bucketId : Int) (fromPrefix toPrefix : Text) :
    Except RenameError (Nat × Db) :=
  if fromPrefix = toPrefix then .ok (0, db)
  else
    let rows := listKeysUnderPrefix db bucketId fromPrefix
    if rows = [] then .error .emptyFolder
    else
      match planRenames db bucketId fromPrefix toPrefix rows with
      | .error err => .error err
      | .ok plan =>
        match applyRenames now db plan with
        | none => .error .uniqueViolation
        | some db' => .ok (plan.length, db')

def updateObjectEtag (db : Db) (now : Instant) (id : Int) (etagType : EtagType) (etag : Text) :
    Option Db :=
  if db.object.rows.any fun r => r.id == id && isActive r then
    some (db.updateObjects (fun r => r.id == id && isActive r) (setEtag now etagType etag))
  else none

/-- `insert_object_tx`; both dates default to the current timestamp. -/
def insertObjectTx (db : Db) (now : Instant) (filename filepath fileFormat : Text)
    (filesizeBytes : Int) (etagType : EtagType) (etag : Text) (bucketId : Int) :
    Option (Int × Db) :=
  (db.insertObject {
    originalFilename := filename
    filepath := filepath
    fileFormat := fileFormat
    filesizeBytes := filesizeBytes
    etagType := etagType
    etag := etag
    dateUploaded := now.currentTimestamp.text
    dateModified := now.currentTimestamp.text
    bucketId := bucketId }).map fun db' => (db.object.nextId, db')

/-- The columns that an idempotent insert writes. -/
def replicaRow (now : Instant) (filename filepath fileFormat : Text) (filesizeBytes : Int)
    (etagType : EtagType) (etag : Text) (dateUploaded dateModified : Option Text)
    (bucketId : Int) : ObjectTable.NewObject where
  originalFilename := filename
  filepath := filepath
  fileFormat := fileFormat
  filesizeBytes := filesizeBytes
  etagType := etagType
  etag := etag
  dateUploaded := dateUploaded.getD now.currentTimestamp.text
  dateModified := dateModified.getD now.currentTimestamp.text
  bucketId := bucketId

/-- `insert_object_idempotent`: a row with this filepath, of any state and content,
makes the insert do nothing; a taken active key or an unknown ETag type is an error. -/
def insertObjectIdempotent (db : Db) (now : Instant) (filename filepath fileFormat : Text)
    (filesizeBytes : Int) (etagType etag : Text) (dateUploaded dateModified : Option Text)
    (bucketId : Int) : Option Db :=
  match EtagType.fromStr etagType with
  | none => none
  | some etagType =>
    if db.object.rows.any fun r => r.filepath == filepath then some db
    else
      db.insertObject (replicaRow now filename filepath fileFormat filesizeBytes etagType etag
        dateUploaded dateModified bucketId)

/-- What a successful idempotent insert did. -/
theorem insertObjectIdempotent_eq {db db' : Db} {now : Instant}
    {filename filepath fileFormat : Text} {filesizeBytes : Int} {etagType etag : Text}
    {dateUploaded dateModified : Option Text} {bucketId : Int}
    (h : insertObjectIdempotent db now filename filepath fileFormat filesizeBytes etagType etag
      dateUploaded dateModified bucketId = some db') :
    ((∃ r ∈ db.object.rows, r.filepath = filepath) ∧ db' = db) ∨
      ((∀ r ∈ db.object.rows, r.filepath ≠ filepath) ∧
        ∃ e, EtagType.fromStr etagType = some e ∧
          db.insertObject (replicaRow now filename filepath fileFormat filesizeBytes e etag
            dateUploaded dateModified bucketId) = some db') := by
  unfold insertObjectIdempotent at h
  cases he : EtagType.fromStr etagType with
  | none => simp [he] at h
  | some e =>
    rw [he] at h
    simp only at h
    by_cases hany : (db.object.rows.any fun r => r.filepath == filepath) = true
    · rw [if_pos hany] at h
      simp only [List.any_eq_true, beq_iff_eq] at hany
      exact Or.inl ⟨hany, (Option.some.inj h).symm⟩
    · rw [if_neg hany] at h
      simp only [List.any_eq_true, beq_iff_eq, not_exists, not_and] at hany
      exact Or.inr ⟨hany, e, rfl, h⟩

theorem insertObjectIdempotent_bucket {db db' : Db} {now : Instant}
    {filename filepath fileFormat : Text} {filesizeBytes : Int} {etagType etag : Text}
    {dateUploaded dateModified : Option Text} {bucketId : Int}
    (h : insertObjectIdempotent db now filename filepath fileFormat filesizeBytes etagType etag
      dateUploaded dateModified bucketId = some db') : db'.bucket = db.bucket := by
  rcases insertObjectIdempotent_eq h with ⟨_, rfl⟩ | ⟨_, e, _, hins⟩
  · rfl
  · exact (Db.insertObject_eq hins).2.2.2.1

/-- An idempotent insert of a new filepath fails only on a taken key. -/
theorem insertObjectIdempotent_isSome {db : Db} (now : Instant) (filename fileFormat : Text)
    {filepath : Text} (filesizeBytes : Int) {etagType : Text} (etag : Text)
    (dateUploaded dateModified : Option Text) {bucketId : Int} {e : EtagType}
    (htype : EtagType.fromStr etagType = some e)
    (hnew : ∀ r ∈ db.object.rows, r.filepath ≠ filepath)
    (hb : ∃ b ∈ db.bucket.rows, b.id = bucketId) :
    (insertObjectIdempotent db now filename filepath fileFormat filesizeBytes etagType etag
        dateUploaded dateModified bucketId).isSome = true ↔
      ∀ r ∈ db.object.rows, activeKey r ≠ some (bucketId, filename) := by
  have hany : ¬ (db.object.rows.any fun r => r.filepath == filepath) = true := by
    simpa using hnew
  unfold insertObjectIdempotent
  simp only [htype, hany, Bool.false_eq_true, if_false]
  rw [Db.insertObject_isSome hb]
  exact and_iff_right hnew

def deleteObjectByFilepath (db : Db) (filepath : Text) : Db :=
  db.deleteObjects fun r => r.filepath == filepath

/-- `object_by_filepath`: recycled rows do not count. -/
def objectByFilepath (db : Db) (filepath : Text) : Option ObjectRecord :=
  db.object.rows.find? fun r => r.filepath == filepath && isActive r

theorem objectByFilepath_eq_some {db : Db} {filepath : Text} {r : ObjectRecord} :
    objectByFilepath db filepath = some r ↔
      r ∈ db.object.rows ∧ r.filepath = filepath ∧ r.deletedAt = none := by
  constructor
  · intro h
    have hp := List.find?_some h
    simp only [Bool.and_eq_true, beq_iff_eq, isActive_iff] at hp
    exact ⟨List.mem_of_find?_eq_some h, hp.1, hp.2⟩
  · intro h'
    obtain ⟨hr, rfl, hd⟩ := h'
    apply find_eq_of_unique hr (by simp [isActive, hd])
    intro a ha hp
    simp only [Bool.and_eq_true, beq_iff_eq, isActive_iff] at hp
    exact db.object.eq_of_filepath ha hr hp.1

/-- `digest_map`: filepath and ETag of the active rows; the prefix is not escaped. -/
def digestMap (db : Db) (pre : Text) : List (Text × Text) :=
  ((db.object.rows.filter isActive).filter fun r =>
      pre = [] || like none (pre ++ ['%']) r.filepath ||
        like none (pre ++ ['%']) r.originalFilename).map fun r => (r.filepath, r.etag)

/-- The digest as a map: filepaths are unique. -/
def digestLookup (digest : List (Text × Text)) (filepath : Text) : Option Text :=
  (digest.find? fun e => e.1 == filepath).map (·.2)

theorem mem_digestMap_nil {db : Db} {e : Text × Text} :
    e ∈ digestMap db [] ↔
      ∃ r ∈ db.object.rows, r.deletedAt = none ∧ r.filepath = e.1 ∧ r.etag = e.2 := by
  simp only [digestMap, decide_true, Bool.true_or, List.filter_true, List.mem_map,
    List.mem_filter, isActive_iff]
  constructor
  · intro h
    obtain ⟨r, ⟨hr, hd⟩, rfl⟩ := h
    exact ⟨r, hr, hd, rfl, rfl⟩
  · intro h
    obtain ⟨r, hr, hd, h1, h2⟩ := h
    exact ⟨r, ⟨hr, hd⟩, Prod.ext h1 h2⟩

/-- The digest maps a filepath to an ETag exactly when an active row has both. -/
theorem digestLookup_digestMap {db : Db} {filepath etag : Text} :
    digestLookup (digestMap db []) filepath = some etag ↔
      ∃ r ∈ db.object.rows, r.deletedAt = none ∧ r.filepath = filepath ∧ r.etag = etag := by
  unfold digestLookup
  rw [Option.map_eq_some_iff]
  constructor
  · intro h
    obtain ⟨e, he, rfl⟩ := h
    obtain ⟨r, hr, hd, hf, het⟩ := mem_digestMap_nil.mp (List.mem_of_find?_eq_some he)
    have hfp : e.1 = filepath := by simpa using List.find?_some he
    exact ⟨r, hr, hd, hf.trans hfp, het⟩
  · intro h
    obtain ⟨r, hr, hd, rfl, rfl⟩ := h
    refine ⟨(r.filepath, r.etag), ?_, rfl⟩
    apply find_eq_of_unique (mem_digestMap_nil.mpr ⟨r, hr, hd, rfl, rfl⟩) (by simp)
    intro h hb hp
    obtain ⟨f, t⟩ := h
    obtain ⟨a, ha, _, haf, hae⟩ := mem_digestMap_nil.mp hb
    have hrow : a = r := db.object.eq_of_filepath ha hr (haf.trans (by simpa using hp))
    rw [← hrow]
    exact Prod.ext haf.symm hae.symm

/-- `bucket_used_bytes`; a sum that leaves 64 bits is a query error. -/
def bucketUsedBytes (db : Db) (bucketId : Int) : Option Int :=
  let total := ((db.object.rows.filter fun r => r.bucketId == bucketId && isActive r).map
    (·.filesizeBytes)).sum
  if total ≤ i64Max then some total else none

inductive QuotaError
  | query
  | exceeded (peerId : Text) (used netGrowth allocated : Int)
  deriving DecidableEq

def checkHardQuota (db : Db) (bucketId netGrowth : Int) : Except QuotaError Unit :=
  if netGrowth ≤ 0 then .ok ()
  else
    match bucketUsedBytes db bucketId with
    | none => .error .query
    | some used =>
      let projected := saturate (used + netGrowth)
      match db.bucketReplicationPeer.find? fun a =>
          a.bucketId == bucketId && a.quotaMode == .hard && decide (a.allocatedBytes < projected) with
      | none => .ok ()
      | some a => .error (.exceeded a.peerId used netGrowth a.allocatedBytes)

/-- The name of the bucket of an object. -/
def bucketNameOf (db : Db) (r : ObjectRecord) : Option Text :=
  (db.bucket.byId r.bucketId).map (·.name)

theorem bucketNameOf_eq_some {db : Db} {r : ObjectRecord} {name : Text} :
    bucketNameOf db r = some name ↔ ∃ b ∈ db.bucket.rows, b.id = r.bucketId ∧ b.name = name := by
  unfold bucketNameOf
  rw [Option.map_eq_some_iff]
  simp only [BucketTable.byId_eq_some, and_assoc]

def defaultBucketId (db : Db) : Option Int := (db.bucket.byName "storage".toList).map (·.id)

def bucketEtagType (db : Db) (bucketId : Int) : Option EtagType :=
  (db.bucket.byId bucketId).map (·.etagType)

end MyS3.Repository
