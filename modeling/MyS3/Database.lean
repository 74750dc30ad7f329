import MyS3.Objects

/-!
The metadata database of one node: the tables with their keys, and the foreign
key from an object to its bucket. The outbox keeps no key to the object table:
deleting an object clears the references to it, as ON DELETE SET NULL does.
-/

namespace MyS3.Database

open Library.Strings Library.Tables Models Objects

structure BucketTable where
  rows : List BucketRecord
  nextId : Int
  id_lt : ∀ b ∈ rows, b.id < nextId
  id_unique : rows.Pairwise fun a b => a.id ≠ b.id
  name_unique : rows.Pairwise fun a b => a.name ≠ b.name

namespace BucketTable

theorem eq_of_id (t : BucketTable) {a b : BucketRecord} (ha : a ∈ t.rows) (hb : b ∈ t.rows)
    (h : a.id = b.id) : a = b := eq_of_pairwise_ne t.id_unique ha hb h

theorem eq_of_name (t : BucketTable) {a b : BucketRecord} (ha : a ∈ t.rows) (hb : b ∈ t.rows)
    (h : a.name = b.name) : a = b := eq_of_pairwise_ne t.name_unique ha hb h

def byId (t : BucketTable) (id : Int) : Option BucketRecord :=
  t.rows.find? fun b => b.id == id

def byName (t : BucketTable) (name : Text) : Option BucketRecord :=
  t.rows.find? fun b => b.name == name

theorem byId_eq_some {t : BucketTable} {id : Int} {b : BucketRecord} :
    t.byId id = some b ↔ b ∈ t.rows ∧ b.id = id := find_key_eq_some t.id_unique

theorem byName_eq_some {t : BucketTable} {name : Text} {b : BucketRecord} :
    t.byName name = some b ↔ b ∈ t.rows ∧ b.name = name := find_key_eq_some t.name_unique

theorem byName_eq_none {t : BucketTable} {name : Text} :
    t.byName name = none ↔ ∀ b ∈ t.rows, b.name ≠ name := by
  simp [byName, List.find?_eq_none]

def newBucket (id : Int) (name : Text) (ownerAccountId : Option Int) (replicateToAll : Bool)
    (etagType : EtagType) : BucketRecord where
  id := id
  name := name
  ownerAccountId := ownerAccountId
  replicateToAll := replicateToAll
  etagType := etagType

/-- Insert a bucket; `none` is a violation of UNIQUE(name). -/
def insert (t : BucketTable) (name : Text) (ownerAccountId : Option Int)
    (replicateToAll : Bool) (etagType : EtagType) : Option BucketTable :=
  if h : ∀ b ∈ t.rows, b.name ≠ name then
    some {
      rows := t.rows ++ [newBucket t.nextId name ownerAccountId replicateToAll etagType]
      nextId := t.nextId + 1
      id_lt := lt_append_row t.id_lt rfl
      id_unique := pairwise_append_row t.id_unique fun a ha => ne_of_lt (t.id_lt a ha)
      name_unique := pairwise_append_row t.name_unique h }
  else none

theorem insert_rows {t t' : BucketTable} {name : Text} {ownerAccountId : Option Int}
    {replicateToAll : Bool} {etagType : EtagType}
    (h : t.insert name ownerAccountId replicateToAll etagType = some t') :
    t'.rows = t.rows ++ [newBucket t.nextId name ownerAccountId replicateToAll etagType] := by
  unfold insert at h
  split at h
  · rw [← Option.some.inj h]
  · cases h

theorem insert_isSome {t : BucketTable} {name : Text} {ownerAccountId : Option Int}
    {replicateToAll : Bool} {etagType : EtagType} :
    (t.insert name ownerAccountId replicateToAll etagType).isSome = true ↔
      t.byName name = none := by
  rw [byName_eq_none]
  unfold insert
  split
  · rename_i h
    simpa using h
  · rename_i h
    simpa using h

/-- Change columns other than the id and the name. -/
def updateWhere (t : BucketTable) (p : BucketRecord → Bool) (f : BucketRecord → BucketRecord)
    (hid : ∀ b, (f b).id = b.id) (hname : ∀ b, (f b).name = b.name) : BucketTable where
  rows := updateRows p f t.rows
  nextId := t.nextId
  id_lt b hb := by
    rcases mem_updateRows.mp hb with ⟨hb, _⟩ | ⟨a, ha, _, rfl⟩
    · exact t.id_lt b hb
    · rw [hid]
      exact t.id_lt a ha
  id_unique := pairwise_ne_of_map_eq t.id_unique (map_updateRows _ hid _)
  name_unique := pairwise_ne_of_map_eq t.name_unique (map_updateRows _ hname _)

def setName (newName : Text) (b : BucketRecord) : BucketRecord := { b with name := newName }

/-- Set the name of a bucket; `none` is a violation of UNIQUE(name). -/
def rename (t : BucketTable) (id : Int) (newName : Text) : Option BucketTable :=
  let rows := updateRows (fun b => b.id == id) (setName newName) t.rows
  if h : rows.Pairwise fun a b => a.name ≠ b.name then
    some {
      rows := rows
      nextId := t.nextId
      id_lt := by
        intro b hb
        rcases mem_updateRows.mp hb with ⟨hb, _⟩ | ⟨a, ha, _, rfl⟩
        · exact t.id_lt b hb
        · exact t.id_lt a ha
      id_unique := pairwise_ne_of_map_eq t.id_unique
        (map_updateRows BucketRecord.id (f := setName newName) (fun _ => rfl) t.rows)
      name_unique := h }
  else none

theorem rename_rows {t t' : BucketTable} {id : Int} {newName : Text}
    (h : t.rename id newName = some t') :
    t'.rows = updateRows (fun b => b.id == id) (setName newName) t.rows := by
  unfold rename at h
  simp only at h
  split at h
  · rw [← Option.some.inj h]
  · cases h

def deleteWhere (t : BucketTable) (p : BucketRecord → Bool) : BucketTable where
  rows := t.rows.filter fun b => !p b
  nextId := t.nextId
  id_lt b hb := t.id_lt b (List.mem_of_mem_filter hb)
  id_unique := t.id_unique.filter _
  name_unique := t.name_unique.filter _

end BucketTable

structure PeerTable where
  rows : List ClusterPeer
  id_unique : rows.Pairwise fun a b => a.id ≠ b.id

namespace PeerTable

theorem eq_of_id (t : PeerTable) {a b : ClusterPeer} (ha : a ∈ t.rows) (hb : b ∈ t.rows)
    (h : a.id = b.id) : a = b := eq_of_pairwise_ne t.id_unique ha hb h

end PeerTable

structure OutboxTable where
  rows : List OutboxRow
  nextId : Int
  id_lt : ∀ r ∈ rows, r.id < nextId
  id_unique : rows.Pairwise fun a b => a.id ≠ b.id

namespace OutboxTable

def empty : OutboxTable where
  rows := []
  nextId := 1
  id_lt := by simp
  id_unique := List.Pairwise.nil

theorem eq_of_id (t : OutboxTable) {a b : OutboxRow} (ha : a ∈ t.rows) (hb : b ∈ t.rows)
    (h : a.id = b.id) : a = b := eq_of_pairwise_ne t.id_unique ha hb h

/-- A new pending job that is due at once. -/
def newJob (id : Int) (peerId : Text) (objectId : Int) (filepathUuid etag : Text)
    (operation : OutboxOperation) (now : Instant) : OutboxRow where
  id := id
  peerId := peerId
  objectId := some objectId
  filepathUuid := some filepathUuid
  etag := some etag
  operation := operation
  status := .pending
  attemptCount := 0
  nextRetryUtc := now.currentTimestamp.secs

def insert (t : OutboxTable) (peerId : Text) (objectId : Int) (filepathUuid etag : Text)
    (operation : OutboxOperation) (now : Instant) : OutboxTable where
  rows := t.rows ++ [newJob t.nextId peerId objectId filepathUuid etag operation now]
  nextId := t.nextId + 1
  id_lt := lt_append_row t.id_lt rfl
  id_unique := pairwise_append_row t.id_unique fun a ha => ne_of_lt (t.id_lt a ha)

/-- Change columns other than the id. -/
def updateWhere (t : OutboxTable) (p : OutboxRow → Bool) (f : OutboxRow → OutboxRow)
    (hid : ∀ r, (f r).id = r.id) : OutboxTable where
  rows := updateRows p f t.rows
  nextId := t.nextId
  id_lt r hr := by
    rcases mem_updateRows.mp hr with ⟨hr, _⟩ | ⟨a, ha, _, rfl⟩
    · exact t.id_lt r hr
    · rw [hid]
      exact t.id_lt a ha
  id_unique := pairwise_ne_of_map_eq t.id_unique (map_updateRows _ hid _)

def deleteWhere (t : OutboxTable) (p : OutboxRow → Bool) : OutboxTable where
  rows := t.rows.filter fun r => !p r
  nextId := t.nextId
  id_lt r hr := t.id_lt r (List.mem_of_mem_filter hr)
  id_unique := t.id_unique.filter _

/-- `ON DELETE SET NULL` for the deleted objects. -/
def clearObjects (t : OutboxTable) (deleted : List ObjectRecord) : OutboxTable :=
  t.updateWhere (fun r => deleted.any fun o => r.objectId == some o.id)
    (fun r => { r with objectId := none }) fun _ => rfl

end OutboxTable

structure Db where
  object : ObjectTable
  bucket : BucketTable
  clusterPeer : PeerTable
  bucketReplicationPeer : List BucketNodeAssignment
  replicationOutbox : OutboxTable
  appSettings : AppSettings
  account : List AccountRecord
  role : List RoleRecord
  accountRole : List AccountRole
  roleBucketPermission : List RoleBucketPermission
  session : List SessionRow
  shareLink : List ShareLinkRecord
  shareLinkUser : List ShareLinkUser
  /-- The foreign key of `object.bucket_id`. -/
  object_bucket : ∀ r ∈ object.rows, ∃ b ∈ bucket.rows, b.id = r.bucketId

namespace Db

/-- The bucket that the migrations insert. -/
def storageBucket : BucketRecord :=
  BucketTable.newBucket 1 "storage".toList none true .md5

/-- The database that the migrations leave. -/
def migrated : Db where
  object := Objects.empty
  bucket := {
    rows := [storageBucket]
    nextId := 2
    id_lt := by simp [storageBucket, BucketTable.newBucket]
    id_unique := List.pairwise_singleton _ _
    name_unique := List.pairwise_singleton _ _ }
  clusterPeer := { rows := [], id_unique := List.Pairwise.nil }
  bucketReplicationPeer := []
  replicationOutbox := OutboxTable.empty
  appSettings := { recycleRetentionValue := 30, recycleRetentionUnit := .day }
  account := []
  role := [{ id := 1, name := "Owner".toList, position := 1000, isOwner := true }]
  accountRole := []
  roleBucketPermission := [{ roleId := 1, bucketId := 1, perms := .full }]
  session := []
  shareLink := []
  shareLinkUser := []
  object_bucket := by simp [Objects.empty]

def updateObjects (db : Db) (p : ObjectRecord → Bool) (f : ObjectTable.SafeUpdate) : Db :=
  { db with
    object := db.object.updateWhere p f
    object_bucket := by
      intro r hr
      rcases mem_updateRows.mp hr with ⟨hr, _⟩ | ⟨a, ha, _, rfl⟩
      · exact db.object_bucket r hr
      · rw [f.bucket_eq]
        exact db.object_bucket a ha }

/-- An update that may break the active index; `none` is its refusal. -/
def updateObjectsChecked (db : Db) (p : ObjectRecord → Bool) (f : ObjectTable.CheckedUpdate) :
    Option Db :=
  match h : db.object.updateChecked p f with
  | none => none
  | some t =>
    some { db with
      object := t
      object_bucket := by
        intro r hr
        rw [(ObjectTable.updateChecked_rows h).1] at hr
        rcases mem_updateRows.mp hr with ⟨hr, _⟩ | ⟨a, ha, _, rfl⟩
        · exact db.object_bucket r hr
        · rw [f.bucket_eq]
          exact db.object_bucket a ha }

def deleteObjects (db : Db) (p : ObjectRecord → Bool) : Db :=
  { db with
    object := db.object.deleteWhere p
    replicationOutbox := db.replicationOutbox.clearObjects (db.object.rows.filter p)
    object_bucket := fun r hr =>
      db.object_bucket r (ObjectTable.mem_deleteWhere.mp hr).1 }

/-- Insert an object; `none` is a violation of a unique index or of the foreign key. -/
def insertObject (db : Db) (v : ObjectTable.NewObject) : Option Db :=
  match h : db.object.insert v with
  | none => none
  | some t =>
    if hb : ∃ b ∈ db.bucket.rows, b.id = v.bucketId then
      some { db with
        object := t
        object_bucket := by
          intro r hr
          rw [(ObjectTable.insert_rows h).2.1] at hr
          rcases List.mem_append.mp hr with hr | hr
          · exact db.object_bucket r hr
          · rw [List.mem_singleton.mp hr]
            exact hb }
    else none

/-- Insert a bucket; `none` is a violation of UNIQUE(name). -/
def insertBucket (db : Db) (name : Text) (ownerAccountId : Option Int) (replicateToAll : Bool)
    (etagType : EtagType) : Option Db :=
  match h : db.bucket.insert name ownerAccountId replicateToAll etagType with
  | none => none
  | some t =>
    some { db with
      bucket := t
      object_bucket := by
        intro r hr
        obtain ⟨b, hb, hid⟩ := db.object_bucket r hr
        exact ⟨b, by rw [BucketTable.insert_rows h]; exact List.mem_append_left _ hb, hid⟩ }

/-- Rename a bucket; `none` is a violation of UNIQUE(name). -/
def renameBucketRow (db : Db) (id : Int) (newName : Text) : Option Db :=
  match h : db.bucket.rename id newName with
  | none => none
  | some t =>
    some { db with
      bucket := t
      object_bucket := by
        intro r hr
        obtain ⟨b, hb, hid⟩ := db.object_bucket r hr
        rw [BucketTable.rename_rows h]
        by_cases hp : (b.id == id) = true
        · exact ⟨BucketTable.setName newName b, mem_updateRows.mpr (Or.inr ⟨b, hb, hp, rfl⟩), hid⟩
        · rw [Bool.not_eq_true] at hp
          exact ⟨b, mem_updateRows.mpr (Or.inl ⟨hb, hp⟩), hid⟩ }

/-- Delete a bucket with its permissions and assignments, which cascade; `none` is the
refusal while an object or a share link refers to it. -/
def deleteBucketRow (db : Db) (id : Int) : Option Db :=
  if h : (∀ r ∈ db.object.rows, r.bucketId ≠ id) ∧ ∀ l ∈ db.shareLink, l.bucketId ≠ id then
    some { db with
      bucket := db.bucket.deleteWhere fun b => b.id == id
      roleBucketPermission := db.roleBucketPermission.filter fun p => !(p.bucketId == id)
      bucketReplicationPeer := db.bucketReplicationPeer.filter fun a => !(a.bucketId == id)
      object_bucket := by
        intro r hr
        obtain ⟨b, hb, hid⟩ := db.object_bucket r hr
        have hne : b.id ≠ id := by
          rw [hid]
          exact h.1 r hr
        exact ⟨b, List.mem_filter.mpr ⟨hb, by simpa using hne⟩, hid⟩ }
  else none

def withOutbox (db : Db) (t : OutboxTable) : Db := { db with replicationOutbox := t }

theorem deleteBucketRow_eq {db db' : Db} {id : Int} (h : db.deleteBucketRow id = some db') :
    (∀ l ∈ db.shareLink, l.bucketId ≠ id) ∧ db'.object = db.object ∧
      ∀ b ∈ db'.bucket.rows, b.id ≠ id := by
  unfold deleteBucketRow at h
  split at h
  · rename_i hfree
    rw [← Option.some.inj h]
    refine ⟨hfree.2, rfl, ?_⟩
    intro b hb
    simpa using (List.mem_filter.mp hb).2
  · cases h

theorem deleteBucketRow_isSome {db : Db} {id : Int} :
    (db.deleteBucketRow id).isSome = true ↔
      (∀ r ∈ db.object.rows, r.bucketId ≠ id) ∧ ∀ l ∈ db.shareLink, l.bucketId ≠ id := by
  unfold deleteBucketRow
  split
  · rename_i h
    simpa using h
  · rename_i h
    simpa using h

@[simp] theorem updateObjects_rows (db : Db) (p : ObjectRecord → Bool)
    (f : ObjectTable.SafeUpdate) :
    (db.updateObjects p f).object.rows = updateRows p f.apply db.object.rows := rfl

theorem updateObjectsChecked_rows {db db' : Db} {p : ObjectRecord → Bool}
    {f : ObjectTable.CheckedUpdate} (h : db.updateObjectsChecked p f = some db') :
    db'.object.rows = updateRows p f.apply db.object.rows ∧ db'.bucket = db.bucket ∧
      db'.replicationOutbox = db.replicationOutbox ∧
      db'.object.nextId = db.object.nextId := by
  unfold updateObjectsChecked at h
  split at h
  · cases h
  · rename_i t ht
    have he := Option.some.inj h
    subst he
    obtain ⟨hrows, hnext⟩ := ObjectTable.updateChecked_rows ht
    exact ⟨hrows, rfl, rfl, hnext⟩

theorem updateObjectsChecked_assignments {db db' : Db} {p : ObjectRecord → Bool}
    {f : ObjectTable.CheckedUpdate} (h : db.updateObjectsChecked p f = some db') :
    db'.bucketReplicationPeer = db.bucketReplicationPeer := by
  unfold updateObjectsChecked at h
  split at h
  · cases h
  · rw [← Option.some.inj h]

theorem mem_deleteObjects {db : Db} {p : ObjectRecord → Bool} {r : ObjectRecord} :
    r ∈ (db.deleteObjects p).object.rows ↔ r ∈ db.object.rows ∧ p r = false :=
  ObjectTable.mem_deleteWhere

/-- What a successful insert did. -/
theorem insertObject_eq {db db' : Db} {v : ObjectTable.NewObject}
    (h : db.insertObject v = some db') :
    db.object.Free v ∧ db'.object.rows = db.object.rows ++ [v.record db.object.nextId] ∧
      db'.object.nextId = db.object.nextId + 1 ∧ db'.bucket = db.bucket ∧
      db'.clusterPeer = db.clusterPeer ∧
      db'.bucketReplicationPeer = db.bucketReplicationPeer ∧
      db'.replicationOutbox = db.replicationOutbox := by
  unfold insertObject at h
  split at h
  · cases h
  · rename_i t ht
    split at h
    · have he := Option.some.inj h
      subst he
      obtain ⟨hfree, hrows, hnext⟩ := ObjectTable.insert_rows ht
      exact ⟨hfree, hrows, hnext, rfl, rfl, rfl, rfl⟩
    · cases h

theorem mem_insertObject {db db' : Db} {v : ObjectTable.NewObject}
    (h : db.insertObject v = some db') {r : ObjectRecord} :
    r ∈ db'.object.rows ↔ r ∈ db.object.rows ∨ r = v.record db.object.nextId := by
  rw [(insertObject_eq h).2.1, List.mem_append, List.mem_singleton]

theorem insertBucket_eq {db db' : Db} {name : Text} {ownerAccountId : Option Int}
    {replicateToAll : Bool} {etagType : EtagType}
    (h : db.insertBucket name ownerAccountId replicateToAll etagType = some db') :
    db'.object = db.object ∧ db'.clusterPeer = db.clusterPeer ∧
      db'.replicationOutbox = db.replicationOutbox ∧
      db'.bucket.rows = db.bucket.rows ++
        [BucketTable.newBucket db.bucket.nextId name ownerAccountId replicateToAll etagType] := by
  unfold insertBucket at h
  split at h
  · cases h
  · rename_i t ht
    rw [← Option.some.inj h]
    exact ⟨rfl, rfl, rfl, BucketTable.insert_rows ht⟩

theorem insertBucket_isSome {db : Db} {name : Text} (ownerAccountId : Option Int)
    (replicateToAll : Bool) (etagType : EtagType) (h : db.bucket.byName name = none) :
    (db.insertBucket name ownerAccountId replicateToAll etagType).isSome = true := by
  have hsome : (db.bucket.insert name ownerAccountId replicateToAll etagType).isSome = true :=
    BucketTable.insert_isSome.mpr h
  unfold insertBucket
  split
  · rename_i hnone
    simp [hnone] at hsome
  · rfl

/-- An insert into an existing bucket fails only on a taken filepath or key. -/
theorem insertObject_isSome {db : Db} {v : ObjectTable.NewObject}
    (hb : ∃ b ∈ db.bucket.rows, b.id = v.bucketId) :
    (db.insertObject v).isSome = true ↔ db.object.Free v := by
  rw [← ObjectTable.insert_isSome]
  unfold insertObject
  split
  · rename_i h
    simp [h]
  · rename_i t h
    simp [h, hb]

end Db

end MyS3.Database
