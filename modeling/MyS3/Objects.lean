import MyS3.Library.Tables
import MyS3.Models

/-!
The `object` table with its indexes: the primary key, UNIQUE(filepath), and the
partial unique index on (bucket_id, original_filename) of the rows that are not
recycled. A table value satisfies all of them, so an update that would break one
has no result, as SQLite refuses it.
-/

namespace MyS3.Objects

open Library.Strings Library.Tables Library.Timestamps Models

/-- Index key of `idx_object_bucket_key_active`; a recycled row has none. -/
def activeKey (r : ObjectRecord) : Option (Int × Text) :=
  if r.deletedAt = none then some (r.bucketId, r.originalFilename) else none

theorem activeKey_eq_some {r : ObjectRecord} {b : Int} {k : Text} :
    activeKey r = some (b, k) ↔
      r.deletedAt = none ∧ r.bucketId = b ∧ r.originalFilename = k := by
  unfold activeKey
  by_cases h : r.deletedAt = none <;> simp [h]

theorem activeKey_of_recycled {r : ObjectRecord} (h : r.deletedAt ≠ none) :
    activeKey r = none := by
  simp [activeKey, h]

structure ObjectTable where
  rows : List ObjectRecord
  /-- The next AUTOINCREMENT id. -/
  nextId : Int
  id_lt : ∀ r ∈ rows, r.id < nextId
  id_unique : rows.Pairwise fun a b => a.id ≠ b.id
  filepath_unique : rows.Pairwise fun a b => a.filepath ≠ b.filepath
  active_unique : UniqueOn activeKey rows

def empty : ObjectTable where
  rows := []
  nextId := 1
  id_lt := by simp
  id_unique := List.Pairwise.nil
  filepath_unique := List.Pairwise.nil
  active_unique := UniqueOn.nil _

namespace ObjectTable

theorem eq_of_id (t : ObjectTable) {a b : ObjectRecord} (ha : a ∈ t.rows) (hb : b ∈ t.rows)
    (h : a.id = b.id) : a = b := eq_of_pairwise_ne t.id_unique ha hb h

theorem eq_of_filepath (t : ObjectTable) {a b : ObjectRecord} (ha : a ∈ t.rows)
    (hb : b ∈ t.rows) (h : a.filepath = b.filepath) : a = b :=
  eq_of_pairwise_ne t.filepath_unique ha hb h

theorem eq_of_active (t : ObjectTable) {a b : ObjectRecord} (ha : a ∈ t.rows)
    (hb : b ∈ t.rows) (hda : a.deletedAt = none) (hdb : b.deletedAt = none)
    (hbucket : a.bucketId = b.bucketId) (hkey : a.originalFilename = b.originalFilename) :
    a = b := by
  apply t.active_unique.eq_of_mem ha hb
  · simp [activeKey, hda]
  · simp [activeKey, hda, hdb, hbucket, hkey]

/-- The columns of a new row; it is inserted active. -/
structure NewObject where
  originalFilename : Text
  filepath : Text
  fileFormat : Text
  filesizeBytes : Int
  etagType : EtagType
  etag : Text
  dateUploaded : Text
  dateModified : Text
  bucketId : Int
  deriving DecidableEq

def NewObject.record (v : NewObject) (id : Int) : ObjectRecord where
  id := id
  originalFilename := v.originalFilename
  filepath := v.filepath
  fileFormat := v.fileFormat
  filesizeBytes := v.filesizeBytes
  etagType := v.etagType
  etag := v.etag
  dateUploaded := v.dateUploaded
  dateModified := v.dateModified
  bucketId := v.bucketId
  deletedAt := none

/-- No row holds the filepath, and no active row the bucket and key. -/
def Free (t : ObjectTable) (v : NewObject) : Prop :=
  (∀ r ∈ t.rows, r.filepath ≠ v.filepath) ∧
    ∀ r ∈ t.rows, activeKey r ≠ some (v.bucketId, v.originalFilename)

instance (t : ObjectTable) (v : NewObject) : Decidable (t.Free v) := by
  unfold Free
  infer_instance

/-- Insert a row under the next id; `none` is a unique-index violation. -/
def insert (t : ObjectTable) (v : NewObject) : Option ObjectTable :=
  if h : t.Free v then
    some {
      rows := t.rows ++ [v.record t.nextId]
      nextId := t.nextId + 1
      id_lt := lt_append_row t.id_lt rfl
      id_unique := pairwise_append_row t.id_unique fun a ha => ne_of_lt (t.id_lt a ha)
      filepath_unique := pairwise_append_row t.filepath_unique h.1
      active_unique := by
        apply t.active_unique.append_row
        intro r hr
        exact Or.inr (h.2 r hr) }
  else none

theorem insert_rows {t t' : ObjectTable} {v : NewObject} (h : t.insert v = some t') :
    t.Free v ∧ t'.rows = t.rows ++ [v.record t.nextId] ∧ t'.nextId = t.nextId + 1 := by
  unfold insert at h
  by_cases hf : t.Free v
  · rw [dif_pos hf] at h
    have he := Option.some.inj h
    subst he
    exact ⟨hf, rfl, rfl⟩
  · rw [dif_neg hf] at h
    cases h

theorem insert_isSome {t : ObjectTable} {v : NewObject} :
    (t.insert v).isSome = true ↔ t.Free v := by
  unfold insert
  by_cases hf : t.Free v <;> simp [hf]

/-- Delete the rows that satisfy `p`. -/
def deleteWhere (t : ObjectTable) (p : ObjectRecord → Bool) : ObjectTable where
  rows := t.rows.filter fun r => !p r
  nextId := t.nextId
  id_lt r hr := t.id_lt r (List.mem_of_mem_filter hr)
  id_unique := t.id_unique.filter _
  filepath_unique := t.filepath_unique.filter _
  active_unique := t.active_unique.filter _

@[simp] theorem mem_deleteWhere {t : ObjectTable} {p : ObjectRecord → Bool} {r : ObjectRecord} :
    r ∈ (t.deleteWhere p).rows ↔ r ∈ t.rows ∧ p r = false := by
  simp [deleteWhere]

/-- A change of columns that keeps the ids, filepaths, buckets and index keys of
the rows, or takes rows out of the active index. -/
structure SafeUpdate where
  apply : ObjectRecord → ObjectRecord
  id_eq : ∀ r, (apply r).id = r.id
  filepath_eq : ∀ r, (apply r).filepath = r.filepath
  bucket_eq : ∀ r, (apply r).bucketId = r.bucketId
  key_eq : ∀ r, activeKey (apply r) = none ∨ activeKey (apply r) = activeKey r

def updateWhere (t : ObjectTable) (p : ObjectRecord → Bool) (f : SafeUpdate) : ObjectTable where
  rows := updateRows p f.apply t.rows
  nextId := t.nextId
  id_lt r hr := by
    rcases mem_updateRows.mp hr with ⟨hr, _⟩ | ⟨a, ha, _, rfl⟩
    · exact t.id_lt r hr
    · rw [f.id_eq]
      exact t.id_lt a ha
  id_unique := pairwise_ne_of_map_eq t.id_unique (map_updateRows _ f.id_eq _)
  filepath_unique :=
    pairwise_ne_of_map_eq t.filepath_unique (map_updateRows _ f.filepath_eq _)
  active_unique := by
    apply t.active_unique.map
    intro r
    by_cases hp : p r = true
    · simpa [hp] using f.key_eq r
    · simp [hp]

@[simp] theorem updateWhere_rows (t : ObjectTable) (p : ObjectRecord → Bool) (f : SafeUpdate) :
    (t.updateWhere p f).rows = updateRows p f.apply t.rows := rfl

/-- A change of columns that keeps ids, filepaths and buckets, refused when two
active rows would share a bucket and key. -/
structure CheckedUpdate where
  apply : ObjectRecord → ObjectRecord
  id_eq : ∀ r, (apply r).id = r.id
  filepath_eq : ∀ r, (apply r).filepath = r.filepath
  bucket_eq : ∀ r, (apply r).bucketId = r.bucketId

def updateChecked (t : ObjectTable) (p : ObjectRecord → Bool) (f : CheckedUpdate) :
    Option ObjectTable :=
  if h : UniqueOn activeKey (updateRows p f.apply t.rows) then
    some {
      rows := updateRows p f.apply t.rows
      nextId := t.nextId
      id_lt := by
        intro r hr
        rcases mem_updateRows.mp hr with ⟨hr, _⟩ | ⟨a, ha, _, rfl⟩
        · exact t.id_lt r hr
        · rw [f.id_eq]
          exact t.id_lt a ha
      id_unique := pairwise_ne_of_map_eq t.id_unique (map_updateRows _ f.id_eq _)
      filepath_unique :=
        pairwise_ne_of_map_eq t.filepath_unique (map_updateRows _ f.filepath_eq _)
      active_unique := h }
  else none

theorem updateChecked_rows {t t' : ObjectTable} {p : ObjectRecord → Bool} {f : CheckedUpdate}
    (h : t.updateChecked p f = some t') :
    t'.rows = updateRows p f.apply t.rows ∧ t'.nextId = t.nextId := by
  unfold updateChecked at h
  split at h
  · have he := Option.some.inj h
    subst he
    exact ⟨rfl, rfl⟩
  · cases h

end ObjectTable

/-- `SET deleted_at = CURRENT_TIMESTAMP, date_modified = CURRENT_TIMESTAMP`. -/
def recycle (now : Instant) : ObjectTable.SafeUpdate where
  apply r := { r with
    deletedAt := some now.currentTimestamp, dateModified := now.currentTimestamp.text }
  id_eq _ := rfl
  filepath_eq _ := rfl
  bucket_eq _ := rfl
  key_eq _ := Or.inl (activeKey_of_recycled (by simp))

/-- `SET etag_type = ?1, etag = ?2, date_modified = CURRENT_TIMESTAMP`. -/
def setEtag (now : Instant) (etagType : EtagType) (etag : Text) : ObjectTable.SafeUpdate where
  apply r := { r with
    etagType := etagType, etag := etag, dateModified := now.currentTimestamp.text }
  id_eq _ := rfl
  filepath_eq _ := rfl
  bucket_eq _ := rfl
  key_eq _ := Or.inr rfl

/-- `SET deleted_at = NULL, date_modified = CURRENT_TIMESTAMP`. -/
def restore (now : Instant) : ObjectTable.CheckedUpdate where
  apply r := { r with deletedAt := none, dateModified := now.currentTimestamp.text }
  id_eq _ := rfl
  filepath_eq _ := rfl
  bucket_eq _ := rfl

/-- `SET original_filename = ?1, date_modified = CURRENT_TIMESTAMP`. -/
def rename (now : Instant) (newKey : Text) : ObjectTable.CheckedUpdate where
  apply r := { r with
    originalFilename := newKey, dateModified := now.currentTimestamp.text }
  id_eq _ := rfl
  filepath_eq _ := rfl
  bucket_eq _ := rfl

end MyS3.Objects
