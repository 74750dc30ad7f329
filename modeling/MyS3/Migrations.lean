import MyS3.Library.Tables
import MyS3.Models

/-!
Migration 0003, statement by statement as `migrations/0003_settings_rbac.sql` has them, on
a database of schema version 2. The whole file is one transaction of a connection that
enforces foreign keys, so `PRAGMA foreign_keys = OFF` does nothing, and dropping `object`
clears the references of `replication_outbox` to it.
-/

namespace MyS3.Migrations

open Library.Strings Library.Tables
open Models

/-- A row of `object` as migration 0001 creates the table. -/
structure ObjectRow where
  id : Int
  originalFilename : Text
  filepath : Text
  fileFormat : Text
  filesizeBytes : Int
  etagType : EtagType
  etag : Text
  dateUploaded : Text
  dateModified : Text
  deriving DecidableEq

/-- The table `object`, with the columns of one version or the other. -/
inductive ObjectRows
  | old (rows : List ObjectRow)
  | new (rows : List ObjectRecord)
  deriving DecidableEq

def ObjectRows.ids : ObjectRows → List Int
  | .old rows => rows.map (·.id)
  | .new rows => rows.map (·.id)

structure BucketRow where
  id : Int
  name : Text
  deriving DecidableEq

inductive SqlError
  | noSuchTable
  | noSuchColumn
  | tableExists
  | constraint
  deriving DecidableEq

/-- A connection and the tables that the migration reads or writes; `none` is a table that
does not exist. -/
structure Connection where
  foreignKeys : Bool
  inTransaction : Bool
  object : Option ObjectRows
  objectNew : Option (List ObjectRecord)
  replicationOutbox : List OutboxRow
  bucket : Option (List BucketRow)
  role : Option (List RoleRecord)
  roleBucketPermission : Option (List RoleBucketPermission)
  appSettings : Option (List (Int × AppSettings))
  /-- `idx_object_bucket_key_active`. -/
  activeKeyIndex : Bool
  deriving DecidableEq

abbrev Statement := Connection → Except SqlError Connection

/-- The rows of a table that a statement names. -/
def table {α : Type} : Option α → Except SqlError α
  | none => .error .noSuchTable
  | some rows => .ok rows

/-- The id that AUTOINCREMENT gives in a table that lost no row. -/
def nextRowId (ids : List Int) : Int := ids.foldl max 0 + 1

/-- `CREATE TABLE IF NOT EXISTS …` -/
def createTables : Statement := fun c =>
  .ok { c with
    bucket := some (c.bucket.getD [])
    role := some (c.role.getD [])
    roleBucketPermission := some (c.roleBucketPermission.getD [])
    appSettings := some (c.appSettings.getD []) }

def storage : Text := "storage".toList

def insertStorage : Statement := fun c => do
  let rows ← table c.bucket
  if rows.any fun b => b.name == storage then throw .constraint
  return { c with bucket := some (rows ++ [⟨nextRowId (rows.map (·.id)), storage⟩]) }

/-- `PRAGMA foreign_keys`: no effect inside a transaction. -/
def pragmaForeignKeys (on : Bool) : Statement := fun c =>
  .ok (if c.inTransaction then c else { c with foreignKeys := on })

def createObjectNew : Statement := fun c =>
  match c.objectNew with
  | some _ => .error .tableExists
  | none => .ok { c with objectNew := some [] }

/-- A row of `object_new`, of which the copy sets the last two columns. -/
def placed (bucketId : Int) (o : ObjectRow) : ObjectRecord where
  id := o.id
  originalFilename := o.originalFilename
  filepath := o.filepath
  fileFormat := o.fileFormat
  filesizeBytes := o.filesizeBytes
  etagType := o.etagType
  etag := o.etag
  dateUploaded := o.dateUploaded
  dateModified := o.dateModified
  bucketId := bucketId
  deletedAt := none

def insertObjectNew (rows : List ObjectRecord) (r : ObjectRecord) :
    Except SqlError (List ObjectRecord) :=
  if rows.any fun a => a.id == r.id || a.filepath == r.filepath then .error .constraint
  else .ok (rows ++ [r])

def selectOld : ObjectRows → Except SqlError (List ObjectRow)
  | .old rows => .ok rows
  | .new _ => .error .noSuchColumn

/-- `INSERT INTO object_new … SELECT … FROM object o`. -/
def copyObjects : Statement := fun c => do
  let object ← table c.object
  let rows ← selectOld object
  let buckets ← table c.bucket
  let objectNew ← table c.objectNew
  match buckets.find? fun b => b.name == storage with
  | none => if rows = [] then return c else throw .constraint
  | some b =>
    let copied ← rows.foldlM (fun done o => insertObjectNew done (placed b.id o)) objectNew
    return { c with objectNew := some copied }

/-- `ON DELETE SET NULL` of `replication_outbox.object_id`. -/
def clearObjectIds (deleted : List Int) (rows : List OutboxRow) : List OutboxRow :=
  updateRows (fun j => j.objectId.any fun id => deleted.contains id)
    (fun j => { j with objectId := none }) rows

/-- With foreign keys enabled, the rows are deleted first. -/
def dropObject : Statement := fun c => do
  let object ← table c.object
  let outbox :=
    if c.foreignKeys then clearObjectIds object.ids c.replicationOutbox else c.replicationOutbox
  return { c with object := none, replicationOutbox := outbox }

def renameObjectNew : Statement := fun c => do
  let rows ← table c.objectNew
  match c.object with
  | some _ => throw .tableExists
  | none => return { c with object := some (.new rows), objectNew := none }

/-- The key of a row in the index, which leaves recycled rows out. -/
def activeKey (r : ObjectRecord) : Option (Int × Text) :=
  if r.deletedAt = none then some (r.bucketId, r.originalFilename) else none

def createActiveKeyIndex : Statement := fun c => do
  let object ← table c.object
  match object with
  | .old _ => throw .noSuchColumn
  | .new rows =>
    if UniqueOn activeKey rows then return { c with activeKeyIndex := true }
    else throw .constraint

def owner : Text := "Owner".toList

def insertOwner : Statement := fun c => do
  let rows ← table c.role
  if rows.any fun r => r.name == owner then throw .constraint
  return { c with role := some (rows ++ [⟨nextRowId (rows.map (·.id)), owner, 1000, true⟩]) }

/-- Full permissions of each role 'Owner' on each bucket 'storage'. -/
def ownerPermissions (roles : List RoleRecord) (buckets : List BucketRow) :
    List RoleBucketPermission :=
  (roles.filter fun r => r.name == owner).flatMap fun r =>
    (buckets.filter fun b => b.name == storage).map fun b => ⟨r.id, b.id, .full⟩

def insertOwnerPermissions : Statement := fun c => do
  let roles ← table c.role
  let buckets ← table c.bucket
  let rows ← table c.roleBucketPermission
  let more := ownerPermissions roles buckets
  if more.any fun p => rows.any fun q => q.roleId == p.roleId && q.bucketId == p.bucketId then
    throw .constraint
  return { c with roleBucketPermission := some (rows ++ more) }

def insertAppSettings : Statement := fun c => do
  let rows ← table c.appSettings
  if rows.any fun r => r.1 == 1 then throw .constraint
  return { c with appSettings := some (rows ++ [(1, ⟨30, .day⟩)]) }

/-- The statements of the file. An index that is not unique changes no row, and cannot
fail on these tables. -/
def settingsRbac : List Statement :=
  [createTables, insertStorage, pragmaForeignKeys false, createObjectNew, copyObjects, dropObject,
    renameObjectNew, createActiveKeyIndex, pragmaForeignKeys true, insertOwner,
    insertOwnerPermissions, insertAppSettings]

def runStatements (statements : List Statement) (c : Connection) : Except SqlError Connection :=
  statements.foldlM (fun c run => run c) c

/-- A migration in its transaction; an error rolls it back. -/
def applyMigration (statements : List Statement) (c : Connection) :
    Except SqlError Connection := do
  let done ← runStatements statements { c with inTransaction := true }
  return { done with inTransaction := false }

/-- A database of schema version 2, with the constraints of its tables. -/
structure VersionTwo where
  object : List ObjectRow
  replicationOutbox : List OutboxRow
  id_unique : object.Pairwise fun a b => a.id ≠ b.id
  filepath_unique : object.Pairwise fun a b => a.filepath ≠ b.filepath
  outbox_object : ∀ j ∈ replicationOutbox, ∀ id, j.objectId = some id → ∃ o ∈ object, o.id = id

/-- The connection that `connect_and_migrate` opens on it. -/
def VersionTwo.connection (db : VersionTwo) : Connection where
  foreignKeys := true
  inTransaction := false
  object := some (.old db.object)
  objectNew := none
  replicationOutbox := db.replicationOutbox
  bucket := none
  role := none
  roleBucketPermission := none
  appSettings := none
  activeKeyIndex := false

/-- Every object is there with all its fields, active in the bucket 'storage', and every
job has the object id it had. -/
def Keeps (db : VersionTwo) (c : Connection) : Prop :=
  (∃ rows buckets, c.object = some (.new rows) ∧ c.bucket = some buckets ∧
    ∀ o ∈ db.object, ∃ b ∈ buckets, b.name = storage ∧ placed b.id o ∈ rows) ∧
  ∀ j ∈ db.replicationOutbox, ∃ j' ∈ c.replicationOutbox, j'.id = j.id ∧ j'.objectId = j.objectId

/-- The copy passes the constraints of `object_new`. -/
theorem copy_ok (bucketId : Int) (rows : List ObjectRow) (done : List ObjectRecord)
    (hid : (done.map (·.id) ++ rows.map (·.id)).Pairwise (· ≠ ·))
    (hpath : (done.map (·.filepath) ++ rows.map (·.filepath)).Pairwise (· ≠ ·)) :
    rows.foldlM (fun done o => insertObjectNew done (placed bucketId o)) done =
      .ok (done ++ rows.map (placed bucketId)) := by
  induction rows generalizing done with
  | nil => simp [pure, Except.pure]
  | cons o rest ih =>
    have hfree : insertObjectNew done (placed bucketId o) = .ok (done ++ [placed bucketId o]) := by
      unfold insertObjectNew
      rw [if_neg]
      simp only [List.any_eq_true, Bool.or_eq_true, beq_iff_eq, not_exists, not_and, not_or]
      intro a ha
      have hids := (List.pairwise_append.mp hid).2.2 a.id (List.mem_map_of_mem ha) o.id
        List.mem_cons_self
      have hpaths := (List.pairwise_append.mp hpath).2.2 a.filepath (List.mem_map_of_mem ha)
        o.filepath List.mem_cons_self
      exact ⟨hids, hpaths⟩
    rw [List.foldlM_cons, hfree]
    change List.foldlM _ (done ++ [placed bucketId o]) rest = _
    rw [ih]
    · simp
    · simpa [placed] using hid
    · simpa [placed] using hpath

theorem VersionTwo.copy_ok (db : VersionTwo) (bucketId : Int) :
    db.object.foldlM (fun done o => insertObjectNew done (placed bucketId o)) [] =
      .ok (db.object.map (placed bucketId)) := by
  have h := Migrations.copy_ok bucketId db.object []
    (by simpa [List.pairwise_map] using db.id_unique)
    (by simpa [List.pairwise_map] using db.filepath_unique)
  simpa using h

/-- The keys of the copied rows are distinct when the names were. -/
theorem uniqueOn_placed (bucketId : Int) (rows : List ObjectRow) :
    UniqueOn activeKey (rows.map (placed bucketId)) ↔
      rows.Pairwise fun a b => a.originalFilename ≠ b.originalFilename := by
  unfold UniqueOn
  rw [List.pairwise_map]
  simp [activeKey, placed]

/-- No reference to the dropped table is left. -/
theorem VersionTwo.clear_all (db : VersionTwo) :
    ∀ j ∈ clearObjectIds (ObjectRows.old db.object).ids db.replicationOutbox,
      j.objectId = none := by
  intro j hj
  rcases mem_updateRows.mp hj with ⟨hj, hkept⟩ | ⟨i, _, _, rfl⟩
  · cases hid : j.objectId with
    | none => rfl
    | some id =>
      obtain ⟨o, ho, rfl⟩ := db.outbox_object j hj id hid
      rw [hid] at hkept
      have hmem : (ObjectRows.old db.object).ids.contains o.id = true :=
        List.contains_iff_mem.mpr (List.mem_map_of_mem ho)
      rw [Option.any_some, hmem] at hkept
      cases hkept
  · rfl

/-- What the migration leaves when it succeeds. -/
def VersionTwo.migrated (db : VersionTwo) : Connection where
  foreignKeys := true
  inTransaction := false
  object := some (.new (db.object.map (placed 1)))
  objectNew := none
  replicationOutbox :=
    clearObjectIds (ObjectRows.old db.object).ids db.replicationOutbox
  bucket := some [⟨1, storage⟩]
  role := some [⟨1, owner, 1000, true⟩]
  roleBucketPermission := some [⟨1, 1, .full⟩]
  appSettings := some [(1, ⟨30, .day⟩)]
  activeKeyIndex := true

/-- Inside the transaction, with the copy still to come. -/
def VersionTwo.seeded (db : VersionTwo) : Connection :=
  { db.connection with
    inTransaction := true
    objectNew := some []
    bucket := some [⟨1, storage⟩]
    role := some []
    roleBucketPermission := some []
    appSettings := some [] }

/-- The rebuilt table has taken the place of the old one. -/
def VersionTwo.rebuilt (db : VersionTwo) : Connection :=
  { db.seeded with
    object := some (.new (db.object.map (placed 1)))
    objectNew := none
    replicationOutbox := clearObjectIds (ObjectRows.old db.object).ids db.replicationOutbox }

theorem runStatements_append (first second : List Statement) (c : Connection) :
    runStatements (first ++ second) c =
      (runStatements first c).bind (runStatements second) := by
  unfold runStatements
  rw [List.foldlM_append]
  rfl

theorem VersionTwo.run_seeded (db : VersionTwo) :
    runStatements [createTables, insertStorage, pragmaForeignKeys false, createObjectNew]
      { db.connection with inTransaction := true } = .ok db.seeded := rfl

theorem VersionTwo.run_rebuilt (db : VersionTwo) :
    runStatements [copyObjects, dropObject, renameObjectNew] db.seeded = .ok db.rebuilt := by
  have hcopy : copyObjects db.seeded =
      .ok { db.seeded with objectNew := some (db.object.map (placed 1)) } := by
    change (db.object.foldlM (fun done o => insertObjectNew done (placed 1 o)) []).bind _ = _
    rw [db.copy_ok 1]
    rfl
  unfold runStatements
  rw [List.foldlM_cons, hcopy]
  rfl

/-- The index is the only statement after the rebuild that can fail. -/
theorem VersionTwo.run_index (db : VersionTwo) :
    runStatements [createActiveKeyIndex, pragmaForeignKeys true, insertOwner,
        insertOwnerPermissions, insertAppSettings] db.rebuilt =
      if db.object.Pairwise (fun a b => a.originalFilename ≠ b.originalFilename) then
        .ok { db.migrated with inTransaction := true }
      else .error .constraint := by
  have hindex : createActiveKeyIndex db.rebuilt =
      if UniqueOn activeKey (db.object.map (placed 1)) then
        .ok { db.rebuilt with activeKeyIndex := true }
      else .error .constraint := rfl
  unfold runStatements
  rw [List.foldlM_cons, hindex]
  simp only [uniqueOn_placed]
  split_ifs
  · rfl
  · rfl

theorem VersionTwo.apply_eq (db : VersionTwo) :
    applyMigration settingsRbac db.connection =
      if db.object.Pairwise (fun a b => a.originalFilename ≠ b.originalFilename) then
        .ok db.migrated
      else .error .constraint := by
  have hsplit : settingsRbac =
      [createTables, insertStorage, pragmaForeignKeys false, createObjectNew] ++
        ([copyObjects, dropObject, renameObjectNew] ++
          [createActiveKeyIndex, pragmaForeignKeys true, insertOwner, insertOwnerPermissions,
            insertAppSettings]) := rfl
  unfold applyMigration
  rw [hsplit, runStatements_append, db.run_seeded]
  change ((runStatements (_ ++ _) db.seeded).bind _) = _
  rw [runStatements_append, db.run_rebuilt]
  change ((runStatements _ db.rebuilt).bind _) = _
  rw [db.run_index]
  split_ifs
  · rfl
  · rfl

/-- What a job loses: the migration clears every object id, and changes nothing else. -/
theorem VersionTwo.migrated_job (db : VersionTwo) {j : OutboxRow}
    (hj : j ∈ db.replicationOutbox) :
    { j with objectId := none } ∈ db.migrated.replicationOutbox := by
  have h := exists_updateRows (fun j : OutboxRow => { j with objectId := none })
    (fun j => j.objectId.any fun id => (ObjectRows.old db.object).ids.contains id)
    (f := fun j => { j with objectId := none }) (fun _ => rfl) hj
  obtain ⟨u, hu, heq⟩ := h
  have hnone := db.clear_all u hu
  rw [← heq, ← hnone]
  exact hu

/-- The migration keeps every object and the object id of every job exactly when no two
objects have one name, and no job has an object id. -/
theorem migration_keeps_iff (db : VersionTwo) :
    (∃ c, applyMigration settingsRbac db.connection = .ok c ∧ Keeps db c) ↔
      db.object.Pairwise (fun a b => a.originalFilename ≠ b.originalFilename) ∧
        ∀ j ∈ db.replicationOutbox, j.objectId = none := by
  constructor
  · intro h
    obtain ⟨c, hc, _, hjobs⟩ := h
    rw [db.apply_eq] at hc
    split_ifs at hc with hnames
    refine ⟨hnames, fun j hj => ?_⟩
    obtain ⟨j', hj', _, hid⟩ := hjobs j hj
    rw [← Except.ok.inj hc] at hj'
    rw [← hid]
    exact db.clear_all j' hj'
  · intro h
    obtain ⟨hnames, hnone⟩ := h
    refine ⟨db.migrated, by rw [db.apply_eq, if_pos hnames], ?_, fun j hj => ?_⟩
    · refine ⟨_, _, rfl, rfl, fun o ho => ?_⟩
      exact ⟨⟨1, storage⟩, List.mem_singleton_self _, rfl, List.mem_map_of_mem ho⟩
    · exact ⟨{ j with objectId := none }, db.migrated_job hj, rfl, (hnone j hj).symm⟩

/-- One object, and its PUT to one peer still pending. -/
def pendingPut : VersionTwo where
  object := [⟨1, ['k'], ['f'], ['b'], 1, .md5, ['e'], ['d'], ['d']⟩]
  replicationOutbox := [⟨1, ['p'], some 1, some ['f'], some ['e'], .put, .pending, 0, 0⟩]
  id_unique := List.pairwise_singleton _ _
  filepath_unique := List.pairwise_singleton _ _
  outbox_object := by simp

/-- The pending PUT loses its object. -/
theorem pending_put_loses_object :
    ∃ c, applyMigration settingsRbac pendingPut.connection = .ok c ∧ ¬ Keeps pendingPut c := by
  refine ⟨_, rfl, fun h => ?_⟩
  obtain ⟨j', hj', _, hid⟩ := h.2 _ (List.mem_singleton_self _)
  rw [List.mem_singleton.mp hj'] at hid
  cases hid

end MyS3.Migrations
