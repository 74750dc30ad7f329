import MyS3.UploadRuns

/-!
The integrity check of `storage/reconcile.rs`. It lists the filepaths of the object table,
then the files of the objects directory, and removes the files that no row names. The
files that the directory lists come from outside; hidden ones are passed over.
-/

namespace MyS3.Reconcile

open Library.Strings Library.Timestamps Library.Paths
open Models Objects Database Engine Repository Http UploadRuns

structure DbObjectFile where
  filepath : Text
  deleted : Bool
  deriving DecidableEq

def objectsPrefix : Text := "objects/".toList

/-- `normalize_object_rel`: the key of a row or a file under the storage root. -/
def normalizeObjectRel (filepath : Text) : Text :=
  let trimmed := trimDotSlash (trim filepath)
  match stripPrefix objectsPrefix trimmed with
  | some rest => objectsPrefix ++ rest
  | none => if '/' ∈ trimmed then trimmed else objectsPrefix ++ trimmed

def listDbObjectFiles (db : Db) : List DbObjectFile :=
  db.object.rows.map fun r => ⟨normalizeObjectRel r.filepath, r.deletedAt.isSome⟩

def sortTexts (l : List Text) : List Text := l.insertionSort fun a b => textLe a b = true

/-- The names are what the objects directory holds. -/
def listDiskObjectFiles (names : List Text) : List Text :=
  sortTexts ((names.filter fun name => !startsWith ['.'] name).map (objectsPrefix ++ ·))

/-- The names of the files in the objects directory. -/
def ListsObjects (s : AppState) (names : List Text) : Prop :=
  names.Nodup ∧ ∀ name, name ∈ names ↔
    PlainName name ∧ (s.disk (s.config.storageRoot ++ [objectsDir, name])).isSome = true

structure Classified where
  orphans : List Text
  missingActive : List Text
  missingRecycle : List Text
  activeOk : Nat
  recycleOk : Nat
  deriving DecidableEq

/-- `classify`, once both listings are there. -/
def classify (dbFiles : List DbObjectFile) (disk : List Text) : Classified where
  orphans := sortTexts (disk.filter fun path => !dbFiles.any fun f => f.filepath == path)
  missingActive := sortTexts
    ((dbFiles.filter fun f => !disk.contains f.filepath && !f.deleted).map (·.filepath))
  missingRecycle := sortTexts
    ((dbFiles.filter fun f => !disk.contains f.filepath && f.deleted).map (·.filepath))
  activeOk := (dbFiles.filter fun f => disk.contains f.filepath && !f.deleted).length
  recycleOk := (dbFiles.filter fun f => disk.contains f.filepath && f.deleted).length

structure IntegrityReport where
  dbRows : Nat
  dbActive : Nat
  dbRecycled : Nat
  diskFilesBefore : Nat
  diskFilesAfter : Nat
  activeOk : Nat
  recycleOk : Nat
  orphansRemoved : List Text
  orphansRemovedCount : Nat
  missingActive : List Text
  missingActiveCount : Nat
  missingRecycle : List Text
  missingRecycleCount : Nat
  repaired : Bool
  deriving DecidableEq

def missingCap : Nat := 50

def orphanCap : Nat := 50

def report (dbFiles : List DbObjectFile) (disk : List Text) (removed : List Text)
    (diskAfter : Nat) (repaired : Bool) : IntegrityReport :=
  let found := classify dbFiles disk
  let active := (dbFiles.filter fun f => !f.deleted).length
  { dbRows := dbFiles.length
    dbActive := active
    dbRecycled := dbFiles.length - active
    diskFilesBefore := disk.dedup.length
    diskFilesAfter := diskAfter
    activeOk := found.activeOk
    recycleOk := found.recycleOk
    orphansRemoved := removed.take orphanCap
    orphansRemovedCount := removed.length
    missingActive := found.missingActive.take missingCap
    missingActiveCount := found.missingActive.length
    missingRecycle := found.missingRecycle.take missingCap
    missingRecycleCount := found.missingRecycle.length
    repaired := repaired }

/-- The dry run: the orphans are reported as if they were removed. -/
def inspect (s : AppState) (names : List Text) : IntegrityReport :=
  let dbFiles := listDbObjectFiles s.db
  let disk := listDiskObjectFiles names
  report dbFiles disk (classify dbFiles disk).orphans disk.dedup.length false

def unlinkAll (root : Path) (unlinkFails : Text → Bool) (disk : Disk) (orphans : List Text) : Disk :=
  orphans.foldl (fun disk rel => unlink root disk rel (unlinkFails rel)) disk

/-- `reconcile`: the names are those of the first listing, and of the one at the end. -/
def reconcile (s : AppState) (names namesAfter : List Text) (unlinkFails : Text → Bool) :
    IntegrityReport × AppState :=
  let dbFiles := listDbObjectFiles s.db
  let disk := listDiskObjectFiles names
  let orphans := (classify dbFiles disk).orphans
  (report dbFiles disk (orphans.filter fun rel => !unlinkFails rel)
    (listDiskObjectFiles namesAfter).length true,
    { s with disk := unlinkAll s.config.storageRoot unlinkFails s.disk orphans })

theorem mem_listDiskObjectFiles {names : List Text} {path : Text} :
    path ∈ listDiskObjectFiles names ↔
      ∃ name ∈ names, startsWith ['.'] name = false ∧ objectsPrefix ++ name = path := by
  simp [listDiskObjectFiles, sortTexts, and_assoc]

/-- An orphan is a listed file whose path is that of no row. -/
theorem mem_orphans {dbFiles : List DbObjectFile} {disk : List Text} {path : Text} :
    path ∈ (classify dbFiles disk).orphans ↔
      path ∈ disk ∧ ∀ f ∈ dbFiles, f.filepath ≠ path := by
  simp [classify, sortTexts]

theorem unlinkAll_other {root : Path} {unlinkFails : Text → Bool} {orphans : List Text}
    {disk : Disk} {q : Path} (h : ∀ rel ∈ orphans, q ≠ absolutePathFor root rel) :
    unlinkAll root unlinkFails disk orphans q = disk q := by
  induction orphans generalizing disk with
  | nil => rfl
  | cons rel rest ih =>
    rw [unlinkAll, List.foldl_cons]
    have hrest : ∀ r ∈ rest, q ≠ absolutePathFor root r :=
      fun r hr => h r (List.mem_cons_of_mem _ hr)
    exact (ih hrest).trans
      (unlink_other root disk rel (unlinkFails rel) (h rel List.mem_cons_self))

end MyS3.Reconcile
