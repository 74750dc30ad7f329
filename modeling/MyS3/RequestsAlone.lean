import MyS3.RequestSteps

/-!
The handlers alone. An upload, a soft delete, a restore, a purge or a reconcile that nobody
interrupts does what its function does as a whole.
-/

namespace MyS3.RequestsAlone

open Library.Strings Library.Interleaving Library.Runs Library.Tables Library.Paths
open Models Objects Database Engine Repository Outbox Http S3Routes Rbac SessionAuth Purge
open Reconcile UploadRuns Requests RequestSteps

/-- The request takes its steps with nobody in between. -/
def alone (P : Platform) (io : Input) : Nat → AppState → Task → AppState × Task
  | 0, s, task => (s, task)
  | n + 1, s, task =>
    match task.step P s true io with
    | none => (s, task)
    | some (e, task') => alone P io n (e.run s) task'

theorem alone_put {P : Platform} {io : Input} {n : Nat} {s : AppState} {req : PutRequest}
    {stage v : PutStage} {e : Effect}
    (h : stepPut P s true io req stage = some (e, v)) :
    alone P io (n + 1) s (.put req stage) = alone P io n (e.run s) (.put req v) := by
  simp only [alone, Task.step, h, Option.map_some, Prod.map, id]

theorem alone_done {P : Platform} {io : Input} {s : AppState} {req : PutRequest} {checked : Bool}
    {response : Response} (n : Nat) :
    alone P io n s (.put req (.done checked response)) = (s, .put req (.done checked response)) := by
  cases n <;> rfl

/-- A refused upload removes its blob. -/
theorem alone_refused {P : Platform} {io : Input} {s : AppState} {req : PutRequest}
    {checked : Bool} {filepath : Text} {response : Response} (n : Nat) :
    alone P io (n + 1) s (.put req (.refused checked filepath response)) =
      ({ s with disk := Engine.unlink s.config.storageRoot s.disk filepath req.faults.io.unlink },
        .put req (.done checked response)) := by
  rw [alone_put (e := .unlink filepath req.faults.io.unlink) rfl, alone_done]
  rfl

/-- What an upload leaves after its transaction, alone. -/
structure Settled (P : Platform) (io : Input) (req : PutRequest) (o : StoredObject)
    (result : Option Response × Db) (n : Nat) (s : AppState) (stage : PutStage) : Prop where
  refused : ∀ failure, result.1 = some failure → ∃ checked,
    alone P io n s (.put req stage) =
      ({ s with
          db := result.2
          disk := Engine.unlink s.config.storageRoot s.disk o.filepath req.faults.io.unlink },
        .put req (.done checked failure))
  accepted : result.1 = none →
    alone P io n s (.put req stage) =
      ({ s with db := result.2 },
        .put req (.done true (.stored (etagHeaders o.etag o.etagType))))

theorem settled_of_refused {P : Platform} {io : Input} {s : AppState} {req : PutRequest}
    {o : StoredObject} {c : Bool} {failure : Response} {stage : PutStage} {n : Nat}
    (h : stepPut P s true io req stage = some (.keep, .refused c o.filepath failure)) :
    Settled P io req o (some failure, s.db) (n + 2) s stage where
  refused f hf := by
    rw [alone_put h, alone_refused]
    rw [← Option.some.inj hf]
    exact ⟨c, rfl⟩
  accepted hf := by cases hf

theorem settled_of_step {P : Platform} {io : Input} {s : AppState} {req : PutRequest}
    {o : StoredObject} {result : Option Response × Db} {stage v : PutStage} {n : Nat}
    {e : Effect} (h : stepPut P s true io req stage = some (e, v))
    (hdisk : e.run s = { s with db := (e.run s).db })
    (hnext : Settled P io req o result n (e.run s) v) :
    Settled P io req o result (n + 1) s stage where
  refused f hf := by
    obtain ⟨checked, hnext⟩ := hnext.refused f hf
    rw [alone_put h, hnext, hdisk]
    exact ⟨checked, rfl⟩
  accepted hf := by
    rw [alone_put h, hnext.accepted hf, hdisk]

/-- From the insert on. -/
theorem settled_retired (P : Platform) (io : Input) (s : AppState) (req : PutRequest) (b : Int)
    (o : StoredObject) (result : Option Response × Db)
    (hfail : query req.faults.insert (insertUpload s.db io.now req.key b o) = none →
      result = (some databaseError, s.db))
    (hok : ∀ id db, query req.faults.insert (insertUpload s.db io.now req.key b o) =
        some (id, db) →
      result =
        if req.faults.enqueue then (some databaseError, s.db)
        else if req.faults.commit then (some databaseError, s.db)
        else (none, enqueuePutForActivePeers db io.now id o.filepath o.etag s.config.nodeId)) :
    Settled P io req o result 4 s (.retired b o) := by
  cases hins : query req.faults.insert (insertUpload s.db io.now req.key b o) with
  | none =>
    rw [hfail hins]
    exact settled_of_refused (c := true) (by simp [stepPut, hins])
  | some inserted =>
    obtain ⟨id, db⟩ := inserted
    have hinserted : insertUpload s.db io.now req.key b o = some (id, db) := by
      unfold query at hins
      split_ifs at hins
      exact hins
    refine settled_of_step (e := .keep) (v := .inserted b o io.now)
      (by simp [stepPut, hins]) rfl ?_
    rw [hok id db hins]
    by_cases henqueue : req.faults.enqueue = true
    · rw [if_pos henqueue]
      exact settled_of_refused (c := true) (by simp [stepPut, henqueue])
    · by_cases hcommit : req.faults.commit = true
      · rw [if_neg henqueue, if_pos hcommit]
        exact settled_of_refused (c := true) (by simp [stepPut, hcommit])
      · rw [if_neg henqueue, if_neg hcommit]
        have hregister : registerUpload s io.now io.now req.key b o =
            some (enqueuePutForActivePeers db io.now id o.filepath o.etag s.config.nodeId) := by
          simp [registerUpload, hinserted]
        refine ⟨fun f hf => ?_, fun _ => ?_⟩
        · cases hf
        · have hstep : stepPut P s true io req (.inserted b o io.now) =
              some (.register io.now io.now req.key b o,
                .done true (.stored (etagHeaders o.etag o.etagType))) := by
            simp [stepPut, henqueue, hcommit, hregister]
          rw [show Effect.run s .keep = s from rfl, alone_put hstep, alone_done]
          simp [Effect.run, hregister]

/-- From the stored blob on, an upload alone does what `registerObject` does. -/
theorem settled_stored (P : Platform) (io : Input) (s : AppState) (req : PutRequest) (b : Int)
    (o : StoredObject) :
    Settled P io req o (registerObject s io.now req.key b o req.faults) 8 s (.stored b o) := by
  unfold registerObject
  by_cases hbegin : req.faults.beginTx = true
  · rw [if_pos hbegin]
    exact settled_of_refused (c := false) (by simp [stepPut, hbegin])
  rw [if_neg hbegin]
  by_cases hprevious : req.faults.previousSize = true
  · rw [if_pos hprevious]
    exact settled_of_refused (c := false) (by simp [stepPut, hprevious])
  rw [if_neg hprevious]
  refine settled_of_step (e := .keep) (v := .sized b o (previousSize s.db req.key b))
    (by simp [stepPut, hbegin, hprevious]) rfl ?_
  simp only
  cases hquota : quotaResponse s.db b (saturate (o.filesizeBytes - previousSize s.db req.key b))
      req.faults.hardQuota with
  | some refusal =>
    exact settled_of_refused (c := false) (by simp [stepPut, hquota])
  | none =>
    refine settled_of_step (e := .keep) (v := .checked b o)
      (by simp [stepPut, Effect.run, hquota]) rfl ?_
    simp only
    by_cases hsoft : req.faults.softDelete = true
    · rw [if_pos hsoft]
      exact settled_of_refused (c := true) (by simp [stepPut, hsoft])
    rw [if_neg hsoft]
    refine settled_of_step (e := .keep)
      (v := .selected b o ((getObjectByFilenameInBucket s.db req.key b).map (·.id)))
      (by simp [stepPut, Effect.run, hsoft]) rfl ?_
    cases hcand : getObjectByFilenameInBucket s.db req.key b with
    | none =>
      have hcandidate : softDeleteCandidate Limit1.first s.db req.key (some b) = none := hcand
      rw [softDelete_of_none hcandidate]
      refine settled_of_step (e := .keep) (v := .retired b o) rfl rfl ?_
      apply settled_retired
      · intro hins
        simp only [Effect.run, insertUpload] at hins ⊢
        rw [hins]
      · intro id db hins
        simp only [Effect.run, insertUpload] at hins ⊢
        rw [hins]
    | some r =>
      have hcandidate : softDeleteCandidate Limit1.first s.db req.key (some b) = some r := hcand
      rw [softDelete_of_some hcandidate]
      refine settled_of_step (e := .recycle io.now r.id) (v := .retired b o) rfl rfl ?_
      apply settled_retired
      · intro hins
        simp only [Effect.run, insertUpload] at hins ⊢
        rw [hins]
      · intro id db hins
        simp only [Effect.run, insertUpload] at hins ⊢
        rw [hins]

/-- A write goes to one file, and overwrites what is there. -/
theorem putChunks_disk (P : Platform) (root : Path) (disk : Disk) (stream : List (Option Bytes))
    (filename : Text) (etagType : EtagType) (target : Target) (io : IoFaults) :
    let path := absolutePathFor root (target.filepath P filename)
    let written := putChunks P root disk stream filename etagType none target io
    setFile disk path (written.2 path) = written.2 := by
  intro path written
  funext q
  by_cases hq : q = path
  · rw [hq, setFile_same]
  · rw [setFile_other _ hq]
    exact (putChunks_other P root disk stream filename etagType none target io hq).symm

theorem putChunks_created (P : Platform) (root : Path) (disk : Disk)
    (stream : List (Option Bytes)) (filename : Text) (etagType : EtagType) (target : Target)
    {io : IoFaults} (hdir : io.createDir = false) (hfile : io.createFile = false) :
    putChunks P root (setFile disk (absolutePathFor root (target.filepath P filename)) (some []))
        stream filename etagType none target io =
      putChunks P root disk stream filename etagType none target io := by
  simp [putChunks, hdir, hfile]

section created

variable {P : Platform} {s : AppState} {req : PutRequest} {etagType : EtagType}
  {result : Except EngineError StoredObject} {disk : Disk}

/-- The write of an upload, once its file is there, is that of `putChunks`. -/
theorem write_created (hdir : req.faults.io.createDir = false)
    (hfile : req.faults.io.createFile = false)
    (hput : putChunks P s.config.storageRoot s.disk req.body req.key etagType none
      (.fresh req.uuid) req.faults.io = (result, disk)) :
    req.write P (Effect.run s (.create (req.filepath P))) etagType =
      (result, disk (absolutePathFor s.config.storageRoot (req.filepath P))) := by
  simp only [PutRequest.write, Effect.run, PutRequest.filepath,
    putChunks_created P _ _ _ _ _ _ hdir hfile, hput]

theorem fill_created
    (hput : putChunks P s.config.storageRoot s.disk req.body req.key etagType none
      (.fresh req.uuid) req.faults.io = (result, disk)) :
    Effect.run (Effect.run s (.create (req.filepath P))) (.fill (req.filepath P)
      (disk (absolutePathFor s.config.storageRoot (req.filepath P)))) =
      { s with disk := disk } := by
  have hdisk := putChunks_disk P s.config.storageRoot s.disk req.body req.key etagType
    (.fresh req.uuid) req.faults.io
  rw [hput] at hdisk
  simp only [Effect.run, setFile_same, Option.isSome_some, if_true, setFile_setFile,
    PutRequest.filepath]
  simp only at hdisk
  rw [hdisk]

end created

/-- An upload that nobody interrupts is `putObjectKeyedInBucket`. -/
theorem put_alone (P : Platform) (s : AppState) (io : Input) (req : PutRequest) :
    let call := putObjectKeyedInBucket P s io.now req.uuid req.key req.headers req.body
      req.bucketId req.faults
    ∃ checked, alone P io 10 s (.put req .received) =
      (call.2, .put req (.done checked call.1)) := by
  intro call
  have hcall : call = putObjectKeyedInBucket P s io.now req.uuid req.key req.headers req.body
    req.bucketId req.faults := rfl
  clear_value call
  unfold putObjectKeyedInBucket at hcall
  cases hbucket : uploadBucket s.db req.bucketId req.faults.defaultBucketId with
  | none =>
    rw [hbucket] at hcall
    subst hcall
    refine ⟨false, ?_⟩
    rw [alone_put (e := .keep) (v := .done false databaseError) (by simp [stepPut, hbucket]),
      alone_done]
    rfl
  | some b =>
    rw [hbucket] at hcall
    simp only at hcall
    cases hetag : query req.faults.bucketEtagType (bucketEtagType s.db b) with
    | none =>
      rw [hetag] at hcall
      subst hcall
      refine ⟨false, ?_⟩
      rw [alone_put (e := .keep) (v := .done false databaseError)
        (by simp [stepPut, hbucket, hetag]), alone_done]
      rfl
    | some default =>
      rw [hetag] at hcall
      simp only at hcall
      by_cases hdir : req.faults.io.createDir = true
      · have hput : putChunks P s.config.storageRoot s.disk req.body req.key
            (resolveEtagType req.headers default) none (.fresh req.uuid) req.faults.io =
            (.error .createDir, s.disk) := by
          simp [putChunks, hdir]
        rw [hput] at hcall
        subst hcall
        refine ⟨false, ?_⟩
        rw [alone_put (e := .keep)
          (v := .done false (.failure .internalServerError (.engine .createDir)))
          (by simp [stepPut, hbucket, hetag, hdir]), alone_done]
        rfl
      rw [Bool.not_eq_true] at hdir
      by_cases hfile : req.faults.io.createFile = true
      · have hput : putChunks P s.config.storageRoot s.disk req.body req.key
            (resolveEtagType req.headers default) none (.fresh req.uuid) req.faults.io =
            (.error .createFile, s.disk) := by
          simp [putChunks, hdir, hfile]
        rw [hput] at hcall
        subst hcall
        refine ⟨false, ?_⟩
        rw [alone_put (e := .keep)
          (v := .done false (.failure .internalServerError (.engine .createFile)))
          (by simp [stepPut, hbucket, hetag, hdir, hfile]), alone_done]
        rfl
      rw [Bool.not_eq_true] at hfile
      rw [alone_put (e := .create (req.filepath P))
        (v := .created b (resolveEtagType req.headers default))
        (by simp [stepPut, hbucket, hetag, hdir, hfile])]
      rcases hput : putChunks P s.config.storageRoot s.disk req.body req.key
        (resolveEtagType req.headers default) none (.fresh req.uuid) req.faults.io with ⟨res, disk⟩
      have hwrite := write_created hdir hfile hput
      have hfill := fill_created hput
      rw [hput] at hcall
      cases res with
      | error err =>
        subst hcall
        refine ⟨false, ?_⟩
        rw [alone_put (e := .fill (req.filepath P)
            (disk (absolutePathFor s.config.storageRoot (req.filepath P))))
          (v := .done false (.failure .internalServerError (.engine err)))
          (by simp [stepPut, hwrite]), alone_done, hfill]
      | ok o =>
        simp only at hcall
        have hsettled := settled_stored P io { s with disk := disk } req b o
        rw [alone_put (e := .fill (req.filepath P)
            (disk (absolutePathFor s.config.storageRoot (req.filepath P))))
          (v := .stored b o) (by simp [stepPut, hwrite]), hfill]
        have hsame : registerObject { s with disk := disk } io.now req.key b o req.faults =
            registerObject s io.now req.key b o req.faults := rfl
        rw [hsame] at hsettled
        rcases hreg : registerObject s io.now req.key b o req.faults with ⟨refusal, db⟩
        rw [hreg] at hcall hsettled
        cases refusal with
        | some failure =>
          subst hcall
          obtain ⟨checked, h⟩ := hsettled.refused failure rfl
          exact ⟨checked, by rw [h]⟩
        | none =>
          subst hcall
          exact ⟨true, by rw [hsettled.accepted rfl]⟩

theorem alone_step {P : Platform} {io : Input} {n : Nat} {s : AppState} {task v : Task}
    {e : Effect} (h : task.step P s true io = some (e, v)) :
    alone P io (n + 1) s task = alone P io n (e.run s) v := by
  simp only [alone, h]

theorem alone_stop {P : Platform} {io : Input} {s : AppState} {task : Task} (n : Nat)
    (h : task.step P s true io = none) : alone P io n s task = (s, task) := by
  cases n with
  | zero => rfl
  | succ n => simp only [alone, h]

/-- A soft delete that nobody interrupts is `deleteObjectKeyedInBucket`. -/
theorem delete_alone (P : Platform) (s : AppState) (io : Input) (req : DeleteRequest) :
    let call := deleteObjectKeyedInBucket req.pick s io.now req.key req.bucketId io.fails
    alone P io 2 s (.delete req .received) = (call.2, .delete req (.done call.1)) := by
  intro call
  by_cases hfail : io.fails = true
  · rw [alone_step (e := .keep) (v := .delete req (.done databaseError))
      (by simp [Task.step, stepDelete, hfail]), alone_stop 1 rfl]
    simp [call, deleteObjectKeyedInBucket, hfail, Effect.run]
  · cases hcand : softDeleteCandidate req.pick s.db req.key req.bucketId with
    | none =>
      rw [alone_step (e := .keep) (v := .delete req (.done .noContent))
        (by simp [Task.step, stepDelete, hfail, hcand]), alone_stop 1 rfl]
      simp [call, deleteObjectKeyedInBucket, hfail, Effect.run, softDelete_of_none hcand]
    | some r =>
      rw [alone_step (e := .keep) (v := .delete req (.selected r.id))
        (by simp [Task.step, stepDelete, hfail, hcand]),
        alone_step (e := .recycle io.now r.id) (v := .delete req (.done .noContent))
        (by simp [Task.step, stepDelete, hfail]), alone_stop 0 rfl]
      simp [call, deleteObjectKeyedInBucket, hfail, Effect.run, softDelete_of_some hcand]

/-- A permitted restore that nobody interrupts is `restoreObject`. -/
theorem restore_alone (P : Platform) (s : AppState) (io : Input) (req : RestoreRequest)
    {o : ObjectRecord} (hfail : io.fails = false) (ho : getObjectById s.db req.id = some o)
    (hperm : requireBucketPerm s req.accountId o.bucketId .update = .ok ()) :
    (∀ db, restoreObject s.db io.now req.id = .ok db →
      (alone P io 4 s (.restore req .received)).1 = { s with db := db }) ∧
      ∀ err, restoreObject s.db io.now req.id = .error err →
        (alone P io 4 s (.restore req .received)).1 = s := by
  rw [alone_step (e := .keep) (v := .restore req .found)
    (by simp [Task.step, stepRestore, hfail, ho, hperm])]
  unfold restoreObject
  simp only [ho, Effect.run]
  by_cases hactive : o.deletedAt = none
  · rw [if_pos hactive, alone_step (e := .keep)
      (v := .restore req (.done (.error (textFailure .conflict "object is not in recycle bin"))))
      (by simp [Task.step, stepRestore, hfail, ho, hactive]), alone_stop 2 rfl]
    simp [Effect.run]
  rw [if_neg hactive, alone_step (e := .keep) (v := .restore req (.recycled o))
    (by simp [Task.step, stepRestore, hfail, ho, hactive])]
  simp only [Effect.run]
  by_cases htaken : (s.db.object.rows.any fun r =>
      r.bucketId == o.bucketId && r.originalFilename == o.originalFilename &&
        isActive r && r.id != req.id) = true
  · rw [if_pos htaken, alone_step (e := .keep)
      (v := .restore req (.done (.error (textFailure .conflict
        "an active object with the same key already exists in this bucket"))))
      (by simp only [Task.step, stepRestore, hfail, htaken]; rfl), alone_stop 1 rfl]
    simp [Effect.run]
  rw [if_neg htaken, alone_step (e := .keep) (v := .restore req (.clear o))
    (by simp only [Task.step, stepRestore, hfail, htaken]; rfl)]
  simp only [Effect.run]
  cases hdb : restoreById s.db io.now req.id with
  | none =>
    have hdb' : s.db.updateObjectsChecked (fun r => r.id == req.id) (Objects.restore io.now) =
      none := hdb
    rw [hdb', alone_step (e := .keep)
      (v := .restore req (.done (.error (.failure .badRequest .database))))
      (by simp [Task.step, stepRestore, hfail, hdb]), alone_stop 0 rfl]
    simp [Effect.run]
  | some db =>
    have hdb' : s.db.updateObjectsChecked (fun r => r.id == req.id) (Objects.restore io.now) =
      some db := hdb
    rw [hdb', alone_step (e := .restore io.now req.id) (v := .restore req .restored)
      (by simp [Task.step, stepRestore, hfail, hdb])]
    simp [alone, Effect.run, hdb]

/-- A purge transaction and the removal of the blob after it. -/
theorem purge_run (s : AppState) (now : Instant) (unlinkFails : Bool) (obj : ObjectRecord) :
    Effect.run (Effect.run s (.purge now obj)) (.unlink obj.filepath unlinkFails) =
      purgeRow now (fun _ => unlinkFails) s obj := rfl

theorem working_alone (P : Platform) (s : AppState) {io : Input} (hfail : io.fails = false)
    (rows : List ObjectRecord) (sofar : PurgeResponse) :
    alone P io (2 * rows.length + 1) s (.purge .retention (.working (rows.map .listed) sofar)) =
      (purgeRows io.now (fun _ => false) (fun _ => io.unlinkFails) s rows,
        .purge .retention (.done .ended)) := by
  induction rows generalizing s with
  | nil =>
    rw [show 2 * ([] : List ObjectRecord).length + 1 = 0 + 1 from rfl,
      alone_step (e := .keep) (v := .purge .retention (.done .ended)) rfl, alone_stop 0 rfl]
    rfl
  | cons obj rest ih =>
    rw [show 2 * (obj :: rest).length + 1 = 2 * rest.length + 1 + 1 + 1 from by
        rw [List.length_cons]; omega,
      alone_step (e := .purge io.now obj)
        (v := .purge .retention (.unlinking obj.filepath (rest.map .listed) sofar))
        (by simp [Task.step, stepPurge, hfail]),
      alone_step (e := .unlink obj.filepath io.unlinkFails)
        (v := .purge .retention (.working (rest.map .listed) sofar)) rfl,
      purge_run, ih]
    simp [purgeRows]

/-- A retention purge that nobody interrupts is `purgeOnce`. -/
theorem purge_alone (P : Platform) (s : AppState) {io : Input} (hfail : io.fails = false)
    {c : Int} (hcutoff : cutoff s.db.appSettings io.now = some c) :
    alone P io (2 * (listExpiredDeletedObjects s.db c).length + 2) s (.purge .retention .received) =
      (purgeOnce s io.now (fun _ => false) (fun _ => io.unlinkFails),
        .purge .retention (.done .ended)) := by
  rw [alone_step (e := .keep)
    (v := .purge .retention (.working ((listExpiredDeletedObjects s.db c).map .listed) {}))
    (by simp [Task.step, stepPurge, purgeStart, hfail, hcutoff])]
  rw [show Effect.run s .keep = s from rfl, working_alone P s hfail]
  simp [purgeOnce, hcutoff]

theorem removing_alone (P : Platform) (s : AppState) (io : Input) (orphans : List Text) :
    alone P io (orphans.length + 1) s (.reconcile (.removing orphans)) =
      ({ s with disk :=
          unlinkAll s.config.storageRoot (fun _ => io.unlinkFails) s.disk orphans },
        .reconcile .done) := by
  induction orphans generalizing s with
  | nil =>
    rw [alone_step (e := .keep) (v := .reconcile .done) rfl, alone_stop _ rfl]
    rfl
  | cons rel rest ih =>
    rw [List.length_cons, alone_step (e := .unlink rel io.unlinkFails)
      (v := .reconcile (.removing rest)) rfl, ih]
    rfl

/-- A reconcile that nobody interrupts is `reconcile`. -/
theorem reconcile_alone (P : Platform) (s : AppState) {io : Input} (hfail : io.fails = false)
    {names : List Text} (hnames : io.names = some names) (namesAfter : List Text) :
    let orphans := (classify (listDbObjectFiles s.db) (listDiskObjectFiles names)).orphans
    alone P io (orphans.length + 3) s (.reconcile .received) =
      ((reconcile s names namesAfter fun _ => io.unlinkFails).2, .reconcile .done) := by
  intro orphans
  rw [alone_step (e := .keep) (v := .reconcile (.rowsListed (listDbObjectFiles s.db)))
      (by simp [Task.step, stepReconcile, hfail]),
    alone_step (e := .keep) (v := .reconcile (.removing orphans))
      (by simp [Task.step, stepReconcile, hfail, hnames, orphans]),
    show Effect.run (Effect.run s .keep) .keep = s from rfl, removing_alone]
  rfl

end MyS3.RequestsAlone
