import MyS3.Requests

/-!
What one step of a request can do, said once for each handler: where it leads from, what
it does to the node, and what it has read.
-/

namespace MyS3.RequestSteps

open Library.Strings Library.Interleaving Library.Runs Library.Tables Library.Paths
open Models Objects Database Engine Repository Outbox Http S3Routes Rbac SessionAuth Purge
open Reconcile UploadRuns Requests

/-- The stored object of an upload describes its body. -/
structure StoredFor (P : Platform) (req : PutRequest) (stored : StoredObject) : Prop where
  filepath : stored.filepath = req.filepath P
  size : stored.filesizeBytes = (content req.body).length
  etag : stored.etag = P.digest stored.etagType (content req.body)

/-- The steps of an upload. -/
inductive PutMove (P : Platform) (s : AppState) (free : Bool) (io : Input) (req : PutRequest) :
    PutStage → Effect → PutStage → Prop
  | turnedAway (response : Response) :
      PutMove P s free io req .received .keep (.done false response)
  | create (b : Int) (default : EtagType) : bucketEtagType s.db b = some default →
      uploadBucket s.db req.bucketId req.faults.defaultBucketId = some b →
      PutMove P s free io req .received (.create (req.filepath P))
        (.created b (resolveEtagType req.headers default))
  | breakOff (b : Int) (etagType : EtagType) (data : Option Bytes) (err : EngineError) :
      PutMove P s free io req (.created b etagType) (.fill (req.filepath P) data)
        (.done false (.failure .internalServerError (.engine err)))
  | store (b : Int) (etagType : EtagType) (o : StoredObject) : StoredFor P req o →
      PutMove P s free io req (.created b etagType)
        (.fill (req.filepath P) (some (content req.body))) (.stored b o)
  | size (b : Int) (o : StoredObject) :
      PutMove P s free io req (.stored b o) .keep (.sized b o (previousSize s.db req.key b))
  | check (b : Int) (o : StoredObject) (previousSize : Int) :
      quotaResponse s.db b (saturate (o.filesizeBytes - previousSize)) false = none →
      PutMove P s free io req (.sized b o previousSize) .keep (.checked b o)
  | select (b : Int) (o : StoredObject) :
      PutMove P s free io req (.checked b o) .keep
        (.selected b o ((getObjectByFilenameInBucket s.db req.key b).map (·.id)))
  | skip (b : Int) (o : StoredObject) :
      PutMove P s free io req (.selected b o none) .keep (.retired b o)
  | retire (b : Int) (o : StoredObject) (id : Int) : free = true →
      PutMove P s free io req (.selected b o (some id)) (.recycle io.now id) (.retired b o)
  | insert (b : Int) (o : StoredObject) : free = true →
      (insertUpload s.db io.now req.key b o).isSome = true →
      PutMove P s free io req (.retired b o) .keep (.inserted b o io.now)
  | commit (b : Int) (o : StoredObject) (insertedAt : Instant) (db : Db) :
      registerUpload s insertedAt io.now req.key b o = some db →
      PutMove P s free io req (.inserted b o insertedAt)
        (.register insertedAt io.now req.key b o)
        (.done true (.stored (etagHeaders o.etag o.etagType)))
  /-- Before or at the quota check. -/
  | refuse (stage : PutStage) (b : Int) (o : StoredObject) (response : Response) :
      PutStage.blob stage = some (b, o) → PutStage.isChecked stage = false →
      PutMove P s free io req stage .keep (.refused false o.filepath response)
  /-- After the quota check: a call fails, or the insert is refused. -/
  | abort (stage : PutStage) (b : Int) (o : StoredObject) :
      PutStage.blob stage = some (b, o) → PutStage.isChecked stage = true →
      (req.faults ≠ {} ∨ (stage = .retired b o ∧ insertUpload s.db io.now req.key b o = none) ∨
        ∃ insertedAt, stage = .inserted b o insertedAt ∧
          registerUpload s insertedAt io.now req.key b o = none) →
      PutMove P s free io req stage .keep (.refused true o.filepath databaseError)
  | cleanUp (checked : Bool) (filepath : Text) (response : Response) :
      PutMove P s free io req (.refused checked filepath response)
        (.unlink filepath req.faults.io.unlink) (.done checked response)

theorem write_ok {P : Platform} {s : AppState} {req : PutRequest} {etagType : EtagType}
    {o : StoredObject} {data : Option Bytes} (h : req.write P s etagType = (.ok o, data)) :
    StoredFor P req o ∧ data = some (content req.body) := by
  unfold PutRequest.write at h
  rcases hput : putChunks P s.config.storageRoot s.disk req.body req.key etagType none
    (.fresh req.uuid) req.faults.io with ⟨res, disk⟩
  rw [hput] at h
  simp only [Prod.mk.injEq] at h
  obtain ⟨hres, hdata⟩ := h
  subst hres
  obtain ⟨hstored, hdisk, _⟩ := putChunks_ok hput
  refine ⟨⟨?_, ?_, ?_⟩, ?_⟩
  · rw [hstored]
    rfl
  · rw [hstored]
  · rw [hstored]
  · rw [← hdata, hdisk, PutRequest.filepath, setFile_same]

theorem faults_ne {faults : PutFaults} (h : faults.softDelete = true ∨ faults.insert = true ∨
    faults.enqueue = true ∨ faults.commit = true) : faults ≠ {} := by
  intro heq
  subst heq
  simp at h

theorem stepPut_move {P : Platform} {s : AppState} {free : Bool} {io : Input} {req : PutRequest}
    {stage stage' : PutStage} {e : Effect} (h : stepPut P s free io req stage = some (e, stage')) :
    PutMove P s free io req stage e stage' := by
  cases stage with
  | received =>
    simp only [stepPut] at h
    split at h
    · cases h
      exact .turnedAway _
    · rename_i b hb
      split at h
      · cases h
        exact .turnedAway _
      · rename_i _ default hdefault
        have hbucket : bucketEtagType s.db b = some default := by
          unfold query at hdefault
          split_ifs at hdefault
          exact hdefault
        split_ifs at h
        · cases h
          exact .turnedAway _
        · cases h
          exact .turnedAway _
        · cases h
          exact .create b default hbucket hb
  | created b etagType =>
    simp only [stepPut] at h
    split at h
    · cases h
      exact .breakOff b etagType _ _
    · rename_i o data hwrite
      cases h
      obtain ⟨hstored, rfl⟩ := write_ok hwrite
      exact .store b etagType o hstored
  | stored b o =>
    simp only [stepPut] at h
    split_ifs at h
    · cases h
      exact .refuse _ b o _ rfl rfl
    · cases h
      exact .size b o
  | sized b o previousSize =>
    simp only [stepPut] at h
    split at h
    · cases h
      exact .refuse _ b o _ rfl rfl
    · rename_i hquota
      cases h
      apply PutMove.check
      unfold quotaResponse at hquota
      split_ifs at hquota
      exact hquota
  | checked b o =>
    simp only [stepPut] at h
    split_ifs at h with hfail
    · cases h
      exact .abort _ b o rfl rfl (Or.inl (faults_ne (Or.inl hfail)))
    · cases h
      exact .select b o
  | selected b o previous =>
    cases previous with
    | none =>
      cases h
      exact .skip b o
    | some id =>
      simp only [stepPut] at h
      split_ifs at h with hfree
      cases h
      exact .retire b o id hfree
  | retired b o =>
    simp only [stepPut] at h
    split_ifs at h with hfree
    split at h
    · rename_i hins
      cases h
      refine .abort _ b o rfl rfl ?_
      by_cases hfail : req.faults.insert = true
      · exact Or.inl (faults_ne (Or.inr (Or.inl hfail)))
      · rw [Bool.not_eq_true] at hfail
        rw [hfail, query_false] at hins
        exact Or.inr (Or.inl ⟨rfl, hins⟩)
    · rename_i inserted hins
      cases h
      refine .insert b o hfree ?_
      unfold query at hins
      split_ifs at hins
      rw [hins]
      rfl
  | inserted b o insertedAt =>
    simp only [stepPut] at h
    split_ifs at h with hfail
    · cases h
      rw [Bool.or_eq_true] at hfail
      exact .abort _ b o rfl rfl (Or.inl (faults_ne (Or.inr (Or.inr hfail))))
    · split at h
      · rename_i hnone
        cases h
        exact .abort _ b o rfl rfl (Or.inr (Or.inr ⟨insertedAt, rfl, hnone⟩))
      · rename_i db hdb
        cases h
        exact .commit b o insertedAt db hdb
  | refused checked filepath response =>
    cases h
    exact .cleanUp checked filepath response
  | done checked response => cases h

/-- A soft delete writes once, to the row that it selected. -/
theorem stepDelete_effect {s : AppState} {free : Bool} {io : Input} {req : DeleteRequest}
    {stage stage' : DeleteStage} {e : Effect}
    (h : stepDelete s free io req stage = some (e, stage')) :
    e = .keep ∨ ∃ id, stage = .selected id ∧ free = true ∧ e = .recycle io.now id := by
  cases stage with
  | received =>
    simp only [stepDelete] at h
    split_ifs at h
    · cases h
      exact Or.inl rfl
    · split at h <;>
      · cases h
        exact Or.inl rfl
  | selected id =>
    simp only [stepDelete] at h
    split_ifs at h with _ hfree
    · cases h
      exact Or.inl rfl
    · cases h
      exact Or.inr ⟨id, rfl, hfree, rfl⟩
  | done response => cases h

/-- A restore writes once, and only what the unique index allows. -/
theorem stepRestore_effect {s : AppState} {free : Bool} {io : Input} {req : RestoreRequest}
    {stage stage' : RestoreStage} {e : Effect}
    (h : stepRestore s free io req stage = some (e, stage')) :
    e = .keep ∨ ∃ record db, stage = .clear record ∧ free = true ∧
      restoreById s.db io.now req.id = some db ∧ e = .restore io.now req.id := by
  cases stage with
  | received =>
    simp only [stepRestore] at h
    split_ifs at h
    · cases h
      exact Or.inl rfl
    · split at h
      · cases h
        exact Or.inl rfl
      · split at h <;>
        · cases h
          exact Or.inl rfl
  | found =>
    simp only [stepRestore] at h
    split_ifs at h
    · cases h
      exact Or.inl rfl
    · split at h
      · cases h
        exact Or.inl rfl
      · split_ifs at h <;>
        · cases h
          exact Or.inl rfl
  | recycled record =>
    simp only [stepRestore] at h
    split_ifs at h <;>
    · cases h
      exact Or.inl rfl
  | clear record =>
    simp only [stepRestore] at h
    split_ifs at h with _ hfree
    · cases h
      exact Or.inl rfl
    · split at h
      · cases h
        exact Or.inl rfl
      · rename_i db hdb
        cases h
        exact Or.inr ⟨record, db, rfl, hfree, hdb, rfl⟩
  | restored =>
    simp only [stepRestore] at h
    split_ifs at h
    · cases h
      exact Or.inl rfl
    · split at h <;>
      · cases h
        exact Or.inl rfl
  | done answer => cases h

/-- Where an item of a purge comes from: it was there before, it is an id of the request,
or it is a row of the recycle bin that was looked up or listed now. -/
inductive ItemFrom (s : AppState) (items : List PurgeItem) : PurgeItem → Prop
  | old (item : PurgeItem) : item ∈ items → ItemFrom s items item
  | requested (id : Int) : ItemFrom s items (.requested id)
  | allowed (record : ObjectRecord) : .unchecked record ∈ items →
      ItemFrom s items (.selected record.id)
  | lookedUp (record : ObjectRecord) : record ∈ s.db.object.rows → record.deletedAt ≠ none →
      ItemFrom s items (.selected record.id)
  | unchecked (record : ObjectRecord) : record ∈ s.db.object.rows → record.deletedAt ≠ none →
      ItemFrom s items (.unchecked record)
  | listed (record : ObjectRecord) : record ∈ s.db.object.rows → record.deletedAt ≠ none →
      ItemFrom s items (.listed record)

/-- The steps of a purge. -/
inductive PurgeMove (s : AppState) (free : Bool) (io : Input) :
    PurgeStage → Effect → PurgeStage → Prop
  | read (stage stage' : PurgeStage) : stage.blob = none → stage'.blob = none →
      (∀ item ∈ stage'.items, ItemFrom s stage.items item) →
      PurgeMove s free io stage .keep stage'
  | remove (item : PurgeItem) (rest : List PurgeItem) (sofar sofar' : PurgeResponse)
      (record : ObjectRecord) : free = true →
      (item = .listed record ∨ (item = .selected record.id ∧ record ∈ s.db.object.rows)) →
      PurgeMove s free io (.working (item :: rest) sofar) (.purge io.now record)
        (.unlinking record.filepath rest sofar')
  | unlink (filepath : Text) (rest : List PurgeItem) (sofar : PurgeResponse) :
      PurgeMove s free io (.unlinking filepath rest sofar) (.unlink filepath io.unlinkFails)
        (.working rest sofar)

theorem passOver_blob (id : Int) (why : Response) (rest : List PurgeItem) (sofar : PurgeResponse)
    (req : PurgeRequest) : (passOver id why rest sofar req).blob = none := by
  cases req <;> rfl

theorem mem_passOver {id : Int} {why : Response} {rest : List PurgeItem} {sofar : PurgeResponse}
    {req : PurgeRequest} {item : PurgeItem} (h : item ∈ (passOver id why rest sofar req).items) :
    item ∈ rest := by
  cases req with
  | item accountId id => cases h
  | _ => exact h

theorem passOver_move {s : AppState} {free : Bool} {io : Input} (item : PurgeItem) (id : Int)
    (why : Response) (rest : List PurgeItem) (sofar : PurgeResponse) (req : PurgeRequest) :
    PurgeMove s free io (.working (item :: rest) sofar) .keep (passOver id why rest sofar req) :=
  .read _ _ rfl (passOver_blob _ _ _ _ _) fun _ h =>
    .old _ (List.mem_cons_of_mem item (mem_passOver h))

theorem purgeStart_move (s : AppState) (free : Bool) (io : Input) (req : PurgeRequest) :
    PurgeMove s free io .received .keep (purgeStart s io req) := by
  have hids : ∀ ids : List Int, ∀ item ∈ ids.map PurgeItem.requested, ItemFrom s [] item := by
    intro ids item hitem
    obtain ⟨id, _, rfl⟩ := List.mem_map.mp hitem
    exact .requested id
  unfold purgeStart
  cases req with
  | retention =>
    simp only
    split_ifs
    · exact .read _ _ rfl rfl fun _ h => by cases h
    · split
      · exact .read _ _ rfl rfl fun _ h => by cases h
      · refine .read _ _ rfl rfl fun item hitem => ?_
        obtain ⟨r, hr, rfl⟩ := List.mem_map.mp hitem
        obtain ⟨hmem, d, hd, _⟩ := mem_listExpiredDeletedObjects.mp hr
        exact .listed r hmem (by simp [hd])
  | item accountId id => exact .read _ _ rfl rfl (hids [id])
  | items accountId ids =>
    simp only
    split_ifs
    · exact .read _ _ rfl rfl fun _ h => by cases h
    · exact .read _ _ rfl rfl fun _ h => by cases h
    · exact .read _ _ rfl rfl (hids ids)
  | all accountId bucketIds =>
    simp only
    split_ifs
    · exact .read _ _ rfl rfl fun _ h => by cases h
    · refine .read _ _ rfl rfl fun item hitem => ?_
      obtain ⟨r, hr, rfl⟩ := List.mem_map.mp hitem
      obtain ⟨hmem, hdeleted⟩ := mem_listDeletedObjects hr
      exact .unchecked r hmem hdeleted

theorem stepPurge_move {s : AppState} {free : Bool} {io : Input} {req : PurgeRequest}
    {stage stage' : PurgeStage} {e : Effect} (h : stepPurge s free io req stage = some (e, stage')) :
    PurgeMove s free io stage e stage' := by
  cases stage with
  | received =>
    cases h
    exact purgeStart_move s free io req
  | working items sofar =>
    cases items with
    | nil =>
      cases h
      exact .read _ _ rfl rfl fun _ hitem => by cases hitem
    | cons item rest =>
      cases item with
      | requested id =>
        cases h
        unfold lookUpItem
        split_ifs
        · exact passOver_move _ _ _ _ _ _
        · split
          · exact passOver_move _ _ _ _ _ _
          · rename_i o ho
            obtain ⟨hmem, hid⟩ := getObjectById_eq_some.mp ho
            split_ifs with hdeleted
            · exact passOver_move _ _ _ _ _ _
            · split
              · exact passOver_move _ _ _ _ _ _
              · refine .read _ _ rfl rfl fun item hitem => ?_
                rcases List.mem_cons.mp hitem with rfl | hitem
                · rw [← hid]
                  exact .lookedUp o hmem hdeleted
                · exact .old _ (List.mem_cons_of_mem _ hitem)
      | unchecked o =>
        simp only [stepPurge] at h
        split_ifs at h
        · cases h
          exact passOver_move _ _ _ _ _ _
        · split at h
          · cases h
            exact passOver_move _ _ _ _ _ _
          · cases h
            refine .read _ _ rfl rfl fun item hitem => ?_
            rcases List.mem_cons.mp hitem with rfl | hitem
            · exact .allowed o List.mem_cons_self
            · exact .old _ (List.mem_cons_of_mem _ hitem)
      | selected id =>
        simp only [stepPurge] at h
        split_ifs at h with _ hfree
        · cases h
          exact passOver_move _ _ _ _ _ _
        · split at h
          · cases h
            exact passOver_move _ _ _ _ _ _
          · rename_i record hrecord
            obtain ⟨hmem, hid⟩ := getObjectById_eq_some.mp hrecord
            cases h
            exact .remove _ rest sofar _ record hfree (Or.inr ⟨by rw [hid], hmem⟩)
      | listed obj =>
        simp only [stepPurge] at h
        split_ifs at h with _ hfree
        · cases h
          exact .read _ _ rfl rfl fun _ hitem => by cases hitem
        · cases h
          exact .remove _ rest sofar _ obj hfree (Or.inl rfl)
  | unlinking filepath rest sofar =>
    cases h
    exact .unlink filepath rest sofar
  | done answer => cases h

/-- A reconcile lists twice and then removes files. -/
theorem stepReconcile_effect {s : AppState} {io : Input} {stage stage' : ReconcileStage}
    {e : Effect} (h : stepReconcile s io stage = some (e, stage')) :
    (e = .keep ∧ (stage' = .done ∨ (stage = .received ∧
        stage' = .rowsListed (listDbObjectFiles s.db)) ∨
      ∃ dbFiles names, stage = .rowsListed dbFiles ∧ io.names = some names ∧
        stage' = .removing (classify dbFiles (listDiskObjectFiles names)).orphans)) ∨
      ∃ rel rest, stage = .removing (rel :: rest) ∧ e = .unlink rel io.unlinkFails ∧
        stage' = .removing rest := by
  cases stage with
  | received =>
    simp only [stepReconcile, Option.some.injEq, Prod.mk.injEq] at h
    obtain ⟨rfl, rfl⟩ := h
    refine Or.inl ⟨rfl, ?_⟩
    split_ifs
    · exact Or.inl rfl
    · exact Or.inr (Or.inl ⟨rfl, rfl⟩)
  | rowsListed dbFiles =>
    simp only [stepReconcile] at h
    split_ifs at h
    · cases h
      exact Or.inl ⟨rfl, Or.inl rfl⟩
    · obtain ⟨names, hnames, heq⟩ := Option.map_eq_some_iff.mp h
      cases heq
      exact Or.inl ⟨rfl, Or.inr (Or.inr ⟨dbFiles, names, rfl, hnames, rfl⟩)⟩
  | removing orphans =>
    cases orphans with
    | nil =>
      cases h
      exact Or.inl ⟨rfl, Or.inl rfl⟩
    | cons rel rest =>
      cases h
      exact Or.inr ⟨rel, rest, rfl, rfl, rfl⟩
  | done => cases h

/-- A step keeps the kind of its request: what becomes an upload was one. -/
theorem step_eq_put {P : Platform} {s : AppState} {free : Bool} {io : Input} {task : Task}
    {req : PutRequest} {stage' : PutStage} {e : Effect}
    (h : task.step P s free io = some (e, .put req stage')) :
    ∃ stage, task = .put req stage ∧ stepPut P s free io req stage = some (e, stage') := by
  cases task with
  | put req' stage =>
    obtain ⟨⟨e', stage''⟩, hstep, heq⟩ := Option.map_eq_some_iff.mp h
    simp only [Prod.map, id, Prod.mk.injEq, Task.put.injEq] at heq
    obtain ⟨rfl, rfl, rfl⟩ := heq
    exact ⟨stage, rfl, hstep⟩
  | dropped => cases h
  | _ =>
    obtain ⟨_, _, heq⟩ := Option.map_eq_some_iff.mp h
    simp [Prod.map] at heq

theorem step_eq_purge {P : Platform} {s : AppState} {free : Bool} {io : Input} {task : Task}
    {req : PurgeRequest} {stage' : PurgeStage} {e : Effect}
    (h : task.step P s free io = some (e, .purge req stage')) :
    ∃ stage, task = .purge req stage ∧ stepPurge s free io req stage = some (e, stage') := by
  cases task with
  | purge req' stage =>
    obtain ⟨⟨e', stage''⟩, hstep, heq⟩ := Option.map_eq_some_iff.mp h
    simp only [Prod.map, id, Prod.mk.injEq, Task.purge.injEq] at heq
    obtain ⟨rfl, rfl, rfl⟩ := heq
    exact ⟨stage, rfl, hstep⟩
  | dropped => cases h
  | _ =>
    obtain ⟨_, _, heq⟩ := Option.map_eq_some_iff.mp h
    simp [Prod.map] at heq

theorem step_eq_reconcile {P : Platform} {s : AppState} {free : Bool} {io : Input} {task : Task}
    {stage' : ReconcileStage} {e : Effect}
    (h : task.step P s free io = some (e, .reconcile stage')) :
    ∃ stage, task = .reconcile stage ∧ stepReconcile s io stage = some (e, stage') := by
  cases task with
  | reconcile stage =>
    obtain ⟨⟨e', stage''⟩, hstep, heq⟩ := Option.map_eq_some_iff.mp h
    simp only [Prod.map, id, Prod.mk.injEq, Task.reconcile.injEq] at heq
    obtain ⟨rfl, rfl⟩ := heq
    exact ⟨stage, rfl, hstep⟩
  | dropped => cases h
  | _ =>
    obtain ⟨_, _, heq⟩ := Option.map_eq_some_iff.mp h
    simp [Prod.map] at heq

/-- The steps that change the object table. -/
def isWrite : Effect → Bool
  | .recycle _ _ => true
  | .restore _ _ => true
  | .register _ _ _ _ _ => true
  | .purge _ _ => true
  | _ => false

theorem db_run {s : AppState} {e : Effect} (h : isWrite e = false) : (e.run s).db = s.db := by
  cases e with
  | fill filepath data =>
    simp only [Effect.run]
    split <;> rfl
  | keep => rfl
  | create filepath => rfl
  | unlink filepath fails => rfl
  | _ => cases h

/-- A request writes when no other transaction does. -/
theorem write_step {P : Platform} {s : AppState} {free : Bool} {io : Input} {task task' : Task}
    {e : Effect} (h : task.step P s free io = some (e, task')) (hwrite : isWrite e = true) :
    free = true ∨ task.holds = true := by
  cases task with
  | put req stage =>
    obtain ⟨stage', hstep, _⟩ := step_of_kind.mp h
    cases stepPut_move hstep with
    | retire b o id hfree => exact Or.inl hfree
    | commit b o insertedAt db hdb => exact Or.inr rfl
    | _ => cases hwrite
  | delete req stage =>
    obtain ⟨stage', hstep, _⟩ := step_of_kind.mp h
    rcases stepDelete_effect hstep with rfl | ⟨id, _, hfree, _⟩
    · cases hwrite
    · exact Or.inl hfree
  | restore req stage =>
    obtain ⟨stage', hstep, _⟩ := step_of_kind.mp h
    rcases stepRestore_effect hstep with rfl | ⟨record, db, _, hfree, _⟩
    · cases hwrite
    · exact Or.inl hfree
  | purge req stage =>
    obtain ⟨stage', hstep, _⟩ := step_of_kind.mp h
    cases stepPurge_move hstep with
    | read _ _ _ _ _ => cases hwrite
    | remove item rest sofar sofar' record hfree _ => exact Or.inl hfree
    | unlink filepath rest sofar => cases hwrite
  | reconcile stage =>
    obtain ⟨stage', hstep, _⟩ := step_of_kind.mp h
    rcases stepReconcile_effect hstep with ⟨rfl, _⟩ | ⟨rel, rest, _, rfl, _⟩ <;> cases hwrite
  | dropped => cases h

/-- What registers a row is the commit of an upload. -/
theorem step_register {P : Platform} {s : AppState} {free : Bool} {io : Input}
    {task task' : Task} {insertedAt now : Instant} {key : Text} {b : Int} {o : StoredObject}
    (h : task.step P s free io = some (.register insertedAt now key b o, task')) :
    ∃ req, task = .put req (.inserted b o insertedAt) ∧ key = req.key ∧ now = io.now ∧
      task' = .put req (.done true (.stored (etagHeaders o.etag o.etagType))) ∧
      ∃ db, registerUpload s insertedAt now key b o = some db := by
  cases task with
  | put req stage =>
    obtain ⟨stage', hstep, rfl⟩ := step_of_kind.mp h
    cases stepPut_move hstep with
    | commit b o insertedAt db hdb => exact ⟨req, rfl, rfl, rfl, rfl, db, hdb⟩
  | delete req stage =>
    obtain ⟨_, hstep, _⟩ := step_of_kind.mp h
    rcases stepDelete_effect hstep with he | ⟨id, _, _, he⟩ <;> cases he
  | restore req stage =>
    obtain ⟨_, hstep, _⟩ := step_of_kind.mp h
    rcases stepRestore_effect hstep with he | ⟨record, db, _, _, _, he⟩ <;> cases he
  | purge req stage =>
    obtain ⟨stage', hstep, _⟩ := step_of_kind.mp h
    cases stepPurge_move hstep
  | reconcile stage =>
    obtain ⟨_, hstep, _⟩ := step_of_kind.mp h
    rcases stepReconcile_effect hstep with ⟨he, _⟩ | ⟨rel, rest, _, he, _⟩ <;> cases he
  | dropped => cases h

/-- The action is a step of a request, with this effect. -/
def Does (P : Platform) (s : State) (a : Action) (e : Effect) : Prop :=
  ∃ i io task task', a = .advance i io ∧ s.tasks[i]? = some task ∧
    task.step P s.shared.app (!s.shared.writing) io = some (e, task')

/-- The three kinds of step. -/
theorem step_cases {P : Platform} {s t : State} {a : Action} (h : step P s a = some t) :
    (∃ task, a = .begin task ∧ task.isNew = true ∧ t = s.spawn task) ∨
      (∃ i io task e task', a = .advance i io ∧ s.tasks[i]? = some task ∧
        task.step P s.shared.app (!s.shared.writing) io = some (e, task') ∧
        t = s.replace i ⟨e.run s.shared.app,
          task'.holds || (s.shared.writing && !task.holds)⟩ task') ∨
      ∃ i task, a = .drop i ∧ s.tasks[i]? = some task ∧
        t = s.replace i { s.shared with writing := s.shared.writing && !task.holds } .dropped := by
  cases a with
  | begin task =>
    simp only [step] at h
    split_ifs at h with hnew
    cases h
    exact Or.inl ⟨task, rfl, hnew, rfl⟩
  | advance i io =>
    obtain ⟨task, v, task', hi, hserve, rfl⟩ := Pool.turn_eq_some.mp h
    obtain ⟨⟨e, u⟩, hstep, heq⟩ := Option.map_eq_some_iff.mp hserve
    simp only [Prod.mk.injEq] at heq
    obtain ⟨rfl, rfl⟩ := heq
    exact Or.inr (Or.inl ⟨i, io, task, e, u, rfl, hi, hstep, rfl⟩)
  | drop i =>
    obtain ⟨task, hi, rfl⟩ := Option.map_eq_some_iff.mp h
    exact Or.inr (Or.inr ⟨i, task, rfl, hi, rfl⟩)

/-- The step of an upload, in the pool. -/
theorem advance_put {P : Platform} {s t : State} {i : Nat} {io : Input} {req : PutRequest}
    {stage : PutStage} (hi : s.tasks[i]? = some (.put req stage)) :
    step P s (.advance i io) = some t ↔
      ∃ e stage', stepPut P s.shared.app (!s.shared.writing) io req stage = some (e, stage') ∧
        t = s.replace i ⟨e.run s.shared.app,
          stage'.holds || (s.shared.writing && !stage.holds)⟩ (.put req stage') := by
  constructor
  · intro h
    obtain ⟨task, v, task', hj, hserve, rfl⟩ := Pool.turn_eq_some.mp h
    rw [hi, Option.some.injEq] at hj
    subst hj
    obtain ⟨⟨e, u⟩, hstep, heq⟩ := Option.map_eq_some_iff.mp hserve
    obtain ⟨stage', hput, rfl⟩ := step_of_kind.mp hstep
    simp only [Prod.mk.injEq] at heq
    obtain ⟨rfl, rfl⟩ := heq
    exact ⟨e, stage', hput, rfl⟩
  · intro h
    obtain ⟨e, stage', hput, rfl⟩ := h
    refine Pool.turn_eq_some.mpr ⟨_, _, _, hi, ?_, rfl⟩
    unfold serve
    rw [show (Task.put req stage).step P s.shared.app (!s.shared.writing) io =
      some (e, .put req stage') by simp [Task.step, hput]]
    rfl

end MyS3.RequestSteps
