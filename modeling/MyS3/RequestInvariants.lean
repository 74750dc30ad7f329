import MyS3.Keys
import MyS3.RequestSteps

/-!
What holds in every state while requests are served, whatever their order: the write lock
has one holder at most, an upload knows its blob, and until it is answered no row and no
purge names that blob. It rests on fresh UUIDs only.
-/

namespace MyS3.RequestInvariants

open Library.Strings Library.Tables Library.Interleaving Library.Runs
open Models Objects Database Engine Repository Outbox Http S3Routes Rbac SessionAuth Purge Keys
open Reconcile UploadRuns Requests RequestSteps

def isAnswered : PutStage → Bool
  | .done _ _ => true
  | _ => false

/-- The blob of an upload that is not answered, and so has no row. -/
def pending (P : Platform) : Task → Option Text
  | .put req stage => if isAnswered stage then none else some (req.filepath P)
  | _ => none

def itemFilepath : PurgeItem → Option Text
  | .listed record => some record.filepath
  | _ => none

/-- The blobs that an upload or a purge names. -/
def filepaths (P : Platform) : Task → List Text
  | .put req _ => [req.filepath P]
  | .purge _ stage => stage.blob.toList ++ stage.items.filterMap itemFilepath
  | _ => []

def orphansOf : Task → List Text
  | .reconcile (.removing orphans) => orphans
  | _ => []

/-- Nothing on the node has the name of the new blob: no row, no file, no other request. -/
structure Fresh (P : Platform) (s : State) (req : PutRequest) : Prop where
  rows : ∀ r ∈ s.shared.app.db.object.rows, r.filepath ≠ req.filepath P
  disk : s.shared.app.disk
    (absolutePathFor s.shared.app.config.storageRoot (req.filepath P)) = none
  tasks : ∀ task ∈ s.tasks, req.filepath P ∉ filepaths P task ∧ req.filepath P ∉ orphansOf task

/-- What the surroundings guarantee: UUIDs are new, the routes pass normalized keys, and a
directory lists what it holds. -/
def Legal (P : Platform) (s : State) : Action → Prop
  | .begin (.put req _) => Fresh P s req ∧ ∃ raw, normalizeObjectKey raw = .ok req.key
  | .advance _ io => ∀ names, io.names = some names → ListsObjects s.shared.app names
  | _ => True

def HasBucket (db : Db) (b : Int) : Prop := ∃ c ∈ db.bucket.rows, c.id = b

/-- What an upload may rely on at its stage. -/
structure UploadOk (P : Platform) (s : AppState) (req : PutRequest) (stage : PutStage) : Prop where
  created : ∀ b etagType, stage = .created b etagType → HasBucket s.db b
  stored : ∀ b o, stage.blob = some (b, o) → StoredFor P req o ∧ HasBucket s.db b
  refused : ∀ checked f response, stage = .refused checked f response → f = req.filepath P
  unnamed : isAnswered stage = false → ∀ r ∈ s.db.object.rows, r.filepath ≠ req.filepath P

structure TaskOk (P : Platform) (v : Server) (task : Task) : Prop where
  lock : task.holds = true → v.writing = true
  upload : ∀ req stage, task = .put req stage → UploadOk P v.app req stage

/-- Two requests: one lock, and no common blob while it is pending. -/
structure Apart (P : Platform) (t u : Task) : Prop where
  lock : ¬ (t.holds = true ∧ u.holds = true)
  left : ∀ f, pending P t = some f → f ∉ filepaths P u
  right : ∀ f, pending P u = some f → f ∉ filepaths P t

abbrev Ok (P : Platform) (s : State) : Prop :=
  Coherent (fun _ => True) (TaskOk P) (Apart P) s

theorem apart_symm {P : Platform} (t u : Task) (h : Apart P t u) : Apart P u t :=
  ⟨fun hboth => h.lock hboth.symm, h.right, h.left⟩

@[simp] theorem run_config (s : AppState) (e : Effect) : (e.run s).config = s.config := by
  cases e <;> simp only [Effect.run]
  split <;> rfl

theorem registerUpload_eq {s : AppState} {insertedAt now : Instant} {key : Text} {b : Int}
    {o : StoredObject} {db : Db} (h : registerUpload s insertedAt now key b o = some db) :
    ∃ id inserted, insertUpload s.db insertedAt key b o = some (id, inserted) ∧
      db = enqueuePutForActivePeers inserted now id o.filepath o.etag s.config.nodeId := by
  obtain ⟨⟨id, inserted⟩, hins, rfl⟩ := Option.map_eq_some_iff.mp h
  exact ⟨id, inserted, hins, rfl⟩

/-- The row of an upload. -/
def uploadRow (insertedAt : Instant) (key : Text) (b : Int) (o : StoredObject) :
    ObjectTable.NewObject where
  originalFilename := key
  filepath := o.filepath
  fileFormat := o.fileFormat
  filesizeBytes := o.filesizeBytes
  etagType := o.etagType
  etag := o.etag
  dateUploaded := insertedAt.currentTimestamp.text
  dateModified := insertedAt.currentTimestamp.text
  bucketId := b

theorem insertUpload_eq {db db' : Db} {now : Instant} {key : Text} {b id : Int}
    {o : StoredObject} (h : insertUpload db now key b o = some (id, db')) :
    id = db.object.nextId ∧ db.insertObject (uploadRow now key b o) = some db' := by
  obtain ⟨inserted, hins, heq⟩ := Option.map_eq_some_iff.mp h
  simp only [Prod.mk.injEq] at heq
  obtain ⟨rfl, rfl⟩ := heq
  exact ⟨rfl, hins⟩

theorem registerUpload_rows {s : AppState} {insertedAt now : Instant} {key : Text} {b : Int}
    {o : StoredObject} {db : Db} (h : registerUpload s insertedAt now key b o = some db) :
    s.db.object.Free (uploadRow insertedAt key b o) ∧ db.bucket = s.db.bucket ∧
      db.object.rows =
        s.db.object.rows ++ [(uploadRow insertedAt key b o).record s.db.object.nextId] := by
  obtain ⟨id, inserted, hins, rfl⟩ := registerUpload_eq h
  obtain ⟨_, hinsert⟩ := insertUpload_eq hins
  obtain ⟨hfree, hrows, _, hbucket, _⟩ := Db.insertObject_eq hinsert
  exact ⟨hfree, hbucket, hrows⟩

/-- An upload can be registered when its filepath and its key are free. -/
theorem registerUpload_isSome {s : AppState} (insertedAt now : Instant) {key : Text} {b : Int}
    {o : StoredObject} (hb : HasBucket s.db b) :
    (registerUpload s insertedAt now key b o).isSome = true ↔
      s.db.object.Free (uploadRow insertedAt key b o) := by
  have hins : (s.db.insertObject (uploadRow insertedAt key b o)).isSome = true ↔
      s.db.object.Free (uploadRow insertedAt key b o) := Db.insertObject_isSome hb
  rw [← hins]
  unfold registerUpload insertUpload insertObjectTx uploadRow
  rw [Option.isSome_map, Option.isSome_map]

theorem restoreById_rows {db db' : Db} {now : Instant} {id : Int}
    (h : restoreById db now id = some db') :
    db'.object.rows = updateRows (fun r => r.id == id) (Objects.restore now).apply db.object.rows ∧
      db'.bucket = db.bucket := by
  obtain ⟨hrows, hbucket, _⟩ := Db.updateObjectsChecked_rows h
  exact ⟨hrows, hbucket⟩

theorem mem_purgeRecord {s : AppState} {now : Instant} {record r : ObjectRecord} :
    r ∈ (purgeRecord s now record).object.rows ↔ r ∈ s.db.object.rows ∧ r.id ≠ record.id := by
  unfold purgeRecord enqueueDeleteForActivePeers
  rw [Db.mem_deleteObjects, enqueueForActivePeers_object, beq_eq_false_iff_ne]

@[simp] theorem run_bucket (s : AppState) (e : Effect) :
    (e.run s).db.bucket = s.db.bucket := by
  cases e with
  | fill filepath data =>
    simp only [Effect.run]
    split <;> rfl
  | restore now id =>
    simp only [Effect.run]
    cases hdb : restoreById s.db now id with
    | none => rfl
    | some db => exact (restoreById_rows hdb).2
  | register insertedAt now key b o =>
    simp only [Effect.run]
    cases hdb : registerUpload s insertedAt now key b o with
    | none => rfl
    | some db => exact (registerUpload_rows hdb).2.1
  | _ => rfl

/-- The file that a step writes or removes. -/
def effectFile : Effect → Option Text
  | .create filepath => some filepath
  | .fill filepath _ => some filepath
  | .unlink filepath _ => some filepath
  | _ => none

theorem disk_run {s : AppState} {e : Effect} {q : Library.Paths.Path}
    (h : ∀ f, effectFile e = some f → q ≠ absolutePathFor s.config.storageRoot f) :
    (e.run s).disk q = s.disk q := by
  cases e with
  | create filepath => exact setFile_other _ (h filepath rfl)
  | fill filepath data =>
    simp only [Effect.run]
    split
    · exact setFile_other _ (h filepath rfl)
    · rfl
  | unlink filepath fails => exact unlink_other _ _ _ _ (h filepath rfl)
  | _ => rfl

/-- Where a row after a step comes from. -/
inductive RowFrom (s : AppState) (e : Effect) : ObjectRecord → Prop
  | same (r : ObjectRecord) : r ∈ s.db.object.rows → RowFrom s e r
  | recycled (now : Instant) (a : ObjectRecord) : a ∈ s.db.object.rows →
      e = .recycle now a.id → RowFrom s e ((recycle now).apply a)
  | restored (now : Instant) (a : ObjectRecord) : a ∈ s.db.object.rows →
      e = .restore now a.id → RowFrom s e ((Objects.restore now).apply a)
  | registered (insertedAt now : Instant) (key : Text) (b : Int) (o : StoredObject) :
      e = .register insertedAt now key b o → s.db.object.Free (uploadRow insertedAt key b o) →
      RowFrom s e ((uploadRow insertedAt key b o).record s.db.object.nextId)

theorem rowFrom_run {s : AppState} {e : Effect} {r : ObjectRecord}
    (h : r ∈ (e.run s).db.object.rows) : RowFrom s e r := by
  cases e with
  | fill filepath data =>
    simp only [Effect.run] at h
    split at h <;> exact .same r h
  | recycle now id =>
    rcases mem_recycleById.mp h with ⟨hr, _⟩ | ⟨a, ha, rfl, rfl⟩
    · exact .same r hr
    · exact .recycled now a ha rfl
  | restore now id =>
    simp only [Effect.run] at h
    cases hdb : restoreById s.db now id with
    | none =>
      rw [hdb] at h
      exact .same r h
    | some db =>
      rw [hdb, Option.getD_some, (restoreById_rows hdb).1] at h
      rcases mem_updateRows.mp h with ⟨hr, _⟩ | ⟨a, ha, hid, rfl⟩
      · exact .same r hr
      · exact .restored now a ha (by rw [beq_iff_eq.mp hid])
  | register insertedAt now key b o =>
    simp only [Effect.run] at h
    cases hdb : registerUpload s insertedAt now key b o with
    | none =>
      rw [hdb] at h
      exact .same r h
    | some db =>
      obtain ⟨hfree, _, hrows⟩ := registerUpload_rows hdb
      rw [hdb, Option.getD_some, hrows] at h
      rcases List.mem_append.mp h with hr | hr
      · exact .same r hr
      · rw [List.mem_singleton.mp hr]
        exact .registered insertedAt now key b o rfl hfree
  | purge now record => exact .same r (mem_purgeRecord.mp h).1
  | _ => exact .same r h

theorem nextId_run (s : AppState) (e : Effect) :
    s.db.object.nextId ≤ (e.run s).db.object.nextId := by
  cases e with
  | fill filepath data =>
    simp only [Effect.run]
    split <;> exact le_refl _
  | restore now id =>
    simp only [Effect.run]
    cases hdb : restoreById s.db now id with
    | none => exact le_refl _
    | some db => exact (Db.updateObjectsChecked_rows hdb).2.2.2.ge
  | register insertedAt now key b o =>
    simp only [Effect.run]
    cases hdb : registerUpload s insertedAt now key b o with
    | none => exact le_refl _
    | some db =>
      obtain ⟨id, inserted, hins, rfl⟩ := registerUpload_eq hdb
      have hnext := (Db.insertObject_eq (insertUpload_eq hins).2).2.2.1
      simp only [Option.getD_some, enqueuePutForActivePeers, enqueueForActivePeers_object]
      omega
  | _ => exact le_refl _

/-- A row that a step leaves active was active, or the step restored or inserted it. -/
theorem active_run {s : AppState} {e : Effect} {r : ObjectRecord}
    (h : r ∈ (e.run s).db.object.rows) (hactive : r.deletedAt = none) :
    (r ∈ s.db.object.rows) ∨ (∃ now, e = .restore now r.id) ∨ r.id = s.db.object.nextId := by
  cases rowFrom_run h with
  | same _ hr => exact Or.inl hr
  | recycled now a ha he => cases hactive
  | restored now a ha he => exact Or.inr (Or.inl ⟨now, he⟩)
  | registered insertedAt now key b o he hfree => exact Or.inr (Or.inr rfl)

/-- The filepaths after a step: those from before, and that of a registered upload. -/
theorem filepath_run {s : AppState} {e : Effect} {r : ObjectRecord}
    (h : r ∈ (e.run s).db.object.rows) :
    (∃ a ∈ s.db.object.rows, a.id = r.id ∧ a.filepath = r.filepath) ∨
      ∃ insertedAt now key b o, e = .register insertedAt now key b o ∧ r.filepath = o.filepath := by
  cases rowFrom_run h with
  | same _ hr => exact Or.inl ⟨r, hr, rfl, rfl⟩
  | recycled now a ha he => exact Or.inl ⟨a, ha, rfl, rfl⟩
  | restored now a ha he => exact Or.inl ⟨a, ha, rfl, rfl⟩
  | registered insertedAt now key b o he hfree => exact Or.inr ⟨insertedAt, now, key, b, o, he, rfl⟩

/-- What a step changes about a request, as far as the others are concerned. -/
structure Moves (P : Platform) (v : Server) (t : Task) (e : Effect) (u : Task) : Prop where
  pending : ∀ f, pending P u = some f → pending P t = some f
  filepaths : ∀ f ∈ filepaths P u,
    f ∈ filepaths P t ∨ ∃ r ∈ v.app.db.object.rows, r.filepath = f
  holds : u.holds = true → t.holds = true ∨ v.writing = false
  register : ∀ insertedAt now key b o, e = .register insertedAt now key b o →
    RequestInvariants.pending P t = some o.filepath
  upload : ∀ req stage, u = .put req stage → UploadOk P (e.run v.app) req stage

theorem uploadOk_of_rows {P : Platform} {s s' : AppState} {req : PutRequest} {stage : PutStage}
    (h : UploadOk P s req stage) (hbucket : s'.db.bucket = s.db.bucket)
    (hrows : isAnswered stage = false → ∀ r ∈ s'.db.object.rows, r.filepath ≠ req.filepath P) :
    UploadOk P s' req stage := by
  refine ⟨?_, ?_, h.refused, hrows⟩
  · intro b etagType hstage
    unfold HasBucket
    rw [hbucket]
    exact h.created b etagType hstage
  · intro b o hblob
    unfold HasBucket
    rw [hbucket]
    exact h.stored b o hblob

/-- A step that registers nothing adds no filepath. -/
theorem unnamed_run {P : Platform} {s : AppState} {req : PutRequest} {e : Effect}
    (h : ∀ r ∈ s.db.object.rows, r.filepath ≠ req.filepath P)
    (he : ∀ insertedAt now key b o, e = .register insertedAt now key b o →
      o.filepath ≠ req.filepath P) :
    ∀ r ∈ (e.run s).db.object.rows, r.filepath ≠ req.filepath P := by
  intro r hr
  cases rowFrom_run hr with
  | same _ hr => exact h r hr
  | recycled now a ha _ => exact h a ha
  | restored now a ha _ => exact h a ha
  | registered insertedAt now key b o heq _ => exact he insertedAt now key b o heq

/-- A step of an upload keeps what the upload relies on. -/
theorem uploadOk_move {P : Platform} {s : AppState} {free : Bool} {io : Input} {req : PutRequest}
    {stage stage' : PutStage} {e : Effect} (h : UploadOk P s req stage)
    (hmove : PutMove P s free io req stage e stage') : UploadOk P (e.run s) req stage' := by
  have hkeep : isAnswered stage = false →
      (∀ insertedAt now key b o, e ≠ .register insertedAt now key b o) →
      ∀ r ∈ (e.run s).db.object.rows, r.filepath ≠ req.filepath P := by
    intro hstage he
    exact unnamed_run (h.unnamed hstage) fun _ _ _ _ _ heq => absurd heq (he _ _ _ _ _)
  have hbucket : ∀ b, HasBucket s.db b → HasBucket (e.run s).db b := by
    intro b hb
    unfold HasBucket
    rw [run_bucket]
    exact hb
  cases hmove with
  | turnedAway response => exact ⟨by simp, by simp [PutStage.blob], by simp, by simp [isAnswered]⟩
  | create b default hdefault =>
    refine ⟨?_, by simp [PutStage.blob], by simp, fun _ => hkeep rfl (by simp)⟩
    intro b' etagType heq
    simp only [PutStage.created.injEq] at heq
    obtain ⟨c, hc, _⟩ := Option.map_eq_some_iff.mp hdefault
    obtain ⟨hmem, hid⟩ := BucketTable.byId_eq_some.mp hc
    rw [← heq.1]
    exact hbucket b ⟨c, hmem, hid⟩
  | breakOff b etagType data err =>
    exact ⟨by simp, by simp [PutStage.blob], by simp, by simp [isAnswered]⟩
  | store b etagType o hstored =>
    refine ⟨by simp, ?_, by simp, fun _ => hkeep rfl (by simp)⟩
    intro b' o' heq
    simp only [PutStage.blob, Option.some.injEq, Prod.mk.injEq] at heq
    rw [← heq.1, ← heq.2]
    exact ⟨hstored, hbucket b (h.created b etagType rfl)⟩
  | commit b o insertedAt db hdb =>
    exact ⟨by simp, by simp [PutStage.blob], by simp, by simp [isAnswered]⟩
  | cleanUp checked filepath response =>
    exact ⟨by simp, by simp [PutStage.blob], by simp, by simp [isAnswered]⟩
  | refuse _ b o response hblob hstage =>
    refine ⟨by simp, by simp [PutStage.blob], ?_, fun _ => ?_⟩
    · intro checked f response' heq
      simp only [PutStage.refused.injEq] at heq
      rw [← heq.2.1]
      exact (h.stored b o hblob).1.filepath
    · apply hkeep _ (by simp)
      cases stage <;> simp [PutStage.blob, isAnswered] at hblob ⊢
  | abort _ b o hblob hstage hwhy =>
    refine ⟨by simp, by simp [PutStage.blob], ?_, fun _ => ?_⟩
    · intro checked f response' heq
      simp only [PutStage.refused.injEq] at heq
      rw [← heq.2.1]
      exact (h.stored b o hblob).1.filepath
    · apply hkeep _ (by simp)
      cases stage <;> simp [PutStage.blob, isAnswered] at hblob ⊢
  | _ =>
    refine ⟨by simp, ?_, by simp, fun _ => hkeep rfl (by simp)⟩
    intro b' o' heq
    obtain ⟨hstored, hb⟩ := h.stored _ _ rfl
    simp only [PutStage.blob, Option.some.injEq, Prod.mk.injEq] at heq
    rw [← heq.1, ← heq.2]
    exact ⟨hstored, hbucket _ hb⟩

/-- The write lock is taken by an insert, when it is free. -/
theorem holds_move {P : Platform} {s : AppState} {free : Bool} {io : Input} {req : PutRequest}
    {stage stage' : PutStage} {e : Effect} (hmove : PutMove P s free io req stage e stage')
    (h : stage'.holds = true) : free = true := by
  cases hmove <;> simp [PutStage.holds] at h
  assumption

theorem pending_move {P : Platform} {s : AppState} {free : Bool} {io : Input} {req : PutRequest}
    {stage stage' : PutStage} {e : Effect} (hmove : PutMove P s free io req stage e stage') :
    isAnswered stage = false := by
  cases hmove with
  | refuse _ b o response hblob hstage =>
    cases stage <;> simp [PutStage.blob, isAnswered] at hblob ⊢
  | abort _ b o hblob hstage hwhy =>
    cases stage <;> simp [PutStage.blob, isAnswered] at hblob ⊢
  | _ => rfl

theorem register_move {P : Platform} {s : AppState} {free : Bool} {io : Input} {req : PutRequest}
    {stage stage' : PutStage} {insertedAt now : Instant} {key : Text} {b : Int} {o : StoredObject}
    (hmove : PutMove P s free io req stage (.register insertedAt now key b o) stage') :
    stage.blob = some (b, o) ∧ key = req.key ∧ now = io.now := by
  cases hmove with
  | commit b o insertedAt db hdb => exact ⟨rfl, rfl, rfl⟩

theorem itemFilepath_from {s : AppState} {items : List PurgeItem} {item : PurgeItem} {f : Text}
    (h : ItemFrom s items item) (hf : itemFilepath item = some f) :
    f ∈ items.filterMap itemFilepath ∨ ∃ r ∈ s.db.object.rows, r.filepath = f := by
  cases h with
  | old _ hitem => exact Or.inl (List.mem_filterMap.mpr ⟨item, hitem, hf⟩)
  | listed record hr _ => exact Or.inr ⟨record, hr, Option.some.inj hf⟩
  | _ => cases hf

/-- A purge names blobs of rows only. -/
theorem filepaths_purge {P : Platform} {s : AppState} {free : Bool} {io : Input}
    {req : PurgeRequest} {stage stage' : PurgeStage} {e : Effect}
    (hmove : PurgeMove s free io stage e stage') :
    ∀ f ∈ filepaths P (.purge req stage'),
      f ∈ filepaths P (.purge req stage) ∨ ∃ r ∈ s.db.object.rows, r.filepath = f := by
  intro f hf
  cases hmove with
  | read _ _ hblob hblob' hitems =>
    simp only [filepaths, hblob', Option.toList_none, List.nil_append] at hf
    obtain ⟨item, hitem, hpath⟩ := List.mem_filterMap.mp hf
    rcases itemFilepath_from (hitems item hitem) hpath with hold | hrow
    · exact Or.inl (List.mem_append_right _ hold)
    · exact Or.inr hrow
  | remove item rest sofar sofar' record hfree hitem =>
    simp only [filepaths, PurgeStage.blob, PurgeStage.items, Option.toList_some,
      List.singleton_append, List.mem_cons] at hf
    rcases hf with rfl | hf
    · rcases hitem with rfl | ⟨_, hrow⟩
      · refine Or.inl (List.mem_append_right _ ?_)
        exact List.mem_filterMap.mpr ⟨_, List.mem_cons_self, rfl⟩
      · exact Or.inr ⟨record, hrow, rfl⟩
    · refine Or.inl (List.mem_append_right _ ?_)
      obtain ⟨item', hitem', hpath⟩ := List.mem_filterMap.mp hf
      exact List.mem_filterMap.mpr ⟨item', List.mem_cons_of_mem _ hitem', hpath⟩
  | unlink filepath rest sofar => exact Or.inl (List.mem_append_right _ hf)

theorem moves_of_step {P : Platform} {v : Server} {io : Input} {t u : Task} {e : Effect}
    (hok : TaskOk P v t) (h : t.step P v.app (!v.writing) io = some (e, u)) :
    Moves P v t e u := by
  cases t with
  | put req stage =>
    obtain ⟨stage', hstep, rfl⟩ := step_of_kind.mp h
    have hmove := stepPut_move hstep
    have hupload := hok.upload req stage rfl
    have hpending := pending_move hmove
    refine ⟨?_, fun f hf => Or.inl hf, ?_, ?_, ?_⟩
    · intro f hf
      simp only [pending] at hf ⊢
      split_ifs at hf
      rw [hpending]
      exact hf
    · intro hholds
      have := holds_move hmove hholds
      exact Or.inr (by simpa using this)
    · intro insertedAt now key b o heq
      subst heq
      obtain ⟨hblob, _⟩ := register_move hmove
      simp only [pending, hpending, Bool.false_eq_true, if_false]
      rw [(hupload.stored b o hblob).1.filepath]
    · intro req' stage'' heq
      cases heq
      exact uploadOk_move hupload hmove
  | delete req stage =>
    obtain ⟨stage', hstep, rfl⟩ := step_of_kind.mp h
    refine ⟨by simp [pending], by simp [filepaths], by simp [Task.holds], ?_, by simp⟩
    intro insertedAt now key b o he
    rcases stepDelete_effect hstep with rfl | ⟨id, _, _, rfl⟩ <;> cases he
  | restore req stage =>
    obtain ⟨stage', hstep, rfl⟩ := step_of_kind.mp h
    refine ⟨by simp [pending], by simp [filepaths], by simp [Task.holds], ?_, by simp⟩
    intro insertedAt now key b o he
    rcases stepRestore_effect hstep with rfl | ⟨record, db, _, _, _, rfl⟩ <;> cases he
  | purge req stage =>
    obtain ⟨stage', hstep, rfl⟩ := step_of_kind.mp h
    have hmove := stepPurge_move hstep
    refine ⟨by simp [pending], filepaths_purge hmove, by simp [Task.holds], ?_, by simp⟩
    intro insertedAt now key b o he
    subst he
    cases hmove
  | reconcile stage =>
    obtain ⟨stage', hstep, rfl⟩ := step_of_kind.mp h
    refine ⟨by simp [pending], by simp [filepaths], by simp [Task.holds], ?_, by simp⟩
    intro insertedAt now key b o he
    rcases stepReconcile_effect hstep with ⟨rfl, _⟩ | ⟨rel, rest, _, rfl, _⟩ <;> cases he
  | dropped => cases h

/-- A pending upload finds its filepath in no row. -/
theorem unnamed_of_pending {P : Platform} {v : Server} {task : Task} {f : Text}
    (h : TaskOk P v task) (hf : pending P task = some f) :
    ∀ r ∈ v.app.db.object.rows, r.filepath ≠ f := by
  cases task with
  | put req stage =>
    simp only [pending] at hf
    split_ifs at hf with hanswered
    rw [← Option.some.inj hf]
    exact (h.upload req stage rfl).unnamed (by simpa using hanswered)
  | _ => cases hf

theorem filepaths_of_pending {P : Platform} {task : Task} {f : Text}
    (h : pending P task = some f) : filepaths P task = [f] := by
  cases task with
  | put req stage =>
    simp only [pending] at h
    split_ifs at h
    rw [← Option.some.inj h]
    rfl
  | _ => cases h

/-- The step of one request leaves another one as it needs to be. -/
theorem taskOk_other {P : Platform} {v : Server} {t u w : Task} {e : Effect}
    (hmoves : Moves P v t e u) (happart : Apart P t w) (hw : TaskOk P v w) :
    TaskOk P ⟨e.run v.app, u.holds || (v.writing && !t.holds)⟩ w := by
  refine ⟨?_, ?_⟩
  · intro hholds
    have hwriting := hw.lock hholds
    have ht : t.holds = false := by
      rw [← Bool.not_eq_true]
      exact fun hboth => happart.lock ⟨hboth, hholds⟩
    simp [hwriting, ht]
  · intro req stage hreq
    refine uploadOk_of_rows (hw.upload req stage hreq) (run_bucket _ _) fun hstage => ?_
    apply unnamed_run ((hw.upload req stage hreq).unnamed hstage)
    intro insertedAt now key b o he
    have hpending := hmoves.register insertedAt now key b o he
    have hnot := happart.left _ hpending
    subst hreq
    simpa [filepaths] using hnot

theorem apart_other {P : Platform} {v : Server} {t u w : Task} {e : Effect}
    (hmoves : Moves P v t e u) (happart : Apart P t w) (hw : TaskOk P v w) : Apart P u w := by
  refine ⟨?_, fun f hf => happart.left f (hmoves.pending f hf), ?_⟩
  · intro hboth
    rcases hmoves.holds hboth.1 with ht | hfree
    · exact happart.lock ⟨ht, hboth.2⟩
    · have := hw.lock hboth.2
      simp [hfree] at this
  · intro f hf hmem
    rcases hmoves.filepaths f hmem with hmem | ⟨r, hr, hpath⟩
    · exact happart.right f hf hmem
    · exact unnamed_of_pending hw hf r hr hpath

theorem new_holds {task : Task} (h : task.isNew = true) : task.holds = false := by
  cases task with
  | put req stage => cases stage <;> simp [Task.isNew, Task.holds, PutStage.holds] at h ⊢
  | _ => rfl

/-- A request that was only received names no blob, unless it is an upload. -/
theorem new_filepaths {P : Platform} {task : Task} (h : task.isNew = true) :
    filepaths P task = [] ∨ ∃ req, task = .put req .received := by
  cases task with
  | put req stage =>
    cases stage <;> simp [Task.isNew] at h
    exact Or.inr ⟨req, rfl⟩
  | purge req stage =>
    cases stage <;> simp [Task.isNew] at h
    exact Or.inl rfl
  | _ => exact Or.inl rfl

theorem ok_begin {P : Platform} {s : State} {task : Task} (h : Ok P s)
    (hlegal : Legal P s (.begin task)) (hnew : task.isNew = true) : Ok P (s.spawn task) := by
  have hpending : ∀ f, pending P task = some f → ∃ req, task = .put req .received ∧
      f = req.filepath P ∧ Fresh P s req := by
    intro f hf
    rcases new_filepaths (P := P) hnew with hnil | ⟨req, rfl⟩
    · rw [filepaths_of_pending hf] at hnil
      cases hnil
    · exact ⟨req, rfl, (Option.some.inj hf).symm, hlegal.1⟩
  apply h.spawn
  · refine ⟨fun hholds => absurd hholds (by simp [new_holds hnew]), ?_⟩
    intro req stage htask
    subst htask
    obtain ⟨req', heq, _, hfresh⟩ := hpending (req.filepath P) (by
      cases stage <;> simp [Task.isNew] at hnew
      rfl)
    cases heq
    exact ⟨by simp, by simp [PutStage.blob], by simp, fun _ => hfresh.rows⟩
  · intro v hv
    refine ⟨fun hboth => absurd hboth.2 (by simp [new_holds hnew]), ?_, ?_⟩
    · intro f hf hmem
      rcases new_filepaths (P := P) hnew with hnil | ⟨req, rfl⟩
      · rw [hnil] at hmem
        cases hmem
      · have hnot := (hlegal.1.tasks v hv).1
        rw [filepaths_of_pending hf] at hnot
        simp only [filepaths, List.mem_singleton] at hmem hnot
        exact hnot hmem.symm
    · intro f hf
      obtain ⟨req, _, rfl, hfresh⟩ := hpending f hf
      exact (hfresh.tasks v hv).1

theorem ok_drop {P : Platform} {s : State} {i : Nat} {task : Task} (h : Ok P s)
    (hi : s.tasks[i]? = some task) :
    Ok P (s.replace i { s.shared with writing := s.shared.writing && !task.holds } .dropped) := by
  apply h.replace apart_symm hi trivial
  · exact ⟨by simp [Task.holds], by simp⟩
  · intro v hv happart hok
    refine ⟨⟨?_, hok.upload⟩, ⟨by simp [Task.holds], by simp [pending], by simp [filepaths]⟩⟩
    intro hholds
    have ht : task.holds = false := by
      rw [← Bool.not_eq_true]
      exact fun hboth => happart.lock ⟨hboth, hholds⟩
    simp [hok.lock hholds, ht]

theorem ok_advance {P : Platform} {s : State} {i : Nat} {io : Input} {task task' : Task}
    {e : Effect} (h : Ok P s) (hi : s.tasks[i]? = some task)
    (hstep : task.step P s.shared.app (!s.shared.writing) io = some (e, task')) :
    Ok P (s.replace i ⟨e.run s.shared.app, task'.holds || (s.shared.writing && !task.holds)⟩
      task') := by
  have hmoves := moves_of_step (h.tasks task (List.mem_of_getElem? hi)) hstep
  apply h.replace apart_symm hi trivial
  · exact ⟨fun hholds => by simp [hholds], hmoves.upload⟩
  · intro v hv happart hok
    exact ⟨taskOk_other hmoves happart hok, apart_other hmoves happart hok⟩

theorem ok_step {P : Platform} {s t : State} {a : Action} (h : Ok P s) (hlegal : Legal P s a)
    (hstep : step P s a = some t) : Ok P t := by
  rcases step_cases hstep with ⟨task, rfl, hnew, rfl⟩ | ⟨i, io, task, e, task', rfl, hi, htask, rfl⟩ |
    ⟨i, task, rfl, hi, rfl⟩
  · exact ok_begin h hlegal hnew
  · exact ok_advance h hi htask
  · exact ok_drop h hi

/-- No request is being served. -/
def idle (app : AppState) : State := ⟨⟨app, false⟩, []⟩

theorem ok_run {P : Platform} {ok : State → Action → Prop} {app : AppState} {t : State}
    (hlegal : ∀ s a, ok s a → Legal P s a) (h : Run (step P) ok (idle app) t) : Ok P t :=
  h.invariant (fun _ _ _ hok ha hstep => ok_step hok (hlegal _ _ ha) hstep)
    (coherent_nil trivial)

/-- A step that meets no failure. -/
def calm : Input := { now := Instant.epoch }

/-- An upload that meets no failure. -/
def sampleUpload (n : Nat) (key : Text) (body : Bytes) : PutRequest :=
  ⟨Uuid.numbered n, key, [], [some body], none, {}⟩

/-- A node that was just set up. -/
def node : State := idle (AppState.migrated "node-1".toList)

def after (actions : List Action) : State :=
  (exec (step Platform.sample) node actions).getD node

theorem legal_calm {P : Platform} (s : State) (i : Nat) : Legal P s (.advance i calm) := by
  intro names hnames
  cases hnames

end MyS3.RequestInvariants
