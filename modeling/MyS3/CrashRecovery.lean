import MyS3.BlobRuns
import MyS3.PurgeRaces
import MyS3.ReconcileRaces

/-!
Blobs beside every kind of request, and after crashes. Uploads, soft deletes, restores,
purges and reconciles interleave, each may be dropped at any of its steps, and the process
may die at any time. As long as a reconcile lists its files while nothing is half done,
every row keeps its blob, and a reconcile after a restart leaves no other files.
-/

namespace MyS3.CrashRecovery

open Library.Strings Library.Tables Library.Paths Library.Interleaving Library.Runs
open Models Objects Database Engine Repository Http S3Routes Keys UploadRuns Purge
open Reconcile Blobs Requests RequestSteps RequestInvariants
open ReconcileRaces (UploadFile OrphansOk Listed wanted diskAt isOpen isBetween)

/-- As a reconcile lists the files, no upload is between its file and its row, and every row
is one that the reconcile has listed. -/
structure Attended (P : Platform) (s : State) (a : Action) : Prop where
  legal : Legal P s a
  listing : ∀ i io dbFiles, a = .advance i io →
    s.tasks[i]? = some (.reconcile (.rowsListed dbFiles)) →
    (∀ req stage, Task.put req stage ∈ s.tasks → isBetween stage = false) ∧
      ∀ r ∈ s.shared.app.db.object.rows, Listed dbFiles r

/-- The blobs that a purge names are those of rows it takes. -/
structure PurgeFiles (P : Platform) (s : AppState) (stage : PurgeStage) : Prop where
  listed : ∀ record, .listed record ∈ stage.items → IsBlobName P record.filepath ∧
    ∀ r ∈ s.db.object.rows, r.filepath = record.filepath → r.id = record.id
  taken : ∀ filepath, stage.blob = some filepath → IsBlobName P filepath ∧
    ∀ r ∈ s.db.object.rows, r.filepath ≠ filepath

structure MemberOk (P : Platform) (v : Server) (task : Task) : Prop where
  upload : ∀ req stage, task = .put req stage → UploadFile P v.app req stage
  purge : ∀ req stage, task = .purge req stage → PurgeFiles P v.app stage
  orphans : OrphansOk v.app.db task

structure Kept (P : Platform) (s : State) : Prop where
  blobs : ∀ r ∈ s.shared.app.db.object.rows,
    StoredName P r.filepath ∧ HasBlob P s.shared.app r
  members : ∀ task ∈ s.tasks, MemberOk P s.shared task
  spared : ∀ t ∈ s.tasks, ∀ u ∈ s.tasks, ∀ f, wanted P t = some f → f ∉ orphansOf u

structure Safe (P : Platform) (s : State) : Prop where
  ok : Ok P s
  kept : Kept P s

theorem isBlobName_of_pending {P : Platform} {task : Task} {f : Text}
    (h : pending P task = some f) : IsBlobName P f := by
  cases task with
  | put req stage =>
    simp only [pending] at h
    split_ifs at h
    rw [← Option.some.inj h]
    exact ⟨req.uuid, req.key, rfl⟩
  | _ => cases h

/-- A step touches the file of its upload, an orphan, or the blob of a purged row. -/
theorem effectFile_step {P : Platform} {v : Server} {io : Input} {task task' : Task}
    {e : Effect} {f : Text} (hok : TaskOk P v task)
    (h : task.step P v.app (!v.writing) io = some (e, task')) (hf : effectFile e = some f) :
    pending P task = some f ∨ f ∈ orphansOf task ∨
      ∃ req stage, task = .purge req stage ∧ stage.blob = some f := by
  cases task with
  | put req stage =>
    obtain ⟨stage', hstep, rfl⟩ := step_of_kind.mp h
    have hmove := stepPut_move hstep
    refine Or.inl ?_
    rw [ReconcileRaces.effectFile_move (hok.upload req stage rfl) hmove hf]
    simp [pending, pending_move hmove]
  | delete req stage =>
    obtain ⟨_, hstep, _⟩ := step_of_kind.mp h
    rcases stepDelete_effect hstep with rfl | ⟨id, _, _, rfl⟩ <;> cases hf
  | restore req stage =>
    obtain ⟨_, hstep, _⟩ := step_of_kind.mp h
    rcases stepRestore_effect hstep with rfl | ⟨record, db, _, _, _, rfl⟩ <;> cases hf
  | purge req stage =>
    obtain ⟨stage', hstep, rfl⟩ := step_of_kind.mp h
    cases stepPurge_move hstep with
    | read _ _ _ _ _ => cases hf
    | remove item rest sofar sofar' record _ _ => cases hf
    | unlink filepath rest sofar => exact Or.inr (Or.inr ⟨req, _, rfl, hf⟩)
  | reconcile stage =>
    obtain ⟨stage', hstep, rfl⟩ := step_of_kind.mp h
    rcases stepReconcile_effect hstep with ⟨rfl, _⟩ | ⟨rel, rest, rfl, rfl, _⟩
    · cases hf
    · rw [← Option.some.inj hf]
      exact Or.inr (Or.inl List.mem_cons_self)
  | dropped => cases h

/-- No step touches a file that the engine named and that is neither that of the upload
which takes the step, nor an orphan, nor the blob of a row which is gone. -/
theorem untouched {P : Platform} {v : Server} {io : Input} {task task' : Task} {e : Effect}
    {g : Text} (hok : TaskOk P v task) (hmember : MemberOk P v task)
    (h : task.step P v.app (!v.writing) io = some (e, task')) (hname : IsBlobName P g)
    (hpending : pending P task ≠ some g) (horphan : g ∉ orphansOf task)
    (htaken : ∀ req stage, task = .purge req stage → stage.blob ≠ some g) :
    (e.run v.app).disk (absolutePathFor v.app.config.storageRoot g) =
      v.app.disk (absolutePathFor v.app.config.storageRoot g) := by
  refine disk_run fun f hf => ?_
  rcases effectFile_step hok h hf with hput | hmem | ⟨req, stage, rfl, hblob⟩
  · intro hpath
    rw [absolutePathFor_inj hname (isBlobName_of_pending hput) hpath] at hpending
    exact hpending hput
  · obtain ⟨name, hplain, rfl⟩ := hmember.orphans.names f hmem
    exact orphan_path_ne hname hplain fun heq => horphan (heq ▸ hmem)
  · intro hpath
    obtain ⟨hfile, _⟩ := (hmember.purge req stage rfl).taken f hblob
    exact htaken req stage rfl (absolutePathFor_inj hname hfile hpath ▸ hblob)

/-- No step touches the blob of a row. -/
theorem blob_run {P : Platform} {v : Server} {io : Input} {task task' : Task} {e : Effect}
    {r : ObjectRecord} (hok : TaskOk P v task) (hmember : MemberOk P v task)
    (h : task.step P v.app (!v.writing) io = some (e, task'))
    (hr : r ∈ v.app.db.object.rows) (hname : IsBlobName P r.filepath) :
    blobOf (e.run v.app) r = blobOf v.app r := by
  unfold blobOf openRead
  rw [run_config]
  refine untouched hok hmember h hname ?_ ?_ ?_
  · exact fun hpending => unnamed_of_pending hok hpending r hr rfl
  · exact fun hmem => hmember.orphans.unnamed _ hmem r hr rfl
  · intro req stage htask hblob
    exact ((hmember.purge req stage htask).taken _ hblob).2 r hr rfl

theorem blobs_advance {P : Platform} {s : State} {io : Input} {task task' : Task} {e : Effect}
    (hok : Ok P s) (h : Kept P s) (hmem : task ∈ s.tasks)
    (hstep : task.step P s.shared.app (!s.shared.writing) io = some (e, task')) :
    ∀ r ∈ (e.run s.shared.app).db.object.rows,
      StoredName P r.filepath ∧ HasBlob P (e.run s.shared.app) r := by
  have htask := hok.tasks task hmem
  have hold : ∀ a ∈ s.shared.app.db.object.rows,
      StoredName P a.filepath ∧ HasBlob P s.shared.app a ∧
        blobOf (e.run s.shared.app) a = blobOf s.shared.app a := by
    intro a ha
    obtain ⟨hname, hblob⟩ := h.blobs a ha
    exact ⟨hname, hblob, blob_run htask (h.members task hmem) hstep ha hname.isBlobName⟩
  intro r hr
  cases rowFrom_run hr with
  | same _ hr =>
    obtain ⟨hname, hblob, hdisk⟩ := hold r hr
    exact ⟨hname, hasBlob_congr hblob rfl rfl rfl rfl hdisk⟩
  | recycled now a ha he =>
    obtain ⟨hname, hblob, hdisk⟩ := hold a ha
    exact ⟨hname, hasBlob_congr hblob rfl rfl rfl rfl hdisk⟩
  | restored now a ha he =>
    obtain ⟨hname, hblob, hdisk⟩ := hold a ha
    exact ⟨hname, hasBlob_congr hblob rfl rfl rfl rfl hdisk⟩
  | registered insertedAt now key b o he hfree =>
    subst he
    obtain ⟨req, rfl, rfl, rfl, rfl, _⟩ := step_register hstep
    have hfile := (h.members _ hmem).upload req _ rfl
    obtain ⟨hstored, _⟩ := (htask.upload req _ rfl).stored b o rfl
    obtain ⟨raw, hkey⟩ := hfile.key
    refine ⟨⟨req.uuid, raw, req.key, hkey, hstored.filepath⟩, content req.body, ?_,
      hstored.size.symm, hstored.etag.symm⟩
    have hdisk := hfile.stored b o rfl
    unfold blobOf openRead
    rw [run_config]
    refine (disk_run fun f hf => by cases hf).trans ?_
    rw [show (ObjectTable.NewObject.record _ _).filepath = o.filepath from rfl, hstored.filepath]
    exact hdisk

/-- A purge goes on: what it lists is there, and what it takes is gone. -/
theorem purgeFiles_move {P : Platform} {s : AppState} {free : Bool} {io : Input}
    {stage stage' : PurgeStage} {e : Effect} (h : PurgeFiles P s stage)
    (hnames : ∀ r ∈ s.db.object.rows, IsBlobName P r.filepath)
    (hmove : PurgeMove s free io stage e stage') : PurgeFiles P (e.run s) stage' := by
  cases hmove with
  | read _ _ hblob hblob' hitems =>
    refine ⟨fun record hrecord => ?_, fun filepath hf => by rw [hblob'] at hf; cases hf⟩
    cases hitems _ hrecord with
    | old _ hold => exact h.listed record hold
    | listed _ hr _ =>
      refine ⟨hnames record hr, fun r hmem hpath => ?_⟩
      rw [s.db.object.eq_of_filepath hmem hr hpath]
  | remove item rest sofar sofar' record hfree hitem =>
    have hrows : ∀ r ∈ (Effect.run s (.purge io.now record)).db.object.rows,
        r ∈ s.db.object.rows ∧ r.id ≠ record.id := fun r hr => mem_purgeRecord.mp hr
    have hown : IsBlobName P record.filepath ∧
        ∀ r ∈ s.db.object.rows, r.filepath = record.filepath → r.id = record.id := by
      rcases hitem with rfl | ⟨_, hrecord⟩
      · exact h.listed record List.mem_cons_self
      · refine ⟨hnames record hrecord, fun r hr hpath => ?_⟩
        rw [s.db.object.eq_of_filepath hr hrecord hpath]
    refine ⟨fun record' hrecord' => ?_, fun filepath hblob => ?_⟩
    · obtain ⟨hname, hsame⟩ := h.listed record' (List.mem_cons_of_mem _ hrecord')
      exact ⟨hname, fun r hr hpath => hsame r (hrows r hr).1 hpath⟩
    · rw [← Option.some.inj hblob]
      refine ⟨hown.1, fun r hr hpath => ?_⟩
      exact (hrows r hr).2 (hown.2 r (hrows r hr).1 hpath)
  | unlink filepath rest sofar => exact ⟨h.listed, fun f hf => by cases hf⟩

/-- A step of another request registers none of the blobs of a purge. -/
theorem purgeFiles_other {P : Platform} {s : AppState} (req : PurgeRequest)
    {stage : PurgeStage} {e : Effect} (h : PurgeFiles P s stage)
    (hregister : ∀ insertedAt now key b o, e = .register insertedAt now key b o →
      o.filepath ∉ filepaths P (.purge req stage)) : PurgeFiles P (e.run s) stage := by
  refine ⟨fun record hrecord => ?_, fun filepath hblob => ?_⟩
  · obtain ⟨hname, hsame⟩ := h.listed record hrecord
    refine ⟨hname, fun r hr hpath => ?_⟩
    rcases filepath_run hr with ⟨a, ha, hid, hfile⟩ | ⟨insertedAt, now, key, b, o, he, hfile⟩
    · rw [← hid]
      exact hsame a ha (hfile.trans hpath)
    · refine absurd ?_ (hregister insertedAt now key b o he)
      refine List.mem_append_right _ (List.mem_filterMap.mpr ⟨_, hrecord, ?_⟩)
      rw [← hfile, hpath]
      rfl
  · obtain ⟨hname, hfree⟩ := h.taken filepath hblob
    refine ⟨hname, fun r hr hpath => ?_⟩
    rcases filepath_run hr with ⟨a, ha, _, hfile⟩ | ⟨insertedAt, now, key, b, o, he, hfile⟩
    · exact hfree a ha (hfile.trans hpath)
    · refine absurd ?_ (hregister insertedAt now key b o he)
      refine List.mem_append_left _ ?_
      rw [hblob, ← hfile, hpath]
      exact List.mem_singleton.mpr rfl

/-- The files are listed while no upload is between its file and its row. -/
theorem wanted_unlisted {P : Platform} {s : State} {names : List Text}
    {dbFiles : List DbObjectFile} {task : Task} {f : Text} (h : Kept P s)
    (hnames : ListsObjects s.shared.app names)
    (hquiet : ∀ req stage, Task.put req stage ∈ s.tasks → isBetween stage = false)
    (hmem : task ∈ s.tasks) (hf : wanted P task = some f) :
    f ∉ (classify dbFiles (listDiskObjectFiles names)).orphans := by
  intro horphan
  cases task with
  | put req stage =>
    simp only [wanted] at hf
    split_ifs at hf with hopen
    have hreceived : stage = .received := by
      have hbetween := hquiet req stage hmem
      cases stage <;> simp_all [isOpen]
    have hnone := ((h.members _ hmem).upload req stage rfl).received hreceived
    have hsome := (orphan_listed hnames horphan).2
    rw [← Option.some.inj hf] at hsome
    unfold diskAt at hnone
    rw [hnone] at hsome
    cases hsome
  | _ => cases hf

/-- The rows after a step name no orphan of before that a pending upload did not name. -/
theorem unnamed_after {P : Platform} {v : Server} {io : Input} {task task' : Task} {e : Effect}
    {rel : Text} (hok : TaskOk P v task)
    (h : task.step P v.app (!v.writing) io = some (e, task'))
    (hrows : ∀ r ∈ v.app.db.object.rows, r.filepath ≠ rel)
    (hwanted : wanted P task ≠ some rel) :
    ∀ r ∈ (e.run v.app).db.object.rows, r.filepath ≠ rel := by
  intro r hr
  rcases filepath_run hr with ⟨a, ha, _, hfile⟩ | ⟨insertedAt, now, key, b, o, rfl, hfile⟩
  · rw [← hfile]
    exact hrows a ha
  · obtain ⟨req, rfl, _⟩ := step_register h
    obtain ⟨hstored, _⟩ := (hok.upload req _ rfl).stored b o rfl
    rw [hfile, hstored.filepath]
    exact fun heq => hwanted (congrArg some heq)

theorem memberOk_own {P : Platform} {s : State} {i : Nat} {io : Input} {task task' : Task}
    {e : Effect} (hlower : LowerKeepsEnd P) (hok : Ok P s) (h : Kept P s)
    (hattended : Attended P s (.advance i io)) (hi : s.tasks[i]? = some task)
    (hstep : task.step P s.shared.app (!s.shared.writing) io = some (e, task')) (writing : Bool) :
    MemberOk P ⟨e.run s.shared.app, writing⟩ task' := by
  have hmem := List.mem_of_getElem? hi
  have hmember := h.members task hmem
  refine ⟨?_, ?_, ?_, ?_⟩
  · intro req stage' heq
    subst heq
    obtain ⟨stage, rfl, hput⟩ := step_eq_put hstep
    exact ReconcileRaces.uploadFile_move (hmember.upload req stage rfl) (stepPut_move hput)
  · intro req stage' heq
    subst heq
    obtain ⟨stage, rfl, hpurge⟩ := step_eq_purge hstep
    exact purgeFiles_move (hmember.purge req stage rfl) (fun r hr => (h.blobs r hr).1.isBlobName)
      (stepPurge_move hpurge)
  · intro rel hrel
    rcases ReconcileRaces.orphans_step hstep hrel with hold | ⟨dbFiles, names, rfl, hnames, rfl, hnew⟩
    · exact hmember.orphans.names rel hold
    · exact (orphan_listed (hattended.legal names hnames) hnew).1
  · intro rel hrel
    rcases ReconcileRaces.orphans_step hstep hrel with hold | ⟨dbFiles, names, rfl, hnames, rfl, hnew⟩
    · refine unnamed_after (hok.tasks task hmem) hstep (hmember.orphans.unnamed rel hold) ?_
      exact fun hwanted => h.spared task hmem task hmem rel hwanted hold
    · intro r hr
      exact orphan_unnamed hlower hnew (h.blobs r hr).1
        ((hattended.listing i io dbFiles rfl hi).2 r hr)

theorem memberOk_other {P : Platform} {s : State} {io : Input} {t u task' : Task}
    {e : Effect} (hok : Ok P s) (h : Kept P s) (ht : t ∈ s.tasks) (hu : u ∈ s.tasks)
    (happart : Apart P t u)
    (hstep : t.step P s.shared.app (!s.shared.writing) io = some (e, task')) (writing : Bool) :
    MemberOk P ⟨e.run s.shared.app, writing⟩ u := by
  have htask := hok.tasks t ht
  have hmember := h.members u hu
  refine ⟨?_, ?_, hmember.orphans.names, ?_⟩
  · intro req stage heq
    subst heq
    refine ReconcileRaces.uploadFile_of_disk (hmember.upload req stage rfl) fun hopen => ?_
    have hwanted : wanted P (.put req stage) = some (req.filepath P) := by
      simp [wanted, hopen]
    have hpending : pending P (.put req stage) = some (req.filepath P) := by
      cases stage <;> first | rfl | cases hopen
    unfold diskAt
    rw [run_config]
    refine untouched htask (h.members t ht) hstep ⟨req.uuid, req.key, rfl⟩ ?_ ?_ ?_
    · exact fun hput => happart.left _ hput List.mem_cons_self
    · exact h.spared _ hu t ht _ hwanted
    · intro req' stage' hpurge hblob
      apply happart.right _ hpending
      rw [hpurge, filepaths, hblob]
      exact List.mem_cons_self
  · intro req stage heq
    subst heq
    refine purgeFiles_other req (hmember.purge req stage rfl) ?_
    intro insertedAt now key b o he
    subst he
    exact happart.left _ ((moves_of_step htask hstep).register insertedAt now key b o rfl)
  · intro rel hrel
    exact unnamed_after htask hstep (hmember.orphans.unnamed rel hrel)
      fun hwanted => h.spared t ht u hu rel hwanted hrel

theorem kept_advance {P : Platform} {s : State} {i : Nat} {io : Input} {task task' : Task}
    {e : Effect} (hlower : LowerKeepsEnd P) (hok : Ok P s) (h : Kept P s)
    (hattended : Attended P s (.advance i io)) (hi : s.tasks[i]? = some task)
    (hstep : task.step P s.shared.app (!s.shared.writing) io = some (e, task')) :
    Kept P (s.replace i
      ⟨e.run s.shared.app, task'.holds || (s.shared.writing && !task.holds)⟩ task') := by
  have hmem := List.mem_of_getElem? hi
  refine ⟨blobs_advance hok h hmem hstep, ?_, ?_⟩
  · apply hok.forall_replace (C := MemberOk P) apart_symm hi
    · exact memberOk_own hlower hok h hattended hi hstep _
    · intro u hu happart _
      exact memberOk_other hok h hmem hu happart hstep _
  · intro t ht u hu f hf horphan
    have hold : ∃ t ∈ s.tasks, wanted P t = some f := by
      rcases Pool.mem_replace ht with rfl | ht
      · exact ⟨task, hmem, ReconcileRaces.wanted_step hstep hf⟩
      · exact ⟨t, ht, hf⟩
    obtain ⟨t', ht', hf'⟩ := hold
    rcases Pool.mem_replace hu with rfl | hu
    · rcases ReconcileRaces.orphans_step hstep horphan with
        hold | ⟨dbFiles, names, rfl, hnames, rfl, hnew⟩
      · exact h.spared t' ht' task hmem f hf' hold
      · exact wanted_unlisted h (hattended.legal names hnames)
          (hattended.listing i io dbFiles rfl hi).1 ht' hf' hnew
    · exact h.spared t' ht' u hu f hf' horphan

/-- A new request has no orphans and no blobs, and the file of a new upload is not there. -/
theorem kept_begin {P : Platform} {s : State} {task : Task} (h : Kept P s)
    (hattended : Attended P s (.begin task)) (hnew : task.isNew = true) :
    Kept P (s.spawn task) := by
  have horphans : orphansOf task = [] := by
    cases task with
    | reconcile stage => cases stage <;> simp [Task.isNew] at hnew; rfl
    | _ => rfl
  refine ⟨h.blobs, ?_, ?_⟩
  · intro v hv
    rcases List.mem_append.mp hv with hv | hv
    · exact h.members v hv
    rw [List.mem_singleton.mp hv]
    refine ⟨?_, ?_, by rw [horphans]; simp, by rw [horphans]; simp⟩
    · intro req stage heq
      subst heq
      cases stage <;> simp [Task.isNew] at hnew
      obtain ⟨hfresh, hkey⟩ := hattended.legal
      exact ⟨hkey, fun _ => hfresh.disk, by simp, by simp [PutStage.blob]⟩
    · intro req stage heq
      subst heq
      cases stage <;> simp [Task.isNew] at hnew
      exact ⟨by simp [PurgeStage.items], by simp [PurgeStage.blob]⟩
  · intro t ht u hu f hf
    rcases List.mem_append.mp hu with hold | hu
    · rcases List.mem_append.mp ht with ht | ht
      · exact h.spared t ht u hold f hf
      · rw [List.mem_singleton.mp ht] at hf
        cases task with
        | put req stage =>
          simp only [wanted] at hf
          split_ifs at hf
          rw [← Option.some.inj hf]
          exact (hattended.legal.1.tasks u hold).2
        | _ => cases hf
    · rw [List.mem_singleton.mp hu, horphans]
      simp

theorem kept_drop {P : Platform} {s : State} {i : Nat} {v : Server} (h : Kept P s)
    (happ : v.app = s.shared.app) : Kept P (s.replace i v .dropped) := by
  refine ⟨by rw [Pool.replace, happ]; exact h.blobs, ?_, ?_⟩
  · intro w hw
    rcases Pool.mem_replace hw with rfl | hw
    · exact ⟨by simp, by simp, by simp [orphansOf], by simp [orphansOf]⟩
    · obtain ⟨hupload, hpurge, horphans⟩ := h.members w hw
      rw [Pool.replace]
      exact ⟨happ ▸ hupload, happ ▸ hpurge, happ ▸ horphans⟩
  · intro t ht u hu f hf
    rcases Pool.mem_replace ht with rfl | ht
    · cases hf
    · rcases Pool.mem_replace hu with rfl | hu
      · simp [orphansOf]
      · exact h.spared t ht u hu f hf

theorem safe_step {P : Platform} {s t : State} {a : Action} (hlower : LowerKeepsEnd P)
    (h : Safe P s) (hattended : Attended P s a) (hstep : step P s a = some t) : Safe P t := by
  refine ⟨ok_step h.ok hattended.legal hstep, ?_⟩
  rcases step_cases hstep with ⟨task, rfl, hnew, rfl⟩ | ⟨i, io, task, e, task', rfl, hi, htask, rfl⟩ |
    ⟨i, task, rfl, hi, rfl⟩
  · exact kept_begin h.kept hattended hnew
  · exact kept_advance hlower h.ok h.kept hattended hi htask
  · exact kept_drop h.kept rfl

/-- Every row has its blob, under a name of the engine. -/
def Intact (P : Platform) (s : AppState) : Prop :=
  ∀ r ∈ s.db.object.rows, StoredName P r.filepath ∧ HasBlob P s r

theorem safe_idle {P : Platform} {app : AppState} (h : Intact P app) : Safe P (idle app) :=
  ⟨coherent_nil trivial, h, fun v hv => (by cases hv), fun v hv => (by cases hv)⟩

theorem intact_run {P : Platform} (hlower : LowerKeepsEnd P) {app : AppState} {t : State}
    (h : Intact P app) (hrun : Run (step P) (Attended P) (idle app) t) :
    Intact P t.shared.app := by
  have hsafe : Safe P t :=
    hrun.invariant (fun _ _ _ hs ha hstep => safe_step hlower hs ha hstep) (safe_idle h)
  exact hsafe.kept.blobs

/-- A node over any number of crashes. A crash ends all requests where they stand, and the
next process starts on what is committed and on the files as they are. -/
inductive Life (P : Platform) (app : AppState) : AppState → Prop
  | start : Life P app app
  | crash {s : AppState} {t : State} : Life P app s → Run (step P) (Attended P) (idle s) t →
      Life P app t.shared.app

theorem Life.intact {P : Platform} (hlower : LowerKeepsEnd P) {app s : AppState}
    (h : Life P app s) (happ : Intact P app) : Intact P s := by
  induction h with
  | start => exact happ
  | crash _ hrun ih => exact intact_run hlower ih hrun

/-- The rows of one id have one blob, whose content stays. -/
structure Fixed (id : Int) (filepath : Text) (data : Option Bytes) (s : AppState) : Prop where
  old : id < s.db.object.nextId
  same : ∀ r ∈ s.db.object.rows, r.id = id → r.filepath = filepath ∧ blobOf s r = data

structure Tracked (P : Platform) (id : Int) (filepath : Text) (data : Option Bytes)
    (s : State) : Prop where
  safe : Safe P s
  fixed : Fixed id filepath data s.shared.app

theorem tracked_step {P : Platform} {s t : State} {a : Action} {id : Int} {filepath : Text}
    {data : Option Bytes} (hlower : LowerKeepsEnd P) (h : Tracked P id filepath data s)
    (hattended : Attended P s a) (hstep : step P s a = some t) :
    Tracked P id filepath data t := by
  refine ⟨safe_step hlower h.safe hattended hstep, ?_⟩
  obtain ⟨hsafe, h⟩ := h
  rcases step_cases hstep with ⟨task, rfl, _, rfl⟩ | ⟨i, io, task, e, task', rfl, hi, htask, rfl⟩ |
    ⟨i, task, rfl, _, rfl⟩
  · exact h
  · have hmem := List.mem_of_getElem? hi
    have hold : ∀ a ∈ s.shared.app.db.object.rows, a.id = id →
        a.filepath = filepath ∧ blobOf (e.run s.shared.app) a = data := by
      intro a ha hid
      obtain ⟨hfile, hdata⟩ := h.same a ha hid
      refine ⟨hfile, Eq.trans ?_ hdata⟩
      exact blob_run (hsafe.ok.tasks task hmem) (hsafe.kept.members task hmem) htask ha
        (hsafe.kept.blobs a ha).1.isBlobName
    refine ⟨lt_of_lt_of_le h.old (nextId_run _ e), fun r hr hid => ?_⟩
    cases rowFrom_run hr with
    | same _ hr => exact hold r hr hid
    | recycled now a ha _ => exact hold a ha hid
    | restored now a ha _ => exact hold a ha hid
    | registered insertedAt now key b o _ _ => exact absurd hid (ne_of_gt h.old)
  · exact h

theorem fixed_run {P : Platform} (hlower : LowerKeepsEnd P) {app : AppState} {t : State}
    {id : Int} {filepath : Text} {data : Option Bytes} (happ : Intact P app)
    (h : Fixed id filepath data app) (hrun : Run (step P) (Attended P) (idle app) t) :
    Fixed id filepath data t.shared.app := by
  have htracked : Tracked P id filepath data t :=
    hrun.invariant (fun _ _ _ hs ha hstep => tracked_step hlower hs ha hstep)
      ⟨safe_idle happ, h⟩
  exact htracked.fixed

theorem Life.fixed {P : Platform} (hlower : LowerKeepsEnd P) {app s : AppState} {id : Int}
    {filepath : Text} {data : Option Bytes} (h : Life P app s) (happ : Intact P app)
    (hfixed : Fixed id filepath data app) : Fixed id filepath data s := by
  induction h with
  | start => exact hfixed
  | crash hlife hrun ih => exact fixed_run hlower (hlife.intact hlower happ) ih hrun

/-- A version that was committed keeps its blob, unchanged, as long as it has a row. -/
theorem content_kept (P : Platform) (app s u : AppState) (hlower : LowerKeepsEnd P)
    (happ : Intact P app) (hlife : Life P app s) (hlater : Life P s u) (r r' : ObjectRecord)
    (hr : r ∈ s.db.object.rows) (hr' : r' ∈ u.db.object.rows) (hid : r'.id = r.id) :
    HasBlob P u r' ∧ r'.filepath = r.filepath ∧ blobOf u r' = blobOf s r := by
  have hs := hlife.intact hlower happ
  have hfixed : Fixed r.id r.filepath (blobOf s r) s := by
    refine ⟨s.db.object.id_lt r hr, fun a ha ha' => ?_⟩
    rw [s.db.object.eq_of_id ha hr ha']
    exact ⟨rfl, rfl⟩
  exact ⟨(hlater.intact hlower hs r' hr').2, (hlater.fixed hlower hs hfixed).same r' hr' hid⟩

theorem attended_begin {P : Platform} {s : State} {task : Task} (h : Legal P s (.begin task)) :
    Attended P s (.begin task) := ⟨h, fun i io dbFiles ha => by cases ha⟩

/-- Steps that meet no failure, of requests that are no reconcile. -/
theorem run_calm {s t : State} {n : Nat} (h : ReconcileRaces.NoReconcile s)
    (hexec : exec (step Platform.sample) s (List.replicate n (.advance 0 calm)) = some t) :
    Run (step Platform.sample) (Attended Platform.sample) s t := by
  refine run_of_exec_of_invariant h (fun a ha s t h hstep => ?_) (fun a ha s h => ?_) hexec
  · rw [List.eq_of_mem_replicate ha] at hstep
    exact ReconcileRaces.noReconcile_advance h hstep
  · rw [List.eq_of_mem_replicate ha]
    exact ⟨legal_calm s 0, fun i io dbFiles _ hi => absurd (List.mem_of_getElem? hi) (h _)⟩

/-- So many steps of an upload, after which the node goes down. -/
def uploaded (steps : Nat) : List Action :=
  .begin (.put ReconcileRaces.upload .received) :: List.replicate steps (.advance 0 calm)

theorem run_uploaded (steps : Nat) {t : State}
    (h : exec (step Platform.sample) node (uploaded steps) = some t) :
    Run (step Platform.sample) (Attended Platform.sample) node t := by
  have hbegin : Run (step Platform.sample) (Attended Platform.sample) node
      (after [.begin (.put ReconcileRaces.upload .received)]) :=
    .tail _ (.refl node) (attended_begin
      (ReconcileRaces.fresh_upload rfl rfl (by simp [node, idle]))) rfl
  refine hbegin.trans (run_calm (fun stage hmem => ?_) h)
  cases List.mem_singleton.mp hmem

def deletion : Task := .delete ⟨['k'], none, Limit1.first⟩ .received

/-- The node after the upload, and after a deletion that the next process served. -/
def stored : AppState := (after (uploaded 8)).shared.app

def deleted : AppState :=
  ((exec (step Platform.sample) (idle stored)
    (.begin deletion :: List.replicate 2 (.advance 0 calm))).getD node).shared.app

/-- A process that only serves the deletion. -/
theorem life_deletion {s : AppState} {t : State}
    (h : exec (step Platform.sample) ((idle s).spawn deletion) (List.replicate 2 (.advance 0 calm)) =
      some t) : Life Platform.sample s t.shared.app := by
  have hbegin : Run (step Platform.sample) (Attended Platform.sample) (idle s)
      ((idle s).spawn deletion) :=
    .tail (.begin deletion) (.refl _) (attended_begin trivial) rfl
  refine .crash .start (hbegin.trans (run_calm (fun stage hmem => ?_) h))
  cases List.mem_singleton.mp hmem

theorem life_deleted : Life Platform.sample stored deleted :=
  life_deletion (t := (exec (step Platform.sample) (idle stored)
    (.begin deletion :: List.replicate 2 (.advance 0 calm))).getD node) rfl

/-- The deleted version keeps its blob. -/
theorem content_kept_deleted : ∃ r ∈ stored.db.object.rows, ∃ r' ∈ deleted.db.object.rows,
    r'.deletedAt ≠ none ∧ HasBlob Platform.sample deleted r' ∧ r'.filepath = r.filepath ∧
      blobOf deleted r' = blobOf stored r := by
  refine ⟨_, List.mem_cons_self, _, List.mem_cons_self, by decide, ?_⟩
  exact content_kept Platform.sample node.shared.app stored deleted lowerKeepsEnd_sample
    (fun r hr => by cases hr) (.crash .start (run_uploaded 8 rfl)) life_deleted _ _
    List.mem_cons_self List.mem_cons_self rfl

theorem unlinkAll_removed {root : Path} {orphans : List Text} {rel : Text} {disk : Disk}
    (h : rel ∈ orphans ∨ disk (absolutePathFor root rel) = none) :
    unlinkAll root (fun _ => false) disk orphans (absolutePathFor root rel) = none := by
  induction orphans generalizing disk with
  | nil => exact h.resolve_left List.not_mem_nil
  | cons first rest ih =>
    apply ih
    by_cases hfirst : absolutePathFor root rel = absolutePathFor root first
    · right
      simp only [unlink, Bool.false_eq_true, if_false]
      rw [hfirst]
      exact setFile_same _ _ _
    · rcases h with hrel | hnone
      · rcases List.mem_cons.mp hrel with rfl | hrel
        · exact absurd rfl hfirst
        · exact Or.inl hrel
      · right
        exact (unlink_other root disk first false hfirst).trans hnone

/-- The rows have their blobs, and what the objects directory shows are these blobs. -/
structure Exact (P : Platform) (s : AppState) : Prop where
  blobs : ∀ r ∈ s.db.object.rows, HasBlob P s r
  files : ∀ name, PlainName name → startsWith ['.'] name = false →
    ((s.disk (s.config.storageRoot ++ [objectsDir, name])).isSome = true ↔
      ∃ r ∈ s.db.object.rows, r.filepath = objectsPrefix ++ name)

theorem exact_reconcile {P : Platform} (hlower : LowerKeepsEnd P) {s : AppState}
    (h : Intact P s) {names : List Text} (hnames : ListsObjects s names)
    (namesAfter : List Text) : Exact P (reconcile s names namesAfter fun _ => false).2 := by
  have hcarried := BlobRuns.carried_reconcile hlower (fun r hr => (h r hr).1) hnames namesAfter
    fun _ => false
  have hblobs : ∀ r ∈ s.db.object.rows, HasBlob P (reconcile s names namesAfter fun _ => false).2 r :=
    fun r hr => hasBlob_congr (h r hr).2 rfl rfl rfl rfl (hcarried.blobs r hr)
  refine ⟨hblobs, fun name hplain hshown => ?_⟩
  show (unlinkAll s.config.storageRoot (fun _ => false) s.disk
    (classify (listDbObjectFiles s.db) (listDiskObjectFiles names)).orphans
    (s.config.storageRoot ++ [objectsDir, name])).isSome = true ↔ _
  rw [← absolutePathFor_object hplain]
  constructor
  · intro hsome
    by_contra hnone
    have horphan : objectsPrefix ++ name ∈
          (classify (listDbObjectFiles s.db) (listDiskObjectFiles names)).orphans ∨
        s.disk (absolutePathFor s.config.storageRoot (objectsPrefix ++ name)) = none := by
      by_cases hlisted : name ∈ names
      · refine Or.inl (mem_orphans.mpr
          ⟨mem_listDiskObjectFiles.mpr ⟨name, hlisted, hshown, rfl⟩, fun f hf heq => ?_⟩)
        obtain ⟨r, hr, rfl⟩ := List.mem_map.mp hf
        simp only [normalizeObjectRel_stored hlower (h r hr).1] at heq
        exact hnone ⟨r, hr, heq⟩
      · right
        rw [absolutePathFor_object hplain, ← Option.not_isSome_iff_eq_none]
        exact fun hfile => hlisted ((hnames.2 name).mpr ⟨hplain, hfile⟩)
    rw [unlinkAll_removed horphan] at hsome
    cases hsome
  · intro hrow
    obtain ⟨r, hr, hfile⟩ := hrow
    obtain ⟨data, hdata, _⟩ := hblobs r hr
    unfold blobOf openRead at hdata
    rw [hfile] at hdata
    exact Option.isSome_iff_exists.mpr ⟨data, hdata⟩

/-- The node went down between the blob of an upload and its row. -/
def halfway : AppState := (after (uploaded 2)).shared.app

end MyS3.CrashRecovery
