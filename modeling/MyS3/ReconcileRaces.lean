import MyS3.Blobs
import MyS3.RequestInvariants

/-!
A reconcile beside uploads. It lists the rows first and the files later, and an upload has
its file long before its row. No committed blob is lost when, as the files are listed, no
upload is between its file and its row, and none was committed since the rows were listed.
-/

namespace MyS3.ReconcileRaces

open Library.Strings Library.Paths Library.Interleaving Library.Runs
open Models Objects Database Engine Repository Outbox Http S3Routes Keys UploadRuns Reconcile
open Blobs Requests RequestSteps RequestInvariants

/-- The upload has its file and not yet its row. -/
def isBetween : PutStage → Bool
  | .created _ _ => true
  | stage => stage.blob.isSome

/-- The upload may still be committed. -/
def isOpen : PutStage → Bool
  | .received => true
  | stage => isBetween stage

/-- The blob that an upload may still register. -/
def wanted (P : Platform) : Task → Option Text
  | .put req stage => if isOpen stage then some (req.filepath P) else none
  | _ => none

def Listed (dbFiles : List DbObjectFile) (r : ObjectRecord) : Prop :=
  ∃ f ∈ dbFiles, f.filepath = normalizeObjectRel r.filepath

/-- The requests are uploads and reconciles, and as a reconcile lists the files, no upload is
between its file and its row, and every row is one that the reconcile has listed. -/
structure Quiet (P : Platform) (s : State) (a : Action) : Prop where
  legal : Legal P s a
  kinds : ∀ task, a = .begin task → (∃ req stage, task = .put req stage) ∨
    ∃ stage, task = .reconcile stage
  listing : ∀ i io dbFiles, a = .advance i io →
    s.tasks[i]? = some (.reconcile (.rowsListed dbFiles)) →
    (∀ req stage, Task.put req stage ∈ s.tasks → isBetween stage = false) ∧
      ∀ r ∈ s.shared.app.db.object.rows, Listed dbFiles r

def diskAt (P : Platform) (s : AppState) (req : PutRequest) : Option Bytes :=
  s.disk (absolutePathFor s.config.storageRoot (req.filepath P))

/-- The file of an upload at its stage. -/
structure UploadFile (P : Platform) (s : AppState) (req : PutRequest) (stage : PutStage) :
    Prop where
  key : ∃ raw, normalizeObjectKey raw = .ok req.key
  received : stage = .received → diskAt P s req = none
  created : ∀ b etagType, stage = .created b etagType → (diskAt P s req).isSome = true
  stored : ∀ b o, stage.blob = some (b, o) → diskAt P s req = some (content req.body)

/-- What a reconcile is about to remove is the blob of no row. -/
structure OrphansOk (db : Db) (task : Task) : Prop where
  names : ∀ rel ∈ orphansOf task, ∃ name, PlainName name ∧ rel = objectsPrefix ++ name
  unnamed : ∀ rel ∈ orphansOf task, ∀ r ∈ db.object.rows, r.filepath ≠ rel

def IsMember : Task → Prop
  | .put _ _ => True
  | .reconcile _ => True
  | .dropped => True
  | _ => False

structure MemberOk (P : Platform) (v : Server) (task : Task) : Prop where
  member : IsMember task
  upload : ∀ req stage, task = .put req stage → UploadFile P v.app req stage
  orphans : OrphansOk v.app.db task

structure Kept (P : Platform) (s : State) : Prop where
  blobs : ∀ r ∈ s.shared.app.db.object.rows,
    StoredName P r.filepath ∧ HasBlob P s.shared.app r
  members : ∀ task ∈ s.tasks, MemberOk P s.shared task
  spared : ∀ t ∈ s.tasks, ∀ u ∈ s.tasks, ∀ f, wanted P t = some f → f ∉ orphansOf u

structure Safe (P : Platform) (s : State) : Prop where
  ok : Ok P s
  kept : Kept P s

theorem open_move {P : Platform} {s : AppState} {free : Bool} {io : Input} {req : PutRequest}
    {stage stage' : PutStage} {e : Effect} (hmove : PutMove P s free io req stage e stage')
    (h : isOpen stage' = true) : isOpen stage = true := by
  cases hmove with
  | refuse _ b o response hblob _ => cases h
  | abort _ b o hblob _ _ => cases h
  | cleanUp checked filepath response => cases h
  | _ => rfl

/-- An upload touches its own file. -/
theorem effectFile_move {P : Platform} {s : AppState} {free : Bool} {io : Input}
    {req : PutRequest} {stage stage' : PutStage} {e : Effect} (hok : UploadOk P s req stage)
    (hmove : PutMove P s free io req stage e stage') {f : Text} (h : effectFile e = some f) :
    f = req.filepath P := by
  cases hmove with
  | cleanUp checked filepath response =>
    rw [← Option.some.inj h]
    exact hok.refused checked filepath response rfl
  | create b default hdefault => exact (Option.some.inj h).symm
  | breakOff b etagType data err => exact (Option.some.inj h).symm
  | store b etagType o hstored => exact (Option.some.inj h).symm
  | _ => cases h

/-- The file of an upload after a step of its own. -/
theorem uploadFile_move {P : Platform} {s : AppState} {free : Bool} {io : Input}
    {req : PutRequest} {stage stage' : PutStage} {e : Effect} (h : UploadFile P s req stage)
    (hmove : PutMove P s free io req stage e stage') : UploadFile P (e.run s) req stage' := by
  have hkeep : effectFile e = none → diskAt P (e.run s) req = diskAt P s req := by
    intro hnone
    unfold diskAt
    rw [run_config]
    exact disk_run fun f hf => by rw [hnone] at hf; cases hf
  cases hmove with
  | turnedAway response => exact ⟨h.key, by simp, by simp, by simp [PutStage.blob]⟩
  | create b default hdefault =>
    refine ⟨h.key, by simp, fun _ _ _ => ?_, by simp [PutStage.blob]⟩
    simp [diskAt, Effect.run]
  | breakOff b etagType data err => exact ⟨h.key, by simp, by simp, by simp [PutStage.blob]⟩
  | store b etagType o hstored =>
    refine ⟨h.key, by simp, by simp, fun _ _ _ => ?_⟩
    have hsome := h.created b etagType rfl
    unfold diskAt at hsome ⊢
    simp only [Effect.run, hsome, if_true]
    exact setFile_same _ _ _
  | refuse _ b o response hblob _ => exact ⟨h.key, by simp, by simp, by simp [PutStage.blob]⟩
  | abort _ b o hblob _ _ => exact ⟨h.key, by simp, by simp, by simp [PutStage.blob]⟩
  | cleanUp checked filepath response =>
    exact ⟨h.key, by simp, by simp, by simp [PutStage.blob]⟩
  | commit b o insertedAt db hdb => exact ⟨h.key, by simp, by simp, by simp [PutStage.blob]⟩
  | _ =>
    refine ⟨h.key, by simp, by simp, fun _ _ _ => ?_⟩
    rw [hkeep rfl]
    exact h.stored _ _ rfl

/-- The file of an upload that is over is nobody's concern. -/
theorem uploadFile_of_disk {P : Platform} {s s' : AppState} {req : PutRequest}
    {stage : PutStage} (h : UploadFile P s req stage)
    (hdisk : isOpen stage = true → diskAt P s' req = diskAt P s req) :
    UploadFile P s' req stage := by
  refine ⟨h.key, ?_, ?_, ?_⟩
  · intro hstage
    rw [hdisk (by rw [hstage]; rfl)]
    exact h.received hstage
  · intro b etagType hstage
    rw [hdisk (by rw [hstage]; rfl)]
    exact h.created b etagType hstage
  · intro b o hblob
    rw [hdisk (by cases stage <;> simp [PutStage.blob, isOpen, isBetween] at hblob ⊢)]
    exact h.stored b o hblob

/-- A step touches the file of its upload, or an orphan. -/
theorem effectFile_step {P : Platform} {v : Server} {io : Input} {task task' : Task}
    {e : Effect} {f : Text} (hok : TaskOk P v task) (hmember : IsMember task)
    (h : task.step P v.app (!v.writing) io = some (e, task')) (hf : effectFile e = some f) :
    pending P task = some f ∨ f ∈ orphansOf task := by
  cases task with
  | put req stage =>
    obtain ⟨stage', hstep, rfl⟩ := step_of_kind.mp h
    have hmove := stepPut_move hstep
    refine Or.inl ?_
    rw [effectFile_move (hok.upload req stage rfl) hmove hf]
    simp [pending, pending_move hmove]
  | reconcile stage =>
    obtain ⟨stage', hstep, rfl⟩ := step_of_kind.mp h
    rcases stepReconcile_effect hstep with ⟨rfl, _⟩ | ⟨rel, rest, rfl, rfl, _⟩
    · cases hf
    · rw [← Option.some.inj hf]
      exact Or.inr List.mem_cons_self
  | dropped => cases h
  | _ => exact absurd hmember (by simp [IsMember])

/-- No step touches the blob of a row. -/
theorem blob_run {P : Platform} {v : Server} {io : Input} {task task' : Task} {e : Effect}
    {r : ObjectRecord} (hok : TaskOk P v task) (hmember : MemberOk P v task)
    (h : task.step P v.app (!v.writing) io = some (e, task'))
    (hr : r ∈ v.app.db.object.rows) (hname : IsBlobName P r.filepath) :
    blobOf (e.run v.app) r = blobOf v.app r := by
  unfold blobOf openRead
  rw [run_config]
  refine disk_run fun f hf => ?_
  rcases effectFile_step hok hmember.member h hf with hpending | horphan
  · have hne := unnamed_of_pending hok hpending r hr
    have hfname : IsBlobName P f := by
      cases task with
      | put req stage =>
        simp only [pending] at hpending
        split_ifs at hpending
        rw [← Option.some.inj hpending]
        exact ⟨req.uuid, req.key, rfl⟩
      | _ => cases hpending
    exact fun hpath => hne (absolutePathFor_inj hname hfname hpath)
  · obtain ⟨name, hplain, rfl⟩ := hmember.orphans.names f horphan
    exact orphan_path_ne hname hplain
      (Ne.symm (hmember.orphans.unnamed _ horphan r hr))

theorem blobs_advance {P : Platform} {s : State} {io : Input} {task task' : Task} {e : Effect}
    (hok : Ok P s) (h : Kept P s) (hmem : task ∈ s.tasks)
    (hstep : task.step P s.shared.app (!s.shared.writing) io = some (e, task')) :
    ∀ r ∈ (e.run s.shared.app).db.object.rows,
      StoredName P r.filepath ∧ HasBlob P (e.run s.shared.app) r := by
  have htask := hok.tasks task hmem
  have hold : ∀ a ∈ s.shared.app.db.object.rows,
      StoredName P a.filepath ∧ HasBlob P s.shared.app a ∧
        blobOf (e.run s.shared.app) a = blobOf s.shared.app a := by
    intro a ha
    obtain ⟨hname, hblob⟩ := h.blobs a ha
    exact ⟨hname, hblob, blob_run htask (h.members task hmem) hstep ha hname.isBlobName⟩
  intro r hr
  cases rowFrom_run hr with
  | same _ hr =>
    obtain ⟨hname, hblob, hdisk⟩ := hold r hr
    exact ⟨hname, hasBlob_congr hblob rfl rfl rfl rfl hdisk⟩
  | recycled now a ha he =>
    obtain ⟨hname, hblob, hdisk⟩ := hold a ha
    exact ⟨hname, hasBlob_congr hblob rfl rfl rfl rfl hdisk⟩
  | restored now a ha he =>
    obtain ⟨hname, hblob, hdisk⟩ := hold a ha
    exact ⟨hname, hasBlob_congr hblob rfl rfl rfl rfl hdisk⟩
  | registered insertedAt now key b o he hfree =>
    subst he
    obtain ⟨req, rfl, rfl, rfl, rfl, _⟩ := step_register hstep
    have hfile := (h.members _ hmem).upload req _ rfl
    obtain ⟨hstored, _⟩ := (htask.upload req _ rfl).stored b o rfl
    obtain ⟨raw, hkey⟩ := hfile.key
    refine ⟨⟨req.uuid, raw, req.key, hkey, hstored.filepath⟩, content req.body, ?_,
      hstored.size.symm, hstored.etag.symm⟩
    have hdisk := hfile.stored b o rfl
    unfold blobOf openRead
    rw [run_config]
    refine (disk_run fun f hf => by cases hf).trans ?_
    rw [show (ObjectTable.NewObject.record _ _).filepath = o.filepath from rfl, hstored.filepath]
    exact hdisk

/-- Orphans were orphans before, or they are those of a listing. -/
theorem orphans_step {P : Platform} {s : AppState} {free : Bool} {io : Input}
    {task task' : Task} {e : Effect} (h : task.step P s free io = some (e, task')) {rel : Text}
    (hrel : rel ∈ orphansOf task') :
    rel ∈ orphansOf task ∨ ∃ dbFiles names, task = .reconcile (.rowsListed dbFiles) ∧
      io.names = some names ∧ e = .keep ∧
      rel ∈ (classify dbFiles (listDiskObjectFiles names)).orphans := by
  cases task' with
  | reconcile stage' =>
    obtain ⟨stage, rfl, hstep⟩ := step_eq_reconcile h
    rcases stepReconcile_effect hstep with
      ⟨rfl, rfl | ⟨rfl, rfl⟩ | ⟨dbFiles, names, rfl, hnames, rfl⟩⟩ | ⟨rel', rest, rfl, rfl, rfl⟩
    · cases hrel
    · cases hrel
    · exact Or.inr ⟨dbFiles, names, rfl, hnames, rfl, hrel⟩
    · exact Or.inl (List.mem_cons_of_mem _ hrel)
  | _ => cases hrel

/-- What an upload may still register, it could register before. -/
theorem wanted_step {P : Platform} {s : AppState} {free : Bool} {io : Input}
    {task task' : Task} {e : Effect} (h : task.step P s free io = some (e, task')) {f : Text}
    (hf : wanted P task' = some f) : wanted P task = some f := by
  cases task' with
  | put req stage' =>
    obtain ⟨stage, rfl, hstep⟩ := step_eq_put h
    simp only [wanted] at hf ⊢
    split_ifs at hf with hopen
    rw [open_move (stepPut_move hstep) hopen]
    exact hf
  | _ => cases hf

theorem member_step {P : Platform} {s : AppState} {free : Bool} {io : Input}
    {task task' : Task} {e : Effect} (h : task.step P s free io = some (e, task'))
    (hmember : IsMember task) : IsMember task' := by
  cases task with
  | put req stage =>
    obtain ⟨_, _, rfl⟩ := step_of_kind.mp h
    trivial
  | reconcile stage =>
    obtain ⟨_, _, rfl⟩ := step_of_kind.mp h
    trivial
  | dropped => cases h
  | _ => exact absurd hmember (by simp [IsMember])

/-- The files are listed while no upload is between its file and its row. -/
theorem wanted_unlisted {P : Platform} {s : State} {names : List Text}
    {dbFiles : List DbObjectFile} {task : Task} {f : Text} (h : Kept P s)
    (hnames : ListsObjects s.shared.app names)
    (hquiet : ∀ req stage, Task.put req stage ∈ s.tasks → isBetween stage = false)
    (hmem : task ∈ s.tasks) (hf : wanted P task = some f) :
    f ∉ (classify dbFiles (listDiskObjectFiles names)).orphans := by
  intro horphan
  cases task with
  | put req stage =>
    simp only [wanted] at hf
    split_ifs at hf with hopen
    have hreceived : stage = .received := by
      have hbetween := hquiet req stage hmem
      cases stage <;> simp_all [isOpen]
    have hnone := ((h.members _ hmem).upload req stage rfl).received hreceived
    have hsome := (orphan_listed hnames horphan).2
    rw [← Option.some.inj hf] at hsome
    unfold diskAt at hnone
    rw [hnone] at hsome
    cases hsome
  | _ => cases hf

theorem memberOk_own {P : Platform} {s : State} {i : Nat} {io : Input} {task task' : Task}
    {e : Effect} (hlower : LowerKeepsEnd P) (h : Kept P s)
    (hquiet : Quiet P s (.advance i io)) (hi : s.tasks[i]? = some task)
    (hstep : task.step P s.shared.app (!s.shared.writing) io = some (e, task')) (writing : Bool) :
    MemberOk P ⟨e.run s.shared.app, writing⟩ task' := by
  have hmember := h.members task (List.mem_of_getElem? hi)
  refine ⟨member_step hstep hmember.member, ?_, ?_, ?_⟩
  · intro req stage' heq
    subst heq
    obtain ⟨stage, rfl, hput⟩ := step_eq_put hstep
    exact uploadFile_move (hmember.upload req stage rfl) (stepPut_move hput)
  · intro rel hrel
    rcases orphans_step hstep hrel with hold | ⟨dbFiles, names, rfl, hnames, rfl, hnew⟩
    · exact hmember.orphans.names rel hold
    · exact (orphan_listed (hquiet.legal names hnames) hnew).1
  · intro rel hrel r hr
    rcases orphans_step hstep hrel with hold | ⟨dbFiles, names, rfl, hnames, rfl, hnew⟩
    · rcases filepath_run hr with ⟨a, ha, _, hfile⟩ | ⟨insertedAt, now, key, b, o, rfl, hfile⟩
      · rw [← hfile]
        exact hmember.orphans.unnamed rel hold a ha
      · obtain ⟨req, rfl, _⟩ := step_register hstep
        cases hold
    · exact orphan_unnamed hlower hnew (h.blobs r hr).1
        ((hquiet.listing i io dbFiles rfl hi).2 r hr)

theorem memberOk_other {P : Platform} {s : State} {io : Input} {t u task' : Task}
    {e : Effect} (hok : Ok P s) (h : Kept P s) (ht : t ∈ s.tasks) (hu : u ∈ s.tasks)
    (happart : Apart P t u)
    (hstep : t.step P s.shared.app (!s.shared.writing) io = some (e, task')) (writing : Bool) :
    MemberOk P ⟨e.run s.shared.app, writing⟩ u := by
  have hmember := h.members u hu
  refine ⟨hmember.member, ?_, hmember.orphans.names, ?_⟩
  · intro req stage heq
    subst heq
    refine uploadFile_of_disk (hmember.upload req stage rfl) fun hopen => ?_
    unfold diskAt
    rw [run_config]
    refine disk_run fun f hf => ?_
    have hname : IsBlobName P (req.filepath P) := ⟨req.uuid, req.key, rfl⟩
    rcases effectFile_step (hok.tasks t ht) (h.members t ht).member hstep hf with
      hpending | horphan
    · have hne := happart.left f hpending
      simp only [filepaths, List.mem_singleton] at hne
      cases t with
      | put req' stage' =>
        simp only [pending] at hpending
        split_ifs at hpending
        rw [← Option.some.inj hpending] at hne ⊢
        exact fun hpath => hne (absolutePathFor_inj hname ⟨req'.uuid, req'.key, rfl⟩ hpath).symm
      | _ => cases hpending
    · have hwanted : wanted P (.put req stage) = some (req.filepath P) := by
        simp [wanted, hopen]
      have hspared := h.spared _ hu t ht _ hwanted
      obtain ⟨name, hplain, rfl⟩ := (h.members t ht).orphans.names f horphan
      exact orphan_path_ne hname hplain fun heq => hspared (heq ▸ horphan)
  · intro rel hrel r hr
    rcases filepath_run hr with ⟨a, ha, _, hfile⟩ | ⟨insertedAt, now, key, b, o, rfl, hfile⟩
    · rw [← hfile]
      exact hmember.orphans.unnamed rel hrel a ha
    · obtain ⟨req, rfl, _⟩ := step_register hstep
      obtain ⟨hstored, _⟩ := ((hok.tasks _ ht).upload req _ rfl).stored b o rfl
      have hspared := h.spared _ ht u hu (req.filepath P) rfl
      rw [hfile, hstored.filepath]
      exact fun heq => hspared (heq ▸ hrel)

theorem kept_advance {P : Platform} {s : State} {i : Nat} {io : Input} {task task' : Task}
    {e : Effect} (hlower : LowerKeepsEnd P) (hok : Ok P s) (h : Kept P s)
    (hquiet : Quiet P s (.advance i io)) (hi : s.tasks[i]? = some task)
    (hstep : task.step P s.shared.app (!s.shared.writing) io = some (e, task')) :
    Kept P (s.replace i
      ⟨e.run s.shared.app, task'.holds || (s.shared.writing && !task.holds)⟩ task') := by
  have hmem := List.mem_of_getElem? hi
  refine ⟨blobs_advance hok h hmem hstep, ?_, ?_⟩
  · apply hok.forall_replace (C := MemberOk P) apart_symm hi
    · exact memberOk_own hlower h hquiet hi hstep _
    · intro u hu happart _
      exact memberOk_other hok h hmem hu happart hstep _
  · intro t ht u hu f hf horphan
    have hold : ∃ t ∈ s.tasks, wanted P t = some f := by
      rcases Pool.mem_replace ht with rfl | ht
      · exact ⟨task, hmem, wanted_step hstep hf⟩
      · exact ⟨t, ht, hf⟩
    obtain ⟨t', ht', hf'⟩ := hold
    rcases Pool.mem_replace hu with rfl | hu
    · rcases orphans_step hstep horphan with hold | ⟨dbFiles, names, rfl, hnames, rfl, hnew⟩
      · exact h.spared t' ht' task hmem f hf' hold
      · exact wanted_unlisted h (hquiet.legal names hnames)
          (hquiet.listing i io dbFiles rfl hi).1 ht' hf' hnew
    · exact h.spared t' ht' u hu f hf' horphan

/-- A new request has no orphans, and the file of a new upload is not there. -/
theorem kept_begin {P : Platform} {s : State} {task : Task} (h : Kept P s)
    (hquiet : Quiet P s (.begin task)) (hnew : task.isNew = true) : Kept P (s.spawn task) := by
  have horphans : orphansOf task = [] := by
    cases task with
    | reconcile stage => cases stage <;> simp [Task.isNew] at hnew; rfl
    | _ => rfl
  have hkind := hquiet.kinds task rfl
  refine ⟨h.blobs, ?_, ?_⟩
  · intro v hv
    rcases List.mem_append.mp hv with hv | hv
    · exact h.members v hv
    rw [List.mem_singleton.mp hv]
    refine ⟨?_, ?_, by rw [horphans]; simp, by rw [horphans]; simp⟩
    · rcases hkind with ⟨req, stage, rfl⟩ | ⟨stage, rfl⟩ <;> trivial
    · intro req stage heq
      subst heq
      cases stage <;> simp [Task.isNew] at hnew
      obtain ⟨hfresh, hkey⟩ := hquiet.legal
      exact ⟨hkey, fun _ => hfresh.disk, by simp, by simp [PutStage.blob]⟩
  · intro t ht u hu f hf
    rcases List.mem_append.mp hu with hold | hu
    · rcases List.mem_append.mp ht with ht | ht
      · exact h.spared t ht u hold f hf
      · rw [List.mem_singleton.mp ht] at hf
        rcases hkind with ⟨req, stage, rfl⟩ | ⟨stage, rfl⟩
        · simp only [wanted] at hf
          split_ifs at hf
          rw [← Option.some.inj hf]
          exact (hquiet.legal.1.tasks u hold).2
        · cases hf
    · rw [List.mem_singleton.mp hu, horphans]
      simp

theorem kept_drop {P : Platform} {s : State} {i : Nat} {v : Server} (h : Kept P s)
    (happ : v.app = s.shared.app) : Kept P (s.replace i v .dropped) := by
  refine ⟨by rw [Pool.replace, happ]; exact h.blobs, ?_, ?_⟩
  · intro w hw
    rcases Pool.mem_replace hw with rfl | hw
    · exact ⟨trivial, by simp, by simp [orphansOf], by simp [orphansOf]⟩
    · obtain ⟨hmember, hupload, horphans⟩ := h.members w hw
      refine ⟨hmember, ?_, ?_⟩
      · rw [Pool.replace, happ]
        exact hupload
      · rw [Pool.replace, happ]
        exact horphans
  · intro t ht u hu f hf
    rcases Pool.mem_replace ht with rfl | ht
    · cases hf
    · rcases Pool.mem_replace hu with rfl | hu
      · simp [orphansOf]
      · exact h.spared t ht u hu f hf

theorem safe_step {P : Platform} {s t : State} {a : Action} (hlower : LowerKeepsEnd P)
    (h : Safe P s) (hquiet : Quiet P s a) (hstep : step P s a = some t) : Safe P t := by
  refine ⟨ok_step h.ok hquiet.legal hstep, ?_⟩
  rcases step_cases hstep with ⟨task, rfl, hnew, rfl⟩ | ⟨i, io, task, e, task', rfl, hi, htask, rfl⟩ |
    ⟨i, task, rfl, hi, rfl⟩
  · exact kept_begin h.kept hquiet hnew
  · exact kept_advance hlower h.ok h.kept hquiet hi htask
  · exact kept_drop h.kept rfl

def upload : PutRequest := sampleUpload 1 ['k'] [97]

def blobName : Text := "00000000-0000-4000-8000-000000000001.bin".toList

def directory : Input := { now := Instant.epoch, names := some [blobName] }

theorem legal_directory {P : Platform} {s : State} (i : Nat)
    (h : ListsObjects s.shared.app [blobName]) : Legal P s (.advance i directory) := by
  intro names hnames
  rw [← Option.some.inj hnames]
  exact h

theorem fresh_upload {s : State} (hrows : s.shared.app.db.object.rows = [])
    (hdisk : s.shared.app.disk = fun _ => none)
    (htasks : ∀ task ∈ s.tasks, filepaths Platform.sample task = [] ∧ orphansOf task = []) :
    Legal Platform.sample s (.begin (.put upload .received)) := by
  refine ⟨⟨by simp [hrows], by rw [hdisk], fun task htask => ?_⟩, ['k'], by decide⟩
  obtain ⟨hpaths, horphans⟩ := htasks task htask
  simp [hpaths, horphans]

/-- The upload, from its begin to its answer. -/
def uploading : List Action :=
  .begin (.put upload .received) :: List.replicate 8 (.advance 0 calm)

/-- A reconcile that lists the rows. -/
def listing : List Action := [.begin (.reconcile .received), .advance 1 calm]

def checked : List Action :=
  uploading ++ listing ++ [.advance 1 directory, .advance 1 calm]

theorem directory_uploaded : ListsObjects (after (uploading ++ listing)).shared.app [blobName] :=
  listsObjects_single (P := Platform.sample) (Uuid.numbered 1) ['k'] [97]
    (setFile_setFile _ _ _ _)

/-- An action that does not list the files. -/
theorem quiet_of_legal {P : Platform} {s : State} {a : Action} (hlegal : Legal P s a)
    (hkinds : ∀ task, a = .begin task → (∃ req stage, task = .put req stage) ∨
      ∃ stage, task = .reconcile stage)
    (hlisting : ∀ i io, a = .advance i io → ∀ dbFiles,
      s.tasks[i]? ≠ some (.reconcile (.rowsListed dbFiles))) : Quiet P s a :=
  ⟨hlegal, hkinds, fun i io dbFiles ha hi => absurd hi (hlisting i io ha dbFiles)⟩

def NoReconcile (s : State) : Prop := ∀ stage, Task.reconcile stage ∉ s.tasks

theorem noReconcile_advance {P : Platform} {s t : State} {i : Nat} {io : Input}
    (h : NoReconcile s) (hstep : step P s (.advance i io) = some t) : NoReconcile t := by
  intro stage hmem
  rcases step_cases hstep with ⟨task, heq, _⟩ | ⟨i, io, task, e, task', _, hi, htask, rfl⟩ |
    ⟨i, task, heq, _⟩
  · cases heq
  · rcases Pool.mem_replace hmem with rfl | hmem
    · obtain ⟨stage', rfl, _⟩ := step_eq_reconcile htask
      exact h stage' (List.mem_of_getElem? hi)
    · exact h stage hmem
  · cases heq

theorem run_uploading :
    Run (step Platform.sample) (Quiet Platform.sample) node (after uploading) := by
  have hbegin : Run (step Platform.sample) (Quiet Platform.sample) node
      (after [.begin (.put upload .received)]) :=
    .tail _ (.refl node)
      (quiet_of_legal (fresh_upload rfl rfl (by simp [node, idle])) (by simp) (by simp)) rfl
  have hnone : NoReconcile (after [.begin (.put upload .received)]) := by
    intro stage hmem
    cases List.mem_singleton.mp hmem
  refine hbegin.trans (run_of_exec_of_invariant hnone (fun a ha s t h hstep => ?_)
    (fun a ha s h => ?_) (rfl : exec _ _ (List.replicate 8 (.advance 0 calm)) = some _))
  · rw [List.eq_of_mem_replicate ha] at hstep
    exact noReconcile_advance h hstep
  · rw [List.eq_of_mem_replicate ha]
    refine quiet_of_legal (legal_calm s 0) (by simp) fun i io _ dbFiles hi => ?_
    exact h _ (List.mem_of_getElem? hi)

/-- With quiet listings, a reconcile beside any uploads leaves every row its blob. -/
theorem reconcile_keeps_blobs (P : Platform) (app : AppState) (t : State)
    (hlower : LowerKeepsEnd P)
    (hrows : ∀ r ∈ app.db.object.rows, StoredName P r.filepath ∧ HasBlob P app r)
    (hrun : Run (step P) (Quiet P) (idle app) t) :
    ∀ r ∈ t.shared.app.db.object.rows, HasBlob P t.shared.app r := by
  have hsafe : Safe P t := by
    refine hrun.invariant (fun s a u h hquiet hstep => safe_step hlower h hquiet hstep) ?_
    exact ⟨coherent_nil trivial, hrows, fun v hv => (by cases hv), fun v hv => (by cases hv)⟩
  exact fun r hr => (hsafe.kept.blobs r hr).2

/-- A reconcile after an upload. -/
theorem reconcile_keeps_uploaded : (after checked).shared.app.db.object.rows.length = 1 ∧
    ∀ r ∈ (after checked).shared.app.db.object.rows,
      HasBlob Platform.sample (after checked).shared.app r := by
  have hlist : Run (step Platform.sample) (Quiet Platform.sample) node
      (after (uploading ++ listing)) := by
    have hbegin : Run (step Platform.sample) (Quiet Platform.sample) node
        (after (uploading ++ [.begin (.reconcile .received)])) :=
      .tail (.begin (.reconcile .received)) run_uploading
        (quiet_of_legal trivial (by simp) (by simp)) rfl
    refine .tail (.advance 1 calm) hbegin (quiet_of_legal (legal_calm _ 1) (by simp) ?_) rfl
    intro i io ha dbFiles hi
    cases ha
    cases hi
  have hfiles : Run (step Platform.sample) (Quiet Platform.sample) node
      (after (uploading ++ listing ++ [.advance 1 directory])) := by
    refine .tail _ hlist ⟨legal_directory 1 directory_uploaded, by simp, ?_⟩ rfl
    intro i io dbFiles ha hi
    cases ha
    cases hi
    refine ⟨fun req stage hmem => ?_, fun r hr => ?_⟩
    · rcases List.mem_cons.mp hmem with heq | hmem
      · cases heq
        rfl
      · cases List.mem_singleton.mp hmem
    · rw [List.mem_singleton.mp hr]
      exact ⟨_, List.mem_cons_self, by decide⟩
  have hrun : Run (step Platform.sample) (Quiet Platform.sample) node (after checked) := by
    refine .tail (.advance 1 calm) hfiles (quiet_of_legal (legal_calm _ 1) (by simp) ?_) rfl
    intro i io ha dbFiles hi
    cases ha
    cases hi
  exact ⟨rfl, reconcile_keeps_blobs Platform.sample _ (after checked) lowerKeepsEnd_sample
    (fun r hr => by cases hr) hrun⟩

/-- A reconcile that has listed the rows. -/
def rowsListed : List Action := [.begin (.reconcile .received), .advance 0 calm]

/-- Then an upload writes its blob. -/
def written : List Action :=
  rowsListed ++ [.begin (.put upload .received)] ++ List.replicate 2 (.advance 1 calm)

/-- Then the files are listed, the upload is committed, and the orphans are removed. -/
def removed : List Action :=
  written ++ [.advance 0 directory] ++ List.replicate 6 (.advance 1 calm) ++
    List.replicate 2 (.advance 0 calm)

theorem directory_written : ListsObjects (after written).shared.app [blobName] :=
  listsObjects_single (P := Platform.sample) (Uuid.numbered 1) ['k'] [97]
    (setFile_setFile _ _ _ _)

theorem run_written :
    Run (step Platform.sample) (Legal Platform.sample) node (after written) := by
  have hlisted : Run (step Platform.sample) (Legal Platform.sample) node (after rowsListed) := by
    refine run_of_exec_of_ok (fun a ha s => ?_) (rfl : exec _ _ rowsListed = some _)
    simp only [rowsListed, List.mem_cons, List.not_mem_nil, or_false] at ha
    rcases ha with rfl | rfl
    · trivial
    · exact legal_calm s 0
  have hbegin := hlisted.tail (.begin (.put upload .received))
    (fresh_upload rfl rfl (by simp [after, rowsListed, exec, step]; decide)) rfl
  refine hbegin.trans (run_of_exec_of_ok (fun a ha s => ?_)
    (rfl : exec _ _ (List.replicate 2 (.advance 1 calm)) = some _))
  rw [List.eq_of_mem_replicate ha]
  exact legal_calm s 1

/-- The upload is acknowledged, everything is over, and its blob is gone. -/
theorem reconcile_can_take_upload :
    Run (step Platform.sample) (Legal Platform.sample) node (after removed) ∧
      (∃ answer, (after removed).tasks =
        [.reconcile .done, .put upload (.done true (.stored answer))]) ∧
      ∃ r ∈ (after removed).shared.app.db.object.rows, r.deletedAt = none ∧
        blobOf (after removed).shared.app r = none := by
  refine ⟨?_, ⟨_, rfl⟩, ⟨_, List.mem_cons_self, rfl, by decide⟩⟩
  have hlist := run_written.tail (.advance 0 directory)
    (legal_directory 0 directory_written) rfl
  refine hlist.trans (run_of_exec_of_ok (fun a ha s => ?_)
    (rfl : exec _ _ (List.replicate 6 (.advance 1 calm) ++ List.replicate 2 (.advance 0 calm)) =
      some _))
  rcases List.mem_append.mp ha with ha | ha
  · rw [List.eq_of_mem_replicate ha]
    exact legal_calm s 1
  · rw [List.eq_of_mem_replicate ha]
    exact legal_calm s 0

end MyS3.ReconcileRaces
