import MyS3.Blobs
import MyS3.RequestInvariants

/-!
Purges against restores. A purge selects rows of the recycle bin first and deletes them by
id later, and its delete does not ask whether the row is still recycled. An active object is
safe from every purge as long as no restore of it goes through while a purge has it selected.
-/

namespace MyS3.PurgeRaces

open Library.Strings Library.Tables Library.Interleaving Library.Runs
open Models Objects Database Engine Repository Outbox Http S3Routes Rbac SessionAuth Purge Keys
open Reconcile UploadRuns Blobs Requests RequestSteps RequestInvariants

def Selected (s : State) (id : Int) : Prop :=
  ∃ req stage, Task.purge req stage ∈ s.tasks ∧ ∃ item ∈ stage.items, item.chosen = some id

/-- No restore of the object goes through while a purge has it selected. -/
def NoLateRestore (P : Platform) (x : Int) (s : State) (a : Action) : Prop :=
  Legal P s a ∧ ∀ now, Does P s a (.restore now x) → ¬ Selected s x

/-- A step of a purge that takes the row of an object, or its blob. -/
def PurgeTakes (s : State) (a : Action) (r : ObjectRecord) : Prop :=
  ∃ i io req stage e stage', a = .advance i io ∧ s.tasks[i]? = some (.purge req stage) ∧
    stepPurge s.shared.app (!s.shared.writing) io req stage = some (e, stage') ∧
    ((∃ now record, e = .purge now record ∧ record.id = r.id) ∨
      ∃ filepath, e = .unlink filepath false ∧
        absolutePathFor s.shared.app.config.storageRoot filepath =
          absolutePathFor s.shared.app.config.storageRoot r.filepath)

/-- Blobs of the rows have names that the engine made. -/
def EngineNames (P : Platform) (db : Db) : Prop := ∀ r ∈ db.object.rows, IsBlobName P r.filepath

/-- What a purge has selected is not active, and the blobs it names are those of the rows
that it takes. -/
structure PurgeOk (P : Platform) (x : Int) (s : AppState) (stage : PurgeStage) : Prop where
  selected : ∀ item ∈ stage.items, item.chosen = some x →
    x < s.db.object.nextId ∧ ∀ r ∈ s.db.object.rows, r.id = x → r.deletedAt ≠ none
  listed : ∀ record, .listed record ∈ stage.items → IsBlobName P record.filepath ∧
    ∀ r ∈ s.db.object.rows, r.filepath = record.filepath → r.id = record.id
  taken : ∀ filepath, stage.blob = some filepath → IsBlobName P filepath ∧
    ∀ r ∈ s.db.object.rows, r.filepath ≠ filepath

def IsPurgeOk (P : Platform) (x : Int) (v : Server) (task : Task) : Prop :=
  ∀ req stage, task = .purge req stage → PurgeOk P x v.app stage

structure PurgesOk (P : Platform) (x : Int) (s : State) : Prop where
  names : EngineNames P s.shared.app.db
  tasks : ∀ task ∈ s.tasks, IsPurgeOk P x s.shared task

structure Safe (P : Platform) (x : Int) (s : State) : Prop where
  ok : Ok P s
  purges : PurgesOk P x s

/-- A step of another request leaves a purge as it needs to be. -/
theorem purgeOk_other {P : Platform} {x : Int} {s : AppState} (req : PurgeRequest)
    {stage : PurgeStage} {e : Effect} (h : PurgeOk P x s stage)
    (hrestore : ∀ now, e = .restore now x →
      ∀ item ∈ stage.items, PurgeItem.chosen item ≠ some x)
    (hregister : ∀ insertedAt now key b o, e = .register insertedAt now key b o →
      o.filepath ∉ filepaths P (.purge req stage)) :
    PurgeOk P x (e.run s) stage := by
  refine ⟨?_, ?_, ?_⟩
  · intro item hitem hchosen
    obtain ⟨hlt, hrecycled⟩ := h.selected item hitem hchosen
    refine ⟨lt_of_lt_of_le hlt (nextId_run s e), ?_⟩
    intro r hr hid hactive
    rcases active_run hr hactive with hr | ⟨now, he⟩ | hnew
    · exact hrecycled r hr hid hactive
    · rw [hid] at he
      exact hrestore now he item hitem hchosen
    · omega
  · intro record hrecord
    obtain ⟨hname, hsame⟩ := h.listed record hrecord
    refine ⟨hname, fun r hr hpath => ?_⟩
    rcases filepath_run hr with ⟨a, ha, hid, hfile⟩ | ⟨insertedAt, now, key, b, o, he, hfile⟩
    · rw [← hid]
      exact hsame a ha (hfile.trans hpath)
    · refine absurd ?_ (hregister insertedAt now key b o he)
      refine List.mem_append_right _ (List.mem_filterMap.mpr ⟨_, hrecord, ?_⟩)
      rw [← hfile, hpath]
      rfl
  · intro filepath hblob
    obtain ⟨hname, hfree⟩ := h.taken filepath hblob
    refine ⟨hname, fun r hr hpath => ?_⟩
    rcases filepath_run hr with ⟨a, ha, _, hfile⟩ | ⟨insertedAt, now, key, b, o, he, hfile⟩
    · exact hfree a ha (hfile.trans hpath)
    · refine absurd ?_ (hregister insertedAt now key b o he)
      refine List.mem_append_left _ ?_
      rw [hblob, ← hfile, hpath]
      exact List.mem_singleton.mpr rfl

theorem itemFrom_chosen {s : AppState} {items : List PurgeItem} {item : PurgeItem} {id : Int}
    (h : ItemFrom s items item) (hid : item.chosen = some id) :
    (∃ old ∈ items, old.chosen = some id) ∨
      ∃ r ∈ s.db.object.rows, r.id = id ∧ r.deletedAt ≠ none := by
  cases h with
  | old _ hitem => exact Or.inl ⟨item, hitem, hid⟩
  | requested id => cases hid
  | allowed record hitem => exact Or.inl ⟨_, hitem, hid⟩
  | lookedUp record hr hdeleted => exact Or.inr ⟨record, hr, Option.some.inj hid, hdeleted⟩
  | unchecked record hr hdeleted => exact Or.inr ⟨record, hr, Option.some.inj hid, hdeleted⟩
  | listed record hr hdeleted => exact Or.inr ⟨record, hr, Option.some.inj hid, hdeleted⟩

/-- A purge reads on. -/
theorem purgeOk_read {P : Platform} {x : Int} {s : AppState} {stage stage' : PurgeStage}
    (h : PurgeOk P x s stage) (hnames : EngineNames P s.db) (hblob : stage'.blob = none)
    (hitems : ∀ item ∈ stage'.items, ItemFrom s stage.items item) : PurgeOk P x s stage' := by
  refine ⟨?_, ?_, fun filepath hf => ?_⟩
  · intro item hitem hchosen
    rcases itemFrom_chosen (hitems item hitem) hchosen with ⟨old, hold, hid⟩ | ⟨a, ha, hid, hdel⟩
    · exact h.selected old hold hid
    · refine ⟨hid ▸ s.db.object.id_lt a ha, fun r hr hrid => ?_⟩
      rw [s.db.object.eq_of_id hr ha (hrid.trans hid.symm)]
      exact hdel
  · intro record hrecord
    cases hitems _ hrecord with
    | old _ hold => exact h.listed record hold
    | listed _ hr hdel =>
      refine ⟨hnames record hr, fun r hmem hpath => ?_⟩
      rw [s.db.object.eq_of_filepath hmem hr hpath]
  · rw [hblob] at hf
    cases hf

/-- A purge takes a row: the rows that stay have other names. -/
theorem purgeOk_remove {P : Platform} {x : Int} {s : AppState} {now : Instant}
    {item : PurgeItem} {rest : List PurgeItem} {sofar sofar' : PurgeResponse}
    {record : ObjectRecord} (h : PurgeOk P x s (.working (item :: rest) sofar))
    (hnames : EngineNames P s.db)
    (hitem : item = .listed record ∨
      (item = .selected record.id ∧ record ∈ s.db.object.rows)) :
    PurgeOk P x (Effect.run s (.purge now record)) (.unlinking record.filepath rest sofar') := by
  have hrows : ∀ r ∈ (Effect.run s (.purge now record)).db.object.rows,
      r ∈ s.db.object.rows ∧ r.id ≠ record.id := fun r hr => mem_purgeRecord.mp hr
  have hown : IsBlobName P record.filepath ∧
      ∀ r ∈ s.db.object.rows, r.filepath = record.filepath → r.id = record.id := by
    rcases hitem with rfl | ⟨_, hrecord⟩
    · exact h.listed record List.mem_cons_self
    · refine ⟨hnames record hrecord, fun r hr hpath => ?_⟩
      rw [s.db.object.eq_of_filepath hr hrecord hpath]
  refine ⟨?_, ?_, ?_⟩
  · intro item' hitem' hchosen
    obtain ⟨hlt, hrecycled⟩ := h.selected item' (List.mem_cons_of_mem _ hitem') hchosen
    exact ⟨hlt, fun r hr hid => hrecycled r (hrows r hr).1 hid⟩
  · intro record' hrecord'
    obtain ⟨hname, hsame⟩ := h.listed record' (List.mem_cons_of_mem _ hrecord')
    exact ⟨hname, fun r hr hpath => hsame r (hrows r hr).1 hpath⟩
  · intro filepath hblob
    rw [← Option.some.inj hblob]
    refine ⟨hown.1, fun r hr hpath => ?_⟩
    exact (hrows r hr).2 (hown.2 r (hrows r hr).1 hpath)

theorem purgeOk_move {P : Platform} {x : Int} {s : AppState} {free : Bool} {io : Input}
    {stage stage' : PurgeStage} {e : Effect} (h : PurgeOk P x s stage)
    (hnames : EngineNames P s.db) (hmove : PurgeMove s free io stage e stage') :
    PurgeOk P x (e.run s) stage' := by
  cases hmove with
  | read _ _ hblob hblob' hitems => exact purgeOk_read h hnames hblob' hitems
  | remove item rest sofar sofar' record hfree hitem => exact purgeOk_remove h hnames hitem
  | unlink filepath rest sofar =>
    refine ⟨h.selected, h.listed, fun f hf => ?_⟩
    cases hf

/-- What a step registers is the blob of an upload, which its request named before. -/
theorem register_name {P : Platform} {v : Server} {io : Input} {task task' : Task}
    {insertedAt now : Instant} {key : Text} {b : Int} {o : StoredObject} (hok : TaskOk P v task)
    (h : task.step P v.app (!v.writing) io =
      some (.register insertedAt now key b o, task')) :
    pending P task = some o.filepath ∧ IsBlobName P o.filepath := by
  have hpending := (moves_of_step hok h).register insertedAt now key b o rfl
  refine ⟨hpending, ?_⟩
  cases task with
  | put req stage =>
    simp only [pending] at hpending
    split_ifs at hpending
    rw [← Option.some.inj hpending]
    exact ⟨req.uuid, req.key, rfl⟩
  | _ => cases hpending

theorem purgesOk_advance {P : Platform} {x : Int} {s : State} {i : Nat} {io : Input}
    {task task' : Task} {e : Effect} (hok : Ok P s) (h : PurgesOk P x s)
    (hi : s.tasks[i]? = some task)
    (hstep : task.step P s.shared.app (!s.shared.writing) io = some (e, task'))
    (hlate : ∀ now, e = .restore now x → ¬ Selected s x) :
    PurgesOk P x (s.replace i
      ⟨e.run s.shared.app, task'.holds || (s.shared.writing && !task.holds)⟩ task') := by
  have hmem := List.mem_of_getElem? hi
  have htask := hok.tasks task hmem
  refine ⟨?_, ?_⟩
  · intro r hr
    rcases filepath_run hr with ⟨a, ha, _, hfile⟩ | ⟨insertedAt, now, key, b, o, rfl, hfile⟩
    · rw [← hfile]
      exact h.names a ha
    · rw [hfile]
      exact (register_name htask hstep).2
  · apply hok.forall_replace (C := IsPurgeOk P x) apart_symm hi
    · intro req stage' heq
      subst heq
      obtain ⟨stage, rfl, hmove⟩ := step_eq_purge hstep
      exact purgeOk_move (h.tasks _ hmem req stage rfl) h.names (stepPurge_move hmove)
    · intro v hv happart _ req stage heq
      subst heq
      refine purgeOk_other req (h.tasks _ hv req stage rfl) ?_ ?_
      · intro now he item hitem hchosen
        exact hlate now he ⟨req, stage, hv, item, hitem, hchosen⟩
      · intro insertedAt now key b o he
        subst he
        exact happart.left _ (register_name htask hstep).1

theorem purgesOk_step {P : Platform} {x : Int} {s t : State} {a : Action} (hok : Ok P s)
    (h : PurgesOk P x s) (hlate : NoLateRestore P x s a) (hstep : step P s a = some t) :
    PurgesOk P x t := by
  rcases step_cases hstep with ⟨task, rfl, hnew, rfl⟩ | ⟨i, io, task, e, task', rfl, hi, htask, rfl⟩ |
    ⟨i, task, rfl, hi, rfl⟩
  · refine ⟨h.names, fun v hv req stage heq => ?_⟩
    rcases List.mem_append.mp hv with hv | hv
    · exact h.tasks v hv req stage heq
    · rw [List.mem_singleton.mp hv] at heq
      subst heq
      cases stage <;> simp [Task.isNew] at hnew
      refine ⟨?_, ?_, ?_⟩ <;> simp [PurgeStage.items, PurgeStage.blob]
  · refine purgesOk_advance hok h hi htask fun now he => ?_
    subst he
    exact hlate.2 now ⟨i, io, task, task', rfl, hi, htask⟩
  · refine ⟨h.names, fun v hv req stage heq => ?_⟩
    rcases Pool.mem_replace hv with rfl | hv
    · cases heq
    · exact h.tasks v hv req stage heq

/-- What a purge takes is not active. -/
theorem not_purgeTakes {P : Platform} {s : State} {a : Action} {r : ObjectRecord}
    (h : PurgesOk P r.id s) (hr : r ∈ s.shared.app.db.object.rows) (hactive : r.deletedAt = none) :
    ¬ PurgeTakes s a r := by
  intro htakes
  obtain ⟨i, io, req, stage, e, stage', _, hi, hstep, htaken⟩ := htakes
  have hpurge := h.tasks _ (List.mem_of_getElem? hi) req stage rfl
  cases stepPurge_move hstep with
  | read _ _ _ _ _ =>
    rcases htaken with ⟨now, record, he, _⟩ | ⟨f, he, _⟩ <;> cases he
  | remove item rest sofar sofar' record hfree hitem =>
    rcases htaken with ⟨now, record', he, hid⟩ | ⟨f, he, _⟩
    · cases he
      have hchosen : item.chosen = some r.id := by
        rcases hitem with rfl | ⟨rfl, _⟩
        · exact congrArg some hid
        · exact congrArg some hid
      exact (hpurge.selected item List.mem_cons_self hchosen).2 r hr rfl hactive
    · cases he
  | unlink filepath rest sofar =>
    rcases htaken with ⟨now, record, he, _⟩ | ⟨f, he, hpath⟩
    · cases he
    · simp only [Effect.unlink.injEq] at he
      obtain ⟨rfl, _⟩ := he
      obtain ⟨hname, hfree⟩ := hpurge.taken filepath rfl
      exact hfree r hr (absolutePathFor_inj (h.names r hr) hname hpath.symm)

/-- While no restore of an object goes through after a purge has selected it, no purge
takes the row or the blob of the object in a state where it is active. -/
theorem purges_spare_active (P : Platform) (app : AppState) (x : Int) (t : State)
    (hnames : EngineNames P app.db) (hrun : Run (step P) (NoLateRestore P x) (idle app) t) :
    ∀ a, ∀ r ∈ t.shared.app.db.object.rows, r.id = x → r.deletedAt = none →
      ¬ PurgeTakes t a r := by
  have hsafe : Safe P x t := by
    refine hrun.invariant ?_ ⟨coherent_nil trivial, hnames, fun v hv => by cases hv⟩
    intro s a u h ha hstep
    exact ⟨ok_step h.ok ha.1 hstep, purgesOk_step h.ok h.purges ha hstep⟩
  intro a r hr hid hactive
  subst hid
  exact not_purgeTakes hsafe.purges hr hactive

/-- A node whose account 1 has the Owner role, with one upload in the recycle bin. -/
def recycledUpload : AppState :=
  let s := AppState.migrated "node-1".toList
  let s := { s with db := { s.db with accountRole := [⟨1, 1⟩] } }
  let s := (putObjectKeyedInBucket Platform.sample s Instant.epoch (Uuid.numbered 1) ['k'] []
    [some [97]] none {}).2
  (deleteObjectKeyedInBucket Limit1.first s Instant.epoch ['k'] none false).2

/-- Forty days later. -/
def later : Input where
  now := Instant.ofSecs (40 * 86400) (by decide) (by decide)

def restoring : List Action :=
  [.begin (.restore ⟨1, 1⟩ .received), .advance 0 later, .advance 0 later, .advance 0 later,
    .advance 0 later, .advance 0 later]

def restored : State :=
  (exec (step Platform.sample) (idle recycledUpload) restoring).getD (idle recycledUpload)

theorem recycledUpload_names : EngineNames Platform.sample recycledUpload.db := by
  intro r hr
  rw [show recycledUpload.db.object.rows = [_] from rfl, List.mem_singleton] at hr
  exact ⟨Uuid.numbered 1, ['k'], by rw [hr]; rfl⟩

def NoPurge (s : State) : Prop := ∀ req stage, Task.purge req stage ∉ s.tasks

theorem noPurge_step {P : Platform} {s t : State} {a : Action} (h : NoPurge s)
    (ha : ∀ req stage, a ≠ .begin (.purge req stage)) (hstep : step P s a = some t) :
    NoPurge t := by
  intro req stage hmem
  rcases step_cases hstep with ⟨task, rfl, _, rfl⟩ | ⟨i, io, task, e, task', rfl, hi, htask, rfl⟩ |
    ⟨i, task, rfl, hi, rfl⟩
  · rcases List.mem_append.mp hmem with hmem | hmem
    · exact h req stage hmem
    · exact ha req stage (by rw [List.mem_singleton.mp hmem])
  · rcases Pool.mem_replace hmem with rfl | hmem
    · obtain ⟨stage', rfl, _⟩ := step_eq_purge htask
      exact h req stage' (List.mem_of_getElem? hi)
    · exact h req stage hmem
  · rcases Pool.mem_replace hmem with heq | hmem
    · cases heq
    · exact h req stage hmem

/-- A restore with no purge at work. -/
theorem purges_spare_restored :
    (∃ r ∈ restored.shared.app.db.object.rows, r.id = 1 ∧ r.deletedAt = none) ∧
      ∀ a, ∀ r ∈ restored.shared.app.db.object.rows, r.id = 1 → r.deletedAt = none →
        ¬ PurgeTakes restored a r := by
  have hrun : Run (step Platform.sample) (NoLateRestore Platform.sample 1) (idle recycledUpload)
      restored := by
    refine run_of_exec_of_invariant (J := NoPurge) (by simp [NoPurge, idle])
      (fun a ha s t h => noPurge_step h ?_) ?_ (rfl : exec _ _ restoring = some restored)
    · intro req stage heq
      subst heq
      simp [restoring] at ha
    · intro a ha s hno
      refine ⟨?_, fun now _ hselected => ?_⟩
      · simp only [restoring, List.mem_cons, List.not_mem_nil, or_false] at ha
        rcases ha with rfl | rfl | rfl | rfl | rfl | rfl <;> simp [Legal, later]
      · obtain ⟨req, stage, hmem, _⟩ := hselected
        exact hno req stage hmem
  exact ⟨⟨_, List.mem_cons_self, rfl, rfl⟩,
    purges_spare_active Platform.sample recycledUpload 1 restored recycledUpload_names hrun⟩

/-- The retention purge lists the upload, and then it is restored. -/
def racing : List Action :=
  [.begin (.purge .retention .received), .advance 0 later, .begin (.restore ⟨1, 1⟩ .received),
    .advance 1 later, .advance 1 later, .advance 1 later, .advance 1 later, .advance 1 later]

def raced : State :=
  (exec (step Platform.sample) (idle recycledUpload) racing).getD (idle recycledUpload)

def purgeStep : Action := .advance 0 later

def purged : State := (exec (step Platform.sample) raced [purgeStep, purgeStep]).getD raced

/-- The restore is acknowledged, and the purge takes the row and the blob of the object
while it is active. -/
theorem purge_can_take_restored :
    Run (step Platform.sample) (Legal Platform.sample) (idle recycledUpload) raced ∧
      (∃ o, o.id = 1 ∧ Task.restore ⟨1, 1⟩ (.done (.ok o)) ∈ raced.tasks) ∧
      (∃ r ∈ raced.shared.app.db.object.rows, r.id = 1 ∧ r.deletedAt = none ∧
        blobOf raced.shared.app r = some [97] ∧
        PurgeTakes raced purgeStep r ∧
        blobOf purged.shared.app r = none) ∧
      purged.shared.app.db.object.rows = [] := by
  refine ⟨?_, ⟨_, rfl, List.mem_cons_of_mem _ List.mem_cons_self⟩,
    ⟨_, List.mem_cons_self, rfl, rfl, by decide, ?_, by decide⟩, rfl⟩
  · refine run_of_exec_of_ok ?_ (rfl : exec _ _ racing = some raced)
    simp [racing, Legal, later]
  · exact ⟨0, later, _, _, _, _, rfl, rfl, rfl, Or.inl ⟨_, _, rfl, rfl⟩⟩

end MyS3.PurgeRaces
