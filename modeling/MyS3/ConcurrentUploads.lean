import MyS3.RequestInvariants

/-!
Uploads to one key at the same time. An upload recycles the version it replaces in an update
of its own, and inserts its row later. From the first version on, the key keeps one active
version, and every upload that passed its quota check is acknowledged, as long as no upload
recycles an active version of the key or comes to its insert while the key has one.
-/

namespace MyS3.ConcurrentUploads

open Library.Strings Library.Tables Library.Interleaving Library.Runs
open Models Objects Database Engine Repository Outbox Http S3Routes Keys Reconcile
open Requests RequestSteps RequestInvariants

/-- The uploads that write to a bucket and key. -/
def IsOn (db : Db) (b : Int) (k : Text) (req : PutRequest) : Prop :=
  req.key = k ∧ uploadBucket db req.bucketId false = some b

/-- The row that a step recycles, restores or removes. -/
def effectRow : Effect → Option Int
  | .recycle _ id => some id
  | .restore _ id => some id
  | .purge _ record => some record.id
  | _ => none

/-- Requests other than uploads leave the rows of the key alone. -/
def UploadsOnly (P : Platform) (b : Int) (k : Text) (s : State) (a : Action) : Prop :=
  ∀ i io task task' e, a = .advance i io → s.tasks[i]? = some task →
    task.step P s.shared.app (!s.shared.writing) io = some (e, task') →
    (∃ req stage, task = .put req stage) ∨
      ∀ r ∈ s.shared.app.db.object.rows, r.bucketId = b → r.originalFilename = k →
        effectRow e ≠ some r.id

/-- The uploads to the key take their steps in any order, and nothing else touches it. -/
def Uploading (P : Platform) (b : Int) (k : Text) (s : State) (a : Action) : Prop :=
  Legal P s a ∧ UploadsOnly P b k s a

/-- No upload recycles an active version of the key, and none comes to its insert while the
key has one. -/
structure NoOverwrite (P : Platform) (b : Int) (k : Text) (s : State) (a : Action) : Prop where
  uploading : Uploading P b k s a
  recycles : ∀ i io req b' o id, a = .advance i io →
    s.tasks[i]? = some (.put req (.selected b' o (some id))) →
    ∀ r ∈ s.shared.app.db.object.rows, r.id = id → activeKey r ≠ some (b, k)
  inserts : ∀ i io req o, a = .advance i io → s.tasks[i]? = some (.put req (.retired b o)) →
    req.key = k → ∀ r ∈ s.shared.app.db.object.rows, activeKey r ≠ some (b, k)

def OneActive (db : Db) (b : Int) (k : Text) : Prop :=
  ∃ r, (r ∈ db.object.rows ∧ activeKey r = some (b, k)) ∧
    ∀ r' ∈ db.object.rows, activeKey r' = some (b, k) → r' = r

/-- An upload to the key that met no failure and passed its quota check is acknowledged when
it is over, and it can be brought to its end. -/
def Acknowledged (P : Platform) (b : Int) (k : Text) (s : State) : Prop :=
  ∀ (i : Nat) req stage, s.tasks[i]? = some (Task.put req stage) → IsOn s.shared.app.db b k req →
    req.faults = {} →
    (∀ response, stage = PutStage.done true response → ∃ answer, response = .stored answer) ∧
      (stage.isChecked = true → ∃ actions u response, exec (step P) s actions = some u ∧
        u.tasks[i]? = some (Task.put req (.done true response)))

/-- The bucket that an upload has looked up. -/
def bucketOf : PutStage → Option Int
  | .created b _ => some b
  | stage => stage.blob.map (·.1)

/-- What an upload may rely on, and what becomes of it. -/
structure PutOk (b : Int) (k : Text) (s : AppState) (req : PutRequest) (stage : PutStage) :
    Prop where
  bucket : ∀ b', bucketOf stage = some b' →
    uploadBucket s.db req.bucketId req.faults.defaultBucketId = some b'
  inserted : ∀ b' o insertedAt, stage = .inserted b' o insertedAt →
    s.db.object.Free (uploadRow insertedAt req.key b' o)
  notRefused : IsOn s.db b k req → req.faults = {} → ∀ f response, stage ≠ .refused true f response
  stored : IsOn s.db b k req → req.faults = {} → ∀ response, stage = .done true response →
    ∃ answer, response = .stored answer

def IsPutOk (b : Int) (k : Text) (v : Server) (task : Task) : Prop :=
  ∀ req stage, task = .put req stage → PutOk b k v.app req stage

/-- Who holds the lock is one of the requests. -/
def HasHolder (s : State) : Prop :=
  s.shared.writing = true → ∃ task ∈ s.tasks, task.holds = true

structure Safe (P : Platform) (b : Int) (k : Text) (s : State) : Prop where
  ok : Ok P s
  puts : ∀ task ∈ s.tasks, IsPutOk b k s.shared task
  holder : HasHolder s

theorem uploadBucket_run (s : AppState) (e : Effect) (bucketId : Option Int) (fails : Bool) :
    uploadBucket (e.run s).db bucketId fails = uploadBucket s.db bucketId fails := by
  unfold uploadBucket defaultBucketId
  rw [run_bucket]

theorem isOn_run {s : AppState} {e : Effect} {b : Int} {k : Text} {req : PutRequest} :
    IsOn (e.run s).db b k req ↔ IsOn s.db b k req := by
  unfold IsOn
  rw [uploadBucket_run]

/-- An upload to the key with a free key and filepath can be inserted. -/
theorem free_of_no_active {P : Platform} {b : Int} {k : Text} {s : AppState} {req : PutRequest}
    {o : StoredObject} (hstored : StoredFor P req o) (hkey : req.key = k)
    (hunnamed : ∀ r ∈ s.db.object.rows, r.filepath ≠ req.filepath P)
    (hnone : ∀ r ∈ s.db.object.rows, activeKey r ≠ some (b, k)) (now : Instant) :
    s.db.object.Free (uploadRow now req.key b o) := by
  refine ⟨fun r hr => ?_, fun r hr => ?_⟩
  · rw [show (uploadRow now req.key b o).filepath = o.filepath from rfl, hstored.filepath]
    exact hunnamed r hr
  · rw [hkey]
    exact hnone r hr

/-- Past its quota check, an upload to the key breaks off only when it meets a failure. -/
theorem not_abort {P : Platform} {b : Int} {k : Text} {s : AppState} {io : Input}
    {req : PutRequest} {stage : PutStage} {b' : Int} {o : StoredObject} (h : PutOk b k s req stage)
    (hok : UploadOk P s req stage) (hblob : stage.blob = some (b', o)) (hon : IsOn s.db b k req)
    (hfaults : req.faults = {})
    (hinsert : ∀ o, stage = .retired b o → ∀ r ∈ s.db.object.rows, activeKey r ≠ some (b, k)) :
    ¬ (req.faults ≠ {} ∨ (stage = .retired b' o ∧ insertUpload s.db io.now req.key b' o = none) ∨
      ∃ insertedAt, stage = .inserted b' o insertedAt ∧
        registerUpload s insertedAt io.now req.key b' o = none) := by
  obtain ⟨hstored, hbucket⟩ := hok.stored b' o hblob
  intro hwhy
  rcases hwhy with hne | ⟨rfl, hnone⟩ | ⟨insertedAt, rfl, hnone⟩
  · exact hne hfaults
  · have hb : b' = b := by
      have hown := h.bucket b' rfl
      rw [hfaults, show ({} : PutFaults).defaultBucketId = false from rfl, hon.2] at hown
      exact (Option.some.inj hown).symm
    subst hb
    have hfree := free_of_no_active hstored hon.1 (hok.unnamed rfl) (hinsert o rfl) io.now
    have hsome := (registerUpload_isSome io.now io.now hbucket).mpr hfree
    unfold registerUpload at hsome
    rw [hnone] at hsome
    cases hsome
  · have hsome := (registerUpload_isSome insertedAt io.now hbucket).mpr (h.inserted b' o _ rfl)
    rw [hnone] at hsome
    cases hsome

theorem putOk_move {P : Platform} {b : Int} {k : Text} {s : AppState} {free : Bool} {io : Input}
    {req : PutRequest} {stage stage' : PutStage} {e : Effect} (h : PutOk b k s req stage)
    (hok : UploadOk P s req stage) (hmove : PutMove P s free io req stage e stage')
    (hinsert : req.key = k → ∀ o, stage = .retired b o →
      ∀ r ∈ s.db.object.rows, activeKey r ≠ some (b, k)) :
    PutOk b k (e.run s) req stage' := by
  have hbucket : ∀ b', bucketOf stage = some b' →
      uploadBucket (e.run s).db req.bucketId req.faults.defaultBucketId = some b' := by
    intro b' hb'
    rw [uploadBucket_run]
    exact h.bucket b' hb'
  cases hmove with
  | turnedAway response => exact ⟨by simp [bucketOf, PutStage.blob], by simp, by simp, by simp⟩
  | create b' default hdefault hb =>
    refine ⟨fun b'' heq => ?_, by simp, by simp, by simp⟩
    rw [← Option.some.inj heq]
    exact hb
  | breakOff b' etagType data err =>
    exact ⟨by simp [bucketOf, PutStage.blob], by simp, by simp, by simp⟩
  | insert b' o hfree hinserted =>
    refine ⟨hbucket, fun b'' o' insertedAt heq => ?_, by simp, by simp⟩
    cases heq
    obtain ⟨⟨id, db⟩, hins⟩ := Option.isSome_iff_exists.mp hinserted
    exact (Db.insertObject_eq (insertUpload_eq hins).2).1
  | commit b' o insertedAt db hdb =>
    refine ⟨by simp [bucketOf, PutStage.blob], by simp, by simp, fun _ _ response heq => ?_⟩
    cases heq
    exact ⟨_, rfl⟩
  | refuse _ b' o response hblob hchecked =>
    exact ⟨by simp [bucketOf, PutStage.blob], by simp, by simp, by simp⟩
  | abort _ b' o hblob hchecked hwhy =>
    refine ⟨by simp [bucketOf, PutStage.blob], by simp, fun hon hfaults => ?_, by simp⟩
    rw [isOn_run] at hon
    exact absurd hwhy (not_abort h hok hblob hon hfaults (hinsert hon.1))
  | cleanUp checked filepath response =>
    refine ⟨by simp [bucketOf, PutStage.blob], by simp, by simp, fun hon hfaults r heq => ?_⟩
    cases heq
    exact absurd rfl (h.notRefused (isOn_run.mp hon) hfaults filepath response)
  | store b' etagType o hstored => exact ⟨hbucket, by simp, by simp, by simp⟩
  | _ => exact ⟨hbucket, by simp, by simp, by simp⟩

/-- The step of another request leaves an upload as it needs to be: while the upload holds
the lock, nobody writes. -/
theorem putOk_other {P : Platform} {b : Int} {k : Text} {v : Server} {io : Input}
    {t task' : Task} {e : Effect} {req : PutRequest} {stage : PutStage}
    (h : PutOk b k v.app req stage) (hok : TaskOk P v (.put req stage))
    (happart : Apart P t (.put req stage))
    (hstep : t.step P v.app (!v.writing) io = some (e, task')) :
    PutOk b k (e.run v.app) req stage := by
  refine ⟨?_, ?_, ?_, ?_⟩
  · intro b' hb'
    rw [uploadBucket_run]
    exact h.bucket b' hb'
  · intro b' o insertedAt hstage
    have hholds : (Task.put req stage).holds = true := by rw [hstage]; rfl
    have hwrite : isWrite e = false := by
      rw [← Bool.not_eq_true]
      intro hwrite
      rcases write_step hstep hwrite with hfree | hown
      · rw [hok.lock hholds] at hfree
        cases hfree
      · exact happart.lock ⟨hown, hholds⟩
    rw [db_run hwrite]
    exact h.inserted b' o insertedAt hstage
  · intro hon
    exact h.notRefused (isOn_run.mp hon)
  · intro hon
    exact h.stored (isOn_run.mp hon)

theorem putsOk_step {P : Platform} {b : Int} {k : Text} {s t : State} {a : Action} (hok : Ok P s)
    (h : ∀ task ∈ s.tasks, IsPutOk b k s.shared task) (ha : NoOverwrite P b k s a)
    (hstep : step P s a = some t) : ∀ task ∈ t.tasks, IsPutOk b k t.shared task := by
  rcases step_cases hstep with ⟨task, rfl, hnew, rfl⟩ | ⟨i, io, task, e, task', rfl, hi, htask, rfl⟩ |
    ⟨i, task, rfl, hi, rfl⟩
  · intro v hv req stage heq
    rcases List.mem_append.mp hv with hv | hv
    · exact h v hv req stage heq
    · rw [List.mem_singleton.mp hv] at heq
      subst heq
      cases stage <;> simp [Task.isNew] at hnew
      exact ⟨by simp [bucketOf, PutStage.blob], by simp, by simp, by simp⟩
  · have hmem := List.mem_of_getElem? hi
    apply hok.forall_replace (C := IsPutOk b k) apart_symm hi
    · intro req stage' heq
      subst heq
      obtain ⟨stage, rfl, hput⟩ := step_eq_put htask
      refine putOk_move (h _ hmem req stage rfl) ((hok.tasks _ hmem).upload req stage rfl)
        (stepPut_move hput) fun hkey o hstage => ?_
      subst hstage
      exact ha.inserts i io req o rfl hi hkey
    · intro v hv happart hvok req stage heq
      subst heq
      exact putOk_other (h _ hv req stage rfl) hvok happart htask
  · intro v hv req stage heq
    rcases Pool.mem_replace hv with rfl | hv
    · cases heq
    · exact h v hv req stage heq

/-- A holder stays one when another request takes a step. -/
theorem holder_replace {s : State} {i : Nat} {v : Server} {task u : Task}
    (h : HasHolder s) (hi : s.tasks[i]? = some task) (hholds : task.holds = false)
    (hwriting : s.shared.writing = true) : ∃ w ∈ (s.replace i v u).tasks, w.holds = true := by
  obtain ⟨w, hw, hwholds⟩ := h hwriting
  obtain ⟨j, hj⟩ := List.mem_iff_getElem?.mp hw
  have hne : i ≠ j := by
    intro heq
    rw [heq, hj, Option.some.injEq] at hi
    rw [hi, hholds] at hwholds
    cases hwholds
  refine ⟨w, List.mem_iff_getElem?.mpr ⟨j, ?_⟩, hwholds⟩
  rw [Pool.replace_ne s hne]
  exact hj

theorem holder_step {P : Platform} {s t : State} {a : Action} (h : HasHolder s)
    (hstep : step P s a = some t) : HasHolder t := by
  intro hwriting
  rcases step_cases hstep with ⟨task, rfl, hnew, rfl⟩ | ⟨i, io, task, e, task', rfl, hi, htask, rfl⟩ |
    ⟨i, task, rfl, hi, rfl⟩
  · obtain ⟨w, hw, hholds⟩ := h hwriting
    exact ⟨w, List.mem_append_left _ hw, hholds⟩
  · simp only [Pool.replace, Bool.or_eq_true, Bool.and_eq_true, Bool.not_eq_true'] at hwriting
    rcases hwriting with hown | ⟨hlocked, hnot⟩
    · refine ⟨task', ?_, hown⟩
      exact List.mem_of_getElem? (Pool.replace_self hi _ _)
    · exact holder_replace h hi hnot hlocked
  · simp only [Pool.replace, Bool.and_eq_true, Bool.not_eq_true'] at hwriting
    exact holder_replace h hi hwriting.2 hwriting.1

theorem safe_step {P : Platform} {b : Int} {k : Text} {s t : State} {a : Action}
    (h : Safe P b k s) (ha : NoOverwrite P b k s a) (hstep : step P s a = some t) :
    Safe P b k t :=
  ⟨ok_step h.ok ha.uploading.1 hstep, putsOk_step h.ok h.puts ha hstep, holder_step h.holder hstep⟩

/-- A step that does not name a row keeps it. -/
theorem mem_run {s : AppState} {e : Effect} {r : ObjectRecord}
    (hr : r ∈ s.db.object.rows) (hrow : effectRow e ≠ some r.id) :
    r ∈ (e.run s).db.object.rows := by
  have hid : ∀ id, effectRow e = some id → r.id ≠ id := by
    intro id heq hid
    exact hrow (by rw [heq, hid])
  cases e with
  | recycle now id => exact mem_recycleById.mpr (Or.inl ⟨hr, hid id rfl⟩)
  | restore now id =>
    simp only [Effect.run]
    cases hdb : restoreById s.db now id with
    | none => exact hr
    | some db =>
      rw [Option.getD_some, (restoreById_rows hdb).1]
      exact mem_updateRows.mpr (Or.inl ⟨hr, by simpa using hid id rfl⟩)
  | register insertedAt now key b o =>
    simp only [Effect.run]
    cases hdb : registerUpload s insertedAt now key b o with
    | none => exact hr
    | some db =>
      rw [Option.getD_some, (registerUpload_rows hdb).2.2]
      exact List.mem_append_left _ hr
  | purge now record => exact mem_purgeRecord.mpr ⟨hr, hid record.id rfl⟩
  | _ =>
    rw [db_run rfl]
    exact hr

/-- The active version of the key stays. -/
theorem active_kept {P : Platform} {b : Int} {k : Text} {s t : State} {a : Action}
    {r : ObjectRecord} (ha : NoOverwrite P b k s a) (hstep : step P s a = some t)
    (hr : r ∈ s.shared.app.db.object.rows) (hactive : activeKey r = some (b, k)) :
    r ∈ t.shared.app.db.object.rows := by
  rcases step_cases hstep with ⟨task, rfl, hnew, rfl⟩ | ⟨i, io, task, e, task', rfl, hi, htask, rfl⟩ |
    ⟨i, task, rfl, hi, rfl⟩
  · exact hr
  · refine mem_run hr ?_
    obtain ⟨_, hbucket, hkey⟩ := activeKey_eq_some.mp hactive
    rcases ha.uploading.2 i io task task' e rfl hi htask with ⟨req, stage, rfl⟩ | hother
    · obtain ⟨stage', hput, _⟩ := step_of_kind.mp htask
      cases stepPut_move hput with
      | retire b' o id hfree =>
        intro hid
        exact ha.recycles i io req b' o id rfl hi r hr (Option.some.inj hid).symm hactive
      | _ => simp [effectRow]
    · exact hother r hr hbucket hkey
  · exact hr

theorem oneActive_of_mem {db : Db} {b : Int} {k : Text} {r : ObjectRecord}
    (hr : r ∈ db.object.rows) (hactive : activeKey r = some (b, k)) : OneActive db b k := by
  refine ⟨r, ⟨hr, hactive⟩, fun r' hr' hactive' => ?_⟩
  exact db.object.active_unique.eq_of_mem hr' hr (by simp [hactive']) (hactive'.trans hactive.symm)

/-- The steps that an upload has left once it passed its quota check. -/
def stepsLeft : PutStage → Option Nat
  | .checked _ _ => some 5
  | .selected _ _ _ => some 4
  | .retired _ _ => some 3
  | .inserted _ _ _ => some 2
  | .refused true _ _ => some 1
  | .done true _ => some 0
  | _ => none

theorem put_goes_on (P : Platform) (s : AppState) (free : Bool) (io : Input) (req : PutRequest)
    (stage : PutStage) {n : Nat} (h : stepsLeft stage = some (n + 1))
    (hfree : free = true ∨ stage.holds = true) :
    ∃ e stage' m, stepPut P s free io req stage = some (e, stage') ∧
      stepsLeft stage' = some m ∧ m ≤ n := by
  cases stage with
  | checked b o =>
    simp only [stepsLeft, Option.some.injEq] at h
    simp only [stepPut]
    split_ifs
    · exact ⟨_, _, _, rfl, rfl, by omega⟩
    · exact ⟨_, _, _, rfl, rfl, by omega⟩
  | selected b o previous =>
    simp only [stepsLeft, Option.some.injEq] at h
    have hfree : free = true := by simpa [PutStage.holds] using hfree
    subst hfree
    cases previous with
    | none => exact ⟨_, _, _, rfl, rfl, by omega⟩
    | some id => exact ⟨_, _, _, rfl, rfl, by omega⟩
  | retired b o =>
    simp only [stepsLeft, Option.some.injEq] at h
    have hfree : free = true := by simpa [PutStage.holds] using hfree
    simp only [stepPut, hfree, if_true]
    split
    · exact ⟨_, _, _, rfl, rfl, by omega⟩
    · exact ⟨_, _, _, rfl, rfl, by omega⟩
  | inserted b o insertedAt =>
    simp only [stepsLeft, Option.some.injEq] at h
    simp only [stepPut]
    split_ifs
    · exact ⟨_, _, _, rfl, rfl, by omega⟩
    · split
      · exact ⟨_, _, _, rfl, rfl, by omega⟩
      · exact ⟨_, _, _, rfl, rfl, by omega⟩
  | refused checked filepath response =>
    cases checked with
    | true => exact ⟨_, _, _, rfl, rfl, by omega⟩
    | false => cases h
  | done checked response => cases checked <;> cases h
  | _ => cases h

theorem done_of_stepsLeft {stage : PutStage} (h : stepsLeft stage = some 0) :
    ∃ response, stage = .done true response := by
  cases stage with
  | done checked response =>
    cases checked with
    | true => exact ⟨response, rfl⟩
    | false => cases h
  | refused checked filepath response => cases checked <;> cases h
  | _ => cases h

/-- With the lock free, or held by itself, an upload runs to its end. -/
theorem runs_to_end {P : Platform} {n : Nat} {s : State} {i : Nat} {req : PutRequest}
    {stage : PutStage} (hleft : stepsLeft stage = some n)
    (hi : s.tasks[i]? = some (.put req stage)) (hlock : s.shared.writing = stage.holds) :
    ∃ actions u response, exec (step P) s actions = some u ∧
      u.tasks[i]? = some (.put req (.done true response)) := by
  induction n using Nat.strong_induction_on generalizing s stage with
  | _ n ih =>
    cases n with
    | zero =>
      obtain ⟨response, rfl⟩ := done_of_stepsLeft hleft
      exact ⟨[], s, response, rfl, hi⟩
    | succ n =>
      have hfree : (!s.shared.writing) = true ∨ stage.holds = true := by
        rw [hlock]
        cases stage.holds <;> simp
      obtain ⟨e, stage', m, hstep, hleft', hm⟩ :=
        put_goes_on P s.shared.app _ calm req stage hleft hfree
      have hnext := (advance_put hi).mpr ⟨e, stage', hstep, rfl⟩
      have hi' := Pool.replace_self hi (⟨e.run s.shared.app,
        stage'.holds || (s.shared.writing && !stage.holds)⟩ : Server) (.put req stage')
      obtain ⟨actions, u, response, hexec, hdone⟩ := ih m (by omega) hleft' hi' (by
        simp [Pool.replace, hlock])
      refine ⟨.advance i calm :: actions, u, response, ?_, hdone⟩
      rw [exec, hnext, Option.bind_some]
      exact hexec

theorem stepsLeft_of_checked {stage : PutStage} (h : stage.isChecked = true) :
    ∃ n, stepsLeft stage = some n := by
  cases stage <;> simp [PutStage.isChecked, stepsLeft] at h ⊢

theorem holds_put {task : Task} (h : task.holds = true) :
    ∃ req b o insertedAt, task = .put req (.inserted b o insertedAt) := by
  cases task with
  | put req stage =>
    cases stage <;> simp [Task.holds, PutStage.holds] at h
    exact ⟨_, _, _, _, rfl⟩
  | _ => cases h

/-- An upload that passed its quota check can be brought to its end: whoever holds the lock
ends first. -/
theorem can_finish {P : Platform} {b : Int} {k : Text} {s : State} (h : Safe P b k s) {i : Nat}
    {req : PutRequest} {stage : PutStage} (hi : s.tasks[i]? = some (.put req stage))
    (hchecked : stage.isChecked = true) :
    ∃ actions u response, exec (step P) s actions = some u ∧
      u.tasks[i]? = some (.put req (.done true response)) := by
  obtain ⟨n, hleft⟩ := stepsLeft_of_checked hchecked
  by_cases hlock : s.shared.writing = stage.holds
  · exact runs_to_end hleft hi hlock
  have hown : stage.holds = false := by
    rw [← Bool.not_eq_true]
    intro hholds
    exact hlock (by rw [(h.ok.tasks _ (List.mem_of_getElem? hi)).lock hholds, hholds])
  have hwriting : s.shared.writing = true := by
    rw [hown, Bool.not_eq_false] at hlock
    exact hlock
  obtain ⟨w, hw, hwholds⟩ := h.holder hwriting
  obtain ⟨req', b', o, insertedAt, rfl⟩ := holds_put hwholds
  obtain ⟨j, hj⟩ := List.mem_iff_getElem?.mp hw
  have hne : j ≠ i := by
    intro heq
    rw [heq, hi, Option.some.injEq, Task.put.injEq] at hj
    rw [hj.2] at hown
    cases hown
  obtain ⟨e, stage', m, hstep, hleft', hm⟩ :=
    put_goes_on P s.shared.app (!s.shared.writing) calm req' (.inserted b' o insertedAt) rfl
      (Or.inr rfl)
  have hreleased : stage'.holds = false := by
    cases stage' with
    | inserted b'' o' at' =>
      simp only [stepsLeft, Option.some.injEq] at hleft'
      omega
    | _ => rfl
  have hi' := (Pool.replace_ne s hne ⟨e.run s.shared.app, stage'.holds ||
    (s.shared.writing && !PutStage.holds (.inserted b' o insertedAt))⟩ (.put req' stage')).trans hi
  have hlock' : (stage'.holds || (s.shared.writing && !true)) = stage.holds := by
    rw [hreleased, hown, Bool.not_true, Bool.and_false, Bool.or_false]
  obtain ⟨actions, u, response, hexec, hdone⟩ := runs_to_end (P := P) hleft hi' hlock'
  refine ⟨.advance j calm :: actions, u, response, ?_, hdone⟩
  rw [exec, (advance_put hj).mpr ⟨e, stage', hstep, rfl⟩, Option.bind_some]
  exact hexec

theorem safe_start (P : Platform) (b : Int) (k : Text) (app : AppState) :
    Safe P b k (idle app) :=
  ⟨coherent_nil trivial, fun task htask => (by cases htask), fun h => (by cases h)⟩

theorem acknowledged_of_safe {P : Platform} {b : Int} {k : Text} {s : State}
    (h : Safe P b k s) : Acknowledged P b k s := by
  intro i req stage hi hon hfaults
  have hput := h.puts _ (List.mem_of_getElem? hi) req stage rfl
  exact ⟨hput.stored hon hfaults, can_finish h hi⟩

/-- An upload that recycles the active version of a key leaves the key without one. -/
theorem overwrite_leaves_gap {P : Platform} {b : Int} {k : Text} {s t : State} {i : Nat}
    {io : Input} {req : PutRequest} {b' id : Int} {o : StoredObject} {r : ObjectRecord}
    (hi : s.tasks[i]? = some (.put req (.selected b' o (some id))))
    (hr : r ∈ s.shared.app.db.object.rows) (hid : r.id = id) (hactive : activeKey r = some (b, k))
    (hstep : step P s (.advance i io) = some t) :
    ∀ r' ∈ t.shared.app.db.object.rows, activeKey r' ≠ some (b, k) := by
  intro r' hr' hkey
  obtain ⟨e, stage', hput, rfl⟩ := (advance_put hi).mp hstep
  cases stepPut_move hput with
  | retire _ _ _ hfree =>
    rcases mem_recycleById.mp hr' with ⟨hold, hne⟩ | ⟨a, _, _, rfl⟩
    · have hsame := s.shared.app.db.object.active_unique.eq_of_mem hold hr (by simp [hkey])
        (hkey.trans hactive.symm)
      exact hne (by rw [hsame, hid])
    · rw [activeKey_of_recycled (by simp [recycle])] at hkey
      cases hkey
  | refuse _ _ _ _ _ hchecked => cases hchecked
  | abort _ _ _ hblob hchecked hwhy =>
    simp only [stepPut] at hput
    split_ifs at hput
    cases hput

/-- An upload that comes to its insert while the key has an active version is refused. -/
theorem late_insert_refused {P : Platform} {b : Int} {s t : State} {i : Nat} {io : Input}
    {req : PutRequest} {o : StoredObject} {r : ObjectRecord}
    (hi : s.tasks[i]? = some (.put req (.retired b o)))
    (hr : r ∈ s.shared.app.db.object.rows) (hactive : activeKey r = some (b, req.key))
    (hstep : step P s (.advance i io) = some t) :
    t.tasks[i]? = some (.put req (.refused true o.filepath databaseError)) := by
  obtain ⟨e, stage', hput, rfl⟩ := (advance_put hi).mp hstep
  rw [Pool.replace_self hi]
  cases stepPut_move hput with
  | insert _ _ hfree hinserted =>
    obtain ⟨⟨id, db⟩, hins⟩ := Option.isSome_iff_exists.mp hinserted
    exact absurd hactive ((Db.insertObject_eq (insertUpload_eq hins).2).1.2 r hr)
  | refuse _ _ _ _ _ hchecked => cases hchecked
  | abort _ b' o' hblob hchecked hwhy =>
    cases hblob
    rfl

/-- Without an overwrite, the key keeps its active version from the first one on, and the
uploads to it that passed their quota checks are acknowledged. -/
theorem active_version_stays (P : Platform) (app : AppState) (b : Int) (k : Text) (s t : State)
    (hstart : Run (step P) (NoOverwrite P b k) (idle app) s)
    (hrun : Run (step P) (NoOverwrite P b k) s t) :
    ((∃ r ∈ s.shared.app.db.object.rows, activeKey r = some (b, k)) →
      OneActive t.shared.app.db b k ∧
        ∃ r, getObjectByFilenameInBucket t.shared.app.db k b = some r) ∧
      Acknowledged P b k t := by
  have hsafe : Safe P b k t := (hstart.trans hrun).invariant
    (fun _ _ _ h ha hstep => safe_step h ha hstep) (safe_start P b k app)
  refine ⟨fun hactive => ?_, acknowledged_of_safe hsafe⟩
  obtain ⟨r, hr, hkey⟩ := hactive
  have hkept : r ∈ t.shared.app.db.object.rows := hrun.invariant
    (fun _ _ _ h ha hstep => active_kept ha hstep h hkey) hr
  obtain ⟨hdeleted, hbucket, hname⟩ := activeKey_eq_some.mp hkey
  exact ⟨oneActive_of_mem hkept hkey, r,
    getObjectByFilenameInBucket_eq_some.mpr ⟨hkept, hname, hbucket, hdeleted⟩⟩

def first : PutRequest := sampleUpload 1 ['k'] [97]

def second : PutRequest := sampleUpload 2 ['k'] [98]

/-- An upload to another key. -/
def beside : PutRequest := sampleUpload 2 ['m'] [98]

/-- A node with one upload. -/
def uploadedNode : AppState :=
  (putObjectKeyedInBucket Platform.sample (AppState.migrated "node-1".toList) Instant.epoch
    (Uuid.numbered 1) ['k'] [] [some [97]] none {}).2

def putAt (s : State) (i : Nat) : Option (PutRequest × PutStage) :=
  match s.tasks[i]? with
  | some (.put req stage) => some (req, stage)
  | _ => none

theorem putAt_eq_some {s : State} {i : Nat} {req : PutRequest} {stage : PutStage} :
    putAt s i = some (req, stage) ↔ s.tasks[i]? = some (.put req stage) := by
  unfold putAt
  split
  · rename_i req' stage' hi
    rw [hi]
    simp
  · rename_i hne
    simp only [reduceCtorEq, false_iff]
    exact hne req stage

def advancesPut (s : State) : Action → Bool
  | .advance i _ => (putAt s i).isSome
  | _ => false

/-- The upload does not go on to overwrite. -/
def goesBeside (k : Text) (s : State) : Action → Bool
  | .advance i _ => (putAt s i).any fun
    | (_, .selected _ _ (some _)) => false
    | (req, .retired _ _) => req.key != k
    | _ => true
  | _ => false

theorem uploading_of_advancesPut {P : Platform} {b : Int} {k : Text} {s : State} {i : Nat}
    (h : advancesPut s (.advance i calm) = true) : Uploading P b k s (.advance i calm) := by
  refine ⟨legal_calm s i, fun j io task task' e heq hj _ => ?_⟩
  obtain ⟨⟨req, stage⟩, hput⟩ := Option.isSome_iff_exists.mp h
  cases heq
  rw [putAt_eq_some.mp hput, Option.some.injEq] at hj
  exact Or.inl ⟨req, stage, hj.symm⟩

theorem noOverwrite_of_goesBeside {P : Platform} {b : Int} {k : Text} {s : State} {i : Nat}
    (h : goesBeside k s (.advance i calm) = true) : NoOverwrite P b k s (.advance i calm) := by
  obtain ⟨⟨req, stage⟩, hput, hbeside⟩ := (Option.any_eq_true _ _).mp h
  refine ⟨uploading_of_advancesPut (Option.isSome_iff_exists.mpr ⟨_, hput⟩), ?_, ?_⟩
  · intro j io req b' o id heq hj
    cases heq
    rw [putAt_eq_some.mpr hj] at hput
    cases hput
    cases hbeside
  · intro j io req o heq hj hkey
    cases heq
    rw [putAt_eq_some.mpr hj] at hput
    cases hput
    simp [hkey] at hbeside

def startBeside : State := (idle uploadedNode).spawn (.put beside .received)

def doneBeside : State :=
  (exec (step Platform.sample) startBeside (List.replicate 8 (.advance 0 calm))).getD startBeside

/-- An upload to another key leaves the version of the first one. -/
theorem active_version_stays_beside :
    OneActive doneBeside.shared.app.db 1 ['k'] ∧
      Acknowledged Platform.sample 1 ['k'] doneBeside := by
  have hbegin : Run (step Platform.sample) (NoOverwrite Platform.sample 1 ['k'])
      (idle uploadedNode) startBeside := by
    refine .tail (.begin (.put beside .received)) (.refl _) ⟨⟨⟨⟨?_, by decide, ?_⟩, ['m'],
      by decide⟩, by simp [UploadsOnly]⟩, by simp, by simp⟩ rfl
    · intro r hr
      rw [List.mem_singleton.mp hr]
      decide
    · intro task htask
      cases htask
  have hrun : Run (step Platform.sample) (NoOverwrite Platform.sample 1 ['k']) startBeside
      doneBeside := by
    refine run_of_execIf (goesBeside ['k']) (fun a ha s hcheck => ?_)
      (rfl : execIf _ _ _ (List.replicate 8 (.advance 0 calm)) = some doneBeside)
    rw [List.eq_of_mem_replicate ha] at hcheck ⊢
    exact noOverwrite_of_goesBeside hcheck
  obtain ⟨hactive, hacknowledged⟩ := active_version_stays Platform.sample uploadedNode 1 ['k']
    startBeside doneBeside hbegin hrun
  exact ⟨(hactive ⟨_, List.mem_cons_self, rfl⟩).1, hacknowledged⟩

/-- The upload of the first version. -/
def uploaded : List Action := .begin (.put first .received) :: List.replicate 8 (.advance 0 calm)

/-- The second upload has recycled the first version. -/
def overwriting : List Action :=
  uploaded ++ .begin (.put second .received) :: List.replicate 6 (.advance 1 calm)

/-- Both uploads have found no active version. -/
def retiring : List Action :=
  List.replicate 6 (.advance 0 calm) ++ List.replicate 6 (.advance 1 calm)

/-- The first one is inserted, and the other one comes too late. -/
def racing : List Action :=
  [.begin (.put first .received), .begin (.put second .received)] ++ retiring ++
    List.replicate 2 (.advance 0 calm) ++ List.replicate 2 (.advance 1 calm)

theorem advances_racing : ∀ a ∈ retiring ++ List.replicate 2 (.advance 0 calm) ++
    List.replicate 2 (.advance 1 calm), ∃ i, a = .advance i calm := by
  intro a ha
  simp only [retiring, List.mem_append, List.mem_replicate] at ha
  rcases ha with ((⟨_, rfl⟩ | ⟨_, rfl⟩) | ⟨_, rfl⟩) | ⟨_, rfl⟩ <;> exact ⟨_, rfl⟩

/-- Uploads that take their steps. -/
theorem run_advancing {s t : State} {b : Int} {k : Text} (actions : List Action)
    (hactions : ∀ a ∈ actions, ∃ i, a = .advance i calm)
    (h : execIf (step Platform.sample) advancesPut s actions = some t) :
    Run (step Platform.sample) (Uploading Platform.sample b k) s t := by
  refine run_of_execIf advancesPut (fun a ha s hcheck => ?_) h
  obtain ⟨i, rfl⟩ := hactions a ha
  exact uploading_of_advancesPut hcheck

theorem uploading_first : Uploading Platform.sample 1 ['k'] node (.begin (.put first .received)) := by
  refine ⟨⟨⟨fun r hr => ?_, by decide, fun task htask => ?_⟩, ['k'], by decide⟩,
    by simp [UploadsOnly]⟩
  · cases hr
  · cases htask

theorem uploading_second {s : State} (hrows : ∀ r ∈ s.shared.app.db.object.rows,
      r.filepath ≠ second.filepath Platform.sample)
    (hdisk : s.shared.app.disk (absolutePathFor s.shared.app.config.storageRoot
      (second.filepath Platform.sample)) = none)
    (htasks : ∀ task ∈ s.tasks, ∃ stage, task = .put first stage) :
    Uploading Platform.sample 1 ['k'] s (.begin (.put second .received)) := by
  refine ⟨⟨⟨hrows, hdisk, fun task htask => ?_⟩, ['k'], by decide⟩, by simp [UploadsOnly]⟩
  obtain ⟨stage, rfl⟩ := htasks task htask
  exact ⟨by simp only [filepaths]; decide, by simp [orphansOf]⟩

/-- After an acknowledged upload the next one leaves the key without an active version, and
of two first uploads the slower one is refused. -/
theorem overwrite_can_fail :
    (Run (step Platform.sample) (Uploading Platform.sample 1 ['k']) node (after uploaded) ∧
      OneActive (after uploaded).shared.app.db 1 ['k'] ∧
      Run (step Platform.sample) (Uploading Platform.sample 1 ['k']) (after uploaded)
        (after overwriting) ∧
      ¬ OneActive (after overwriting).shared.app.db 1 ['k']) ∧
    Run (step Platform.sample) (Uploading Platform.sample 1 ['k']) node (after racing) ∧
      ¬ Acknowledged Platform.sample 1 ['k'] (after racing) := by
  have hfirst : Run (step Platform.sample) (Uploading Platform.sample 1 ['k']) node
      (after [.begin (.put first .received)]) := .tail _ (.refl _) uploading_first rfl
  refine ⟨⟨?_, oneActive_of_mem List.mem_cons_self rfl, ?_, ?_⟩, ?_, ?_⟩
  · exact hfirst.trans (run_advancing (List.replicate 8 (.advance 0 calm)) (by simp) rfl)
  · have hsecond : Run (step Platform.sample) (Uploading Platform.sample 1 ['k']) (after uploaded)
        (after (uploaded ++ [.begin (.put second .received)])) := by
      refine .tail _ (.refl _) (uploading_second ?_ (by decide) ?_) rfl
      · intro r hr
        rw [List.mem_singleton.mp hr]
        decide
      · intro task htask
        exact ⟨_, List.mem_singleton.mp htask⟩
    exact hsecond.trans
      (run_advancing (List.replicate 6 (.advance 1 calm)) (by simp) rfl)
  · intro hactive
    obtain ⟨r, ⟨hr, hkey⟩, _⟩ := hactive
    rw [List.mem_singleton.mp hr] at hkey
    cases hkey
  · have hsecond : Run (step Platform.sample) (Uploading Platform.sample 1 ['k']) node
        (after [.begin (.put first .received), .begin (.put second .received)]) := by
      refine .tail _ hfirst (uploading_second ?_ (by decide) ?_) rfl
      · intro r hr
        cases hr
      · intro task htask
        exact ⟨_, List.mem_singleton.mp htask⟩
    exact hsecond.trans (run_advancing (retiring ++
      List.replicate 2 (.advance 0 calm) ++ List.replicate 2 (.advance 1 calm)) advances_racing rfl)
  · intro hacknowledged
    obtain ⟨answer, heq⟩ := (hacknowledged 1 second (.done true databaseError) rfl ⟨rfl, rfl⟩
      rfl).1 databaseError rfl
    cases heq

end MyS3.ConcurrentUploads
