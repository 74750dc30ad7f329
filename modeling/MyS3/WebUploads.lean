import MyS3.ConcurrentUploads
import MyS3.ContentRoutes

/-!
PUTs of the web API, `web_put_object` of `server/web_routes.rs`. The permission that an
account needs depends on whether the key has a version, and that is looked up before the
body arrives; the version that the upload recycles is selected after it.
-/

namespace MyS3.WebUploads

open Library.Strings Library.Tables Library.Interleaving Library.Runs
open Models Objects Database Engine Repository Http S3Routes Rbac SessionAuth ContentRoutes
open Requests RequestSteps RequestInvariants ConcurrentUploads

/-- A PUT of an account that the extractor has let in. -/
structure WebPut where
  accountId : Int
  rawKey : Text
  bucket : Option Text
  uuid : Uuid
  headers : Headers
  body : List (Option Bytes)
  faults : PutFaults

/-- Where `web_put_object` stands. -/
inductive WebStage
  | received
  | resolved (key : Text) (bucketId : Int)
  /-- The version of the key was looked up, and the permission is still to be checked. -/
  | looked (key : Text) (bucketId : Int) (existing : Bool)
  | uploading (key : Text) (bucketId : Int) (stage : PutStage)
  | refused (response : Response)

/-- The key and the bucket of the PUT. -/
def WebStage.target : WebStage → Option (Text × Int)
  | .resolved key bucketId => some (key, bucketId)
  | .looked key bucketId _ => some (key, bucketId)
  | .uploading key bucketId _ => some (key, bucketId)
  | _ => none

def WebPut.request (w : WebPut) (key : Text) (bucketId : Int) : PutRequest :=
  ⟨w.uuid, key, w.headers, w.body, some bucketId, w.faults⟩

def putAction (existing : Bool) : CrudAction := if existing then .update else .create

def stepWeb (P : Platform) (s : AppState) (free : Bool) (io : Input) (w : WebPut) :
    WebStage → Option (Effect × WebStage)
  | .received =>
    match parseKey w.rawKey with
    | .error refusal => some (.keep, .refused refusal)
    | .ok key =>
      if io.fails then some (.keep, .refused databaseError)
      else
        match resolveBucketId s w.bucket with
        | .error refusal => some (.keep, .refused refusal)
        | .ok (bucketId, _) => some (.keep, .resolved key bucketId)
  | .resolved key bucketId =>
    if io.fails then some (.keep, .refused databaseError)
    else
      some (.keep,
        .looked key bucketId (getObjectByFilenameInBucket s.db key bucketId).isSome)
  | .looked key bucketId existing =>
    if io.fails then some (.keep, .refused databaseError)
    else
      match requireBucketPerm s w.accountId bucketId (putAction existing) with
      | .error refusal => some (.keep, .refused refusal)
      | .ok () => some (.keep, .uploading key bucketId .received)
  | .uploading key bucketId stage =>
    (stepPut P s free io (w.request key bucketId) stage).map
      (Prod.map id (.uploading key bucketId))
  | .refused _ => none

inductive WebTask
  | put (w : WebPut) (stage : WebStage)
  /-- Any other request of the node. -/
  | other (task : Task)

def WebTask.step (P : Platform) (s : AppState) (free : Bool) (io : Input) :
    WebTask → Option (Effect × WebTask)
  | .put w stage => (stepWeb P s free io w stage).map (Prod.map id (WebTask.put w))
  | .other task => (task.step P s free io).map (Prod.map id WebTask.other)

def WebStage.holds : WebStage → Bool
  | .uploading _ _ stage => stage.holds
  | _ => false

def WebTask.holds : WebTask → Bool
  | .put _ stage => stage.holds
  | .other task => task.holds

def WebTask.isNew : WebTask → Bool
  | .put _ .received => true
  | .other task => task.isNew
  | _ => false

def serveWeb (P : Platform) (io : Input) (v : Server) (task : WebTask) :
    Option (Server × WebTask) :=
  (task.step P v.app (!v.writing) io).map fun r =>
    (⟨r.1.run v.app, r.2.holds || (v.writing && !task.holds)⟩, r.2)

inductive WebAction
  | begin (task : WebTask)
  | advance (i : Nat) (io : Input)
  | drop (i : Nat)

abbrev WebState := Pool Server WebTask

def step (P : Platform) (s : WebState) : WebAction → Option WebState
  | .begin task => if task.isNew then some (s.spawn task) else none
  | .advance i io => s.turn (serveWeb P io) i
  | .drop i =>
    (s.tasks[i]?).map fun task =>
      s.replace i { s.shared with writing := s.shared.writing && !task.holds }
        (.other .dropped)

def idleWeb (app : AppState) : WebState := ⟨⟨app, false⟩, []⟩

/-- The account may not overwrite in the bucket. -/
def LacksUpdate (db : Db) (accountId bucketId : Int) : Prop :=
  checkPerm db accountId bucketId .update = false

/-- A PUT of an account that lacks Update selects what it recycles while the key has no
active version. -/
def SelectsNothing (s : WebState) (a : WebAction) : Prop :=
  ∀ i io w key b b' o, a = .advance i io →
    s.tasks[i]? = some (.put w (.uploading key b (.checked b' o))) →
    LacksUpdate s.shared.app.db w.accountId b →
    ∀ r ∈ s.shared.app.db.object.rows, activeKey r ≠ some (b', key)

/-- The tables that permissions are read from. -/
structure SameRoles (db db' : Db) : Prop where
  bucket : db'.bucket = db.bucket
  role : db'.role = db.role
  accountRole : db'.accountRole = db.accountRole
  permission : db'.roleBucketPermission = db.roleBucketPermission

theorem SameRoles.checkPerm {db db' : Db} (h : SameRoles db db') (accountId bucketId : Int)
    (action : CrudAction) :
    checkPerm db' accountId bucketId action = checkPerm db accountId bucketId action := by
  unfold Rbac.checkPerm effectivePerms accountOwnsBucket accountIsOwner getBucketById
  rw [h.bucket, h.role, h.accountRole, h.permission]

theorem sameRoles_run (s : AppState) (e : Effect) : SameRoles s.db (e.run s).db := by
  cases e with
  | fill filepath data =>
    simp only [Effect.run]
    split <;> exact ⟨rfl, rfl, rfl, rfl⟩
  | restore now id =>
    simp only [Effect.run]
    unfold restoreById Db.updateObjectsChecked
    split <;> exact ⟨rfl, rfl, rfl, rfl⟩
  | register insertedAt now key b o =>
    simp only [Effect.run]
    cases hdb : registerUpload s insertedAt now key b o with
    | none => exact ⟨rfl, rfl, rfl, rfl⟩
    | some db =>
      obtain ⟨id, inserted, hins, rfl⟩ := registerUpload_eq hdb
      have hinsert := (insertUpload_eq hins).2
      unfold Db.insertObject at hinsert
      split at hinsert
      · cases hinsert
      · split_ifs at hinsert
        cases hinsert
        exact ⟨rfl, rfl, rfl, rfl⟩
  | _ => exact ⟨rfl, rfl, rfl, rfl⟩

theorem lacksUpdate_run {s : AppState} {e : Effect} {accountId bucketId : Int} :
    LacksUpdate (e.run s).db accountId bucketId ↔ LacksUpdate s.db accountId bucketId := by
  unfold LacksUpdate
  rw [(sameRoles_run s e).checkPerm]

/-- The three kinds of step. -/
theorem step_cases {P : Platform} {s t : WebState} {a : WebAction} (h : step P s a = some t) :
    (∃ task, a = .begin task ∧ task.isNew = true ∧ t = s.spawn task) ∨
      (∃ i io task e task' writing, a = .advance i io ∧ s.tasks[i]? = some task ∧
        task.step P s.shared.app (!s.shared.writing) io = some (e, task') ∧
        t = s.replace i ⟨e.run s.shared.app, writing⟩ task') ∨
      ∃ i writing, a = .drop i ∧
        t = s.replace i ⟨s.shared.app, writing⟩ (.other .dropped) := by
  cases a with
  | begin task =>
    simp only [step] at h
    split_ifs at h with hnew
    exact Or.inl ⟨task, rfl, hnew, (Option.some.inj h).symm⟩
  | advance i io =>
    obtain ⟨task, v, task', hi, hserve, rfl⟩ := Pool.turn_eq_some.mp h
    obtain ⟨⟨e, u⟩, hstep, heq⟩ := Option.map_eq_some_iff.mp hserve
    simp only [Prod.mk.injEq] at heq
    obtain ⟨rfl, rfl⟩ := heq
    exact Or.inr (Or.inl ⟨i, io, task, e, u, _, rfl, hi, hstep, rfl⟩)
  | drop i =>
    obtain ⟨task, hi, rfl⟩ := Option.map_eq_some_iff.mp h
    exact Or.inr (Or.inr ⟨i, _, rfl, rfl⟩)

/-- The steps of a web PUT: what comes before the upload changes nothing. -/
theorem stepWeb_cases {P : Platform} {s : AppState} {free : Bool} {io : Input} {w : WebPut}
    {stage stage' : WebStage} {e : Effect} (h : stepWeb P s free io w stage = some (e, stage')) :
    (e = .keep ∧ ∀ key b put, stage' = .uploading key b put → put = .received) ∨
      ∃ key b put put', stage = .uploading key b put ∧ stage' = .uploading key b put' ∧
        PutMove P s free io (w.request key b) put e put' := by
  cases stage with
  | received =>
    left
    simp only [stepWeb] at h
    split at h
    · cases h
      exact ⟨rfl, by simp⟩
    · split_ifs at h
      · cases h
        exact ⟨rfl, by simp⟩
      · split at h <;>
        · cases h
          exact ⟨rfl, by simp⟩
  | resolved key b =>
    left
    simp only [stepWeb] at h
    split_ifs at h <;>
    · cases h
      exact ⟨rfl, by simp⟩
  | looked key b existing =>
    left
    simp only [stepWeb] at h
    split_ifs at h
    · cases h
      exact ⟨rfl, by simp⟩
    · split at h
      · cases h
        exact ⟨rfl, by simp⟩
      · cases h
        exact ⟨rfl, fun key' b' put heq => (WebStage.uploading.inj heq).2.2.symm⟩
  | uploading key b put =>
    right
    obtain ⟨put', hput, rfl⟩ := step_of_kind.mp h
    exact ⟨key, b, put, put', rfl, rfl, stepPut_move hput⟩
  | refused response => cases h

/-- An upload that holds the id of a version to recycle is one of an account that may
overwrite. -/
def MayOverwrite (db : Db) (task : WebTask) : Prop :=
  ∀ w key b b' o id, task = .put w (.uploading key b (.selected b' o (some id))) →
    ¬ LacksUpdate db w.accountId b

theorem mayOverwrite_run {s : AppState} {e : Effect} {task : WebTask}
    (h : MayOverwrite s.db task) : MayOverwrite (e.run s).db task := by
  intro w key b b' o id htask hlacks
  exact h w key b b' o id htask (lacksUpdate_run.mp hlacks)

theorem mayOverwrite_new {db : Db} {task : WebTask} (h : task.isNew = true) :
    MayOverwrite db task := by
  intro w key b b' o id htask
  rw [htask] at h
  cases h

/-- Selecting nothing, a PUT of an account that lacks Update has nothing to recycle. -/
theorem selects_none {P : Platform} {s : AppState} {free : Bool} {io : Input}
    {req : PutRequest} {put : PutStage} {b' : Int} {o : StoredObject} {id : Int} {e : Effect}
    (hmove : PutMove P s free io req put e (.selected b' o (some id)))
    (hnone : put = .checked b' o → ∀ r ∈ s.db.object.rows, activeKey r ≠ some (b', req.key)) :
    False := by
  generalize hto : PutStage.selected b' o (some id) = put' at hmove
  cases hmove with
  | select b o' =>
    simp only [PutStage.selected.injEq] at hto
    obtain ⟨rfl, rfl, hid⟩ := hto
    obtain ⟨r, hr, _⟩ := Option.map_eq_some_iff.mp hid.symm
    obtain ⟨hmem, hname, hbucket, hdeleted⟩ := getObjectByFilenameInBucket_eq_some.mp hr
    exact hnone rfl r hmem (activeKey_eq_some.mpr ⟨hdeleted, hbucket, hname⟩)
  | _ => cases hto

theorem mayOverwrite_own {P : Platform} {s : WebState} {i : Nat} {io : Input}
    {task task' : WebTask} {e : Effect} (ha : SelectsNothing s (.advance i io))
    (hi : s.tasks[i]? = some task)
    (hstep : task.step P s.shared.app (!s.shared.writing) io = some (e, task')) :
    MayOverwrite (e.run s.shared.app).db task' := by
  intro w key b b' o old htask hlacks
  rw [lacksUpdate_run] at hlacks
  subst htask
  cases task with
  | put w' stage =>
    obtain ⟨⟨e', stage'⟩, hweb, heq⟩ := Option.map_eq_some_iff.mp hstep
    simp only [Prod.map, id, Prod.mk.injEq, WebTask.put.injEq] at heq
    obtain ⟨rfl, rfl, rfl⟩ := heq
    rcases stepWeb_cases hweb with ⟨_, hnew⟩ | ⟨key', b'', put, put', rfl, hstage, hmove⟩
    · cases hnew key b _ rfl
    · cases hstage
      refine selects_none hmove fun hput => ?_
      subst hput
      exact ha i io w' key b b' o rfl hi hlacks
  | other task =>
    obtain ⟨_, _, heq⟩ := Option.map_eq_some_iff.mp hstep
    simp [Prod.map] at heq

theorem mayOverwrite_step {P : Platform} {s t : WebState} {a : WebAction}
    (h : ∀ task ∈ s.tasks, MayOverwrite s.shared.app.db task) (ha : SelectsNothing s a)
    (hstep : step P s a = some t) : ∀ task ∈ t.tasks, MayOverwrite t.shared.app.db task := by
  rcases step_cases hstep with ⟨task, rfl, hnew, rfl⟩ |
    ⟨i, io, task, e, task', writing, rfl, hi, htask, rfl⟩ | ⟨i, writing, rfl, rfl⟩
  · intro v hv
    rcases List.mem_append.mp hv with hv | hv
    · exact h v hv
    · rw [List.mem_singleton.mp hv]
      exact mayOverwrite_new hnew
  · intro v hv
    rcases Pool.mem_replace hv with rfl | hv
    · exact mayOverwrite_own ha hi htask
    · exact mayOverwrite_run (h v hv)
  · intro v hv
    rcases Pool.mem_replace hv with rfl | hv
    · intro w key b b' o id htask
      cases htask
    · exact h v hv

theorem mayOverwrite_of_run {P : Platform} {app : AppState} {s : WebState}
    (h : Run (step P) SelectsNothing (idleWeb app) s) :
    ∀ task ∈ s.tasks, MayOverwrite s.shared.app.db task :=
  h.invariant (fun _ _ _ hs ha hstep => mayOverwrite_step hs ha hstep)
    fun task htask => by cases htask

/-- A step of an upload that has nothing to recycle keeps every row. -/
theorem mem_run_of_move {P : Platform} {s : AppState} {free : Bool} {io : Input}
    {req : PutRequest} {put put' : PutStage} {e : Effect} {r : ObjectRecord}
    (hmove : PutMove P s free io req put e put')
    (hnone : ∀ b o id, put ≠ .selected b o (some id)) (hr : r ∈ s.db.object.rows) :
    r ∈ (e.run s).db.object.rows := by
  refine mem_run hr ?_
  cases hmove with
  | retire b o id hfree => exact absurd rfl (hnone b o id)
  | _ => simp [effectRow]

/-- A node with two accounts: 1 has the Owner role, and 2 a role that may only create. -/
def sharedNode : AppState :=
  let s := AppState.migrated "node-1".toList
  { s with db := { s.db with
      role := s.db.role ++ [{ id := 2, name := ['c'], position := 1, isOwner := false }]
      accountRole := [⟨1, 1⟩, ⟨2, 2⟩]
      roleBucketPermission := s.db.roleBucketPermission ++
        [{ roleId := 2, bucketId := 1, perms := { CrudPerms.none with canCreate := true } }] } }

def samplePut (accountId : Int) (n : Nat) (key : Text) : WebPut :=
  ⟨accountId, key, none, Uuid.numbered n, [], [some [97]], {}⟩

/-- The PUT of account 2 passes its check and its body is stored; then that of account 1 is
served to its end, and account 2 selects what to recycle. -/
def overtaking (first second : Text) : List WebAction :=
  [.begin (.put (samplePut 2 1 first) .received), .begin (.put (samplePut 1 2 second) .received)] ++
    List.replicate 7 (.advance 0 calm) ++ List.replicate 11 (.advance 1 calm) ++ [.advance 0 calm]

def overtaken (first second : Text) : WebState :=
  (exec (step Platform.sample) (idleWeb sharedNode) (overtaking first second)).getD
    (idleWeb sharedNode)

def seesNothing (s : WebState) : WebAction → Bool
  | .advance i _ =>
    match s.tasks[i]? with
    | some (.put _ (.uploading key _ (.checked b' _))) =>
      s.shared.app.db.object.rows.all fun r => activeKey r != some (b', key)
    | _ => true
  | _ => true

theorem selectsNothing_of_seesNothing {s : WebState} {a : WebAction}
    (h : seesNothing s a = true) : SelectsNothing s a := by
  intro i io w key b b' o ha hi _ r hr
  subst ha
  simp only [seesNothing, hi, List.all_eq_true] at h
  exact bne_iff_ne.mp (h r hr)

end MyS3.WebUploads
