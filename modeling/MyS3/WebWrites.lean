import MyS3.ReadRoutes
import MyS3.WebUploads

/-!
The requests of the web API that change objects: uploads, deletes, folders that are deleted
or renamed, and the recycle bin. Each finds out whose session it is, then which bucket it is
about, checks the permission there, and writes in a later step; the other requests, and
every other writer of the node, take their steps in between.
-/

namespace MyS3.WebWrites

open Library.Strings Library.Tables Library.Interleaving Library.Runs
open Models Objects Database Engine Repository Http Keys Rbac SessionAuth S3Routes ContentRoutes
open ReadRoutes Requests WebUploads

/-- An operation on the bucket that a request names. -/
inductive BucketOp
  | deleteObject (key : Text) (pick : Limit1 ObjectRecord)
  | deleteFolder (pre : Text)
  | renameFolder (fromPrefix toPrefix : Text)

def BucketOp.action : BucketOp → CrudAction
  | .deleteObject _ _ => .delete
  | .deleteFolder _ => .delete
  | .renameFolder _ _ => .update

/-- Where `rename_prefix` stands: the rows whose new keys are still to be checked, and the
updates that are planned. -/
inductive RenameStage
  | received
  | checking (rows : List ObjectRecord) (plan : List (Int × Text))
  | planned (plan : List (Int × Text))

inductive WriteRequest
  /-- `web_put_object` -/
  | put (rawKey : Text) (bucket : Option Text) (uuid : Uuid) (body : List (Option Bytes))
      (faults : PutFaults)
  /-- `web_delete_object` -/
  | deleteObject (rawKey : Text) (bucket : Option Text) (pick : Limit1 ObjectRecord)
  | deleteFolder (bucket : Option Text) (pre : Text)
  | renameFolder (bucket : Option Text) (fromPrefix toPrefix : Text)
  | restoreRecycleItem (id : Int)
  | hardDeleteRecycleItem (id : Int)
  | purgeRecycleItems (ids : List Int)
  | purgeAllRecycleItems (bucket : Option Text)

inductive WriteTask
  /-- The session is still to be looked up. -/
  | arrived (headers : Headers) (req : WriteRequest)
  | put (w : WebPut) (stage : WebStage)
  | named (accountId : Int) (op : BucketOp) (bucket : Option Text)
  /-- The permission is still to be checked. -/
  | resolved (accountId : Int) (op : BucketOp) (bucketId : Int)
  | deleting (accountId : Int) (req : DeleteRequest) (stage : DeleteStage)
  | deletingFolder (accountId bucketId : Int) (pre : Text)
  | renamingFolder (accountId bucketId : Int) (fromPrefix toPrefix : Text) (stage : RenameStage)
  | restoring (req : RestoreRequest) (stage : RestoreStage)
  /-- `recycle_bin_bucket_filter` is still to be computed. -/
  | filtering (accountId : Int) (bucket : Option Text)
  | purging (req : PurgeRequest) (stage : PurgeStage)
  | refused (response : Response)
  /-- `FolderMutateResponse` -/
  | affected (rows : Nat)
  | dropped

def purger : PurgeRequest → Option Int
  | .retention => none
  | .item accountId _ => some accountId
  | .items accountId _ => some accountId
  | .all accountId _ => some accountId

/-- The account that the extractor has let in. -/
def WriteTask.account : WriteTask → Option Int
  | .put w _ => some w.accountId
  | .named accountId _ _ => some accountId
  | .resolved accountId _ _ => some accountId
  | .deleting accountId _ _ => some accountId
  | .deletingFolder accountId _ _ => some accountId
  | .renamingFolder accountId _ _ _ _ => some accountId
  | .restoring req _ => some req.accountId
  | .filtering accountId _ => some accountId
  | .purging req _ => purger req
  | _ => none

/-- The handler begins with the texts of the request. -/
def WriteRequest.signedIn (headers : Headers) (accountId : Int) : WriteRequest → WriteTask
  | .put rawKey bucket uuid body faults =>
    .put ⟨accountId, rawKey, bucket, uuid, headers, body, faults⟩ .received
  | .deleteObject rawKey bucket pick =>
    match parseKey rawKey with
    | .error refusal => .refused refusal
    | .ok key => .named accountId (.deleteObject key pick) bucket
  | .deleteFolder bucket pre =>
    match normalizeFolderPrefix pre with
    | .error msg => .refused (.failure .badRequest (.message msg))
    | .ok pre => .named accountId (.deleteFolder pre) bucket
  | .renameFolder bucket fromPrefix toPrefix =>
    match normalizeFolderPrefix fromPrefix with
    | .error msg => .refused (.failure .badRequest (.message ("from_prefix: ".toList ++ msg)))
    | .ok fromPrefix =>
      match normalizeFolderPrefix toPrefix with
      | .error msg => .refused (.failure .badRequest (.message ("to_prefix: ".toList ++ msg)))
      | .ok toPrefix => .named accountId (.renameFolder fromPrefix toPrefix) bucket
  | .restoreRecycleItem id => .restoring ⟨id, accountId⟩ .received
  | .hardDeleteRecycleItem id => .purging (.item accountId id) .received
  | .purgeRecycleItems ids => .purging (.items accountId ids) .received
  | .purgeAllRecycleItems bucket => .filtering accountId bucket

/-- The operation begins once its permission was found. -/
def BucketOp.start (accountId bucketId : Int) : BucketOp → WriteTask
  | .deleteObject key pick => .deleting accountId ⟨key, some bucketId, pick⟩ .received
  | .deleteFolder pre => .deletingFolder accountId bucketId pre
  | .renameFolder fromPrefix toPrefix => .renamingFolder accountId bucketId fromPrefix toPrefix .received

/-- What one step of a request does to the node. -/
inductive WriteEffect
  | effect (e : Effect)
  /-- Looking up a session may delete it. -/
  | authenticate (now : Instant) (headers : Headers)
  | recycleFolder (now : Instant) (bucketId : Int) (pre : Text)
  /-- The transaction of a rename. -/
  | rename (now : Instant) (plan : List (Int × Text))

def WriteEffect.run (s : AppState) : WriteEffect → AppState
  | .effect e => e.run s
  | .authenticate now headers => (authAccount s now headers).2
  | .recycleFolder now bucketId pre => { s with db := (softDeletePrefix s.db now bucketId pre).2 }
  | .rename now plan => { s with db := (applyRenames now s.db plan).getD s.db }

def keep (task : WriteTask) : Option (WriteEffect × WriteTask) := some (.effect .keep, task)

def badDatabase : Response := .failure .badRequest .database

def stepRename (s : AppState) (free : Bool) (io : Input) (accountId bucketId : Int)
    (fromPrefix toPrefix : Text) : RenameStage → Option (WriteEffect × WriteTask)
  | .received =>
    if fromPrefix = toPrefix then keep (.affected 0)
    else if io.fails then keep (.refused badDatabase)
    else
      let rows := listKeysUnderPrefix s.db bucketId fromPrefix
      if rows = [] then
        keep (.refused (textFailure .conflict "folder is empty or does not exist"))
      else keep (.renamingFolder accountId bucketId fromPrefix toPrefix (.checking rows []))
  | .checking [] plan => keep (.renamingFolder accountId bucketId fromPrefix toPrefix (.planned plan))
  | .checking (row :: rest) plan =>
    match stripPrefix fromPrefix row.originalFilename with
    | none => keep (.renamingFolder accountId bucketId fromPrefix toPrefix (.checking rest plan))
    | some tail =>
      let newKey := toPrefix ++ tail
      if io.fails then keep (.refused badDatabase)
      else
        match getObjectByFilenameInBucket s.db newKey bucketId with
        | some _ =>
          keep (.refused (.failure .conflict
            (.message ("target key already exists: ".toList ++ newKey))))
        | none =>
          keep (.renamingFolder accountId bucketId fromPrefix toPrefix
            (.checking rest (plan ++ [(row.id, newKey)])))
  | .planned plan =>
    -- From its first update on the transaction keeps every other writer waiting.
    if io.fails then keep (.refused badDatabase)
    else if free then
      match applyRenames io.now s.db plan with
      | none => keep (.refused badDatabase)
      | some _ => some (.rename io.now plan, .affected plan.length)
    else none

def WriteTask.step (P : Platform) (s : AppState) (free : Bool) (io : Input) :
    WriteTask → Option (WriteEffect × WriteTask)
  | .arrived headers req =>
    if io.fails && (extractTokenFromHeaders headers).isSome then keep (.refused databaseError)
    else
      match (authAccount s io.now headers).1 with
      | .error refusal => some (.authenticate io.now headers, .refused refusal)
      | .ok account => some (.authenticate io.now headers, req.signedIn headers account.id)
  | .put w stage => (stepWeb P s free io w stage).map (Prod.map .effect (.put w))
  | .named accountId op bucket =>
    if io.fails then keep (.refused databaseError)
    else
      match resolveBucketId s bucket with
      | .error refusal => keep (.refused refusal)
      | .ok (bucketId, _) => keep (.resolved accountId op bucketId)
  | .resolved accountId op bucketId =>
    if io.fails then keep (.refused databaseError)
    else
      match requireBucketPerm s accountId bucketId op.action with
      | .error refusal => keep (.refused refusal)
      | .ok () => keep (op.start accountId bucketId)
  | .deleting accountId req stage =>
    (stepDelete s free io req stage).map (Prod.map .effect (.deleting accountId req))
  | .deletingFolder _ bucketId pre =>
    if io.fails then keep (.refused databaseError)
    else if free then
      some (.recycleFolder io.now bucketId pre,
        .affected (softDeletePrefix s.db io.now bucketId pre).1)
    else none
  | .renamingFolder accountId bucketId fromPrefix toPrefix stage =>
    stepRename s free io accountId bucketId fromPrefix toPrefix stage
  | .restoring req stage => (stepRestore s free io req stage).map (Prod.map .effect (.restoring req))
  | .filtering accountId bucket =>
    -- Read at once: the filter only narrows the listing, and each row is checked again.
    if io.fails then keep (.refused databaseError)
    else
      match recycleBinBucketFilter s accountId bucket with
      | .error refusal => keep (.refused refusal)
      | .ok scope => keep (.purging (.all accountId scope) .received)
  | .purging req stage => (stepPurge s free io req stage).map (Prod.map .effect (.purging req))
  | .refused _ => none
  | .affected _ => none
  | .dropped => none

/-- The transaction of the request has written. -/
def WriteTask.holds : WriteTask → Bool
  | .put _ stage => stage.holds
  | _ => false

def WriteTask.isNew : WriteTask → Bool
  | .arrived _ _ => true
  | _ => false

def serveWrite (P : Platform) (io : Input) (v : Server) (task : WriteTask) :
    Option (Server × WriteTask) :=
  (task.step P v.app (!v.writing) io).map fun r =>
    (⟨r.1.run v.app, r.2.holds || (v.writing && !task.holds)⟩, r.2)

/-- Object ids are given out once, and no row moves to another bucket. -/
def Follows (db db' : Db) : Prop :=
  db.object.nextId ≤ db'.object.nextId ∧
    ∀ r ∈ db'.object.rows, r.id < db.object.nextId →
      ∃ r' ∈ db.object.rows, r'.id = r.id ∧ r'.bucketId = r.bucketId

instance (db db' : Db) : Decidable (Follows db db') := by
  unfold Follows
  infer_instance

inductive WriteAction
  | begin (task : WriteTask)
  | advance (i : Nat) (io : Input)
  | drop (i : Nat)
  /-- Any other writer: settings, accounts, roles and buckets, other nodes, the S3 side. -/
  | others (app : AppState)

abbrev WriteState := Pool Server WriteTask

def step (P : Platform) (s : WriteState) : WriteAction → Option WriteState
  | .begin task => if task.isNew then some (s.spawn task) else none
  | .advance i io => s.turn (serveWrite P io) i
  | .drop i =>
    (s.tasks[i]?).map fun task =>
      s.replace i { s.shared with writing := s.shared.writing && !task.holds } .dropped
  | .others app =>
    if Follows s.shared.app.db app.db then some { s with shared := { s.shared with app := app } }
    else none

def idleWrites (app : AppState) : WriteState := ⟨⟨app, false⟩, []⟩

/-- The four kinds of step. -/
theorem step_cases {P : Platform} {s t : WriteState} {a : WriteAction}
    (h : step P s a = some t) :
    (∃ task, a = .begin task ∧ task.isNew = true ∧ t = s.spawn task) ∨
      (∃ i io task e task' writing, a = .advance i io ∧ s.tasks[i]? = some task ∧
        task.step P s.shared.app (!s.shared.writing) io = some (e, task') ∧
        t = s.replace i ⟨e.run s.shared.app, writing⟩ task') ∨
      (∃ i writing, a = .drop i ∧ t = s.replace i ⟨s.shared.app, writing⟩ .dropped) ∨
      ∃ app writing, a = .others app ∧ Follows s.shared.app.db app.db ∧
        t = ⟨⟨app, writing⟩, s.tasks⟩ := by
  cases a with
  | begin task =>
    simp only [step] at h
    split_ifs at h with hnew
    exact Or.inl ⟨task, rfl, hnew, (Option.some.inj h).symm⟩
  | advance i io =>
    obtain ⟨task, v, task', hi, hserve, rfl⟩ := Pool.turn_eq_some.mp h
    obtain ⟨⟨e, u⟩, hstep, heq⟩ := Option.map_eq_some_iff.mp hserve
    simp only [Prod.mk.injEq] at heq
    obtain ⟨rfl, rfl⟩ := heq
    exact Or.inr (Or.inl ⟨i, io, task, e, u, _, rfl, hi, hstep, rfl⟩)
  | drop i =>
    obtain ⟨task, _, rfl⟩ := Option.map_eq_some_iff.mp h
    exact Or.inr (Or.inr (Or.inl ⟨i, _, rfl, rfl⟩))
  | others app =>
    simp only [step] at h
    split_ifs at h with hfollows
    exact Or.inr (Or.inr (Or.inr ⟨app, _, rfl, hfollows, (Option.some.inj h).symm⟩))

end MyS3.WebWrites
