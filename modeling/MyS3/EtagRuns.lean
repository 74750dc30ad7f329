import MyS3.EtagRehash
import MyS3.PeerManager
import MyS3.RequestInvariants
import MyS3.SettingsRoutes

/-!
The ETag settings of a bucket and its rehash, step by step: `put_bucket_etag` of
`server/settings_routes.rs` and the task that it spawns, in turns with the requests for
objects. The handler counts the objects, marks the bucket as running and spawns the task;
the task lists the objects again, takes them one by one and clears the mark at its end.
-/

namespace MyS3.EtagRuns

open Library.Strings Library.Tables Library.Like
open Models Objects Database Engine Repository Outbox Http Rbac PeerManager EtagRehash
open SettingsRoutes (isAuthenticated)
open Requests (Server)

/-- `UPDATE bucket SET … WHERE id = ?`, for columns other than the id and the name. -/
def updateBucket (db : Db) (id : Int) (f : BucketRecord → BucketRecord)
    (hid : ∀ b, (f b).id = b.id) (hname : ∀ b, (f b).name = b.name) : Db :=
  { db with
    bucket := db.bucket.updateWhere (fun b => b.id == id) f hid hname
    object_bucket := by
      intro r hr
      obtain ⟨b, hb, hbid⟩ := db.object_bucket r hr
      obtain ⟨c, hc, heq⟩ := exists_updateRows (·.id) (fun b => b.id == id) hid hb
      exact ⟨c, hc, heq.trans hbid⟩ }

theorem mem_updateBucket {db : Db} {id : Int} {f : BucketRecord → BucketRecord}
    {hid : ∀ b, (f b).id = b.id} {hname : ∀ b, (f b).name = b.name} {c : BucketRecord} :
    c ∈ (updateBucket db id f hid hname).bucket.rows ↔
      (c ∈ db.bucket.rows ∧ c.id ≠ id) ∨ ∃ b ∈ db.bucket.rows, b.id = id ∧ f b = c := by
  refine mem_updateRows.trans ?_
  simp only [beq_iff_eq, beq_eq_false_iff_ne]

/-- The row of the bucket itself. -/
theorem eq_of_mem_updateBucket {db : Db} {id : Int} {f : BucketRecord → BucketRecord}
    {hid : ∀ b, (f b).id = b.id} {hname : ∀ b, (f b).name = b.name} {c : BucketRecord}
    (h : c ∈ (updateBucket db id f hid hname).bucket.rows) (hc : c.id = id) :
    ∃ b ∈ db.bucket.rows, b.id = id ∧ f b = c :=
  (mem_updateBucket.mp h).resolve_left fun hother => hother.2 hc

/-- `none` is a missing bucket. -/
def beginBucketEtagRehash (db : Db) (bucketId total : Int) : Option Db :=
  if db.bucket.rows.any fun b => b.id == bucketId then
    some (updateBucket db bucketId (fun b => { b with
      etagRehashStatus := some "running".toList
      etagRehashProcessed := 0
      etagRehashTotal := total
      etagRehashError := none }) (fun _ => rfl) fun _ => rfl)
  else none

def bumpBucketEtagRehashProcessed (db : Db) (bucketId : Int) : Db :=
  updateBucket db bucketId (fun b => { b with etagRehashProcessed := b.etagRehashProcessed + 1 })
    (fun _ => rfl) fun _ => rfl

def finishBucketEtagRehash (db : Db) (bucketId : Int) (status : Text) (error : Option Text) : Db :=
  updateBucket db bucketId (fun b => { b with
    etagRehashStatus := some status
    etagRehashError := error }) (fun _ => rfl) fun _ => rfl

def countActiveObjectsInBucket (db : Db) (bucketId : Int) : Int :=
  (db.object.rows.filter fun r =>
    r.bucketId == bucketId && isActive r && r.originalFilename != ".keep".toList &&
      !like none "%/.keep".toList r.originalFilename).length

/-- The query counts the rows that a list at the same time has. -/
theorem countActiveObjectsInBucket_eq (db : Db) (bucketId : Int) :
    countActiveObjectsInBucket db bucketId = (listObjectsForEtagRehash db bucketId).length := by
  unfold countActiveObjectsInBucket listObjectsForEtagRehash orderByUploadedDesc
  rw [List.length_insertionSort]

theorem updateObjectEtag_bucket {db db' : Db} {now : Instant} {id : Int} {etagType : EtagType}
    {etag : Text} (h : updateObjectEtag db now id etagType etag = some db') :
    db'.bucket = db.bucket := by
  unfold updateObjectEtag at h
  split_ifs at h
  rw [← Option.some.inj h]
  rfl

def canEditBucketReplication (db : Db) (accountId bucketId : Int) : Bool :=
  accountOwnsBucket db accountId bucketId || checkPerm db accountId bucketId .update

structure PutBucketEtag where
  actor : Int
  bucketId : Int
  etagType : EtagType
  apply : Text

inductive Answer
  /-- 202, with the number of objects. -/
  | accepted (etagType : EtagType) (total : Int)
  | noContent
  | failure (status : Status) (message : Option Text)
  deriving DecidableEq

inductive PutStage
  | requireEditor
  | getBucket
  | setEtagType
  | count
  | begin (total : Int)
  /-- The bucket is marked as running, and the task is not spawned yet. -/
  | spawn (total : Int)
  | answered (answer : Answer)
  | dropped
  deriving DecidableEq

inductive RehashStage
  | list
  | hash (obj : ObjectRecord) (rest : List ObjectRecord)
  | update (obj : ObjectRecord) (etag : Text) (rest : List ObjectRecord)
  | enqueue (obj : ObjectRecord) (etag : Text) (rest : List ObjectRecord)
  /-- An object is done with; the flag says whether it was hashed and updated. -/
  | bump (rehashed : Bool) (rest : List ObjectRecord)
  | finish (fatal : Option Text)
  | ended
  deriving DecidableEq

inductive Task
  | put (req : PutBucketEtag) (stage : PutStage)
  | rehash (bucketId : Int) (etagType : EtagType) (stage : RehashStage)

def refuse (status : Status) (message : Text) : PutStage :=
  .answered (.failure status (some message))

def alreadyRunning : PutStage :=
  refuse .conflict ("etag recalculation".toList ++ " already running".toList)

/-- The status of an error of `set_bucket_etag_type`, by its text. -/
def setEtagTypeFailed (message : Text) : PutStage :=
  refuse (if (findText "not found".toList message).isSome then .notFound else .internalServerError)
    message

/-- The next step of `put_bucket_etag`; a call that fails does so with a message. The step
after `spawn` is one of the pool. -/
def stepPut (s : AppState) (free : Bool) (failure : Option Text) (req : PutBucketEtag) :
    PutStage → Option (AppState × PutStage)
  | .requireEditor =>
    match failure with
    | some message => some (s, refuse .internalServerError message)
    | none =>
      if canEditBucketReplication s.db req.actor req.bucketId = false then
        some (s, refuse .forbidden "bucket owner or edit permission required".toList)
      else if trim req.apply ≠ "new_only".toList ∧ trim req.apply ≠ "recalculate_all".toList then
        some (s, refuse .badRequest "apply must be new_only or recalculate_all".toList)
      else some (s, .getBucket)
  | .getBucket =>
    match failure with
    | some message => some (s, refuse .internalServerError message)
    | none =>
      match getBucketById s.db req.bucketId with
      | none => some (s, refuse .notFound "bucket not found".toList)
      | some b =>
        if trim req.apply = "recalculate_all".toList ∧
            b.etagRehashStatus = some "running".toList then some (s, alreadyRunning)
        else some (s, .setEtagType)
  | .setEtagType =>
    match failure with
    | some message => some (s, setEtagTypeFailed message)
    | none =>
      if free then
        match setBucketEtagType s.db req.bucketId req.etagType with
        | none => some (s, setEtagTypeFailed "bucket not found".toList)
        | some db =>
          if trim req.apply = "new_only".toList then
            some ({ s with db := db }, .answered .noContent)
          else some ({ s with db := db }, .count)
      else none
  | .count =>
    match failure with
    | some message => some (s, refuse .internalServerError message)
    | none => some (s, .begin (countActiveObjectsInBucket s.db req.bucketId))
  | .begin total =>
    match failure with
    | some message => some (s, refuse .internalServerError message)
    | none =>
      if free then
        match beginBucketEtagRehash s.db req.bucketId total with
        | none => some (s, refuse .internalServerError "bucket not found".toList)
        | some db => some ({ s with db := db }, .spawn total)
      else none
  | _ => none

/-- The next object of the list, or the end of the task. -/
def nextObject : List ObjectRecord → RehashStage
  | [] => .finish none
  | obj :: rest => .hash obj rest

def finalStatus (fatal : Option Text) : Text :=
  if fatal.isSome then "error".toList else "done".toList

/-- The next step of `run_bucket_rehash`. An object that cannot be read, updated or enqueued
is skipped and counted; the task ends early when it cannot list, or cannot count an object
that it has rehashed. -/
def stepRehash (P : Platform) (s : AppState) (free : Bool) (now : Instant)
    (failure : Option Text) (bucketId : Int) (etagType : EtagType) :
    RehashStage → Option (AppState × RehashStage)
  | .list =>
    match failure with
    | some _ => some (s, .ended)
    | none => some (s, nextObject (listObjectsForEtagRehash s.db bucketId))
  | .hash obj rest =>
    match query failure.isSome (hashFilepath P s obj.filepath etagType) with
    | none => some (s, .bump false rest)
    | some etag => some (s, .update obj etag rest)
  | .update obj etag rest =>
    if failure.isSome then some (s, .bump false rest)
    else if free then
      match updateObjectEtag s.db now obj.id etagType etag with
      | none => some (s, .bump false rest)
      | some db => some ({ s with db := db }, .enqueue obj etag rest)
    else none
  | .enqueue obj etag rest =>
    if failure.isSome then some (s, .bump false rest)
    else if free then
      some ({ s with
        db := enqueuePutForActivePeers s.db now obj.id obj.filepath etag s.config.nodeId },
        .bump true rest)
    else none
  | .bump rehashed rest =>
    match failure with
    | some message => some (s, if rehashed then .finish (some message) else nextObject rest)
    | none =>
      if free then
        some ({ s with db := bumpBucketEtagRehashProcessed s.db bucketId }, nextObject rest)
      else none
  | .finish fatal =>
    if failure.isSome then some (s, .ended)
    else if free then
      some ({ s with db := finishBucketEtagRehash s.db bucketId (finalStatus fatal) fatal }, .ended)
    else none
  | .ended => none

def Task.step (P : Platform) (s : AppState) (free : Bool) (now : Instant)
    (failure : Option Text) : Task → Option (AppState × Task)
  | .put req stage => (stepPut s free failure req stage).map (Prod.map id (Task.put req))
  | .rehash bucketId etagType stage =>
    (stepRehash P s free now failure bucketId etagType stage).map
      (Prod.map id (Task.rehash bucketId etagType))

/-- The node, the requests for objects, and the handlers and tasks that change ETags. -/
structure State where
  server : Server
  requests : List Requests.Task
  etags : List Task

inductive Action
  | request (a : Requests.Action)
  | putBucketEtag (req : PutBucketEtag)
  | advance (i : Nat) (now : Instant) (failure : Option Text)
  /-- The client of a handler goes away. -/
  | drop (i : Nat)
  /-- The process ends, and starts again. -/
  | restart (cluster : ClusterConfig)

/-- A task after the step that spawns another one. -/
def spawned (req : PutBucketEtag) (total : Int) : Task :=
  .put req (.answered (.accepted req.etagType total))

def advance (P : Platform) (s : State) (i : Nat) (now : Instant) (failure : Option Text) :
    Task → Option State
  | .put req (.spawn total) =>
    some { s with
      etags := s.etags.set i (spawned req total) ++ [.rehash req.bucketId req.etagType .list] }
  | t => (t.step P s.server.app (!s.server.writing) now failure).map fun r =>
    { s with server := { s.server with app := r.1 }, etags := s.etags.set i r.2 }

def drop (s : State) (i : Nat) : Task → Option State
  | .put req _ => some { s with etags := s.etags.set i (.put req .dropped) }
  | .rehash _ _ _ => none

/-- What a new process finds: the database and the disk. -/
def restarted (s : State) (cluster : ClusterConfig) : State where
  server := ⟨{ s.server.app with db := startNode s.server.app.db cluster }, false⟩
  requests := []
  etags := []

def step (P : Platform) (s : State) : Action → Option State
  | .request a =>
    (Requests.step P ⟨s.server, s.requests⟩ a).map fun p =>
      { s with server := p.shared, requests := p.tasks }
  | .putBucketEtag req =>
    if isAuthenticated s.server.app.db req.actor then
      some { s with etags := s.etags ++ [.put req .requireEditor] }
    else none
  | .advance i now failure => (s.etags[i]?).bind (advance P s i now failure)
  | .drop i => (s.etags[i]?).bind (drop s i)
  | .restart cluster => some (restarted s cluster)

/-- The requests for objects leave the buckets alone. -/
theorem request_bucket {P : Platform} {p q : Requests.State} {a : Requests.Action}
    (h : Requests.step P p a = some q) : q.shared.app.db.bucket = p.shared.app.db.bucket := by
  rcases RequestSteps.step_cases h with ⟨task, _, _, rfl⟩ | ⟨i, io, task, e, task', _, _, _, rfl⟩ |
    ⟨i, task, _, _, rfl⟩
  · rfl
  · exact RequestInvariants.run_bucket _ e
  · rfl

/-- The steps of a handler. -/
inductive PutMove (s : AppState) (failure : Option Text) (req : PutBucketEtag) :
    PutStage → AppState → PutStage → Prop
  | refuse (stage : PutStage) (status : Status) (message : Text) :
      (refuse status message = alreadyRunning → ∃ b, getBucketById s.db req.bucketId = some b ∧
        b.etagRehashStatus = some "running".toList) →
      PutMove s failure req stage s (refuse status message)
  | requireEditor :
      trim req.apply = "new_only".toList ∨ trim req.apply = "recalculate_all".toList →
      PutMove s failure req .requireEditor s .getBucket
  | getBucket (b : BucketRecord) : getBucketById s.db req.bucketId = some b →
      ¬ (trim req.apply = "recalculate_all".toList ∧
        b.etagRehashStatus = some "running".toList) →
      PutMove s failure req .getBucket s .setEtagType
  | setEtagType (db : Db) : setBucketEtagType s.db req.bucketId req.etagType = some db →
      PutMove s failure req .setEtagType { s with db := db }
        (if trim req.apply = "new_only".toList then .answered .noContent else .count)
  | count :
      PutMove s failure req .count s (.begin (countActiveObjectsInBucket s.db req.bucketId))
  | begin (total : Int) (db : Db) : failure = none →
      beginBucketEtagRehash s.db req.bucketId total = some db →
      PutMove s failure req (.begin total) { s with db := db } (.spawn total)

/-- The end of a handler with an error of another kind. -/
theorem putMove_refuse {s : AppState} {failure : Option Text} {req : PutBucketEtag}
    {stage : PutStage} {status : Status} {message : Text} (hstatus : status ≠ .conflict) :
    PutMove s failure req stage s (refuse status message) := by
  refine .refuse _ _ _ fun h => ?_
  unfold alreadyRunning refuse at h
  simp only [PutStage.answered.injEq, Answer.failure.injEq] at h
  exact absurd h.1 hstatus

theorem putMove_setEtagTypeFailed {s : AppState} {failure : Option Text} {req : PutBucketEtag}
    {stage : PutStage} (message : Text) :
    PutMove s failure req stage s (setEtagTypeFailed message) := by
  unfold setEtagTypeFailed
  split_ifs
  · exact putMove_refuse (by decide)
  · exact putMove_refuse (by decide)

theorem stepPut_move {s s' : AppState} {free : Bool} {failure : Option Text}
    {req : PutBucketEtag} {stage stage' : PutStage}
    (h : stepPut s free failure req stage = some (s', stage')) :
    PutMove s failure req stage s' stage' := by
  cases stage with
  | requireEditor =>
    simp only [stepPut] at h
    split at h
    · cases h
      exact putMove_refuse (by decide)
    · split_ifs at h with hedit happly
      · cases h
        exact putMove_refuse (by decide)
      · cases h
        exact putMove_refuse (by decide)
      · cases h
        exact .requireEditor (by tauto)
  | getBucket =>
    simp only [stepPut] at h
    split at h
    · cases h
      exact putMove_refuse (by decide)
    · split at h
      · cases h
        exact putMove_refuse (by decide)
      · rename_i b hb
        split_ifs at h with hrunning
        · cases h
          exact .refuse _ _ _ fun _ => ⟨b, hb, hrunning.2⟩
        · cases h
          exact .getBucket b hb hrunning
  | setEtagType =>
    simp only [stepPut] at h
    split at h
    · cases h
      exact putMove_setEtagTypeFailed _
    · cases free with
      | false => cases h
      | true =>
        simp only [if_true] at h
        split at h
        · cases h
          exact putMove_setEtagTypeFailed _
        · rename_i db hdb
          have hmove : PutMove s none req .setEtagType { s with db := db } _ :=
            .setEtagType db hdb
          split_ifs at h hmove with hnew
          · cases h
            exact hmove
          · cases h
            exact hmove
  | count =>
    simp only [stepPut] at h
    split at h
    · cases h
      exact putMove_refuse (by decide)
    · cases h
      exact .count
  | begin total =>
    simp only [stepPut] at h
    split at h
    · cases h
      exact putMove_refuse (by decide)
    · split_ifs at h
      split at h
      · cases h
        exact putMove_refuse (by decide)
      · rename_i db hdb
        cases h
        exact .begin total db rfl hdb
  | spawn total => cases h
  | answered answer => cases h
  | dropped => cases h

/-- The steps of a task. -/
inductive RehashMove (P : Platform) (s : AppState) (now : Instant) (failure : Option Text)
    (bucketId : Int) (etagType : EtagType) : RehashStage → AppState → RehashStage → Prop
  | notListed : failure ≠ none → RehashMove P s now failure bucketId etagType .list s .ended
  | list : failure = none → RehashMove P s now failure bucketId etagType .list s
      (nextObject (listObjectsForEtagRehash s.db bucketId))
  | notHashed (obj : ObjectRecord) (rest : List ObjectRecord) :
      query failure.isSome (hashFilepath P s obj.filepath etagType) = none →
      RehashMove P s now failure bucketId etagType (.hash obj rest) s (.bump false rest)
  | hash (obj : ObjectRecord) (etag : Text) (rest : List ObjectRecord) :
      query failure.isSome (hashFilepath P s obj.filepath etagType) = some etag →
      RehashMove P s now failure bucketId etagType (.hash obj rest) s (.update obj etag rest)
  | notUpdated (obj : ObjectRecord) (etag : Text) (rest : List ObjectRecord) :
      failure ≠ none ∨ updateObjectEtag s.db now obj.id etagType etag = none →
      RehashMove P s now failure bucketId etagType (.update obj etag rest) s (.bump false rest)
  | update (obj : ObjectRecord) (etag : Text) (rest : List ObjectRecord) (db : Db) :
      updateObjectEtag s.db now obj.id etagType etag = some db →
      RehashMove P s now failure bucketId etagType (.update obj etag rest) { s with db := db }
        (.enqueue obj etag rest)
  | notEnqueued (obj : ObjectRecord) (etag : Text) (rest : List ObjectRecord) : failure ≠ none →
      RehashMove P s now failure bucketId etagType (.enqueue obj etag rest) s (.bump false rest)
  | enqueue (obj : ObjectRecord) (etag : Text) (rest : List ObjectRecord) :
      RehashMove P s now failure bucketId etagType (.enqueue obj etag rest)
        { s with
          db := enqueuePutForActivePeers s.db now obj.id obj.filepath etag s.config.nodeId }
        (.bump true rest)
  | notCounted (rehashed : Bool) (rest : List ObjectRecord) (message : Text) :
      failure = some message →
      RehashMove P s now failure bucketId etagType (.bump rehashed rest) s
        (if rehashed then .finish (some message) else nextObject rest)
  | bump (rehashed : Bool) (rest : List ObjectRecord) : failure = none →
      RehashMove P s now failure bucketId etagType (.bump rehashed rest)
        { s with db := bumpBucketEtagRehashProcessed s.db bucketId } (nextObject rest)
  | notFinished (fatal : Option Text) : failure ≠ none →
      RehashMove P s now failure bucketId etagType (.finish fatal) s .ended
  | finish (fatal : Option Text) : failure = none →
      RehashMove P s now failure bucketId etagType (.finish fatal)
        { s with db := finishBucketEtagRehash s.db bucketId (finalStatus fatal) fatal } .ended

theorem stepRehash_move {P : Platform} {s s' : AppState} {free : Bool} {now : Instant}
    {failure : Option Text} {bucketId : Int} {etagType : EtagType} {stage stage' : RehashStage}
    (h : stepRehash P s free now failure bucketId etagType stage = some (s', stage')) :
    RehashMove P s now failure bucketId etagType stage s' stage' := by
  have hsome : failure.isSome = true → failure ≠ none := fun h => Option.isSome_iff_ne_none.mp h
  have hnone : ¬ failure.isSome = true → failure = none := Option.not_isSome_iff_eq_none.mp
  cases stage with
  | list =>
    simp only [stepRehash] at h
    split at h
    · cases h
      exact .notListed (by simp)
    · cases h
      exact .list rfl
  | hash obj rest =>
    simp only [stepRehash] at h
    split at h
    · rename_i hhash
      cases h
      exact .notHashed obj rest hhash
    · rename_i etag hhash
      cases h
      exact .hash obj etag rest hhash
  | update obj etag rest =>
    simp only [stepRehash] at h
    split_ifs at h with hfail
    · cases h
      exact .notUpdated obj etag rest (Or.inl (hsome hfail))
    · split at h
      · rename_i hupdate
        cases h
        exact .notUpdated obj etag rest (Or.inr hupdate)
      · rename_i db hupdate
        cases h
        exact .update obj etag rest db hupdate
  | enqueue obj etag rest =>
    simp only [stepRehash] at h
    split_ifs at h with hfail
    · cases h
      exact .notEnqueued obj etag rest (hsome hfail)
    · cases h
      exact .enqueue obj etag rest
  | bump rehashed rest =>
    simp only [stepRehash] at h
    split at h
    · rename_i message
      cases h
      exact .notCounted rehashed rest message rfl
    · split_ifs at h
      cases h
      exact .bump rehashed rest rfl
  | finish fatal =>
    simp only [stepRehash] at h
    split_ifs at h with hfail
    · cases h
      exact .notFinished fatal (hsome hfail)
    · cases h
      exact .finish fatal (hnone hfail)
  | ended => cases h

/-- What a turn of a task does: it spawns another one, or takes a step of its own. -/
theorem advance_cases {P : Platform} {s s' : State} {i : Nat} {now : Instant}
    {failure : Option Text} (h : step P s (.advance i now failure) = some s') :
    (∃ req total, s.etags[i]? = some (.put req (.spawn total)) ∧
      s' = { s with
        etags := s.etags.set i (spawned req total) ++
          [.rehash req.bucketId req.etagType .list] }) ∨
    (∃ req stage app stage', s.etags[i]? = some (.put req stage) ∧
      (∀ total, stage ≠ .spawn total) ∧
      PutMove s.server.app failure req stage app stage' ∧
      s' = { s with
        server := { s.server with app := app }, etags := s.etags.set i (.put req stage') }) ∨
    ∃ bucketId etagType stage app stage',
      s.etags[i]? = some (.rehash bucketId etagType stage) ∧
      RehashMove P s.server.app now failure bucketId etagType stage app stage' ∧
      s' = { s with
        server := { s.server with app := app },
        etags := s.etags.set i (.rehash bucketId etagType stage') } := by
  obtain ⟨t, hi, hadvance⟩ := Option.bind_eq_some_iff.mp h
  unfold advance at hadvance
  split at hadvance
  · exact Or.inl ⟨_, _, hi, (Option.some.inj hadvance).symm⟩
  · rename_i hspawn
    obtain ⟨⟨app, u⟩, htask, rfl⟩ := Option.map_eq_some_iff.mp hadvance
    cases t with
    | put req stage =>
      obtain ⟨stage', hput, rfl⟩ := Library.Interleaving.step_of_kind.mp htask
      exact Or.inr (Or.inl ⟨req, stage, _, stage', hi, fun total hstage =>
        hspawn req total (by rw [hstage]), stepPut_move hput, rfl⟩)
    | rehash bucketId etagType stage =>
      obtain ⟨stage', hrehash, rfl⟩ := Library.Interleaving.step_of_kind.mp htask
      exact Or.inr (Or.inr ⟨bucketId, etagType, stage, _, stage', hi,
        stepRehash_move hrehash, rfl⟩)

end MyS3.EtagRuns
