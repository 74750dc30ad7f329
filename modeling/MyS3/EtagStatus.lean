import MyS3.EtagRuns
import MyS3.Library.Runs

/-!
Whether a bucket that is marked as running has a rehash. The mark is in the database and
the task is not: a process that ends, a list or a last update that fails, and a client that
leaves before the task is spawned take away the task and leave the mark, and nothing ever
removes it again. As long as none of these meets the last task of a bucket that is marked,
each of them has one.
-/

namespace MyS3.EtagStatus

open Library.Strings Library.Tables Library.Runs
open Models Objects Database Engine Repository Outbox Http Rbac PeerManager EtagRehash EtagRuns

def Running (db : Db) (bucketId : Int) : Prop :=
  ∃ b ∈ db.bucket.rows, b.id = bucketId ∧ b.etagRehashStatus = some "running".toList

/-- The task is alive, or about to be spawned. -/
def attends (bucketId : Int) : Task → Bool
  | .put req (.spawn _) => req.bucketId == bucketId
  | .rehash id _ stage => id == bucketId && stage != .ended
  | _ => false

def AttendedAt (etags : List Task) (bucketId : Int) (i : Nat) : Prop :=
  ∃ t, etags[i]? = some t ∧ attends bucketId t = true

/-- Some task of the bucket is alive or about to be spawned. -/
def Attended (etags : List Task) (bucketId : Int) : Prop := ∃ i, AttendedAt etags bucketId i

/-- The failures that end a task, or the handler that is about to spawn it. -/
def endsBy (failure : Option Text) : Task → Bool
  | .rehash _ _ .list => failure.isSome
  | .rehash _ _ (.finish _) => failure.isSome
  | _ => false

/-- Another task of the bucket is left. -/
def OthersAttend (s : State) (i : Nat) (bucketId : Int) : Prop :=
  ∃ j, j ≠ i ∧ AttendedAt s.etags bucketId j

/-- No step takes the last task of a bucket that is marked as running. -/
def LeavesTask (s : State) : Action → Prop
  | .restart _ => ∀ bucketId, ¬ Running s.server.app.db bucketId
  | .drop i => ∀ req total, s.etags[i]? = some (.put req (.spawn total)) →
    Running s.server.app.db req.bucketId → OthersAttend s i req.bucketId
  | .advance i _ failure => ∀ bucketId etagType stage,
    s.etags[i]? = some (.rehash bucketId etagType stage) →
    endsBy failure (.rehash bucketId etagType stage) = true →
    Running s.server.app.db bucketId → OthersAttend s i bucketId
  | _ => True

theorem running_bump {db : Db} {id x : Int} (h : Running (bumpBucketEtagRehashProcessed db id) x) :
    Running db x := by
  obtain ⟨b, hb, hbid, hrunning⟩ := h
  rcases mem_updateBucket.mp hb with ⟨hb, _⟩ | ⟨c, hc, _, rfl⟩
  · exact ⟨b, hb, hbid, hrunning⟩
  · exact ⟨c, hc, hbid, hrunning⟩

theorem running_setEtagType {db db' : Db} {id x : Int} {etagType : EtagType}
    (hset : setBucketEtagType db id etagType = some db') (h : Running db' x) : Running db x := by
  unfold setBucketEtagType at hset
  split_ifs at hset
  rw [← Option.some.inj hset] at h
  obtain ⟨b, hb, hbid, hrunning⟩ := h
  rcases mem_updateRows.mp hb with ⟨hb, _⟩ | ⟨c, hc, _, rfl⟩
  · exact ⟨b, hb, hbid, hrunning⟩
  · exact ⟨c, hc, hbid, hrunning⟩

theorem running_begin {db db' : Db} {id x total : Int}
    (hbegin : beginBucketEtagRehash db id total = some db') (h : Running db' x) :
    x = id ∨ Running db x := by
  unfold beginBucketEtagRehash at hbegin
  split_ifs at hbegin
  rw [← Option.some.inj hbegin] at h
  obtain ⟨b, hb, hbid, hrunning⟩ := h
  rcases mem_updateBucket.mp hb with ⟨hb, _⟩ | ⟨c, hc, hcid, rfl⟩
  · exact Or.inr ⟨b, hb, hbid, hrunning⟩
  · exact Or.inl (hbid.symm.trans hcid)

/-- The end of a task removes the mark of its bucket. -/
theorem running_finish {db : Db} {id x : Int} (fatal : Option Text)
    (h : Running (finishBucketEtagRehash db id (finalStatus fatal) fatal) x) :
    x ≠ id ∧ Running db x := by
  have hfinal : some (finalStatus fatal) ≠ some "running".toList := by
    unfold finalStatus
    split_ifs
    · decide
    · decide
  obtain ⟨b, hb, hbid, hrunning⟩ := h
  rcases mem_updateBucket.mp hb with ⟨hb, hne⟩ | ⟨c, _, _, rfl⟩
  · exact ⟨fun heq => hne (hbid.trans heq), b, hb, hbid, hrunning⟩
  · exact absurd hrunning hfinal

theorem AttendedAt.set {etags : List Task} {bucketId : Int} {i j : Nat}
    (h : AttendedAt etags bucketId j) (hne : j ≠ i) (u : Task) :
    AttendedAt (etags.set i u) bucketId j := by
  obtain ⟨t, hj, ht⟩ := h
  exact ⟨t, by rw [List.getElem?_set_ne hne.symm, hj], ht⟩

theorem AttendedAt.append {etags : List Task} {bucketId : Int} {i : Nat}
    (h : AttendedAt etags bucketId i) (more : List Task) :
    AttendedAt (etags ++ more) bucketId i := by
  obtain ⟨t, hi, ht⟩ := h
  obtain ⟨hlt, _⟩ := List.getElem?_eq_some_iff.mp hi
  exact ⟨t, by rw [List.getElem?_append_left hlt, hi], ht⟩

/-- A task goes on: it still attends the bucket, did not before, or another one does. -/
theorem attended_set {etags : List Task} {bucketId : Int} {i : Nat} {t : Task} (u : Task)
    (hi : etags[i]? = some t) (h : Attended etags bucketId)
    (hgoes : attends bucketId t = true → attends bucketId u = true ∨
      ∃ j, j ≠ i ∧ AttendedAt etags bucketId j) : Attended (etags.set i u) bucketId := by
  obtain ⟨hlt, _⟩ := List.getElem?_eq_some_iff.mp hi
  obtain ⟨j, hj⟩ := h
  by_cases hji : j = i
  · obtain ⟨v, hv, hattends⟩ := hj
    rw [hji, hi] at hv
    rw [← Option.some.inj hv] at hattends
    rcases hgoes hattends with hu | ⟨k, hk, hother⟩
    · exact ⟨i, u, by rw [List.getElem?_set_self hlt], hu⟩
    · exact ⟨k, hother.set hk u⟩
  · exact ⟨j, hj.set hji u⟩

/-- Every bucket that is marked as running has a task. -/
def AllAttended (s : State) : Prop :=
  ∀ bucketId, Running s.server.app.db bucketId → Attended s.etags bucketId

theorem allAttended_put {s : State} {i : Nat} {failure : Option Text} {req : PutBucketEtag}
    {stage stage' : PutStage} {app : AppState} (h : AllAttended s)
    (hi : s.etags[i]? = some (.put req stage)) (hstage : ∀ total, stage ≠ .spawn total)
    (hmove : PutMove s.server.app failure req stage app stage') :
    AllAttended { s with
      server := { s.server with app := app }, etags := s.etags.set i (.put req stage') } := by
  have hnot : ∀ bucketId, attends bucketId (.put req stage) ≠ true := by
    intro bucketId hattends
    cases stage with
    | spawn total => exact hstage total rfl
    | _ => cases hattends
  have hkept : ∀ bucketId, Running s.server.app.db bucketId →
      Attended (s.etags.set i (.put req stage')) bucketId := fun bucketId hrunning =>
    attended_set _ hi (h bucketId hrunning) fun hattends => absurd hattends (hnot bucketId)
  cases hmove with
  | refuse _ _ _ _ => exact hkept
  | requireEditor _ => exact hkept
  | getBucket _ _ _ => exact hkept
  | count => exact hkept
  | setEtagType db hset =>
    intro bucketId hrunning
    exact hkept bucketId (running_setEtagType hset hrunning)
  | begin total db hclean hbegin =>
    intro bucketId hrunning
    rcases running_begin hbegin hrunning with rfl | hbefore
    · obtain ⟨hlt, _⟩ := List.getElem?_eq_some_iff.mp hi
      exact ⟨i, _, List.getElem?_set_self hlt, beq_self_eq_true req.bucketId⟩
    · exact hkept bucketId hbefore

theorem stage_nextObject (objects : List ObjectRecord) : (nextObject objects != .ended) = true := by
  cases objects with
  | nil => rfl
  | cons obj rest => rfl

theorem allAttended_rehash {P : Platform} {s : State} {i : Nat} {now : Instant}
    {failure : Option Text} {id : Int} {etagType : EtagType} {stage stage' : RehashStage}
    {app : AppState} (h : AllAttended s) (hok : LeavesTask s (.advance i now failure))
    (hi : s.etags[i]? = some (.rehash id etagType stage))
    (hmove : RehashMove P s.server.app now failure id etagType stage app stage') :
    AllAttended { s with
      server := { s.server with app := app },
      etags := s.etags.set i (.rehash id etagType stage') } := by
  have hlost := hok id etagType stage hi
  -- A task that is not over afterwards attends its bucket as before.
  have hgoes : (stage' != .ended) = true → ∀ bucketId, Running s.server.app.db bucketId →
      Attended (s.etags.set i (.rehash id etagType stage')) bucketId := by
    intro halive bucketId hrunning
    refine attended_set _ hi (h bucketId hrunning) fun hattends => Or.inl ?_
    simp only [attends, Bool.and_eq_true] at hattends ⊢
    exact ⟨hattends.1, halive⟩
  -- A task that ends leaves another one to its bucket, and the others as they are.
  have hends : stage' = .ended → endsBy failure (.rehash id etagType stage) = true →
      ∀ bucketId, Running s.server.app.db bucketId →
        Attended (s.etags.set i (.rehash id etagType stage')) bucketId := by
    intro _ hby bucketId hrunning
    refine attended_set _ hi (h bucketId hrunning) fun hattends => Or.inr ?_
    simp only [attends, Bool.and_eq_true, beq_iff_eq] at hattends
    obtain ⟨rfl, _⟩ := hattends
    exact hlost hby hrunning
  cases hmove with
  | notListed hfail => exact hends rfl (Option.isSome_iff_ne_none.mpr hfail)
  | list _ => exact hgoes (stage_nextObject _)
  | notHashed obj rest _ => exact hgoes rfl
  | hash obj etag rest _ => exact hgoes rfl
  | notUpdated obj etag rest _ => exact hgoes rfl
  | update obj etag rest db hupdate =>
    intro bucketId hrunning
    refine hgoes rfl bucketId ?_
    unfold Running at hrunning ⊢
    rwa [updateObjectEtag_bucket hupdate] at hrunning
  | notEnqueued obj etag rest _ => exact hgoes rfl
  | enqueue obj etag rest =>
    intro bucketId hrunning
    refine hgoes rfl bucketId ?_
    unfold Running enqueuePutForActivePeers at hrunning
    rwa [enqueueForActivePeers_bucket] at hrunning
  | notCounted rehashed rest message _ =>
    cases rehashed with
    | true => exact hgoes rfl
    | false => exact hgoes (stage_nextObject rest)
  | bump rehashed rest _ =>
    intro bucketId hrunning
    exact hgoes (stage_nextObject rest) bucketId (running_bump hrunning)
  | notFinished fatal hfail => exact hends rfl (Option.isSome_iff_ne_none.mpr hfail)
  | finish fatal _ =>
    intro bucketId hrunning
    obtain ⟨hne, hbefore⟩ := running_finish fatal hrunning
    refine attended_set _ hi (h bucketId hbefore) fun hattends => ?_
    simp only [attends, Bool.and_eq_true, beq_iff_eq] at hattends
    exact absurd hattends.1.symm hne

theorem running_startNode {db : Db} {cluster : ClusterConfig} {x : Int}
    (h : Running (startNode db cluster) x) : Running db x := by
  have hbucket : (startNode db cluster).bucket = db.bucket := by
    refine startNode_keeps _ (fun _ _ _ => rfl) (fun db bucketId peerId bytes mode => ?_) db cluster
    unfold ensureBucketNodeAssignment
    split
    · rfl
    · rfl
  unfold Running at h ⊢
  rwa [hbucket] at h

theorem allAttended_step {P : Platform} (s s' : State) (a : Action) (h : AllAttended s)
    (hok : LeavesTask s a) (hstep : step P s a = some s') : AllAttended s' := by
  cases a with
  | request a =>
    obtain ⟨p, hp, rfl⟩ := Option.map_eq_some_iff.mp hstep
    intro bucketId hrunning
    unfold Running at hrunning
    rw [request_bucket hp] at hrunning
    exact h bucketId hrunning
  | putBucketEtag req =>
    unfold step at hstep
    simp only at hstep
    split_ifs at hstep
    rw [← Option.some.inj hstep]
    intro bucketId hrunning
    obtain ⟨i, hi⟩ := h bucketId hrunning
    exact ⟨i, hi.append _⟩
  | restart cluster =>
    rw [← Option.some.inj hstep]
    intro bucketId hrunning
    exact absurd (running_startNode hrunning) (hok bucketId)
  | drop i =>
    obtain ⟨t, hi, hdrop⟩ := Option.bind_eq_some_iff.mp hstep
    cases t with
    | rehash id etagType stage => cases hdrop
    | put req stage =>
      rw [← Option.some.inj hdrop]
      intro bucketId hrunning
      refine attended_set _ hi (h bucketId hrunning) fun hattends => Or.inr ?_
      cases stage with
      | spawn total =>
        obtain rfl : req.bucketId = bucketId := by simpa [attends] using hattends
        exact hok req total hi hrunning
      | _ => cases hattends
  | advance i now failure =>
    rcases advance_cases hstep with ⟨req, total, hi, rfl⟩ |
      ⟨req, stage, app, stage', hi, hstage, hmove, rfl⟩ |
      ⟨id, etagType, stage, app, stage', hi, hmove, rfl⟩
    · intro bucketId hrunning
      obtain ⟨j, hj⟩ := h bucketId hrunning
      by_cases hji : j = i
      · obtain ⟨v, hv, hattends⟩ := hj
        rw [hji, hi] at hv
        rw [← Option.some.inj hv] at hattends
        refine ⟨s.etags.length, .rehash req.bucketId req.etagType .list, ?_, ?_⟩
        · rw [List.getElem?_append_right (by simp)]
          simp
        · simpa [attends] using hattends
      · exact ⟨j, (hj.set hji _).append _⟩
    · exact allAttended_put h hi hstage hmove
    · exact allAttended_rehash h hok hi hmove

/-- A handler answers that a rehash is running only where the bucket is marked. -/
theorem running_of_refused {P : Platform} {s s' : State} {i : Nat} {now : Instant}
    {failure : Option Text} {req : PutBucketEtag}
    (hstep : step P s (.advance i now failure) = some s')
    (hrefused : s'.etags[i]? = some (.put req alreadyRunning)) :
    Running s.server.app.db req.bucketId := by
  rcases advance_cases hstep with ⟨req', total, hi, rfl⟩ |
    ⟨req', stage, app, stage', hi, _, hmove, rfl⟩ |
    ⟨id, etagType, stage, app, stage', hi, hmove, rfl⟩
  all_goals obtain ⟨hlt, _⟩ := List.getElem?_eq_some_iff.mp hi
  · rw [List.getElem?_append_left (by simpa using hlt), List.getElem?_set_self hlt] at hrefused
    cases hrefused
  · simp only [List.getElem?_set_self hlt, Option.some.injEq, Task.put.injEq] at hrefused
    obtain ⟨rfl, hstage⟩ := hrefused
    cases hmove with
    | refuse _ _ _ hmarked =>
      obtain ⟨b, hb, hrunning⟩ := hmarked hstage
      obtain ⟨hmem, hid⟩ := BucketTable.byId_eq_some.mp hb
      exact ⟨b, hmem, hid, hrunning⟩
    | setEtagType db _ =>
      split_ifs at hstage
      · cases hstage
      · cases hstage
    | requireEditor _ => cases hstage
    | getBucket _ _ _ => cases hstage
    | count => cases hstage
    | begin total db _ _ => cases hstage
  · simp only [List.getElem?_set_self hlt, Option.some.injEq] at hrefused
    cases hrefused

theorem exists_task {etags : List Task} {bucketId : Int} (h : Attended etags bucketId) :
    ∃ t ∈ etags, attends bucketId t = true := by
  obtain ⟨i, t, hi, hattends⟩ := h
  exact ⟨t, List.mem_of_getElem? hi, hattends⟩

/-- From a state in which no bucket is marked, in a run that leaves every marked bucket a
task, each bucket that is marked as running has one, and whoever is told that a rehash is
running is told so rightly. -/
theorem running_has_task (P : Platform) (server : Requests.Server)
    (requests : List Requests.Task) (hstart : ∀ bucketId, ¬ Running server.app.db bucketId)
    {s : State} (h : Run (step P) LeavesTask ⟨server, requests, []⟩ s) :
    (∀ b ∈ s.server.app.db.bucket.rows, b.etagRehashStatus = some "running".toList →
      ∃ t ∈ s.etags, attends b.id t = true) ∧
    ∀ (i : Nat) (now : Instant) (failure : Option Text) (s' : State) (req : PutBucketEtag),
      step P s (.advance i now failure) = some s' →
      s'.etags[i]? = some (.put req alreadyRunning) →
      ∃ t ∈ s.etags, attends req.bucketId t = true := by
  have hall : AllAttended s := h.invariant
    (fun s a t hs hok hstep => allAttended_step s t a hs hok hstep)
    fun bucketId hrunning => absurd hrunning (hstart bucketId)
  refine ⟨fun b hb hrunning => exists_task (hall b.id ⟨b, hb, rfl, hrunning⟩), ?_⟩
  intro i now failure s' req hstep hrefused
  exact exists_task (hall req.bucketId (running_of_refused hstep hrefused))

/-- A check that is enough for the condition. -/
def leavesTask (s : State) : Action → Bool
  | .restart _ => s.server.app.db.bucket.rows.all (·.etagRehashStatus != some "running".toList)
  | .drop i =>
    (s.etags[i]?).all fun t =>
      match t with
      | .put _ (.spawn _) => false
      | _ => true
  | .advance i _ failure => (s.etags[i]?).all fun t => !endsBy failure t
  | _ => true

theorem leavesTask_sound {s : State} {a : Action} (h : leavesTask s a = true) :
    LeavesTask s a := by
  cases a with
  | restart cluster =>
    intro bucketId h'
    obtain ⟨b, hb, _, hrunning⟩ := h'
    have hnot := List.all_eq_true.mp h b hb
    rw [hrunning] at hnot
    simp at hnot
  | drop i =>
    intro req total hi
    simp only [leavesTask, hi, Option.all_some] at h
    cases h
  | advance i now failure =>
    intro bucketId etagType stage hi hends
    simp only [leavesTask, hi, Option.all_some, hends] at h
    cases h
  | request a => trivial
  | putBucketEtag req => trivial

/-- A node with an empty bucket and one account, which has the Owner role. -/
def ownedNode : State where
  server := {
    app := { AppState.migrated "node-1".toList with
      db := { Db.migrated with
        account := [⟨1, "a1".toList, "p1".toList, [], false, none⟩]
        accountRole := [⟨1, 1⟩] } }
    writing := false }
  requests := []
  etags := []

def recalculateAll : PutBucketEtag := ⟨1, 1, .sha256, "recalculate_all".toList⟩

def turns (i n : Nat) : List Action := List.replicate n (.advance i Instant.epoch none)

/-- A recalculation and its task, to their ends. -/
def recalculated : List Action := .putBucketEtag recalculateAll :: turns 0 6 ++ turns 1 2

def restarting : Action := .restart sampleCluster

/-- The process ends while the bucket is marked. -/
def crashed : List Action := .putBucketEtag recalculateAll :: turns 0 6 ++ [restarting]

/-- The task cannot list the objects of its bucket. -/
def notListed : List Action :=
  .putBucketEtag recalculateAll :: turns 0 6 ++
    [.advance 1 Instant.epoch (some "database is locked".toList)]

/-- The recalculation is over before the process ends, and another one is let through. -/
theorem running_has_task_recalculated :
    ∃ s, execIf (step Platform.sample) leavesTask ownedNode
        (recalculated ++ restarting :: .putBucketEtag recalculateAll :: turns 0 2) = some s ∧
      s.server.app.db.bucket.rows.map (·.etagRehashStatus) = [some "done".toList] ∧
      s.etags = [.put recalculateAll .setEtagType] ∧
      (∀ b ∈ s.server.app.db.bucket.rows, b.etagRehashStatus = some "running".toList →
        ∃ t ∈ s.etags, attends b.id t = true) ∧
      ∀ (i : Nat) (now : Instant) (failure : Option Text) (s' : State) (req : PutBucketEtag),
        step Platform.sample s (.advance i now failure) = some s' →
        s'.etags[i]? = some (.put req alreadyRunning) →
        ∃ t ∈ s.etags, attends req.bucketId t = true := by
  refine ⟨_, rfl, rfl, rfl, ?_⟩
  refine running_has_task Platform.sample ownedNode.server [] ?_
    (run_of_execIf leavesTask (fun _ _ _ => leavesTask_sound)
      (show execIf (step Platform.sample) leavesTask ownedNode
        (recalculated ++ restarting :: .putBucketEtag recalculateAll :: turns 0 2) = some _
          from rfl))
  intro bucketId h
  obtain ⟨b, hb, _, hrunning⟩ := h
  rw [List.mem_singleton.mp hb] at hrunning
  cases hrunning

/-- After a restart, and after a list that fails, the bucket stays marked without a task, and
the next recalculation is refused. -/
theorem running_without_task :
    (∃ s s', Run (step Platform.sample) anyAction ownedNode s ∧
      s.server.app.db.bucket.rows.map (·.etagRehashStatus) = [some "running".toList] ∧
      s.etags = [.put recalculateAll .getBucket] ∧
      step Platform.sample s (.advance 0 Instant.epoch none) = some s' ∧
      s'.etags = [.put recalculateAll alreadyRunning]) ∧
    ∃ s, Run (step Platform.sample) anyAction ownedNode s ∧
      s.server.app.db.bucket.rows.map (·.etagRehashStatus) = [some "running".toList] ∧
      s.etags = [spawned recalculateAll 0, .rehash 1 .sha256 .ended] := by
  refine ⟨⟨_, _, run_of_exec (show exec (step Platform.sample) ownedNode
    (crashed ++ .putBucketEtag recalculateAll :: turns 0 1) = some _ from rfl), rfl, rfl, rfl, rfl⟩,
    _, run_of_exec (show exec (step Platform.sample) ownedNode notListed = some _ from rfl),
    rfl, rfl⟩

end MyS3.EtagStatus
