import MyS3.Library.Runs
import MyS3.ReplicationEdits

/-!
Where the DELETE jobs of a hard purge go. The peers are those that the bucket of the object
is configured for at that moment. A peer that has the object from an earlier configuration
is among them exactly when the bucket still goes to it: what else a run did to the
replication of its buckets before does not matter.
-/

namespace MyS3.PurgeTargets

open Library.Strings Library.Tables Library.Runs
open Models Objects Database Engine Repository Outbox Rbac Http S3Routes Purge PeerManager Versions
open UploadRuns OutboxRefs ReplicationEdits

/-- A node, with the jobs that its worker holds and those that peers acknowledged. -/
structure State where
  app : AppState
  held : List OutboxJob
  delivered : List OutboxJob

inductive Action
  | upload (put : Put)
  | delete (q : Limit1 ObjectRecord) (now : Instant) (key : Text) (bucketId : Option Int)
      (fails : Bool)
  | edit (edit : Edit)
  | createBucket (name : Text) (ownerAccountId : Int) (etagType : EtagType)
  /-- A peer reports, or is added by its endpoint. -/
  | upsertPeer (id endpoint : Text)
  | claim (now : Instant)
  /-- The first held job is processed. -/
  | deliver (acked : Bool) (now : Instant)
  | hardPurge (now : Instant) (id : Int) (unlinkFails : Bool)
  | restart (clusterPeers : List (Text × Text)) (grpcBindAddr : Text)

def State.withDb (s : State) (db : Db) : State := { s with app := { s.app with db := db } }

def step (P : Platform) (s : State) : Action → Option State
  | .upload put => some { s with app := (put.run P s.app).2 }
  | .delete q now key bucketId fails =>
    some { s with app := (deleteObjectKeyedInBucket q s.app now key bucketId fails).2 }
  | .edit edit => some (s.withDb (edit.run s.app.config.nodeId s.app.db))
  | .createBucket name ownerAccountId etagType =>
    (createBucket s.app.db name ownerAccountId etagType).map s.withDb
  | .upsertPeer id endpoint => some (s.withDb (upsertPeer s.app.db id endpoint))
  | .claim now =>
    if s.held = [] then
      let (jobs, db) := claimOutboxJobs s.app.db now 50
      some { s.withDb db with held := jobs }
    else none
  | .deliver acked now =>
    match s.held with
    | [] => none
    | job :: rest =>
      let db := if acked then completeOutboxJob s.app.db job.id
        else failOutboxJob s.app.db now job.id
      some { s.withDb db with
        held := rest
        delivered := if acked then job :: s.delivered else s.delivered }
  | .hardPurge now id unlinkFails =>
    (hardPurgeObject s.app now id unlinkFails).map fun app => { s with app := app }
  | .restart clusterPeers grpcBindAddr =>
    some { s.withDb (startNode s.app.db ⟨clusterPeers, s.app.config.nodeId, grpcBindAddr⟩) with
      held := [] }

def start (nodeId : Text) : State := ⟨AppState.migrated nodeId, [], []⟩

/-- The step enqueued a DELETE of the filepath for the peer. -/
def DeleteEnqueued (db db' : Db) (peerId filepath : Text) : Prop :=
  ∃ j ∈ db'.replicationOutbox.rows, db.replicationOutbox.nextId ≤ j.id ∧ j.operation = .delete ∧
    j.peerId = peerId ∧ j.filepathUuid = some filepath

/-- Another node, which this one knows. -/
def IsPeer (s : AppState) (peerId : Text) : Prop :=
  peerId ≠ s.config.nodeId ∧ ∃ p ∈ s.db.clusterPeer.rows, p.id = peerId

/-- No peer is forgotten or deactivated. -/
structure KeepsPeers (t t' : PeerTable) : Prop where
  rows : ∀ p ∈ t.rows, ∃ q ∈ t'.rows, q.id = p.id
  active : (∀ p ∈ t.rows, p.isActive = true) → ∀ p ∈ t'.rows, p.isActive = true

/-- A step keeps the peers, and new PUT jobs are for peers. -/
structure Later (s t : AppState) : Prop where
  nodeId : t.config.nodeId = s.config.nodeId
  peers : KeepsPeers s.db.clusterPeer t.db.clusterPeer
  puts : ∀ r ∈ t.db.replicationOutbox.rows, r.operation = .put →
    (∃ i ∈ s.db.replicationOutbox.rows, i.operation = .put ∧ i.peerId = r.peerId) ∨
      IsPeer t r.peerId

theorem IsPeer.later {s t : AppState} {peerId : Text} (h : IsPeer s peerId) (hlater : Later s t) :
    IsPeer t peerId := by
  obtain ⟨hremote, p, hp, hid⟩ := h
  obtain ⟨q, hq, hqid⟩ := hlater.peers.rows p hp
  exact ⟨by rwa [hlater.nodeId], q, hq, hqid.trans hid⟩

theorem KeepsPeers.refl (t : PeerTable) : KeepsPeers t t := ⟨fun p hp => ⟨p, hp, rfl⟩, fun h => h⟩

theorem KeepsPeers.trans {t t' t'' : PeerTable} (h : KeepsPeers t t') (h' : KeepsPeers t' t'') :
    KeepsPeers t t'' where
  rows p hp := by
    obtain ⟨q, hq, hid⟩ := h.rows p hp
    obtain ⟨r, hr, hrid⟩ := h'.rows q hq
    exact ⟨r, hr, hrid.trans hid⟩
  active hall := h'.active (h.active hall)

theorem keepsPeers_upsert (t : PeerTable) (id endpoint : Text) :
    KeepsPeers t (upsertPeerRow t id endpoint) := by
  unfold upsertPeerRow
  split
  · refine ⟨fun p hp => ⟨p, List.mem_append_left _ hp, rfl⟩, fun hall p hp => ?_⟩
    rcases List.mem_append.mp hp with hp | hp
    · exact hall p hp
    · rw [List.mem_singleton.mp hp]
  · have hsame : ∀ p, (activate endpoint p).id = p.id := fun _ => rfl
    refine ⟨fun p hp => exists_updateRows ClusterPeer.id _ hsame hp, fun hall p hp => ?_⟩
    rcases mem_updateRows.mp hp with ⟨hp, _⟩ | ⟨a, _, _, rfl⟩
    · exact hall p hp
    · rfl

theorem keepsPeers_seed (peers : List (Text × Text)) (db : Db) :
    KeepsPeers db.clusterPeer
      (peers.foldl (fun db p => upsertPeer db p.1 p.2) db).clusterPeer := by
  induction peers generalizing db with
  | nil => exact .refl _
  | cons p rest ih =>
    exact (keepsPeers_upsert db.clusterPeer p.1 p.2).trans (ih (upsertPeer db p.1 p.2))

theorem keepsPeers_startNode (db : Db) (config : ClusterConfig) :
    KeepsPeers db.clusterPeer (startNode db config).clusterPeer := by
  unfold startNode ensureLocalNode
  rw [foldl_keeps (fun db => db.clusterPeer) (assignLocalNode config) fun db b =>
    (ensureBucketNodeAssignment_same db b.id _ _ _).clusterPeer]
  exact (keepsPeers_seed config.clusterPeers db).trans (keepsPeers_upsert _ _ _)

/-- A step that brings in no PUT job. -/
theorem later_of_oldPuts {s t : AppState} (hnode : t.config.nodeId = s.config.nodeId)
    (hpeer : KeepsPeers s.db.clusterPeer t.db.clusterPeer)
    (hputs : OldPuts s.db.replicationOutbox t.db.replicationOutbox) : Later s t where
  nodeId := hnode
  peers := hpeer
  puts r hr hput := by
    obtain ⟨i, hi, hiput, hid, _⟩ := hputs r hr hput
    exact Or.inl ⟨i, hi, hiput, hid⟩

/-- What an enqueue lists are peers. -/
theorem mem_targetPeers {db : Db} {objectId : Int} {excludePeerId : Text} {p : ClusterPeer} :
    p ∈ targetPeers db objectId excludePeerId ↔
      ∃ b, bucketOfObject db objectId = some b ∧ p ∈ db.clusterPeer.rows ∧ p.isActive = true ∧
        p.id ≠ excludePeerId ∧ bucketReplicatesTo db b p.id = true := by
  unfold targetPeers
  cases bucketOfObject db objectId with
  | none => simp
  | some b => simp [and_assoc]

theorem softDelete_clusterPeer (q : Limit1 ObjectRecord) (db : Db) (now : Instant) (key : Text)
    (bucketId : Option Int) :
    (softDeleteObjectByFilename q db now key bucketId).2.clusterPeer = db.clusterPeer := by
  unfold softDeleteObjectByFilename
  split <;> rfl

theorem later_upload (P : Platform) (s : AppState) (put : Put) :
    Later s (put.run P s).2 := by
  unfold Put.run
  rcases putObjectKeyedInBucket_cases P s put.now put.uuid put.key put.headers put.body
    put.bucketId put.faults with ⟨_, href⟩ | ⟨b, default, _, _, _, _, hup⟩
  · have hchange := href.db
    refine later_of_oldPuts (by rw [href.config]) ?_ ?_
    · rcases hchange with hdb | ⟨id, _, hdb⟩
      · rw [hdb]
        exact .refl _
      · rw [hdb, recycled, softDelete_clusterPeer]
        exact .refl _
    · rcases hchange with hdb | ⟨id, _, hdb⟩
      · rw [hdb]
        exact OldPuts.refl _
      · rw [hdb]
        exact (noNewPut_softDelete _ _ _ _ _).puts
  · refine ⟨by rw [hup.config], by rw [hup.clusterPeer]; exact .refl _, fun r hr hput => ?_⟩
    rw [hup.outbox] at hr
    rcases mem_enqueueAll hr with hr | ⟨p, hp, id, rfl⟩
    · exact Or.inl ⟨r, hr, hput, rfl⟩
    · obtain ⟨_, _, hmem, _, hremote, _⟩ := mem_targetPeers.mp hp
      exact Or.inr ⟨by rw [hup.config]; exact hremote, p, hmem, rfl⟩

theorem later_delete (q : Limit1 ObjectRecord) (s : AppState) (now : Instant) (key : Text)
    (bucketId : Option Int) (fails : Bool) :
    Later s (deleteObjectKeyedInBucket q s now key bucketId fails).2 := by
  unfold deleteObjectKeyedInBucket
  split_ifs
  · exact later_of_oldPuts rfl (.refl _) (OldPuts.refl _)
  · refine later_of_oldPuts rfl ?_ (noNewPut_softDelete q s.db now key bucketId).puts
    simp only [softDelete_clusterPeer]
    exact .refl _

theorem later_withDb {s : AppState} {db : Db}
    (hpeer : KeepsPeers s.db.clusterPeer db.clusterPeer)
    (hputs : OldPuts s.db.replicationOutbox db.replicationOutbox) : Later s { s with db := db } :=
  later_of_oldPuts rfl hpeer hputs

theorem later_edit (s : AppState) (edit : Edit) :
    Later s { s with db := edit.run s.config.nodeId s.db } := by
  have h := edit.sameObjects s.config.nodeId s.db
  refine later_withDb ?_ ?_
  · rw [h.clusterPeer]
    exact .refl _
  · rw [h.outbox]
    exact OldPuts.refl _

theorem later_createBucket {s : AppState} {db : Db} {name : Text} {ownerAccountId : Int}
    {etagType : EtagType} (h : createBucket s.db name ownerAccountId etagType = some db) :
    Later s { s with db := db } := by
  refine later_withDb ?_ (noNewPut_createBucket h).puts
  obtain ⟨inserted, hins, rfl⟩ := Option.map_eq_some_iff.mp h
  rw [grantOwnerRole_peer, (Db.insertBucket_eq hins).2.1]
  exact .refl _

theorem later_hardPurge {s t : AppState} {now : Instant} {id : Int} {unlinkFails : Bool}
    (h : hardPurgeObject s now id unlinkFails = some t) : Later s t := by
  have hputs := (noNewPut_hardPurge h).puts
  obtain ⟨record, _, rfl⟩ := Option.map_eq_some_iff.mp h
  exact later_of_oldPuts rfl (.refl _) hputs

/-- Peers stay active, and PUT jobs are for peers, wherever they have got to. -/
structure Inv (s : State) : Prop where
  active : ∀ p ∈ s.app.db.clusterPeer.rows, p.isActive = true
  rows : ∀ r ∈ s.app.db.replicationOutbox.rows, r.operation = .put → IsPeer s.app r.peerId
  held : ∀ job ∈ s.held, job.operation = .put → IsPeer s.app job.peerId
  delivered : ∀ job ∈ s.delivered, job.operation = .put → IsPeer s.app job.peerId

theorem Inv.later {s t : State} (h : Inv s) (hlater : Later s.app t.app)
    (hheld : ∀ job ∈ t.held, job ∈ s.held)
    (hdelivered : ∀ job ∈ t.delivered, job ∈ s.held ∨ job ∈ s.delivered) : Inv t where
  active := hlater.peers.active h.active
  rows r hr hput := by
    rcases hlater.puts r hr hput with ⟨i, hi, hiput, hid⟩ | hpeer
    · rw [← hid]
      exact (h.rows i hi hiput).later hlater
    · exact hpeer
  held job hjob hput := (h.held job (hheld job hjob) hput).later hlater
  delivered job hjob hput := by
    rcases hdelivered job hjob with hjob | hjob
    · exact (h.held job hjob hput).later hlater
    · exact (h.delivered job hjob hput).later hlater

/-- A change of the node that leaves the worker alone. -/
theorem Inv.app {s : State} {app : AppState} (h : Inv s) (hlater : Later s.app app) :
    Inv { s with app := app } :=
  h.later hlater (fun _ hjob => hjob) fun _ hjob => Or.inr hjob

theorem inv_claim {s : State} (h : Inv s) (now : Instant) :
    Inv { s.withDb (claimOutboxJobs s.app.db now 50).2 with
      held := (claimOutboxJobs s.app.db now 50).1 } := by
  have hlater : Later s.app { s.app with db := (claimOutboxJobs s.app.db now 50).2 } :=
    later_withDb (.refl _) (oldPuts_claim _ _ _)
  have hold : Inv { s.withDb (claimOutboxJobs s.app.db now 50).2 with held := [] } :=
    h.later hlater (fun _ hjob => by cases hjob) fun _ hjob => Or.inr hjob
  refine ⟨hold.active, hold.rows, fun job hjob hput => ?_, hold.delivered⟩
  obtain ⟨r, hr, p, _, rfl⟩ := mem_claimOutboxJobs hjob
  exact (h.rows r (mem_claimRows hr).1 hput).later hlater

theorem inv_deliver {P : Platform} {s t : State} {acked : Bool} {now : Instant} (h : Inv s)
    (hstep : step P s (.deliver acked now) = some t) : Inv t := by
  cases hheld : s.held with
  | nil =>
    simp only [step, hheld] at hstep
    cases hstep
  | cons job rest =>
    simp only [step, hheld, Option.some.injEq] at hstep
    subst hstep
    refine h.later (later_withDb ?_ ?_) (fun j hj => ?_) (fun j hj => ?_)
    · split_ifs <;> exact .refl _
    · split_ifs
      · exact oldPuts_complete _ _
      · exact oldPuts_fail _ _ _
    · rw [hheld]
      exact List.mem_cons_of_mem job hj
    · rw [hheld]
      by_cases hacked : acked = true
      · simp only [hacked, if_true, List.mem_cons] at hj
        rcases hj with rfl | hj
        · exact Or.inl List.mem_cons_self
        · exact Or.inr hj
      · simp only [hacked, Bool.false_eq_true, if_false] at hj
        exact Or.inr hj

theorem inv_step {P : Platform} {s t : State} {a : Action} (h : Inv s)
    (hstep : step P s a = some t) : Inv t := by
  cases a with
  | upload put =>
    cases hstep
    exact h.app (later_upload P s.app put)
  | delete q now key bucketId fails =>
    cases hstep
    exact h.app (later_delete q s.app now key bucketId fails)
  | edit edit =>
    cases hstep
    exact h.app (later_edit s.app edit)
  | createBucket name ownerAccountId etagType =>
    obtain ⟨db, hdb, rfl⟩ := Option.map_eq_some_iff.mp hstep
    exact h.app (later_createBucket hdb)
  | upsertPeer id endpoint =>
    cases hstep
    exact h.app (later_withDb (keepsPeers_upsert _ _ _) (OldPuts.refl _))
  | claim now =>
    simp only [step] at hstep
    split_ifs at hstep
    cases hstep
    exact inv_claim h now
  | deliver acked now => exact inv_deliver h hstep
  | hardPurge now id unlinkFails =>
    obtain ⟨app, happ, rfl⟩ := Option.map_eq_some_iff.mp hstep
    exact h.app (later_hardPurge happ)
  | restart clusterPeers grpcBindAddr =>
    cases hstep
    refine h.later (later_withDb (keepsPeers_startNode _ _) (noNewPut_startNode _ _).puts)
      (fun _ hjob => by cases hjob) fun _ hjob => Or.inr hjob

theorem inv_start (nodeId : Text) : Inv (start nodeId) where
  active p hp := by cases hp
  rows r hr := by cases hr
  held job hjob := by cases hjob
  delivered job hjob := by cases hjob

/-- The new rows of an enqueue: one for each listed peer. -/
theorem mem_enqueueAll_new {now : Instant} {objectId : Int} {filepathUuid etag : Text}
    {operation : OutboxOperation} {peers : List ClusterPeer} {t : OutboxTable} {p : ClusterPeer}
    (hp : p ∈ peers) :
    ∃ id, t.nextId ≤ id ∧ OutboxTable.newJob id p.id objectId filepathUuid etag operation now ∈
      (enqueueAll now objectId filepathUuid etag operation t peers).rows := by
  induction peers generalizing t with
  | nil => cases hp
  | cons q rest ih =>
    rcases List.mem_cons.mp hp with rfl | hp
    · refine ⟨t.nextId, le_refl _, subset_enqueueAll _ _ _ _ _ rest _ ?_⟩
      exact List.mem_append_right _ (List.mem_singleton.mpr rfl)
    · obtain ⟨id, hid, hmem⟩ := ih (t := t.insert q.id objectId filepathUuid etag operation now) hp
      have hnext : (t.insert q.id objectId filepathUuid etag operation now).nextId =
        t.nextId + 1 := rfl
      exact ⟨id, by omega, hmem⟩

/-- A purge enqueues its DELETE for the listed peers, and for no others. -/
theorem deleteEnqueued_purge {s : AppState} {now : Instant} {unlinkFails : ObjectRecord → Bool}
    {record : ObjectRecord} {peerId : Text} :
    DeleteEnqueued s.db (purgeRow now unlinkFails s record).db peerId record.filepath ↔
      ∃ p ∈ targetPeers s.db record.id s.config.nodeId, p.id = peerId := by
  have hrows : (purgeRow now unlinkFails s record).db.replicationOutbox =
      (enqueueAll now record.id record.filepath record.etag .delete s.db.replicationOutbox
        (targetPeers s.db record.id s.config.nodeId)).clearObjects
          (s.db.object.rows.filter fun r => r.id == record.id) := rfl
  unfold DeleteEnqueued
  rw [hrows]
  constructor
  · intro h
    obtain ⟨j, hj, hnew, _, hpeer, _⟩ := h
    have hold : ∃ i ∈ (enqueueAll now record.id record.filepath record.etag .delete
        s.db.replicationOutbox (targetPeers s.db record.id s.config.nodeId)).rows,
        i.id = j.id ∧ i.peerId = j.peerId := by
      rcases mem_updateRows.mp hj with ⟨hj, _⟩ | ⟨i, hi, _, rfl⟩
      · exact ⟨j, hj, rfl, rfl⟩
      · exact ⟨i, hi, rfl, rfl⟩
    obtain ⟨i, hi, hid, hip⟩ := hold
    rcases mem_enqueueAll hi with hi | ⟨p, hp, n, rfl⟩
    · have hlt := s.db.replicationOutbox.id_lt i hi
      omega
    · exact ⟨p, hp, hip.trans hpeer⟩
  · intro h
    obtain ⟨p, hp, rfl⟩ := h
    have hjob : ∃ n, s.db.replicationOutbox.nextId ≤ n ∧
        OutboxTable.newJob n p.id record.id record.filepath record.etag .delete now ∈
          (enqueueAll now record.id record.filepath record.etag .delete s.db.replicationOutbox
            (targetPeers s.db record.id s.config.nodeId)).rows := mem_enqueueAll_new hp
    obtain ⟨n, hn, hmem⟩ := hjob
    have hkept := exists_updateRows
      (fun j : OutboxRow => (j.id, j.operation, j.peerId, j.filepathUuid))
      (fun j => (s.db.object.rows.filter fun r => r.id == record.id).any fun o =>
        j.objectId == some o.id)
      (f := fun j => { j with objectId := none }) (fun _ => rfl) hmem
    obtain ⟨j, hj, heq⟩ := hkept
    simp only [OutboxTable.newJob, Prod.mk.injEq] at heq
    obtain ⟨hid, hop, hpeer, hpath⟩ := heq
    exact ⟨j, hj, by rw [hid]; exact hn, hop, hpeer, hpath⟩

/-- The listed peers, when all are active: those that the bucket goes to. -/
theorem targetPeers_iff {s : AppState} {record : ObjectRecord} {peerId : Text}
    (hactive : ∀ p ∈ s.db.clusterPeer.rows, p.isActive = true) (hpeer : IsPeer s peerId)
    (hrecord : getObjectById s.db record.id = some record) :
    (∃ p ∈ targetPeers s.db record.id s.config.nodeId, p.id = peerId) ↔
      peerShouldReceiveBucket s.db peerId record.bucketId = true := by
  have hbucket : bucketOfObject s.db record.id = s.db.bucket.byId record.bucketId := by
    unfold bucketOfObject
    rw [hrecord]
    rfl
  unfold peerShouldReceiveBucket
  rw [Option.any_eq_true]
  constructor
  · intro h
    obtain ⟨p, hp, rfl⟩ := h
    obtain ⟨b, hb, _, _, _, hreceives⟩ := mem_targetPeers.mp hp
    exact ⟨b, by rw [← hbucket]; exact hb, hreceives⟩
  · intro h
    obtain ⟨b, hb, hreceives⟩ := h
    obtain ⟨hremote, p, hp, rfl⟩ := hpeer
    exact ⟨p, mem_targetPeers.mpr
      ⟨b, by rw [hbucket]; exact hb, hp, hactive p hp, hremote, hreceives⟩, rfl⟩

/-- In every run, a hard purge enqueues a DELETE for a peer that a PUT was delivered to, of
this object or another one, exactly when the bucket of the object still goes to the peer. -/
theorem purge_deletes_at_configured (P : Platform) (nodeId : Text) (s t : State) (now : Instant)
    (id : Int) (unlinkFails : Bool) (record : ObjectRecord) (job : OutboxJob)
    (hrun : Run (step P) anyAction (start nodeId) s)
    (hrecord : getObjectById s.app.db id = some record)
    (hstep : step P s (.hardPurge now id unlinkFails) = some t)
    (hjob : job ∈ s.delivered) (hput : job.operation = .put) :
    DeleteEnqueued s.app.db t.app.db job.peerId record.filepath ↔
      peerShouldReceiveBucket s.app.db job.peerId record.bucketId = true := by
  have hinv : Inv s := hrun.invariant (fun _ _ _ h _ hnext => inv_step h hnext) (inv_start nodeId)
  have hid : record.id = id := (getObjectById_eq_some.mp hrecord).2
  subst hid
  simp only [step, hardPurgeObject, hrecord, Option.map_some, Option.some.injEq] at hstep
  subst hstep
  rw [deleteEnqueued_purge]
  exact targetPeers_iff hinv.active (hinv.delivered job hjob hput) hrecord

def peer : Text := "node-2".toList

/-- An upload that was delivered to its one peer, and then an edit. -/
def deliveredThen (edit : Edit) : List Action :=
  [.upsertPeer peer "10.0.0.2:9000".toList,
    .upload ⟨Instant.epoch, Uuid.numbered 1, ['k'], [], [some [97]], none, {}⟩,
    .claim Instant.epoch, .deliver true Instant.epoch, .edit edit]

def afterEdit (edit : Edit) : State :=
  (exec (step Platform.sample) (start "node-1".toList) (deliveredThen edit)).getD
    (start "node-1".toList)

/-- An edit that keeps the peer keeps its DELETE. -/
theorem purge_deletes_at_kept_peer :
    ∃ t record job, step Platform.sample
        (afterEdit (.assignBucketNode 1 peer 1 .soft)) (.hardPurge Instant.epoch 1 false) = some t ∧
      (DeleteEnqueued (afterEdit (.assignBucketNode 1 peer 1 .soft)).app.db t.app.db
          (job : OutboxJob).peerId (record : ObjectRecord).filepath ↔
        peerShouldReceiveBucket (afterEdit (.assignBucketNode 1 peer 1 .soft)).app.db job.peerId
          record.bucketId = true) :=
  ⟨_, _, _, rfl, purge_deletes_at_configured Platform.sample "node-1".toList
    (afterEdit (.assignBucketNode 1 peer 1 .soft)) _ Instant.epoch 1 false _ _
    (run_of_exec (show exec (step Platform.sample) _
      (deliveredThen (.assignBucketNode 1 peer 1 .soft)) = some _ from rfl))
    rfl rfl List.mem_cons_self rfl⟩

/-- The bucket is limited to no peer after its object was delivered to one: the purge
enqueues nothing there. -/
theorem purge_misses_delivered_peer :
    ∃ s t job record, Run (step Platform.sample) anyAction (start "node-1".toList) s ∧
      job ∈ s.delivered ∧ job.operation = .put ∧ job.peerId = peer ∧
      getObjectById s.app.db 1 = some record ∧ job.filepathUuid = some record.filepath ∧
      step Platform.sample s (.hardPurge Instant.epoch 1 false) = some t ∧
      ¬ DeleteEnqueued s.app.db t.app.db peer record.filepath := by
  refine ⟨afterEdit (.setBucketReplication 1 false []), _, _, _,
    run_of_exec (show exec (step Platform.sample) _
      (deliveredThen (.setBucketReplication 1 false [])) = some _ from rfl),
    List.mem_cons_self, rfl, rfl, rfl, rfl, rfl, fun h => ?_⟩
  obtain ⟨j, hj, _⟩ := h
  cases hj

end MyS3.PurgeTargets
