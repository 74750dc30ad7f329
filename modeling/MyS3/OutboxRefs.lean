import MyS3.Delivery
import MyS3.UploadRuns
import MyS3.WebChanges

/-!
What PUT jobs refer to. An id that the object table gave out keeps its filepath for as
long as the object is there, so a PUT job with an object has the filepath of it. Only
uploads and replications bring in objects, and only uploads, rehashes and anti-entropy
bring in PUT jobs; everything else leaves the old ones, less some.
-/

namespace MyS3.OutboxRefs

open Library.Strings Library.Tables
open Models Objects Database Engine Repository Outbox Rbac Http S3Routes GrpcServer GrpcClient
open Purge PeerManager Versions UploadRuns ReceiveFailure Delivery

/-- Every row has the id and the filepath of an earlier one. -/
structure OldRows (db db' : Db) : Prop where
  nextId : db.object.nextId ≤ db'.object.nextId
  rows : ∀ r ∈ db'.object.rows, ∃ o ∈ db.object.rows, o.id = r.id ∧ o.filepath = r.filepath

/-- Rows are old ones, or have new ids. -/
structure LaterRows (db db' : Db) : Prop where
  nextId : db.object.nextId ≤ db'.object.nextId
  rows : ∀ r ∈ db'.object.rows,
    (∃ o ∈ db.object.rows, o.id = r.id ∧ o.filepath = r.filepath) ∨ db.object.nextId ≤ r.id

/-- Every PUT job is an earlier one, which may have lost its object. -/
def OldPuts (t t' : OutboxTable) : Prop :=
  ∀ j ∈ t'.rows, j.operation = .put → ∃ i ∈ t.rows, i.operation = .put ∧ i.peerId = j.peerId ∧
    i.filepathUuid = j.filepathUuid ∧ (j.objectId = none ∨ j.objectId = i.objectId)

/-- A change that brings in neither an object nor a PUT job. -/
structure NoNewPut (db db' : Db) : Prop where
  rows : OldRows db db'
  puts : OldPuts db.replicationOutbox db'.replicationOutbox

theorem oldRows_of_eq {db db' : Db} (h : db'.object = db.object) : OldRows db db' where
  nextId := by rw [h]
  rows r hr := ⟨r, by rwa [h] at hr, rfl, rfl⟩

theorem OldRows.trans {db db' db'' : Db} (h : OldRows db db') (h' : OldRows db' db'') :
    OldRows db db'' where
  nextId := le_trans h.nextId h'.nextId
  rows r hr := by
    obtain ⟨o, ho, hid, hpath⟩ := h'.rows r hr
    obtain ⟨a, ha, haid, hapath⟩ := h.rows o ho
    exact ⟨a, ha, haid.trans hid, hapath.trans hpath⟩

theorem OldRows.later {db db' : Db} (h : OldRows db db') : LaterRows db db' where
  nextId := h.nextId
  rows r hr := Or.inl (h.rows r hr)

theorem OldPuts.refl (t : OutboxTable) : OldPuts t t :=
  fun j hj hput => ⟨j, hj, hput, rfl, rfl, Or.inr rfl⟩

theorem OldPuts.trans {t t' t'' : OutboxTable} (h : OldPuts t t') (h' : OldPuts t' t'') :
    OldPuts t t'' := by
  intro j hj hput
  obtain ⟨i, hi, hiput, hpeer, hpath, hobject⟩ := h' j hj hput
  obtain ⟨k, hk, hkput, hpeer', hpath', hobject'⟩ := h i hi hiput
  refine ⟨k, hk, hkput, hpeer'.trans hpeer, hpath'.trans hpath, ?_⟩
  rcases hobject with hnone | hsame
  · exact Or.inl hnone
  · rw [hsame]
    exact hobject'

/-- Rows that keep what a PUT job says, or are dropped. -/
theorem oldPuts_updateWhere (t : OutboxTable) (p : OutboxRow → Bool) (f : OutboxRow → OutboxRow)
    (hid : ∀ r, (f r).id = r.id) (hf : ∀ r, (f r).operation = r.operation ∧
      (f r).peerId = r.peerId ∧ (f r).filepathUuid = r.filepathUuid ∧
      ((f r).objectId = none ∨ (f r).objectId = r.objectId)) :
    OldPuts t (t.updateWhere p f hid) := by
  intro j hj hput
  rcases mem_updateRows.mp hj with ⟨hj, _⟩ | ⟨a, ha, _, rfl⟩
  · exact ⟨j, hj, hput, rfl, rfl, Or.inr rfl⟩
  · obtain ⟨hop, hpeer, hpath, hobject⟩ := hf a
    exact ⟨a, ha, hop ▸ hput, hpeer.symm, hpath.symm, hobject⟩

theorem oldPuts_deleteWhere (t : OutboxTable) (p : OutboxRow → Bool) :
    OldPuts t (t.deleteWhere p) :=
  fun j hj hput => ⟨j, List.mem_of_mem_filter hj, hput, rfl, rfl, Or.inr rfl⟩

theorem oldPuts_claim (db : Db) (now : Instant) (limit : Nat) :
    OldPuts db.replicationOutbox (claimOutboxJobs db now limit).2.replicationOutbox :=
  oldPuts_updateWhere _ _ (fun r => { r with status := .inFlight }) (fun _ => rfl)
    fun _ => ⟨rfl, rfl, rfl, Or.inr rfl⟩

theorem oldPuts_fail (db : Db) (now : Instant) (id : Int) :
    OldPuts db.replicationOutbox (failOutboxJob db now id).replicationOutbox :=
  oldPuts_updateWhere _ _ (failRow now) (fun _ => rfl) fun _ => ⟨rfl, rfl, rfl, Or.inr rfl⟩

theorem oldPuts_complete (db : Db) (id : Int) :
    OldPuts db.replicationOutbox (completeOutboxJob db id).replicationOutbox :=
  oldPuts_deleteWhere _ _

theorem oldPuts_enqueueDelete (db : Db) (now : Instant) (objectId : Int)
    (filepathUuid etag excludePeerId : Text) :
    OldPuts db.replicationOutbox (enqueueDeleteForActivePeers db now objectId filepathUuid etag
      excludePeerId).replicationOutbox := by
  intro j hj hput
  rcases mem_enqueueAll hj with hj | ⟨p, _, id, rfl⟩
  · exact ⟨j, hj, hput, rfl, rfl, Or.inr rfl⟩
  · cases hput

theorem noNewPut_of_eq {db db' : Db} (hobject : db'.object = db.object)
    (hputs : OldPuts db.replicationOutbox db'.replicationOutbox) : NoNewPut db db' :=
  ⟨oldRows_of_eq hobject, hputs⟩

theorem NoNewPut.refl (db : Db) : NoNewPut db db := noNewPut_of_eq rfl (OldPuts.refl _)

theorem NoNewPut.trans {db db' db'' : Db} (h : NoNewPut db db') (h' : NoNewPut db' db'') :
    NoNewPut db db'' := ⟨h.rows.trans h'.rows, h.puts.trans h'.puts⟩

theorem noNewPut_updateObjects (db : Db) (p : ObjectRecord → Bool) (f : ObjectTable.SafeUpdate) :
    NoNewPut db (db.updateObjects p f) := by
  refine ⟨⟨le_refl _, fun r hr => ?_⟩, OldPuts.refl _⟩
  rcases mem_updateRows.mp hr with ⟨hr, _⟩ | ⟨a, ha, _, rfl⟩
  · exact ⟨r, hr, rfl, rfl⟩
  · exact ⟨a, ha, (f.id_eq a).symm, (f.filepath_eq a).symm⟩

theorem noNewPut_updateObjectsChecked {db db' : Db} {p : ObjectRecord → Bool}
    {f : ObjectTable.CheckedUpdate} (h : db.updateObjectsChecked p f = some db') :
    NoNewPut db db' := by
  obtain ⟨hrows, _, houtbox, hnext⟩ := Db.updateObjectsChecked_rows h
  refine ⟨⟨hnext.ge, fun r hr => ?_⟩, houtbox ▸ OldPuts.refl _⟩
  rw [hrows] at hr
  rcases mem_updateRows.mp hr with ⟨hr, _⟩ | ⟨a, ha, _, rfl⟩
  · exact ⟨r, hr, rfl, rfl⟩
  · exact ⟨a, ha, (f.id_eq a).symm, (f.filepath_eq a).symm⟩

theorem noNewPut_deleteObjects (db : Db) (p : ObjectRecord → Bool) :
    NoNewPut db (db.deleteObjects p) := by
  refine ⟨⟨le_refl _, fun r hr => ⟨r, (Db.mem_deleteObjects.mp hr).1, rfl, rfl⟩⟩, ?_⟩
  exact oldPuts_updateWhere _ _ (fun r => { r with objectId := none }) (fun _ => rfl)
    fun _ => ⟨rfl, rfl, rfl, Or.inl rfl⟩

theorem noNewPut_purgeRow (now : Instant) (unlinkFails : ObjectRecord → Bool) (s : AppState)
    (obj : ObjectRecord) : NoNewPut s.db (purgeRow now unlinkFails s obj).db := by
  have henqueue : NoNewPut s.db (enqueueDeleteForActivePeers s.db now obj.id obj.filepath obj.etag
      s.config.nodeId) := noNewPut_of_eq rfl (oldPuts_enqueueDelete s.db now _ _ _ _)
  exact henqueue.trans (noNewPut_deleteObjects _ _)

theorem noNewPut_hardPurge {s t : AppState} {now : Instant} {id : Int} {unlinkFails : Bool}
    (h : hardPurgeObject s now id unlinkFails = some t) : NoNewPut s.db t.db := by
  obtain ⟨record, _, rfl⟩ := Option.map_eq_some_iff.mp h
  exact noNewPut_purgeRow _ _ _ _

theorem noNewPut_purgeOnce (s : AppState) (now : Instant)
    (txFails unlinkFails : ObjectRecord → Bool) :
    NoNewPut s.db (purgeOnce s now txFails unlinkFails).db := by
  have hrows : ∀ (expired : List ObjectRecord) (t : AppState), NoNewPut t.db
      (purgeRows now txFails unlinkFails t expired).db := by
    intro expired
    induction expired with
    | nil => exact fun t => NoNewPut.refl t.db
    | cons obj rest ih =>
      intro t
      unfold purgeRows
      split_ifs
      · exact NoNewPut.refl t.db
      · exact (noNewPut_purgeRow now unlinkFails t obj).trans (ih _)
  unfold purgeOnce
  split
  · exact NoNewPut.refl s.db
  · exact hrows _ s

theorem noNewPut_softDelete (q : Limit1 ObjectRecord) (db : Db) (now : Instant) (key : Text)
    (bucketId : Option Int) :
    NoNewPut db (softDeleteObjectByFilename q db now key bucketId).2 := by
  unfold softDeleteObjectByFilename
  split
  · exact NoNewPut.refl db
  · exact noNewPut_updateObjects _ _ _

theorem noNewPut_softDeletePrefix (db : Db) (now : Instant) (bucketId : Int) (pre : Text) :
    NoNewPut db (softDeletePrefix db now bucketId pre).2 := noNewPut_updateObjects _ _ _

theorem noNewPut_updateObjectEtag {db db' : Db} {now : Instant} {id : Int} {etagType : EtagType}
    {etag : Text} (h : updateObjectEtag db now id etagType etag = some db') :
    NoNewPut db db' := by
  unfold updateObjectEtag at h
  split_ifs at h
  rw [← Option.some.inj h]
  exact noNewPut_updateObjects _ _ _

theorem noNewPut_restore {db db' : Db} {now : Instant} {id : Int}
    (h : restoreObject db now id = .ok db') : NoNewPut db db' := by
  unfold restoreObject at h
  split at h
  · cases h
  split_ifs at h
  split at h
  · cases h
  · rename_i hupdate
    cases h
    exact noNewPut_updateObjectsChecked hupdate

theorem noNewPut_renamePrefix {db db' : Db} {now : Instant} {bucketId : Int}
    {fromPrefix toPrefix : Text} {n : Nat}
    (h : renamePrefix db now bucketId fromPrefix toPrefix = .ok (n, db')) : NoNewPut db db' := by
  have hplan : ∀ (plan : List (Int × Text)) (t t' : Db), applyRenames now t plan = some t' →
      NoNewPut t t' := by
    intro plan
    induction plan with
    | nil =>
      intro t t' happly
      cases happly
      exact NoNewPut.refl t
    | cons e rest ih =>
      intro t t' happly
      obtain ⟨next, hnext, hrest⟩ := Option.bind_eq_some_iff.mp happly
      exact (noNewPut_updateObjectsChecked hnext).trans (ih next t' hrest)
  unfold renamePrefix at h
  split at h
  · cases h
    exact NoNewPut.refl db
  simp only at h
  split_ifs at h
  split at h
  · cases h
  · split at h
    · cases h
    · rename_i happly
      cases h
      exact hplan _ _ _ happly

theorem noNewPut_createBucket {db db' : Db} {name : Text} {owner : Int} {etagType : EtagType}
    (h : createBucket db name owner etagType = some db') : NoNewPut db db' := by
  obtain ⟨inserted, hins, rfl⟩ := Option.map_eq_some_iff.mp h
  obtain ⟨hobject, _, houtbox, _⟩ := Db.insertBucket_eq hins
  refine noNewPut_of_eq (by rw [grantOwnerRole_object, hobject]) ?_
  rw [grantOwnerRole_outbox, houtbox]
  exact OldPuts.refl _

theorem noNewPut_startNode (db : Db) (config : ClusterConfig) :
    NoNewPut db (startNode db config) := by
  refine noNewPut_of_eq (startNode_object db config) ?_
  rw [startNode_outbox]
  exact OldPuts.refl _

/-- An id that was given out, and whose object, if it is there, has this filepath. -/
def Names (db : Db) (id : Int) (filepath : Option Text) : Prop :=
  id < db.object.nextId ∧ ∀ o ∈ db.object.rows, o.id = id → filepath = some o.filepath

/-- PUT jobs have the filepath of their object. -/
def Linked (db : Db) : Prop :=
  ∀ j ∈ db.replicationOutbox.rows, j.operation = .put → ∀ id, j.objectId = some id →
    Names db id j.filepathUuid

theorem Names.later {db db' : Db} {id : Int} {filepath : Option Text} (h : Names db id filepath)
    (hlater : LaterRows db db') : Names db' id filepath := by
  refine ⟨lt_of_lt_of_le h.1 hlater.nextId, fun r hr hid => ?_⟩
  rcases hlater.rows r hr with ⟨o, ho, hoid, hpath⟩ | hnew
  · rw [← hpath]
    exact h.2 o ho (hoid.trans hid)
  · exact absurd h.1 (not_lt.mpr (hid ▸ hnew))

theorem names_of_mem {db : Db} {o : ObjectRecord} (ho : o ∈ db.object.rows) :
    Names db o.id (some o.filepath) := by
  refine ⟨db.object.id_lt o ho, fun r hr hid => ?_⟩
  rw [db.object.eq_of_id hr ho hid]

theorem Linked.later {db db' : Db} (h : Linked db) (hlater : LaterRows db db')
    (hputs : OldPuts db.replicationOutbox db'.replicationOutbox) : Linked db' := by
  intro j hj hput id hid
  obtain ⟨i, hi, hiput, _, hpath, hobject⟩ := hputs j hj hput
  rcases hobject with hnone | hsame
  · rw [hnone] at hid
    cases hid
  · rw [← hpath]
    exact (h i hi hiput id (hsame ▸ hid)).later hlater

theorem Linked.noNewPut {db db' : Db} (h : Linked db) (hchange : NoNewPut db db') : Linked db' :=
  h.later hchange.rows.later hchange.puts

theorem mem_enqueuePutForPeer {db db' : Db} {now : Instant} {peerId : Text} {objectId : Int}
    {filepathUuid etag : Text}
    (h : enqueuePutForPeer db now peerId objectId filepathUuid etag = some db') {j : OutboxRow}
    (hj : j ∈ db'.replicationOutbox.rows) : j ∈ db.replicationOutbox.rows ∨
      ∃ n, j = OutboxTable.newJob n peerId objectId filepathUuid etag .put now := by
  unfold enqueuePutForPeer at h
  split_ifs at h
  · cases h
    exact Or.inl hj
  · cases h
    rcases List.mem_append.mp hj with hj | hj
    · exact Or.inl hj
    · exact Or.inr ⟨_, List.mem_singleton.mp hj⟩

theorem enqueuePutForPeer_object {db db' : Db} {now : Instant} {peerId : Text} {objectId : Int}
    {filepathUuid etag : Text}
    (h : enqueuePutForPeer db now peerId objectId filepathUuid etag = some db') :
    db'.object = db.object := by
  unfold enqueuePutForPeer at h
  split_ifs at h <;> cases h <;> rfl

theorem Linked.enqueuePutForPeer {db db' : Db} (h : Linked db) {now : Instant} {peerId : Text}
    {objectId : Int} {filepathUuid etag : Text}
    (hnames : Names db objectId (some filepathUuid))
    (henqueue : Outbox.enqueuePutForPeer db now peerId objectId filepathUuid etag = some db') :
    Linked db' := by
  have hobject := enqueuePutForPeer_object henqueue
  intro j hj hput id hid
  rcases mem_enqueuePutForPeer henqueue hj with hj | ⟨n, rfl⟩
  · exact (h j hj hput id hid).later (oldRows_of_eq hobject).later
  · cases hid
    exact hnames.later (oldRows_of_eq hobject).later

/-- The metadata of a claimed job names the filepath of its outbox row. -/
theorem filepathUuid_of_putMetadata {P : Platform} {db : Db} (h : Linked db) {r : OutboxRow}
    (hr : r ∈ db.replicationOutbox.rows) (hput : r.operation = .put) {p : ClusterPeer}
    {m : ObjectMetadata} (hm : putMetadata P (jobOf db r p) = some m) :
    r.filepathUuid = some m.filepathUuid := by
  cases hobject : r.objectId.bind (getObjectById db) with
  | some o =>
    rw [putMetadata_jobOf P hobject] at hm
    obtain ⟨id, hid, hget⟩ := Option.bind_eq_some_iff.mp hobject
    obtain ⟨ho, hoid⟩ := getObjectById_eq_some.mp hget
    rw [(h r hr hput id hid).2 o ho hoid, ← Option.some.inj hm]
    rfl
  | none =>
    obtain ⟨filepath, hpath, rfl⟩ := Option.map_eq_some_iff.mp hm
    simpa [jobOf, hobject] using hpath

/-- A new row has a new id. -/
theorem laterRows_of_row {db db' : Db} {row : ObjectRecord} (hid : row.id = db.object.nextId)
    (hnext : db'.object.nextId = db.object.nextId + 1)
    (hrows : ∀ r ∈ db'.object.rows,
      (∃ o ∈ db.object.rows, o.id = r.id ∧ o.filepath = r.filepath) ∨ r = row) :
    LaterRows db db' where
  nextId := by omega
  rows r hr := by
    rcases hrows r hr with hold | rfl
    · exact Or.inl hold
    · exact Or.inr hid.ge

/-- An upload keeps the PUT jobs linked, whatever its outcome. -/
theorem linked_upload (P : Platform) {s : AppState} (h : Linked s.db) (p : Put) :
    Linked (p.run P s).2.db ∧ LaterRows s.db (p.run P s).2.db ∧
      (p.run P s).2.config = s.config := by
  unfold Put.run
  rcases putObjectKeyedInBucket_cases P s p.now p.uuid p.key p.headers p.body p.bucketId p.faults
    with ⟨_, href⟩ | ⟨b, default, _, _, _, _, hup⟩
  · have hchange : NoNewPut s.db (putObjectKeyedInBucket P s p.now p.uuid p.key p.headers p.body
        p.bucketId p.faults).2.db := by
      rcases href.db with hdb | ⟨id, _, hdb⟩
      · rw [hdb]
        exact NoNewPut.refl s.db
      · rw [hdb]
        exact noNewPut_softDelete _ _ _ _ _
    exact ⟨h.noNewPut hchange, hchange.rows.later, href.config⟩
  · have hrecycled := (noNewPut_softDelete Limit1.first s.db p.now p.key (some b)).rows
    have hlater := laterRows_of_row rfl hup.nextId fun r hr => by
      rw [hup.rows, List.mem_append, List.mem_singleton] at hr
      exact hr.imp_left (hrecycled.rows r)
    have hrow : (uploadedRow P p.now p.uuid p.key (resolveEtagType p.headers default)
        (content p.body) b).record s.db.object.nextId ∈ (p.run P s).2.db.object.rows := by
      unfold Put.run
      rw [hup.rows]
      exact List.mem_append_right _ (List.mem_singleton.mpr rfl)
    refine ⟨?_, hlater, hup.config⟩
    intro j hj hput id hid
    rw [hup.outbox] at hj
    rcases mem_enqueueAll hj with hj | ⟨q, _, n, rfl⟩
    · exact (h j hj hput id hid).later hlater
    · cases hid
      exact names_of_mem hrow

/-- What a job does to the receiver's database: it removes rows, or adds one with the
filepath that a PUT names. -/
structure Processed (P : Platform) (job : OutboxJob) (db db' : Db) : Prop where
  later : LaterRows db db'
  puts : OldPuts db.replicationOutbox db'.replicationOutbox
  rows : ∀ r ∈ db'.object.rows, r ∈ db.object.rows ∨
    job.operation = .put ∧ ∃ m, putMetadata P job = some m ∧ r.filepath = m.filepathUuid

theorem processed_of_object_eq {P : Platform} {job : OutboxJob} {db db' : Db}
    (hobject : db'.object = db.object)
    (houtbox : db'.replicationOutbox = db.replicationOutbox) : Processed P job db db' where
  later := (oldRows_of_eq hobject).later
  puts := houtbox ▸ OldPuts.refl _
  rows _ hr := Or.inl (hobject ▸ hr)

theorem processed_replicateObject {P : Platform} {remote : AppState} {now : Instant}
    {job : OutboxJob} {m : ObjectMetadata} {stream : List (Option ObjectChunk)}
    {faults : ReceiveFaults} (hput : job.operation = .put) (hm : putMetadata P job = some m)
    (hstream : ∀ c, collectChunks stream = some c → c.1 = some m) :
    Processed P job remote.db (replicateObject P remote now stream faults).2.db := by
  have houtbox := replicateObject_outbox P remote now stream faults
  rcases hcall : replicateObject P remote now stream faults with ⟨status | ack, s'⟩
  · rw [hcall] at houtbox
    exact processed_of_object_eq (replicateObject_error_object hcall) houtbox
  · rw [hcall] at houtbox
    obtain ⟨m', chunks, _, _, hcollect, _⟩ := replicateObject_ok hcall
    obtain rfl : m' = m := Option.some.inj (hstream _ hcollect)
    rcases replicateObject_ok_cases hcollect hcall with ⟨_, hobject⟩ | ⟨row, hrow⟩
    · exact processed_of_object_eq hobject houtbox
    · refine ⟨laterRows_of_row hrow.id hrow.nextId ?_, ?_, ?_⟩
      · intro r hr
        exact ((hrow.rows r).mp hr).imp_left fun hold => ⟨r, hold, rfl, rfl⟩
      · exact houtbox ▸ OldPuts.refl _
      · intro r hr
        rcases (hrow.rows r).mp hr with hold | rfl
        · exact Or.inl hold
        · exact Or.inr ⟨hput, m', hm, hrow.filepath⟩

/-- Every delivery, whatever its faults. -/
theorem processed_processJob (P : Platform) (s remote : AppState) (now : Instant)
    (job : OutboxJob) (faults : DeliveryFaults) :
    Processed P job remote.db (processJob P s remote now job faults).2.db := by
  unfold processJob
  split_ifs
  · exact processed_of_object_eq rfl rfl
  split
  · rename_i hput
    unfold replicatePut
    split
    · exact processed_of_object_eq rfl rfl
    · rename_i m hm
      apply processed_replicateObject hput hm
      intro c hc
      rw [collectChunks_putStream] at hc
      split_ifs at hc
      rw [← Option.some.inj hc]
  · unfold replicateDelete
    split
    · exact processed_of_object_eq rfl rfl
    · unfold GrpcServer.deleteObject
      simp only
      split_ifs
      · exact processed_of_object_eq rfl rfl
      · have hdelete := noNewPut_deleteObjects remote.db
        exact ⟨(hdelete _).rows.later, (hdelete _).puts,
          fun r hr => Or.inl (Db.mem_deleteObjects.mp hr).1⟩

theorem processJob_config (P : Platform) (s remote : AppState) (now : Instant)
    (job : OutboxJob) (faults : DeliveryFaults) :
    (processJob P s remote now job faults).2.config = remote.config := by
  unfold processJob
  split_ifs
  · rfl
  split
  · unfold replicatePut
    split
    · rfl
    · exact replicateObject_config P remote now _ _
  · unfold replicateDelete
    split
    · rfl
    · unfold GrpcServer.deleteObject
      simp only
      split_ifs <;> rfl

end MyS3.OutboxRefs
