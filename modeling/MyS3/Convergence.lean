import Mathlib.Data.List.Forall2
import MyS3.GrpcClient
import MyS3.PeerManager
import MyS3.UploadRuns

/-!
What an empty peer holds after the PUT jobs of a sequence of uploads are delivered to
it in order. The sender replaces the version of a key by recycling it, but says
nothing about that to the peer, whose own index then refuses the next version. The
two nodes agree, and every job is acknowledged, exactly when no key is written twice.
-/

namespace MyS3.Convergence

open Library.Strings Library.Tables Library.Paths
open Models Objects Database Engine Repository Outbox Rbac Http S3Routes GrpcServer GrpcClient
open BucketNames UploadRuns PeerManager

/-- The PUT jobs for a peer as a claim makes them, in the order of their ids. -/
def putJobs (db : Db) (peerId : Text) : List OutboxJob :=
  ((db.replicationOutbox.rows.filter (isPutFor peerId)).insertionSort
    fun a b => a.id ≤ b.id).filterMap fun r => (activePeer db r.peerId).map (jobOf db r)

/-- Deliver jobs one after another, without a fault on the way. -/
def deliverAll (P : Platform) (s : AppState) (clock : OutboxJob → Instant) :
    AppState → List OutboxJob → List Bool × AppState
  | b, [] => ([], b)
  | b, job :: rest =>
    let (acked, b') := processJob P s b (clock job) job {}
    let (acks, b'') := deliverAll P s clock b' rest
    (acked :: acks, b'')

/-- ETag and content of the active object under a bucket name and a key. -/
def objectAt (s : AppState) (bucketName key : Text) : Option (Text × Option Bytes) :=
  (getBucketByName s.db bucketName).bind fun b =>
    (getObjectByFilenameInBucket s.db key b.id).map fun r =>
      (r.etag, s.disk (targetFile s r.filepath))

theorem objectAt_eq_some {s : AppState} {name key : Text} {v : Text × Option Bytes} :
    objectAt s name key = some v ↔ ∃ r ∈ s.db.object.rows, r.deletedAt = none ∧
      r.originalFilename = key ∧ bucketNameOf s.db r = some name ∧
      (r.etag, s.disk (targetFile s r.filepath)) = v := by
  unfold objectAt
  rw [Option.bind_eq_some_iff]
  constructor
  · intro h'
    obtain ⟨b, hb, h⟩ := h'
    obtain ⟨hb, hname⟩ := BucketTable.byName_eq_some.mp hb
    obtain ⟨r, hr, hv⟩ := Option.map_eq_some_iff.mp h
    obtain ⟨hr, hkey, hbucket, hd⟩ := getObjectByFilenameInBucket_eq_some.mp hr
    exact ⟨r, hr, hd, hkey, bucketNameOf_eq_some.mpr ⟨b, hb, hbucket.symm, hname⟩, hv⟩
  · intro h'
    obtain ⟨r, hr, hd, hkey, hname, hv⟩ := h'
    obtain ⟨b, hb, hid, hname⟩ := bucketNameOf_eq_some.mp hname
    refine ⟨b, BucketTable.byName_eq_some.mpr ⟨hb, hname⟩, Option.map_eq_some_iff.mpr ⟨r, ?_, hv⟩⟩
    exact getObjectByFilenameInBucket_eq_some.mpr ⟨hr, hkey, hid.symm, hd⟩

/-- A row of the receiver that stands for an object of the sender. -/
structure Copy (a b : AppState) (o r : ObjectRecord) : Prop where
  filepath : r.filepath = o.filepath
  key : r.originalFilename = o.originalFilename
  etag : r.etag = o.etag
  active : r.deletedAt = none
  bucket : bucketNameOf b.db r = bucketNameOf a.db o
  content : b.disk (targetFile b r.filepath) = a.disk (targetFile a o.filepath)

/-- The receiver holds the listed objects of the sender, and nothing else. -/
structure Copies (a b : AppState) (objects : List ObjectRecord) : Prop where
  sent : ∀ o ∈ objects, ∃ r ∈ b.db.object.rows, Copy a b o r
  received : ∀ r ∈ b.db.object.rows, ∃ o ∈ objects, Copy a b o r

/-- An object whose blob is there under a name of its own. -/
def Stored (P : Platform) (a : AppState) (o : ObjectRecord) : Prop :=
  o ∈ a.db.object.rows ∧ IsBlobName P o.filepath ∧
    ∃ data, a.disk (targetFile a o.filepath) = some data ∧ P.digest o.etagType data = o.etag

def keyOf (o : ObjectRecord) : Int × Text := (o.bucketId, o.originalFilename)

/-- Two objects of one node with one bucket name are in one bucket. -/
theorem bucketId_eq_of_name {db : Db} {c o : ObjectRecord} {name : Text}
    (hc : bucketNameOf db c = some name) (ho : bucketNameOf db o = some name) :
    c.bucketId = o.bucketId := by
  obtain ⟨b, hb, hbid, hbname⟩ := bucketNameOf_eq_some.mp hc
  obtain ⟨b', hb', hbid', hbname'⟩ := bucketNameOf_eq_some.mp ho
  rw [← hbid, ← hbid', db.bucket.eq_of_name hb hb' (hbname.trans hbname'.symm)]

/-- A received row is a copy of the object, and the copies before it stay copies. -/
theorem copies_of_received {P : Platform} {a b b' : AppState} {o row : ObjectRecord}
    {data : Bytes} {l : List ObjectRecord}
    (h : Received b b' (objectMetadata P a.db o) data row)
    (hbucket : bucketNameOf a.db o = some (objectMetadata P a.db o).bucket)
    (ho : Stored P a o) (hdata : a.disk (targetFile a o.filepath) = some data)
    (hl : ∀ c ∈ l, Stored P a c) (hnew : ∀ c ∈ l, c.filepath ≠ o.filepath)
    (hcopies : Copies a b l) : Copies a b' (l ++ [o]) := by
  have hkeep : ∀ c ∈ l, ∀ r, Copy a b c r → Copy a b' c r := by
    intro c hc r hcopy
    obtain ⟨name, hname⟩ : ∃ name, bucketNameOf a.db c = some name := by
      obtain ⟨bucket, hb, hid⟩ := a.db.object_bucket c (hl c hc).1
      exact ⟨bucket.name, bucketNameOf_eq_some.mpr ⟨bucket, hb, hid, rfl⟩⟩
    refine { hcopy with bucket := ?_, content := ?_ }
    · rw [hname]
      exact bucketNameOf_mono h.buckets (hcopy.bucket.trans hname)
    · rw [← hcopy.content, targetFile_congr h.config, h.disk]
      apply setFile_other
      intro hpath
      have hsame : r.filepath = o.filepath :=
        absolutePathFor_inj (hcopy.filepath ▸ (hl c hc).2.1) ho.2.1 hpath
      exact hnew c hc (hcopy.filepath.symm.trans hsame)
  have hadded : Copy a b' o row := {
    filepath := h.filepath
    key := h.key
    etag := h.etag
    active := h.active
    bucket := h.bucket.trans hbucket.symm
    content := by
      rw [hdata, h.filepath, targetFile_congr h.config, h.disk]
      exact setFile_same _ _ _ }
  constructor
  · intro c hc
    rcases List.mem_append.mp hc with hc | hc
    · obtain ⟨r, hr, hcopy⟩ := hcopies.sent c hc
      exact ⟨r, (h.rows r).mpr (Or.inl hr), hkeep c hc r hcopy⟩
    · rw [List.mem_singleton.mp hc]
      exact ⟨row, (h.rows row).mpr (Or.inr rfl), hadded⟩
  · intro r hr
    rcases (h.rows r).mp hr with hr | rfl
    · obtain ⟨c, hc, hcopy⟩ := hcopies.received r hr
      exact ⟨c, List.mem_append_left _ hc, hkeep c hc r hcopy⟩
    · exact ⟨o, List.mem_append_right _ List.mem_cons_self, hadded⟩

/-- One delivery of a stored object that the receiver does not have: it is acknowledged
unless the receiver holds an object under its key, and then a copy is added. -/
theorem deliver_one {P : Platform} {a b : AppState} (now : Instant) {job : OutboxJob}
    {o : ObjectRecord} {l : List ObjectRecord} (hput : job.operation = .put)
    (hm : putMetadata P job = some (objectMetadata P a.db o)) (hnames : NamesTrimmed a.db)
    (ho : Stored P a o) (hl : ∀ c ∈ l, Stored P a c) (hnew : ∀ c ∈ l, c.filepath ≠ o.filepath)
    (hcopies : Copies a b l) :
    ((processJob P a b now job {}).1 = true ↔ ∀ c ∈ l, keyOf c ≠ keyOf o) ∧
      ((processJob P a b now job {}).1 = true →
        Copies a (processJob P a b now job {}).2 (l ++ [o])) := by
  obtain ⟨hmem, hname, data, hdisk, hdigest⟩ := ho
  have hbucket := objectMetadata_bucket P hnames hmem
  have hsent : (sentPayloads a (objectMetadata P a.db o) {}).flatten = data := by
    have hread : openRead a.config.storageRoot a.disk (objectMetadata P a.db o).filepathUuid =
      some data := hdisk
    simp only [sentPayloads, hread]
    exact flatten_filePayloads (some data)
  have hcollect : collectChunks (putStream a (objectMetadata P a.db o) {}) =
      some (some (objectMetadata P a.db o), sentPayloads a (objectMetadata P a.db o) {}) :=
    collectChunks_putStream a _ {}
  have hhash : P.digest (objectMetadata P a.db o).hashType
      (sentPayloads a (objectMetadata P a.db o) {}).flatten = (objectMetadata P a.db o).etag := by
    rw [objectMetadata_hashType, hsent]
    exact hdigest
  have habsent : ∀ r ∈ b.db.object.rows, r.filepath ≠ (objectMetadata P a.db o).filepathUuid := by
    intro r hr
    obtain ⟨c, hc, hcopy⟩ := hcopies.received r hr
    rw [hcopy.filepath]
    exact hnew c hc
  have hclean := replicateObject_clean now hcollect hhash
    (EtagType.fromStr_display o.etagType) habsent
  have hkeys : (∀ r ∈ b.db.object.rows, r.deletedAt = none →
      r.originalFilename = (objectMetadata P a.db o).originalFilename →
        bucketNameOf b.db r ≠ some (objectMetadata P a.db o).bucket) ↔
      ∀ c ∈ l, keyOf c ≠ keyOf o := by
    constructor
    · intro h c hc hsame
      obtain ⟨hcbucket, hckey⟩ := Prod.mk.inj hsame
      obtain ⟨r, hr, hcopy⟩ := hcopies.sent c hc
      refine h r hr hcopy.active (hcopy.key.trans hckey) ?_
      rw [hcopy.bucket, ← hbucket]
      unfold bucketNameOf
      rw [hcbucket]
    · intro h r hr _ hrkey hrname
      obtain ⟨c, hc, hcopy⟩ := hcopies.received r hr
      rw [hcopy.bucket] at hrname
      exact h c hc (Prod.ext (bucketId_eq_of_name hrname hbucket) (hcopy.key.symm.trans hrkey))
  have hjob : processJob P a b now job {} =
      let answer := replicateObject P b now (putStream a (objectMetadata P a.db o) {}) {}
      (isAck answer.1, answer.2) := by
    simp only [processJob, hput, replicatePut, hm, Bool.false_eq_true, if_false, Bool.not_false,
      Bool.and_true]
  rw [hjob, ← hkeys, ← hclean]
  rcases hcall : replicateObject P b now (putStream a (objectMetadata P a.db o) {}) {} with
    ⟨status | ack, b'⟩
  · simp [isAck]
  · obtain ⟨_, _, _, _, _, _, hsuccess, _⟩ := replicateObject_ok hcall
    refine ⟨⟨fun _ => ⟨ack, b', rfl⟩, fun _ => hsuccess⟩, fun _ => ?_⟩
    rcases replicateObject_ok_cases hcollect hcall with ⟨⟨r, hr, hpath⟩, _⟩ | ⟨row, hrow⟩
    · exact absurd hpath (habsent r hr)
    · rw [hsent] at hrow
      exact copies_of_received hrow hbucket ⟨hmem, hname, data, hdisk, hdigest⟩ hdisk hl hnew hcopies

/-- A whole sequence of deliveries, on top of the copies of the objects before it. -/
theorem deliverAll_spec {P : Platform} {a b : AppState} (clock : OutboxJob → Instant)
    {jobs : List OutboxJob} {l rest : List ObjectRecord}
    (hjobs : List.Forall₂ (fun job o => job.operation = .put ∧
      putMetadata P job = some (objectMetadata P a.db o)) jobs rest)
    (hnames : NamesTrimmed a.db) (hstored : ∀ c ∈ l ++ rest, Stored P a c)
    (hpaths : ((l ++ rest).map (·.filepath)).Nodup) (hkeys : (l.map keyOf).Nodup)
    (hcopies : Copies a b l) :
    ((∀ ack ∈ (deliverAll P a clock b jobs).1, ack = true) ↔ ((l ++ rest).map keyOf).Nodup) ∧
      ((∀ ack ∈ (deliverAll P a clock b jobs).1, ack = true) →
        Copies a (deliverAll P a clock b jobs).2 (l ++ rest)) := by
  induction hjobs generalizing l b with
  | nil =>
    rw [List.append_nil]
    exact ⟨⟨fun _ => hkeys, fun _ ack hack => by cases hack⟩, fun _ => hcopies⟩
  | @cons job o jobs rest hjob _ ih =>
    have happend : l ++ o :: rest = (l ++ [o]) ++ rest := by simp
    have ho := hstored o (List.mem_append_right _ List.mem_cons_self)
    have hl : ∀ c ∈ l, Stored P a c := fun c hc => hstored c (List.mem_append_left _ hc)
    have hnew : ∀ c ∈ l, c.filepath ≠ o.filepath := by
      intro c hc hpath
      rw [List.map_append, List.nodup_append] at hpaths
      exact hpaths.2.2 _ (List.mem_map_of_mem hc) _
        (List.mem_map_of_mem List.mem_cons_self) hpath
    obtain ⟨hack, hcopy⟩ := deliver_one (clock job) hjob.1 hjob.2 hnames ho hl hnew hcopies
    simp only [deliverAll, List.forall_mem_cons]
    by_cases hacked : (processJob P a b (clock job) job {}).1 = true
    · have hkeys' : ((l ++ [o]).map keyOf).Nodup := by
        rw [List.map_append, List.map_singleton, List.nodup_append]
        refine ⟨hkeys, List.nodup_singleton _, ?_⟩
        intro k hk k' hk' heq
        obtain ⟨c, hc, rfl⟩ := List.mem_map.mp hk
        rw [List.mem_singleton.mp hk'] at heq
        exact hack.mp hacked c hc heq
      rw [happend] at hstored hpaths ⊢
      obtain ⟨hiff, hall⟩ := ih hstored hpaths hkeys' (hcopy hacked)
      exact ⟨⟨fun h => hiff.mp h.2, fun h => ⟨hacked, hiff.mpr h⟩⟩, fun h => hall h.2⟩
    · refine ⟨⟨fun h => absurd h.1 hacked, fun hnodup => ?_⟩, fun h => absurd h.1 hacked⟩
      refine absurd (hack.mpr ?_) hacked
      intro c hc heq
      rw [List.map_append, List.nodup_append] at hnodup
      exact hnodup.2.2 _ (List.mem_map_of_mem hc) _ (List.mem_map_of_mem List.mem_cons_self) heq

/-- The PUT jobs for the peer are those of the uploaded objects, in order. -/
theorem putJobs_sending {P : Platform} {a s : AppState} {p : ClusterPeer} {puts : List Put}
    (hsource : Source a p) (h : Sending P a s p puts) :
    List.Forall₂ (fun job o => job.operation = .put ∧
      putMetadata P job = some (objectMetadata P s.db o)) (putJobs s.db p.id) s.db.object.rows := by
  have hordered : (s.db.replicationOutbox.rows.filter (isPutFor p.id)).Pairwise
      fun a b => a.id ≤ b.id :=
    (h.ordered.filter _).imp fun hlt => le_of_lt hlt
  have hpeer : activePeer s.db p.id = some p := by
    unfold activePeer
    rw [h.clusterPeer]
    apply find_eq_of_unique hsource.peer (by simp [hsource.active])
    intro q hq hpq
    simp only [Bool.and_eq_true, beq_iff_eq] at hpq
    exact a.db.clusterPeer.eq_of_id hq hsource.peer hpq.1
  have hfor : ∀ r ∈ s.db.replicationOutbox.rows.filter (isPutFor p.id),
      r.peerId = p.id ∧ r.operation = .put := by
    intro r hr
    have hp := (List.mem_filter.mp hr).2
    simpa [isPutFor] using hp
  have hjobs : putJobs s.db p.id =
      (s.db.replicationOutbox.rows.filter (isPutFor p.id)).map fun r => jobOf s.db r p := by
    unfold putJobs
    rw [hordered.insertionSort_eq, ← List.filterMap_eq_map]
    apply List.filterMap_congr
    intro r hr
    rw [(hfor r hr).1, hpeer]
    rfl
  have hobjects : (s.db.replicationOutbox.rows.filter (isPutFor p.id)).map
      (fun r => r.objectId.bind (getObjectById s.db)) = s.db.object.rows.map some := by
    calc
      _ = (putObjects s.db.replicationOutbox p.id).map (·.bind (getObjectById s.db)) := by
        unfold putObjects
        rw [List.map_map]
        rfl
      _ = s.db.object.rows.map some := by
        rw [h.jobs, List.map_map]
        apply List.map_congr_left
        intro o ho
        exact getObjectById_eq_some.mpr ⟨ho, rfl⟩
  rw [← List.forall₂_eq_eq_eq, List.forall₂_map_left_iff, List.forall₂_map_right_iff] at hobjects
  rw [hjobs, List.forall₂_map_left_iff]
  refine List.Forall₂.imp ?_ ((List.forall₂_and_left _ _).mpr ⟨hfor, hobjects⟩)
  intro r o h'
  obtain ⟨⟨_, hput⟩, hobj⟩ := h'
  exact ⟨hput, putMetadata_jobOf P hobj⟩

theorem copies_nil {a b : AppState} (hb : b.db.object.rows = []) : Copies a b [] where
  sent o ho := by cases ho
  received r hr := by
    rw [hb] at hr
    cases hr

/-- A receiver that holds exactly the objects of the sender has the same map, when none
of them is recycled. -/
theorem objectAt_of_copies {a b : AppState} (h : Copies a b a.db.object.rows)
    (hactive : ∀ o ∈ a.db.object.rows, o.deletedAt = none) (name key : Text) :
    objectAt b name key = objectAt a name key := by
  apply Option.ext
  intro v
  rw [objectAt_eq_some, objectAt_eq_some]
  constructor
  · intro h'
    obtain ⟨r, hr, _, hkey, hname, rfl⟩ := h'
    obtain ⟨o, ho, hcopy⟩ := h.received r hr
    exact ⟨o, ho, hactive o ho, hcopy.key.symm.trans hkey, hcopy.bucket.symm.trans hname,
      Prod.ext hcopy.etag.symm hcopy.content.symm⟩
  · intro h'
    obtain ⟨o, ho, _, hkey, hname, rfl⟩ := h'
    obtain ⟨r, hr, hcopy⟩ := h.sent o ho
    exact ⟨r, hr, hcopy.active, hcopy.key.trans hkey, hcopy.bucket.trans hname,
      Prod.ext hcopy.etag hcopy.content⟩

/-- After any acknowledged uploads to an empty node, delivering its PUT jobs in order to an
empty peer acknowledges every job and leaves both nodes with the same map of bucket names
and keys to ETags and contents, if and only if no bucket and key is uploaded twice. -/
theorem deliveries_converge_iff (P : Platform) (a b s : AppState) (p : ClusterPeer)
    (puts : List Put) (clock : OutboxJob → Instant) (hsource : Source a p)
    (hb : b.db.object.rows = []) (hputs : putAll P a puts = some s) :
    ((∀ ack ∈ (deliverAll P s clock b (putJobs s.db p.id)).1, ack = true) ∧
        ∀ name key, objectAt (deliverAll P s clock b (putJobs s.db p.id)).2 name key =
          objectAt s name key) ↔
      (puts.map (·.target a.db)).Nodup := by
  have h := sending_putAll hsource (sending_start hsource) hputs
  rw [List.nil_append] at h
  have hnames : NamesTrimmed s.db := by
    unfold NamesTrimmed
    rw [h.bucket]
    exact hsource.names
  have hpaths : (s.db.object.rows.map (·.filepath)).Nodup :=
    List.pairwise_map.mpr s.db.object.filepath_unique
  obtain ⟨hacks, hcopies⟩ := deliverAll_spec (l := []) clock (putJobs_sending hsource h) hnames
    (fun o ho => ⟨ho, h.blobs o ho⟩) hpaths List.nodup_nil (copies_nil hb)
  rw [List.nil_append] at hacks hcopies
  have htargets : (s.db.object.rows.map keyOf).Nodup ↔ (puts.map (·.target a.db)).Nodup := by
    rw [← h.targets, ← List.nodup_map_iff (f := fun k : Int × Text => (some k.1, k.2)),
      List.map_map]
    · rfl
    · intro h' hyp heq
      obtain ⟨b, k⟩ := h'
      obtain ⟨b', k'⟩ := hyp
      simpa using heq
  rw [← htargets, ← hacks]
  constructor
  · exact fun hboth => hboth.1
  · intro hall
    refine ⟨hall, objectAt_of_copies (hcopies hall) (h.active ?_)⟩
    rw [← htargets, ← hacks]
    exact hall

/-- A node that knows one other, which receives every bucket. -/
def sampleSource : AppState :=
  let s := AppState.migrated "node-1".toList
  { s with db := startNode s.db sampleCluster }

def samplePeer : ClusterPeer where
  id := "node-2".toList
  wireguardEndpoint := "10.0.0.2:50051".toList
  isActive := true

theorem sampleSource_source : Source sampleSource samplePeer where
  noObjects := rfl
  noJobs := rfl
  peer := by decide
  active := rfl
  remote := by decide
  receives := by decide
  names := namesTrimmed_migrated

def samplePut (n : Nat) (data : Bytes) : Put where
  now := Instant.epoch
  uuid := Uuid.numbered n
  key := ['k']
  headers := []
  body := [some data]
  bucketId := none
  faults := {}

def afterPuts (puts : List Put) : AppState :=
  (putAll Platform.sample sampleSource puts).getD sampleSource

def sampleDelivery (s : AppState) : List Bool × AppState :=
  deliverAll Platform.sample s (fun _ => Instant.epoch) (AppState.migrated "node-2".toList)
    (putJobs s.db samplePeer.id)

/-- One upload reaches the peer. -/
theorem one_upload_converges :
    (∀ ack ∈ (sampleDelivery (afterPuts [samplePut 1 [97]])).1, ack = true) ∧
      ∀ name key, objectAt (sampleDelivery (afterPuts [samplePut 1 [97]])).2 name key =
        objectAt (afterPuts [samplePut 1 [97]]) name key :=
  (deliveries_converge_iff Platform.sample sampleSource (AppState.migrated "node-2".toList)
    (afterPuts [samplePut 1 [97]]) samplePeer [samplePut 1 [97]] (fun _ => Instant.epoch)
    sampleSource_source rfl rfl).mpr (List.nodup_singleton _)

/-- The second upload of a key is not acknowledged by the peer, which keeps the content of
the first. -/
theorem overwrite_does_not_converge :
    let s := afterPuts [samplePut 1 [97], samplePut 2 [98]]
    let default := "storage".toList
    putAll Platform.sample sampleSource [samplePut 1 [97], samplePut 2 [98]] = some s ∧
      (sampleDelivery s).1 = [true, false] ∧
      (objectAt s default ['k']).map (·.2) = some (some [98]) ∧
      (objectAt (sampleDelivery s).2 default ['k']).map (·.2) = some (some [97]) :=
  ⟨rfl, by decide, by decide, by decide⟩

end MyS3.Convergence
