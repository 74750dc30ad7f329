import MyS3.Convergence
import MyS3.DigestRounds

/-!
What a round of anti-entropy repairs. The sender enqueues a PUT for each object that the
peer lacks, and the peer takes it unless it has a row with the filepath already, even a
recycled one, or an active object under the same bucket name and key. What it took is a
full copy, and nothing that it had is changed.
-/

namespace MyS3.RepairRounds

open Library.Strings Library.Tables Library.Paths
open Models Objects Database Engine Repository Outbox Rbac Http S3Routes GrpcServer GrpcClient
open BucketNames AntiEntropy PeerManager DigestRounds UploadRuns ReceiveFailure Convergence

/-- An active object whose bucket the peer receives. -/
structure Wanted (db : Db) (peerId : Text) (o : ObjectRecord) : Prop where
  mem : o ∈ db.object.rows
  active : o.deletedAt = none
  receives : peerShouldReceiveBucket db peerId o.bucketId = true

/-- No row of the receiver has the filepath of the object, and no active one its key
under its bucket name. -/
structure Free (sender receiver : Db) (o : ObjectRecord) : Prop where
  filepath : ∀ r ∈ receiver.object.rows, r.filepath ≠ o.filepath
  key : ∀ r ∈ receiver.object.rows, r.deletedAt = none →
    r.originalFilename = o.originalFilename → bucketNameOf receiver r ≠ bucketNameOf sender o

/-- The receiver has all its rows, and besides them copies of some of the objects. -/
structure Adds (a b b' : AppState) (objects : List ObjectRecord) : Prop where
  kept : ∀ r ∈ b.db.object.rows, r ∈ b'.db.object.rows
  buckets : b.db.bucket.rows <+: b'.db.bucket.rows
  config : b'.config = b.config
  disk : ∀ path, (∀ o ∈ objects, path ≠ targetFile b o.filepath) → b'.disk path = b.disk path
  new : ∀ r ∈ b'.db.object.rows, r ∈ b.db.object.rows ∨ ∃ o ∈ objects, Copy a b' o r

/-- The sender at a later time, with its objects, buckets and peers as they were and its
PUT jobs for the peer done. -/
structure Later (a later : AppState) (peerId : Text) : Prop where
  object : later.db.object = a.db.object
  bucket : later.db.bucket = a.db.bucket
  peers : later.db.clusterPeer = a.db.clusterPeer
  assignments : later.db.bucketReplicationPeer = a.db.bucketReplicationPeer
  nodeId : later.config.nodeId = a.config.nodeId
  drained : later.db.replicationOutbox.rows.filter (isPutFor peerId) = []

theorem adds_nil (a b : AppState) : Adds a b b [] where
  kept _ hr := hr
  buckets := List.prefix_refl _
  config := rfl
  disk _ _ := rfl
  new _ hr := Or.inl hr

/-- The name of a bucket that the receiver has already stays that of its rows. -/
theorem Adds.bucketName {a b b' : AppState} {objects : List ObjectRecord}
    (h : Adds a b b' objects) {r : ObjectRecord} (hr : r ∈ b.db.object.rows) :
    bucketNameOf b'.db r = bucketNameOf b.db r := by
  obtain ⟨bucket, hb, hid⟩ := b.db.object_bucket r hr
  have hname : bucketNameOf b.db r = some bucket.name :=
    bucketNameOf_eq_some.mpr ⟨bucket, hb, hid, rfl⟩
  rw [hname]
  exact bucketNameOf_mono h.buckets hname

/-- Two active rows with one key under one bucket name are the same. -/
theorem eq_of_name_and_key {db : Db} {r q : ObjectRecord} {name : Text}
    (hr : r ∈ db.object.rows) (hq : q ∈ db.object.rows) (hactive : r.deletedAt = none)
    (hqactive : q.deletedAt = none) (hkey : r.originalFilename = q.originalFilename)
    (hname : bucketNameOf db r = some name) (hqname : bucketNameOf db q = some name) : r = q :=
  db.object.eq_of_active hr hq hactive hqactive (bucketId_eq_of_name hname hqname) hkey

/-- A replication keeps the buckets; the one that it needs may come after them. -/
theorem replicateObject_buckets (P : Platform) (s : AppState) (now : Instant)
    (stream : List (Option ObjectChunk)) (faults : ReceiveFaults) :
    s.db.bucket.rows <+: (replicateObject P s now stream faults).2.db.bucket.rows := by
  unfold replicateObject
  split
  · exact List.prefix_refl _
  · exact List.prefix_refl _
  rename_i m chunks _
  split
  · exact List.prefix_refl _
  have hframe := (ensureBucket_frame s.db m.bucket faults.bucket).2.2.2
  split
  · rename_i db hensure
    rw [hensure] at hframe
    exact hframe
  · rename_i bucketId db hensure
    rw [hensure] at hframe
    split
    · exact hframe
    · rename_i db' hins
      unfold query at hins
      split_ifs at hins
      rw [insertObjectIdempotent_bucket hins]
      exact hframe

/-- What a fault-free delivery of a stored object is to the receiver: a replication of its
metadata and its content. -/
structure Sending (P : Platform) (a : AppState) (job : OutboxJob) (o : ObjectRecord) : Prop where
  put : job.operation = .put
  metadata : putMetadata P job = some (objectMetadata P a.db o)
  stored : Stored P a o

theorem Sending.processJob {P : Platform} {a b : AppState} {job : OutboxJob} {o : ObjectRecord}
    (h : Sending P a job o) (now : Instant) :
    GrpcClient.processJob P a b now job {} =
      let answer := replicateObject P b now (putStream a (objectMetadata P a.db o) {}) {}
      (isAck answer.1, answer.2) := by
  simp only [GrpcClient.processJob, h.put, replicatePut, h.metadata, Bool.false_eq_true, if_false,
    Bool.not_false, Bool.and_true]

theorem Sending.payload {P : Platform} {a : AppState} {job : OutboxJob} {o : ObjectRecord}
    (h : Sending P a job o) : ∃ data, a.disk (targetFile a o.filepath) = some data ∧
      (sentPayloads a (objectMetadata P a.db o) {}).flatten = data ∧
      P.digest (objectMetadata P a.db o).hashType data = (objectMetadata P a.db o).etag := by
  obtain ⟨_, _, data, hdisk, hdigest⟩ := h.stored
  refine ⟨data, hdisk, ?_, ?_⟩
  · have hread : openRead a.config.storageRoot a.disk (objectMetadata P a.db o).filepathUuid =
      some data := hdisk
    simp only [sentPayloads, hread]
    exact flatten_filePayloads (some data)
  · rw [objectMetadata_hashType]
    exact hdigest

/-- A received row is a copy of the object that was sent. -/
theorem copy_of_received {P : Platform} {a b b' : AppState} {o row : ObjectRecord} {data : Bytes}
    (h : Received b b' (objectMetadata P a.db o) data row)
    (hbucket : bucketNameOf a.db o = some (objectMetadata P a.db o).bucket)
    (hdata : a.disk (targetFile a o.filepath) = some data) : Copy a b' o row where
  filepath := h.filepath
  key := h.key
  etag := h.etag
  active := h.active
  bucket := h.bucket.trans hbucket.symm
  content := by
    rw [hdata, h.filepath, targetFile_congr h.config, h.disk]
    exact setFile_same _ _ _

/-- One delivery adds a copy of the object, or no row. -/
theorem deliver_adds {P : Platform} {a b : AppState} {job : OutboxJob} {o : ObjectRecord}
    (now : Instant) (hnames : NamesTrimmed a.db) (h : Sending P a job o) :
    Adds a b (GrpcClient.processJob P a b now job {}).2 [o] := by
  obtain ⟨data, hdata, hflat, _⟩ := h.payload
  have hcollect := collectChunks_putStream a (objectMetadata P a.db o) {}
  have hbuckets := replicateObject_buckets P b now (putStream a (objectMetadata P a.db o) {}) {}
  have hconfig := replicateObject_config P b now (putStream a (objectMetadata P a.db o) {}) {}
  have hdisk : ∀ path, (∀ c ∈ [o], path ≠ targetFile b c.filepath) →
      (replicateObject P b now (putStream a (objectMetadata P a.db o) {}) {}).2.disk path =
        b.disk path := by
    intro path hpath
    rw [replicateObject_disk hcollect]
    exact putChunks_other P _ _ _ _ _ _ _ _ (hpath o (List.mem_singleton_self o))
  rw [h.processJob now]
  rcases hcall : replicateObject P b now (putStream a (objectMetadata P a.db o) {}) {} with
    ⟨res, b'⟩
  rw [hcall] at hbuckets hconfig hdisk
  have hunchanged : b'.db.object = b.db.object → Adds a b b' [o] := fun hsame => {
    kept := fun r hr => by rwa [hsame]
    buckets := hbuckets
    config := hconfig
    disk := hdisk
    new := fun r hr => Or.inl (by rwa [hsame] at hr) }
  cases res with
  | error status => exact hunchanged (replicateObject_error_object hcall)
  | ok ack =>
    rcases replicateObject_ok_cases hcollect hcall with ⟨_, hsame⟩ | ⟨row, hrow⟩
    · exact hunchanged hsame
    · rw [hflat] at hrow
      have hcopy := copy_of_received hrow (objectMetadata_bucket P hnames h.stored.1) hdata
      refine ⟨fun r hr => (hrow.rows r).mpr (Or.inl hr), hbuckets, hconfig, hdisk, ?_⟩
      intro r hr
      rcases (hrow.rows r).mp hr with hr | rfl
      · exact Or.inl hr
      · exact Or.inr ⟨o, List.mem_singleton_self o, hcopy⟩

/-- A receiver where the object is free takes it. -/
theorem deliver_free {P : Platform} {a b : AppState} {job : OutboxJob} {o : ObjectRecord}
    (now : Instant) (hnames : NamesTrimmed a.db) (h : Sending P a job o)
    (hfree : Free a.db b.db o) :
    ∃ r ∈ (GrpcClient.processJob P a b now job {}).2.db.object.rows,
      Copy a (GrpcClient.processJob P a b now job {}).2 o r := by
  obtain ⟨data, hdata, hflat, hdigest⟩ := h.payload
  have hcollect : collectChunks (putStream a (objectMetadata P a.db o) {}) =
      some (some (objectMetadata P a.db o), sentPayloads a (objectMetadata P a.db o) {}) :=
    collectChunks_putStream a (objectMetadata P a.db o) {}
  have hbucket := objectMetadata_bucket P hnames h.stored.1
  have hkeys : ∀ r ∈ b.db.object.rows, r.deletedAt = none →
      r.originalFilename = (objectMetadata P a.db o).originalFilename →
        bucketNameOf b.db r ≠ some (objectMetadata P a.db o).bucket := by
    rw [← hbucket]
    exact hfree.key
  rw [← hflat] at hdigest
  obtain ⟨ack, b', hcall⟩ := (replicateObject_clean now hcollect hdigest
    (EtagType.fromStr_display o.etagType) hfree.filepath).mpr hkeys
  rw [h.processJob now, hcall]
  rcases replicateObject_ok_cases hcollect hcall with ⟨⟨r, hr, hpath⟩, _⟩ | ⟨row, hrow⟩
  · exact absurd hpath (hfree.filepath r hr)
  · rw [hflat] at hrow
    exact ⟨row, (hrow.rows row).mpr (Or.inr rfl), copy_of_received hrow hbucket hdata⟩

/-- A copy stays one while other objects are added. -/
theorem Adds.copy {P : Platform} {a b b' : AppState} {objects : List ObjectRecord}
    (h : Adds a b b' objects) {o r : ObjectRecord} (hr : r ∈ b.db.object.rows)
    (ho : Stored P a o) (hstored : ∀ c ∈ objects, Stored P a c)
    (hother : ∀ c ∈ objects, c.filepath ≠ o.filepath) (hcopy : Copy a b o r) : Copy a b' o r := by
  refine { hcopy with bucket := (h.bucketName hr).trans hcopy.bucket, content := ?_ }
  rw [targetFile_congr h.config, h.disk]
  · exact hcopy.content
  intro c hc hpath
  rw [hcopy.filepath] at hpath
  exact hother c hc (absolutePathFor_inj (hstored c hc).2.1 ho.2.1 hpath.symm)

theorem Adds.cons {P : Platform} {a b b' b'' : AppState} {o : ObjectRecord}
    {rest : List ObjectRecord} (h : Adds a b b' [o]) (h' : Adds a b' b'' rest)
    (ho : Stored P a o) (hstored : ∀ c ∈ rest, Stored P a c)
    (hother : ∀ c ∈ rest, c.filepath ≠ o.filepath) : Adds a b b'' (o :: rest) where
  kept r hr := h'.kept r (h.kept r hr)
  buckets := h.buckets.trans h'.buckets
  config := h'.config.trans h.config
  disk path hpath := by
    rw [h'.disk path, h.disk path]
    · intro c hc
      rw [List.mem_singleton.mp hc]
      exact hpath o List.mem_cons_self
    · intro c hc
      rw [targetFile_congr h.config]
      exact hpath c (List.mem_cons_of_mem o hc)
  new r hr := by
    rcases h'.new r hr with hold | ⟨c, hc, hcopy⟩
    · rcases h.new r hold with hr | ⟨c, hc, hcopy⟩
      · exact Or.inl hr
      · rw [List.mem_singleton.mp hc] at hcopy
        exact Or.inr ⟨o, List.mem_cons_self, h'.copy hold ho hstored hother hcopy⟩
    · exact Or.inr ⟨c, List.mem_cons_of_mem o hc, hcopy⟩

/-- Adding one object leaves room for the others of the sender. -/
theorem Free.adds {a b b' : AppState} {o c : ObjectRecord} (h : Free a.db b.db c)
    (hadds : Adds a b b' [o]) (hpath : o.filepath ≠ c.filepath)
    (hkey : o.originalFilename = c.originalFilename →
      bucketNameOf a.db o ≠ bucketNameOf a.db c) : Free a.db b'.db c where
  filepath r hr := by
    rcases hadds.new r hr with hr | ⟨d, hd, hcopy⟩
    · exact h.filepath r hr
    · rw [hcopy.filepath, List.mem_singleton.mp hd]
      exact hpath
  key r hr hactive hrkey := by
    rcases hadds.new r hr with hr | ⟨d, hd, hcopy⟩
    · rw [hadds.bucketName hr]
      exact h.key r hr hactive hrkey
    · rw [List.mem_singleton.mp hd] at hcopy
      rw [hcopy.bucket]
      exact hkey (hcopy.key.symm.trans hrkey)

/-- Objects that do not stand in each other's way. -/
def Apart (db : Db) (o c : ObjectRecord) : Prop :=
  o.filepath ≠ c.filepath ∧
    (o.originalFilename = c.originalFilename → bucketNameOf db o ≠ bucketNameOf db c)

/-- A sequence of deliveries adds copies only, and one of every object that was free. -/
theorem deliverAll_adds {P : Platform} {a b : AppState} (clock : OutboxJob → Instant)
    {jobs : List OutboxJob} {objects : List ObjectRecord} (hnames : NamesTrimmed a.db)
    (hjobs : List.Forall₂ (Sending P a) jobs objects) (hapart : objects.Pairwise (Apart a.db)) :
    Adds a b (deliverAll P a clock b jobs).2 objects ∧
      ∀ o ∈ objects, Free a.db b.db o →
        ∃ r ∈ (deliverAll P a clock b jobs).2.db.object.rows,
          Copy a (deliverAll P a clock b jobs).2 o r := by
  induction hjobs generalizing b with
  | nil => exact ⟨adds_nil a b, fun o ho => by cases ho⟩
  | @cons job o jobs rest hjob hrest ih =>
    obtain ⟨hfirst, hapart⟩ := List.pairwise_cons.mp hapart
    have hstored : ∀ c ∈ rest, Stored P a c :=
      ((List.forall₂_and_left _ _).mp (hrest.flip.imp fun _ _ h => ⟨h.stored, h⟩)).1
    have hother : ∀ c ∈ rest, c.filepath ≠ o.filepath := fun c hc => (hfirst c hc).1.symm
    have hstep := deliver_adds (b := b) (clock job) hnames hjob
    obtain ⟨hadds, hcopies⟩ := ih (b := (GrpcClient.processJob P a b (clock job) job {}).2) hapart
    simp only [deliverAll]
    refine ⟨hstep.cons hadds hjob.stored hstored hother, ?_⟩
    intro c hc hfree
    rcases List.mem_cons.mp hc with rfl | hc
    · obtain ⟨r, hr, hcopy⟩ := deliver_free (clock job) hnames hjob hfree
      exact ⟨r, hadds.kept r hr, hadds.copy hr hjob.stored hstored hother hcopy⟩
    · exact hcopies c hc (hfree.adds hstep (hfirst c hc).1 (hfirst c hc).2)

/-- The PUT jobs for a peer are those of the objects, in the order of their ids. -/
structure Queued (db : Db) (peerId : Text) (objects : List ObjectRecord) : Prop where
  rows : (db.replicationOutbox.rows.filter (isPutFor peerId)).map
    (fun r => (r.objectId, r.filepathUuid)) = objects.map fun o => (some o.id, some o.filepath)
  ordered : (db.replicationOutbox.rows.filter (isPutFor peerId)).Pairwise fun a b => a.id < b.id

/-- The object that a round enqueues for a missing filepath. -/
def pushed (db : Db) (peerId filepath : Text) : Option ObjectRecord :=
  (objectByFilepath db filepath).filter fun o => peerShouldReceiveBucket db peerId o.bucketId

theorem pushed_eq_some {db : Db} {peerId filepath : Text} {o : ObjectRecord} :
    pushed db peerId filepath = some o ↔ Wanted db peerId o ∧ o.filepath = filepath := by
  unfold pushed
  rw [Option.filter_eq_some_iff, objectByFilepath_eq_some]
  constructor
  · intro h
    obtain ⟨⟨hmem, hpath, hactive⟩, hreceives⟩ := h
    exact ⟨⟨hmem, hactive, hreceives⟩, hpath⟩
  · intro h
    exact ⟨⟨h.1.mem, h.2, h.1.active⟩, h.1.receives⟩

theorem pushed_of_appends {db db' : Db} (h : Appends db db') (peerId filepath : Text) :
    pushed db' peerId filepath = pushed db peerId filepath := by
  apply Option.ext
  intro o
  rw [pushed_eq_some, pushed_eq_some]
  have hwanted : Wanted db' peerId o ↔ Wanted db peerId o := by
    constructor
    · intro hw
      exact ⟨h.object ▸ hw.mem, hw.active, receives_of_appends h ▸ hw.receives⟩
    · intro hw
      exact ⟨h.object.symm ▸ hw.mem, hw.active, (receives_of_appends h).trans hw.receives⟩
  rw [hwanted]

/-- A row that keeps a PUT out is a PUT of its filepath for the peer. -/
theorem blocksPut_iff {peerId filepath : Text} {r : OutboxRow} (h : blocksPut peerId filepath r = true) :
    isPutFor peerId r = true ∧ r.filepathUuid = some filepath := by
  unfold blocksPut at h
  simp only [Bool.and_eq_true, beq_iff_eq] at h
  exact ⟨by simp [isPutFor, h.1.1.1, h.1.2], h.1.1.2⟩

/-- One missing filepath that has no PUT yet adds the job of its object. -/
theorem Queued.pushEntry {db : Db} {peerId filepath : Text} {objects : List ObjectRecord}
    (h : Queued db peerId objects) (now : Instant)
    (hpeer : ∃ p ∈ db.clusterPeer.rows, p.id = peerId)
    (hnew : ∀ o ∈ objects, o.filepath ≠ filepath) :
    Queued (AntiEntropy.pushEntry now peerId db filepath) peerId
      (objects ++ (pushed db peerId filepath).toList) := by
  unfold AntiEntropy.pushEntry pushed
  cases hfind : objectByFilepath db filepath with
  | none => simpa using h
  | some o =>
    obtain ⟨ho, rfl, _⟩ := objectByFilepath_eq_some.mp hfind
    by_cases hreceives : peerShouldReceiveBucket db peerId o.bucketId = true
    · have hblocked : db.replicationOutbox.rows.any (blocksPut peerId o.filepath) = false := by
        rw [List.any_eq_false]
        intro r hr hblocks
        obtain ⟨hput, hpath⟩ := blocksPut_iff hblocks
        have hmem := List.mem_map_of_mem (f := fun r : OutboxRow => (r.objectId, r.filepathUuid))
          (List.mem_filter.mpr ⟨hr, hput⟩)
        rw [h.rows] at hmem
        obtain ⟨c, hc, hrow⟩ := List.mem_map.mp hmem
        exact hnew c hc (Option.some.inj ((Prod.mk.inj hrow).2.trans hpath))
      have hexists : ((getObjectById db o.id).isSome &&
          db.clusterPeer.rows.any (·.id == peerId)) = true := by
        rw [getObjectById_eq_some.mpr ⟨ho, rfl⟩]
        simpa using hpeer
      simp only [hreceives, if_true, enqueuePutForPeer, hblocked, Bool.false_eq_true, if_false,
        hexists, Option.getD_some, Option.filter_some, Option.toList_some]
      have hrows : (db.withOutbox (db.replicationOutbox.insert peerId o.id o.filepath o.etag .put
          now)).replicationOutbox.rows.filter (isPutFor peerId) =
          db.replicationOutbox.rows.filter (isPutFor peerId) ++
            [OutboxTable.newJob db.replicationOutbox.nextId peerId o.id o.filepath o.etag .put
              now] := by
        simp [OutboxTable.insert, isPutFor, OutboxTable.newJob]
      constructor
      · rw [hrows, List.map_append, h.rows, List.map_append]
        rfl
      · rw [hrows]
        refine pairwise_append_row h.ordered ?_
        intro r hr
        exact db.replicationOutbox.id_lt r (List.mem_of_mem_filter hr)
    · simpa [hreceives, Option.filter_some] using h

/-- A peer's part of a round enqueues the wanted objects among the missing filepaths. -/
theorem Queued.foldl {db : Db} {peerId : Text} {objects : List ObjectRecord}
    (h : Queued db peerId objects) (now : Instant) {paths : List Text}
    (hpeer : ∃ p ∈ db.clusterPeer.rows, p.id = peerId) (hpaths : paths.Nodup)
    (hnew : ∀ o ∈ objects, o.filepath ∉ paths) :
    Queued (paths.foldl (AntiEntropy.pushEntry now peerId) db) peerId
      (objects ++ paths.filterMap (pushed db peerId)) := by
  induction paths generalizing db objects with
  | nil => simpa using h
  | cons filepath rest ih =>
    obtain ⟨hfirst, hrest⟩ := List.nodup_cons.mp hpaths
    have happends := appends_pushEntry now peerId db filepath
    have hpushed : pushed (AntiEntropy.pushEntry now peerId db filepath) peerId =
        pushed db peerId := funext fun path => pushed_of_appends happends peerId path
    have hstep : Queued (AntiEntropy.pushEntry now peerId db filepath) peerId
        (objects ++ (pushed db peerId filepath).toList) := by
      refine h.pushEntry now hpeer ?_
      intro o ho hpath
      exact hnew o ho (hpath ▸ List.mem_cons_self)
    have hlater : ∀ o ∈ objects ++ (pushed db peerId filepath).toList, o.filepath ∉ rest := by
      intro o ho hmem
      rcases List.mem_append.mp ho with ho | ho
      · exact hnew o ho (List.mem_cons_of_mem filepath hmem)
      · rw [Option.mem_toList, pushed_eq_some] at ho
        exact hfirst (ho.2 ▸ hmem)
    have hfold := ih hstep (happends.peers ▸ hpeer) hrest hlater
    rw [hpushed, List.append_assoc] at hfold
    rw [List.foldl_cons, List.filterMap_cons]
    cases hp : pushed db peerId filepath with
    | none => simpa [hp] using hfold
    | some o => simpa [hp] using hfold

/-- What is enqueued for another peer leaves the PUT jobs of this one. -/
theorem puts_of_pushEntry {peerId other : Text} (hother : other ≠ peerId) (now : Instant) (db : Db)
    (filepath : Text) :
    (AntiEntropy.pushEntry now other db filepath).replicationOutbox.rows.filter (isPutFor peerId) =
      db.replicationOutbox.rows.filter (isPutFor peerId) := by
  unfold AntiEntropy.pushEntry
  cases objectByFilepath db filepath with
  | none => rfl
  | some o =>
    simp only
    split_ifs
    · unfold enqueuePutForPeer
      split_ifs
      · rfl
      · simp [OutboxTable.insert, isPutFor, OutboxTable.newJob, hother]
      · rfl
    · rfl

theorem puts_of_pushToPeer {peerId other : Text} (hother : other ≠ peerId) (now : Instant)
    (own : List (Text × Text)) (db : Db) (answer : Option (List (Text × Text))) :
    (pushToPeer now own db other answer).replicationOutbox.rows.filter (isPutFor peerId) =
      db.replicationOutbox.rows.filter (isPutFor peerId) := by
  cases answer with
  | none => rfl
  | some remote =>
    unfold pushToPeer
    simp only
    induction missingEntries own remote generalizing db with
    | nil => rfl
    | cons filepath rest ih => rw [List.foldl_cons, ih, puts_of_pushEntry hother]

theorem Queued.of_puts {db db' : Db} {peerId : Text} {objects : List ObjectRecord}
    (h : Queued db peerId objects)
    (hsame : db'.replicationOutbox.rows.filter (isPutFor peerId) =
      db.replicationOutbox.rows.filter (isPutFor peerId)) : Queued db' peerId objects :=
  ⟨by rw [hsame]; exact h.rows, by rw [hsame]; exact h.ordered⟩

/-- The wanted objects that the peer's digest is missing. -/
def missingObjects (db : Db) (peerId : Text) (remote : List (Text × Text)) : List ObjectRecord :=
  (missingEntries (digestMap db []) remote).filterMap (pushed db peerId)

theorem mem_missingObjects {db : Db} {peerId : Text} {remote : List (Text × Text)}
    {o : ObjectRecord} : o ∈ missingObjects db peerId remote ↔
      Wanted db peerId o ∧ isMissing remote o.filepath o.etag = true := by
  unfold missingObjects missingEntries
  simp only [List.mem_filterMap, List.mem_map, List.mem_filter, pushed_eq_some]
  constructor
  · intro h
    obtain ⟨_, ⟨e, ⟨he, hmissing⟩, rfl⟩, hwanted, hpath⟩ := h
    obtain ⟨r, hr, _, hrpath, hetag⟩ := mem_digestMap_nil.mp he
    have hsame : r = o := db.object.eq_of_filepath hr hwanted.mem (hrpath.trans hpath.symm)
    rw [← hrpath, ← hetag, hsame] at hmissing
    exact ⟨hwanted, hmissing⟩
  · intro h
    refine ⟨o.filepath, ⟨(o.filepath, o.etag), ⟨?_, h.2⟩, rfl⟩, h.1, rfl⟩
    exact mem_digestMap_nil.mpr ⟨o, h.1.mem, h.1.active, rfl, rfl⟩

theorem missingEntries_nodup (db : Db) (remote : List (Text × Text)) :
    (missingEntries (digestMap db []) remote).Nodup := by
  have hpaths : ((digestMap db []).map (·.1)).Nodup := by
    unfold digestMap
    rw [List.map_map]
    refine List.pairwise_map.mpr ?_
    exact (db.object.filepath_unique.filter _).filter _
  unfold missingEntries
  exact hpaths.sublist ((List.filter_sublist).map _)

/-- The wanted objects do not stand in each other's way. -/
theorem missingObjects_apart (db : Db) (peerId : Text) (remote : List (Text × Text)) :
    (missingObjects db peerId remote).Pairwise (Apart db) := by
  unfold missingObjects
  rw [List.pairwise_filterMap]
  refine (missingEntries_nodup db remote).imp ?_
  intro path path' hne o ho c hc
  obtain ⟨hwanted, hpath⟩ := pushed_eq_some.mp ho
  obtain ⟨hwanted', hpath'⟩ := pushed_eq_some.mp hc
  have hdistinct : o.filepath ≠ c.filepath := by
    rw [hpath, hpath']
    exact hne
  refine ⟨hdistinct, ?_⟩
  intro hkey hname
  obtain ⟨bucket, hb, hid⟩ := db.object_bucket o hwanted.mem
  have hbucket : bucketNameOf db o = some bucket.name :=
    bucketNameOf_eq_some.mpr ⟨bucket, hb, hid, rfl⟩
  have hsame := eq_of_name_and_key hwanted.mem hwanted'.mem hwanted.active hwanted'.active hkey
    hbucket (hname.symm.trans hbucket)
  exact hdistinct (congrArg _ hsame)

/-- A round with no PUT job for the peer before it queues the missing objects, in order. -/
theorem queued_runOnce {a : AppState} {p : ClusterPeer} {answer : List (Text × Text)}
    (now : Instant) (remote : ClusterPeer → Option (List (Text × Text)))
    (hpeer : p ∈ listActivePeers a.db) (hother : p.id ≠ a.config.nodeId)
    (hanswer : remote p = some answer)
    (hdrained : a.db.replicationOutbox.rows.filter (isPutFor p.id) = []) :
    Appends a.db (runOnce a now remote).db ∧
      Queued (runOnce a now remote).db p.id (missingObjects a.db p.id answer) := by
  have hlisted : p ∈ (listActivePeers a.db).filter fun p => p.id != a.config.nodeId := by
    rw [List.mem_filter, bne_iff_ne]
    exact ⟨hpeer, hother⟩
  have hids : ((listActivePeers a.db).filter fun p => p.id != a.config.nodeId).Pairwise
      fun p q => p.id ≠ q.id := by
    unfold listActivePeers
    exact (a.db.clusterPeer.id_unique.filter _).filter _
  obtain ⟨before, after, hsplit⟩ := List.append_of_mem hlisted
  have hpush : ∀ (db : Db) (q : ClusterPeer),
      Appends db (pushToPeer now (digestMap a.db []) db q.id (remote q)) := by
    intro db q
    exact appends_pushToPeer now _ db q.id (remote q)
  have hputs : ∀ (peers : List ClusterPeer) (db : Db), (∀ q ∈ peers, q.id ≠ p.id) →
      (peers.foldl (fun db q => pushToPeer now (digestMap a.db []) db q.id (remote q)) db
        ).replicationOutbox.rows.filter (isPutFor p.id) =
        db.replicationOutbox.rows.filter (isPutFor p.id) := by
    intro peers
    induction peers with
    | nil => intro db _; rfl
    | cons q rest ih =>
      intro db hne
      rw [List.foldl_cons, ih _ fun r hr => hne r (List.mem_cons_of_mem q hr)]
      exact puts_of_pushToPeer (hne q List.mem_cons_self) now _ db _
  refine ⟨appends_foldl hpush _ a.db, ?_⟩
  unfold runOnce
  simp only
  rw [hsplit, List.pairwise_append] at hids
  rw [hsplit, List.foldl_append, List.foldl_cons]
  have hbefore : ∀ q ∈ before, q.id ≠ p.id := fun q hq => hids.2.2 q hq p List.mem_cons_self
  have hafter : ∀ q ∈ after, q.id ≠ p.id := fun q hq =>
    ((List.pairwise_cons.mp hids.2.1).1 q hq).symm
  have hreach := appends_foldl hpush before a.db
  refine Queued.of_puts ?_ (hputs after _ hafter)
  rw [hanswer]
  have hstart : Queued (before.foldl (fun db q => pushToPeer now (digestMap a.db []) db q.id
      (remote q)) a.db) p.id [] := by
    have hnone := (hputs before a.db hbefore).trans hdrained
    exact ⟨by rw [hnone]; rfl, by rw [hnone]; exact List.Pairwise.nil⟩
  have hfold := hstart.foldl now ⟨p, hreach.peers ▸ List.mem_of_mem_filter hpeer, rfl⟩
    (missingEntries_nodup a.db answer) fun o ho => by cases ho
  rw [List.nil_append] at hfold
  have hsame : missingObjects a.db p.id answer = (missingEntries (digestMap a.db []) answer).filterMap
      (pushed (before.foldl (fun db q => pushToPeer now (digestMap a.db []) db q.id
        (remote q)) a.db) p.id) := by
    unfold missingObjects
    congr 1
    exact funext fun path => (pushed_of_appends hreach p.id path).symm
  rw [hsame]
  exact hfold

/-- The PUT jobs of a queue carry its objects. -/
theorem sending_putJobs {P : Platform} {s : AppState} {p : ClusterPeer}
    {objects : List ObjectRecord} (h : Queued s.db p.id objects)
    (hpeer : p ∈ listActivePeers s.db) (hstored : ∀ o ∈ objects, Stored P s o) :
    List.Forall₂ (Sending P s) (putJobs s.db p.id) objects := by
  obtain ⟨hmem, hactive⟩ := List.mem_filter.mp hpeer
  have hfind : activePeer s.db p.id = some p := by
    unfold activePeer
    apply find_eq_of_unique hmem (by simp [hactive])
    intro q hq hpq
    simp only [Bool.and_eq_true, beq_iff_eq] at hpq
    exact s.db.clusterPeer.eq_of_id hq hmem hpq.1
  have hfor : ∀ r ∈ s.db.replicationOutbox.rows.filter (isPutFor p.id),
      r.peerId = p.id ∧ r.operation = .put := by
    intro r hr
    have hp := (List.mem_filter.mp hr).2
    simpa [isPutFor] using hp
  have hjobs : putJobs s.db p.id =
      (s.db.replicationOutbox.rows.filter (isPutFor p.id)).map fun r => jobOf s.db r p := by
    unfold putJobs
    rw [(h.ordered.imp fun hlt => le_of_lt hlt).insertionSort_eq, ← List.filterMap_eq_map]
    apply List.filterMap_congr
    intro r hr
    rw [(hfor r hr).1, hfind]
    rfl
  have hrows := h.rows
  rw [← List.forall₂_eq_eq_eq, List.forall₂_map_left_iff, List.forall₂_map_right_iff] at hrows
  have hboth := (List.forall₂_and_left _ _).mpr ⟨hfor, hrows⟩
  rw [hjobs, List.forall₂_map_left_iff]
  refine (((List.forall₂_and_left _ _).mpr ⟨hstored, hboth.flip⟩).imp ?_).flip
  intro o r h'
  obtain ⟨ho, ⟨_, hput⟩, hrow⟩ := h'
  refine ⟨hput, putMetadata_jobOf P ?_, ho⟩
  rw [(Prod.mk.inj hrow).1]
  exact getObjectById_eq_some.mpr ⟨ho.1, rfl⟩

theorem wanted_of_later {a later : AppState} {peerId : Text} (h : Later a later peerId)
    {id : Text} {o : ObjectRecord} : Wanted later.db id o ↔ Wanted a.db id o := by
  have hreceives : peerShouldReceiveBucket later.db id o.bucketId =
      peerShouldReceiveBucket a.db id o.bucketId := by
    unfold peerShouldReceiveBucket bucketReplicatesTo
    rw [h.bucket, h.assignments]
  constructor
  · intro hw
    exact ⟨h.object ▸ hw.mem, hw.active, hreceives ▸ hw.receives⟩
  · intro hw
    exact ⟨h.object.symm ▸ hw.mem, hw.active, hreceives.trans hw.receives⟩

/-- What the receiver holds in the end it held before, or had room for. -/
theorem held_or_free {a b b' : AppState} {objects : List ObjectRecord} {o : ObjectRecord}
    (h : Adds a b b' objects) (ho : o ∈ a.db.object.rows)
    (hobjects : ∀ c ∈ objects, c ∈ a.db.object.rows) (hheld : HeldBy b'.db o) :
    HeldBy b.db o ∨ Free a.db b.db o := by
  obtain ⟨r, hr, hactive, hpath, hetag⟩ := hheld
  by_cases hold : r ∈ b.db.object.rows
  · exact Or.inl ⟨r, hold, hactive, hpath, hetag⟩
  obtain ⟨c, hc, hcopy⟩ := (h.new r hr).resolve_left hold
  have hsame : c = o :=
    a.db.object.eq_of_filepath (hobjects c hc) ho (hcopy.filepath.symm.trans hpath)
  rw [hsame] at hcopy
  obtain ⟨bucket, hb, hid⟩ := a.db.object_bucket o ho
  have hname : bucketNameOf a.db o = some bucket.name :=
    bucketNameOf_eq_some.mpr ⟨bucket, hb, hid, rfl⟩
  refine Or.inr ⟨?_, ?_⟩
  · intro q hq hqpath
    have heq := b'.db.object.eq_of_filepath (h.kept q hq) hr (hqpath.trans hpath.symm)
    exact hold (heq ▸ hq)
  · intro q hq hqactive hqkey hqname
    have heq := eq_of_name_and_key (h.kept q hq) hr hqactive hactive
      (hqkey.trans hcopy.key.symm) ((h.bucketName hq).trans (hqname.trans hname))
      (hcopy.bucket.trans hname)
    exact hold (heq ▸ hq)

theorem HeldBy.kept {a b b' : AppState} {objects : List ObjectRecord} {o : ObjectRecord}
    (h : Adds a b b' objects) (hheld : HeldBy b.db o) : HeldBy b'.db o := by
  obtain ⟨r, hr, hactive, hpath, hetag⟩ := hheld
  exact ⟨r, h.kept r hr, hactive, hpath, hetag⟩

theorem held_iff_not_missing {s : AppState} {o : ObjectRecord} :
    HeldBy s.db o ↔ isMissing (syncDigest s []) o.filepath o.etag = false := by
  rw [isMissing_eq_false]
  exact digestLookup_digestMap.symm

/-- A round enqueues nothing for a peer that holds every wanted object, and only then. -/
theorem round_quiet_iff {a later b : AppState} {p : ClusterPeer} (h : Later a later p.id)
    (now : Instant) {remote : ClusterPeer → Option (List (Text × Text))}
    (hpeer : p ∈ listActivePeers a.db) (hother : p.id ≠ a.config.nodeId)
    (hanswer : remote p = some (syncDigest b [])) :
    (runOnce later now remote).db.replicationOutbox.rows.filter (isPutFor p.id) = [] ↔
      ∀ o, Wanted a.db p.id o → HeldBy b.db o := by
  have hpeer' : p ∈ listActivePeers later.db := by
    unfold listActivePeers
    rw [h.peers]
    exact hpeer
  have hrows := (queued_runOnce now remote hpeer' (h.nodeId ▸ hother) hanswer h.drained).2.rows
  have hempty : (runOnce later now remote).db.replicationOutbox.rows.filter (isPutFor p.id) = [] ↔
      missingObjects later.db p.id (syncDigest b []) = [] := by
    rw [← List.map_eq_nil_iff, hrows, List.map_eq_nil_iff]
  rw [hempty, List.eq_nil_iff_forall_not_mem]
  refine forall_congr' fun o => ?_
  rw [mem_missingObjects, wanted_of_later h, held_iff_not_missing]
  simp

/-- The receiver after it recycled its copy. -/
def recycledCopy : AppState :=
  (deleteObjectKeyedInBucket Limit1.first receiver Instant.epoch "x/k".toList (some 2) false).2

/-- The receiver after the round of the sender and the deliveries. -/
def afterRound (b : AppState) : AppState :=
  let sent := runOnce delivered Instant.epoch fun _ => some (syncDigest b [])
  (deliverAll Platform.sample sent (fun _ => Instant.epoch) b (putJobs sent.db peer.id)).2

theorem delivered_stored : ∀ o ∈ delivered.db.object.rows, o.deletedAt = none →
    Stored Platform.sample delivered o := by
  intro o ho _
  have hpath : o.filepath = (Target.fresh (Uuid.numbered 1)).filepath Platform.sample "x/k".toList := by
    revert o
    decide
  have hdata : delivered.disk (targetFile delivered o.filepath) = some [97] ∧
      Platform.sample.digest o.etagType [97] = o.etag := by
    revert o
    decide
  exact ⟨ho, ⟨_, _, hpath⟩, [97], hdata⟩

end MyS3.RepairRounds
