import MyS3.Library.Runs
import MyS3.BucketNames
import MyS3.GrpcClient
import MyS3.PeerManager
import MyS3.Purge
import MyS3.ReceiveFailure

/-!
Deliveries of PUT jobs over whole runs. A job is the join of its outbox row with the
object as it stands at the claim; the receiver creates a row from what the job says,
if it has none with the filepath and the content has the ETag. The row is that of an
active object of the sender as long as no job of a recycled or purged object brings
the receiver something that it can store.
-/

namespace MyS3.Delivery

open Library.Strings Library.Tables Library.Runs
open Models Objects Database Engine Repository Outbox Rbac Http S3Routes GrpcServer GrpcClient
open ReceiveFailure BucketNames PeerManager Purge

/-- Rows of a database that another one does not have. -/
def createdRows (before after : Db) : List ObjectRecord :=
  after.object.rows.filter fun r => decide (r ∉ before.object.rows)

theorem createdRows_of_object_eq {before after : Db} (h : after.object = before.object) :
    createdRows before after = [] := by
  unfold createdRows
  rw [h, List.filter_eq_nil_iff]
  intro r hr
  simp [hr]

/-- A row that a call creates is the one that it received. -/
theorem received_of_created {P : Platform} {s : AppState} {now : Instant}
    {stream : List (Option ObjectChunk)} {faults : ReceiveFaults} {m : ObjectMetadata}
    {chunks : List Bytes} (hcollect : collectChunks stream = some (some m, chunks))
    {row : ObjectRecord}
    (hrow : row ∈ createdRows s.db (replicateObject P s now stream faults).2.db) :
    Received s (replicateObject P s now stream faults).2 m chunks.flatten row ∧
      P.digest m.hashType chunks.flatten = m.etag := by
  rcases hcall : replicateObject P s now stream faults with ⟨status | ack, s'⟩
  · rw [hcall, createdRows_of_object_eq (replicateObject_error_object hcall)] at hrow
    cases hrow
  · rw [hcall] at hrow
    obtain ⟨m', chunks', _, _, hcollect', hdigest, _⟩ := replicateObject_ok hcall
    rw [hcollect] at hcollect'
    cases hcollect'
    rcases replicateObject_ok_cases hcollect hcall with ⟨_, hsame⟩ | ⟨new, hnew⟩
    · rw [createdRows_of_object_eq hsame] at hrow
      cases hrow
    · obtain ⟨hmem, hfresh⟩ := List.mem_filter.mp hrow
      simp only [decide_eq_true_eq] at hfresh
      obtain rfl := ((hnew.rows row).mp hmem).resolve_left hfresh
      exact ⟨hnew, hdigest⟩

/-- The content of a PUT as it is sent. -/
def sentContent (s : AppState) (m : ObjectMetadata) (faults : DeliveryFaults) : Bytes :=
  (sentPayloads s m faults).flatten

/-- A job that creates a row is a PUT that arrives whole. -/
theorem received_of_processJob {P : Platform} {s remote : AppState} {now : Instant}
    {job : OutboxJob} {faults : DeliveryFaults} {row : ObjectRecord} (hput : job.operation = .put)
    (hrow : row ∈ createdRows remote.db (processJob P s remote now job faults).2.db) :
    faults.connect = false ∧ faults.chunksUntilBreak = none ∧
      ∃ m, putMetadata P job = some m ∧
        Received remote (processJob P s remote now job faults).2 m (sentContent s m faults) row ∧
        P.digest m.hashType (sentContent s m faults) = m.etag := by
  unfold processJob at hrow ⊢
  by_cases hconnect : faults.connect = true
  · simp only [hconnect, if_true, createdRows_of_object_eq rfl] at hrow
    cases hrow
  simp only [hconnect, Bool.false_eq_true, if_false, hput, replicatePut] at hrow ⊢
  refine ⟨trivial, ?_⟩
  cases hm : putMetadata P job with
  | none =>
    simp only [hm, createdRows_of_object_eq rfl] at hrow
    cases hrow
  | some m =>
    simp only [hm] at hrow ⊢
    have hcollect := collectChunks_putStream s m faults
    cases hbreak : faults.chunksUntilBreak with
    | none =>
      rw [hbreak] at hcollect
      exact ⟨rfl, m, rfl, received_of_created hcollect hrow⟩
    | some n =>
      rw [hbreak] at hcollect
      have hsame : (replicateObject P remote now (putStream s m faults) faults.receive).2 =
          remote := by
        unfold replicateObject
        rw [hcollect]
        rfl
      rw [hsame, createdRows_of_object_eq rfl] at hrow
      cases hrow

/-- A claimed job, with the sender's database at the claim. -/
structure Claim where
  job : OutboxJob
  claimedFrom : Db

/-- A delivery that took place: the sender's database then, the receiver's after it, and
the rows that it created there. -/
structure Delivered where
  claim : Claim
  sentFrom : Db
  receiver : Db
  created : List ObjectRecord

/-- One sender with the jobs it holds, and the nodes that its endpoints reach. -/
structure Fleet where
  sender : AppState
  held : List Claim
  peers : Text → AppState
  deliveries : List Delivered

inductive Action
  /-- Requests, purges and anti-entropy change the sender. -/
  | client (t : AppState)
  /-- A peer changes on its own. -/
  | remote (endpoint : Text) (t : AppState)
  | claim (now : Instant)
  /-- The first held job is processed; it is completed or failed by the outcome. -/
  | deliver (now remoteNow : Instant) (faults : DeliveryFaults)

def step (P : Platform) (s : Fleet) : Action → Option Fleet
  | .client t => some { s with sender := t }
  | .remote endpoint t => some { s with peers := Function.update s.peers endpoint t }
  | .claim now =>
    if s.held = [] then
      let (jobs, db) := claimOutboxJobs s.sender.db now 50
      some { s with
        sender := { s.sender with db := db }
        held := jobs.map fun job => ⟨job, s.sender.db⟩ }
    else none
  | .deliver now remoteNow faults =>
    match s.held with
    | [] => none
    | claim :: rest =>
      let endpoint := claim.job.wireguardEndpoint
      let (acked, remote) :=
        processJob P s.sender (s.peers endpoint) remoteNow claim.job faults
      let db := if acked then completeOutboxJob s.sender.db claim.job.id
        else failOutboxJob s.sender.db now claim.job.id
      some {
        sender := { s.sender with db := db }
        held := rest
        peers := Function.update s.peers endpoint remote
        deliveries := ⟨claim, s.sender.db, remote.db,
          createdRows (s.peers endpoint).db remote.db⟩ :: s.deliveries }

/-- The job's object is there and active. -/
def ObjectActive (db : Db) (job : OutboxJob) : Prop :=
  ∃ o ∈ db.object.rows, job.objectId = some o.id ∧ o.deletedAt = none

/-- A row of the receiver has the key, bucket name, format and ETag type of the active
object that the sender held under its filepath at the claim. -/
def SentAsActive (claim : Claim) (receiver : Db) (row : ObjectRecord) : Prop :=
  ∃ o ∈ claim.claimedFrom.object.rows, o.deletedAt = none ∧ o.filepath = row.filepath ∧
    o.originalFilename = row.originalFilename ∧ o.fileFormat = row.fileFormat ∧
    o.etagType = row.etagType ∧
    ∃ name, bucketNameOf claim.claimedFrom o = some name ∧ bucketNameOf receiver row = some name

structure DeliveredRight (d : Delivered) : Prop where
  rows : ∀ row ∈ d.created, SentAsActive d.claim d.receiver row
  inactive : ¬ ObjectActive d.claim.claimedFrom d.claim.job ∨ ¬ ObjectActive d.sentFrom d.claim.job →
    d.created = []

/-- The peer is out of reach, the stream breaks, the receiver has the filepath or the
key already, or the content does not have the ETag. -/
def CannotStore (P : Platform) (s : Fleet) (job : OutboxJob) (faults : DeliveryFaults) : Prop :=
  faults.connect = true ∨ faults.chunksUntilBreak ≠ none ∨
    ∀ m, putMetadata P job = some m →
      (∃ r ∈ (s.peers job.wireguardEndpoint).db.object.rows, r.filepath = m.filepathUuid) ∨
      (∃ r ∈ (s.peers job.wireguardEndpoint).db.object.rows, r.deletedAt = none ∧
        r.originalFilename = m.originalFilename ∧
        bucketNameOf (s.peers job.wireguardEndpoint).db r = some m.bucket) ∨
      P.digest m.hashType (sentContent s.sender m faults) ≠ m.etag

/-- Changes of the sender keep its bucket names trimmed. -/
def Legal : Fleet → Action → Prop
  | _, .client t => NamesTrimmed t.db
  | _, _ => True

/-- A PUT is delivered for an object that is active at the claim and at the delivery,
or to a receiver that cannot store it. -/
def Safe (P : Platform) (s : Fleet) : Action → Prop
  | .deliver _ _ faults => ∀ claim rest, s.held = claim :: rest → claim.job.operation = .put →
    (ObjectActive claim.claimedFrom claim.job ∧ ObjectActive s.sender.db claim.job) ∨
      CannotStore P s claim.job faults
  | _ => True

def Allowed (P : Platform) (s : Fleet) (a : Action) : Prop := Legal s a ∧ Safe P s a

structure Inv (s : Fleet) : Prop where
  names : NamesTrimmed s.sender.db
  held : ∀ c ∈ s.held, NamesTrimmed c.claimedFrom ∧ ∃ r p, c.job = jobOf c.claimedFrom r p
  right : ∀ d ∈ s.deliveries, d.claim.job.operation = .put → DeliveredRight d

/-- The row that a job of an active object creates is that of the object. -/
theorem sentAsActive_of_received {P : Platform} {claim : Claim} {before after : AppState}
    {m : ObjectMetadata} {data : Bytes} {row : ObjectRecord}
    (hnames : NamesTrimmed claim.claimedFrom)
    (hjob : ∃ r p, claim.job = jobOf claim.claimedFrom r p)
    (hactive : ObjectActive claim.claimedFrom claim.job)
    (hm : putMetadata P claim.job = some m) (hrow : Received before after m data row) :
    SentAsActive claim after.db row := by
  obtain ⟨r, p, hjob⟩ := hjob
  obtain ⟨o, ho, hid, hd⟩ := hactive
  have hobj : r.objectId.bind (getObjectById claim.claimedFrom) = some o := by
    rw [hjob] at hid
    rw [show r.objectId = some o.id from hid, Option.bind_some]
    exact getObjectById_eq_some.mpr ⟨ho, rfl⟩
  rw [hjob, putMetadata_jobOf P hobj, Option.some.injEq] at hm
  have hname := objectMetadata_bucket P hnames ho
  have hetag : some o.etagType = some row.etagType := by
    rw [← hrow.etagType, ← hm]
    exact (EtagType.fromStr_display o.etagType).symm
  refine ⟨o, ho, hd, ?_, ?_, ?_, Option.some.inj hetag, m.bucket, ?_, hrow.bucket⟩
  · rw [hrow.filepath, ← hm]
    rfl
  · rw [hrow.key, ← hm]
    rfl
  · rw [hrow.format, ← hm]
    rfl
  · rwa [hm] at hname

/-- A receiver that cannot store the object gets no row. -/
theorem created_nil_of_cannotStore {P : Platform} {s : Fleet} {job : OutboxJob}
    {now : Instant} {faults : DeliveryFaults} (hput : job.operation = .put)
    (h : CannotStore P s job faults) :
    createdRows (s.peers job.wireguardEndpoint).db
      (processJob P s.sender (s.peers job.wireguardEndpoint) now job faults).2.db = [] := by
  rw [List.eq_nil_iff_forall_not_mem]
  intro row hrow
  obtain ⟨hconnect, hbreak, m, hm, hreceived, hetag⟩ := received_of_processJob hput hrow
  rcases h with h | h | h
  · simp [hconnect] at h
  · exact h hbreak
  · rcases h m hm with ⟨r, hr, hpath⟩ | ⟨r, hr, hd, hkey, hname⟩ | hdigest
    · exact hreceived.absent r hr hpath
    · exact hreceived.keyFree r hr hd hkey hname
    · exact hdigest hetag

theorem held_of_claim {db : Db} {now : Instant} {limit : Nat} {c : Claim}
    (hc : c ∈ (claimOutboxJobs db now limit).1.map fun job => ⟨job, db⟩) :
    c.claimedFrom = db ∧ ∃ r p, c.job = jobOf db r p := by
  obtain ⟨job, hjob, rfl⟩ := List.mem_map.mp hc
  obtain ⟨r, _, p, _, rfl⟩ := mem_claimOutboxJobs hjob
  exact ⟨rfl, r, p, rfl⟩

/-- A safe delivery is a right one. -/
theorem deliver_right {P : Platform} {s : Fleet} {claim : Claim} {rest : List Claim}
    {now remoteNow : Instant} {faults : DeliveryFaults} (hinv : Inv s)
    (hheld : s.held = claim :: rest) (hsafe : Safe P s (.deliver now remoteNow faults))
    (hput : claim.job.operation = .put) :
    let before := s.peers claim.job.wireguardEndpoint
    let after := (processJob P s.sender before remoteNow claim.job faults).2
    DeliveredRight ⟨claim, s.sender.db, after.db, createdRows before.db after.db⟩ := by
  intro before after
  obtain ⟨hnames, hjob⟩ := hinv.held claim (by simp [hheld])
  rcases hsafe claim rest hheld hput with ⟨hactive, hstill⟩ | hcannot
  · refine ⟨?_, ?_⟩
    · intro row hrow
      obtain ⟨_, _, m, hm, hreceived, _⟩ := received_of_processJob hput hrow
      exact sentAsActive_of_received hnames hjob hactive hm hreceived
    · intro h'
      rcases h' with h | h
      · exact absurd hactive h
      · exact absurd hstill h
  · have hnil : createdRows before.db after.db = [] := created_nil_of_cannotStore hput hcannot
    refine ⟨?_, fun _ => hnil⟩
    intro row hrow
    rw [show createdRows before.db after.db = [] from hnil] at hrow
    cases hrow

theorem step_preserves {P : Platform} {s t : Fleet} {a : Action} (hinv : Inv s)
    (hok : Allowed P s a) (hstep : step P s a = some t) : Inv t := by
  cases a with
  | client u =>
    cases hstep
    exact ⟨hok.1, hinv.held, hinv.right⟩
  | remote endpoint u =>
    cases hstep
    exact ⟨hinv.names, hinv.held, hinv.right⟩
  | claim now =>
    simp only [step] at hstep
    split_ifs at hstep
    cases hstep
    refine ⟨hinv.names, ?_, hinv.right⟩
    intro c hc
    obtain ⟨hfrom, hjob⟩ := held_of_claim hc
    rw [hfrom]
    exact ⟨hinv.names, hjob⟩
  | deliver now remoteNow faults =>
    cases hheld : s.held with
    | nil => simp [step, hheld] at hstep
    | cons claim rest =>
      simp only [step, hheld, Option.some.injEq] at hstep
      subst hstep
      refine ⟨?_, ?_, ?_⟩
      · simp only
        split_ifs
        · exact hinv.names
        · exact hinv.names
      · intro c hc
        exact hinv.held c (by rw [hheld]; exact List.mem_cons_of_mem _ hc)
      · intro d hd hput
        rcases List.mem_cons.mp hd with rfl | hd
        · exact deliver_right hinv hheld hok.2 hput
        · exact hinv.right d hd hput

/-- A sender after its migrations, and any peers. -/
def start (nodeId : Text) (peers : Text → AppState) : Fleet where
  sender := AppState.migrated nodeId
  held := []
  peers := peers
  deliveries := []

/-- In every run whose deliveries are safe, every row that a delivered PUT job created is
that of an object which the sender held active at the claim, and a job whose object was
recycled or purged before the claim, or before the delivery, created nothing. -/
theorem deliveries_right (P : Platform) (nodeId : Text) (peers : Text → AppState) (s : Fleet)
    (hrun : Run (step P) (Allowed P) (start nodeId peers) s) :
    ∀ d ∈ s.deliveries, d.claim.job.operation = .put → DeliveredRight d := by
  have hstart : Inv (start nodeId peers) := by
    refine ⟨namesTrimmed_migrated, ?_, ?_⟩
    · intro c hc
      cases hc
    · intro d hd
      cases hd
  have hinv : Inv s :=
    hrun.invariant (fun _ _ _ hinv hok hstep => step_preserves hinv hok hstep) hstart
  exact hinv.right

/-- A node with one peer that has stored an object of this content. -/
def uploaded (data : Bytes) : AppState :=
  let s := AppState.migrated "node-1".toList
  (putObject Platform.sample { s with db := startNode s.db sampleCluster } Instant.epoch
    (Uuid.numbered 1) ['k'] [] [some data] {}).2

def sampleStart : Fleet := start "node-1".toList fun _ => AppState.migrated "node-2".toList

/-- The node with the jobs of its first claim. -/
def claimed (t : AppState) : Fleet :=
  (exec (step Platform.sample) sampleStart [.client t, .claim Instant.epoch]).getD sampleStart

/-- An upload whose job is claimed and delivered. -/
theorem upload_delivered_right :
    ∃ s : Fleet, s.deliveries.map (fun d => d.created.map (·.originalFilename)) = [[['k']]] ∧
      ∀ d ∈ s.deliveries, d.claim.job.operation = .put → DeliveredRight d := by
  have hclaimed : Run (step Platform.sample) (Allowed Platform.sample) sampleStart
      (claimed (uploaded [97])) :=
    Run.tail (.claim Instant.epoch) (Run.tail (.client (uploaded [97])) (Run.refl _)
      ⟨namesTrimmed_migrated, trivial⟩ rfl) ⟨trivial, trivial⟩ rfl
  have hsafe : Allowed Platform.sample (claimed (uploaded [97]))
      (.deliver Instant.epoch Instant.epoch {}) := by
    refine ⟨trivial, ?_⟩
    intro claim rest hheld _
    cases hheld
    left
    unfold ObjectActive
    decide
  have hrun := Run.tail _ hclaimed hsafe rfl
  exact ⟨_, by decide, deliveries_right Platform.sample "node-1".toList _ _ hrun⟩

/-- The object is deleted before its job is claimed. -/
def recycledBeforeClaim : AppState :=
  (S3Routes.deleteObject Limit1.first (uploaded [97]) Instant.epoch ['k'] false).2

/-- The object, which is empty, is purged before its job is claimed. -/
def purgedBeforeClaim : AppState :=
  (hardPurgeObject (uploaded []) Instant.epoch 1 false).getD (uploaded [])

/-- The job of a recycled object gives the peer an active row, and the job of a purged
one a row whose key is the filepath. -/
theorem delivered_job_can_outlive_object :
    (∃ s, Run (step Platform.sample) Legal sampleStart s ∧ ∃ d ∈ s.deliveries,
      d.claim.job.operation = .put ∧ ¬ ObjectActive d.claim.claimedFrom d.claim.job ∧
      ∃ row ∈ d.created, row.deletedAt = none ∧ row.originalFilename = ['k']) ∧
    ∃ s, Run (step Platform.sample) Legal sampleStart s ∧ ∃ d ∈ s.deliveries,
      d.claim.job.operation = .put ∧ d.claim.claimedFrom.object.rows = [] ∧
      ∃ row ∈ d.created, row.deletedAt = none ∧ row.originalFilename = row.filepath := by
  have hrun : ∀ t, NamesTrimmed t.db →
      Run (step Platform.sample) Legal sampleStart (claimed t) := fun t ht =>
    Run.tail (.claim Instant.epoch) (Run.tail (.client t) (Run.refl _) ht rfl) trivial rfl
  constructor
  · refine ⟨_, Run.tail (.deliver Instant.epoch Instant.epoch {})
      (hrun recycledBeforeClaim namesTrimmed_migrated) trivial rfl, _, List.mem_cons_self, rfl,
      ?_, _, List.mem_cons_self, rfl, rfl⟩
    unfold ObjectActive
    decide
  · exact ⟨_, Run.tail (.deliver Instant.epoch Instant.epoch {})
      (hrun purgedBeforeClaim namesTrimmed_migrated) trivial rfl, _, List.mem_cons_self, rfl,
      rfl, _, List.mem_cons_self, rfl, rfl⟩

end MyS3.Delivery
