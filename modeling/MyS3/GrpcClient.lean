import MyS3.BucketNames
import MyS3.Outbox

/-!
The sending side of `cluster/grpc_client.rs` and one job of the worker. The metadata
of a PUT comes from the claimed job, with a fallback for every field that its object
no longer gives, and the content from the file as it is when the stream is sent; a
file that cannot be opened sends no payload.
-/

namespace MyS3.GrpcClient

open Library.Strings Library.Paths
open Models Objects Database Engine Repository Outbox Http GrpcServer BucketNames

/-- Successive reads of at most `n` items. -/
def chunksOf {α : Type} (n : Nat) : Nat → List α → List (List α)
  | 0, _ => []
  | _, [] => []
  | fuel + 1, l => l.take n :: chunksOf n fuel (l.drop n)

theorem flatten_chunksOf {α : Type} {n : Nat} (hn : 0 < n) (fuel : Nat) (l : List α)
    (h : l.length ≤ fuel) : (chunksOf n fuel l).flatten = l := by
  induction fuel generalizing l with
  | zero =>
    rw [List.length_eq_zero_iff.mp (Nat.le_zero.mp h)]
    rfl
  | succ fuel ih =>
    cases l with
    | nil => rfl
    | cons a rest =>
      have hdrop : ((a :: rest).drop n).length ≤ fuel := by
        rw [List.length_drop]
        simp only [List.length_cons] at h ⊢
        omega
      rw [chunksOf, List.flatten_cons, ih _ hdrop, List.take_append_drop]
      simp

/-- The payloads of a file; `none` is one that cannot be opened. -/
def filePayloads (data : Option Bytes) : List Bytes :=
  (data.map fun d => chunksOf 65536 d.length d).getD []

theorem flatten_filePayloads (data : Option Bytes) :
    (filePayloads data).flatten = data.getD [] := by
  cases data with
  | none => rfl
  | some d => exact flatten_chunksOf (by omega) d.length d (le_refl _)

/-- The metadata of a PUT; `none` is a job without a filepath. -/
def putMetadata (P : Platform) (job : OutboxJob) : Option ObjectMetadata :=
  (job.filepath.orElse fun _ => job.filepathUuid).map fun filepath => {
    originalFilename := job.originalFilename.getD filepath
    filepathUuid := filepath
    fileFormat := job.fileFormat.getD "bin".toList
    filesizeBytes := job.filesizeBytes.getD 0
    etagType := (job.etagType.map EtagType.display).getD "md5".toList
    etag := (job.objectEtag.orElse fun _ => job.etag).getD []
    dateUploaded := (job.dateUploaded.map P.columnToRfc3339).getD []
    dateModified := (job.dateModified.map P.columnToRfc3339).getD []
    bucketName := job.bucketName.getD "storage".toList }

/-- The metadata of an object that is still there when its job is claimed. -/
def objectMetadata (P : Platform) (db : Db) (o : ObjectRecord) : ObjectMetadata where
  originalFilename := o.originalFilename
  filepathUuid := o.filepath
  fileFormat := o.fileFormat
  filesizeBytes := o.filesizeBytes
  etagType := o.etagType.display
  etag := o.etag
  dateUploaded := P.columnToRfc3339 o.dateUploaded
  dateModified := P.columnToRfc3339 o.dateModified
  bucketName := ((db.bucket.byId o.bucketId).map (·.name)).getD "storage".toList

theorem putMetadata_jobOf (P : Platform) {db : Db} {r : OutboxRow} {p : ClusterPeer}
    {o : ObjectRecord} (h : r.objectId.bind (getObjectById db) = some o) :
    putMetadata P (jobOf db r p) = some (objectMetadata P db o) := by
  unfold putMetadata jobOf objectMetadata
  simp only [h, Option.map_some, Option.orElse_some, Option.getD_some, Option.bind_some]

/-- The metadata names the bucket of the object. -/
theorem objectMetadata_bucket (P : Platform) {db : Db} {o : ObjectRecord}
    (hnames : NamesTrimmed db) (ho : o ∈ db.object.rows) :
    bucketNameOf db o = some (objectMetadata P db o).bucket := by
  obtain ⟨b, hb, hid⟩ := db.object_bucket o ho
  have hname : (objectMetadata P db o).bucketName = b.name := by
    simp only [objectMetadata, BucketTable.byId_eq_some.mpr ⟨hb, hid⟩, Option.map_some,
      Option.getD_some]
  rw [bucket_of_trimmed (by rw [hname]; exact hnames b hb), hname]
  exact bucketNameOf_eq_some.mpr ⟨b, hb, hid, rfl⟩

theorem objectMetadata_hashType (P : Platform) (db : Db) (o : ObjectRecord) :
    (objectMetadata P db o).hashType = o.etagType := by
  unfold ObjectMetadata.hashType objectMetadata
  rw [EtagType.fromStr_display, Option.getD_some]

/-- What goes wrong on the way: no connection, a read error after some reads, a stream
that breaks after some chunks, and an answer that does not arrive. -/
structure DeliveryFaults where
  connect : Bool := false
  readsUntilError : Option Nat := none
  chunksUntilBreak : Option Nat := none
  answerLost : Bool := false
  receive : ReceiveFaults := {}
  unlink : Bool := false
  delete : Bool := false
  deriving DecidableEq

/-- The payloads that are read of the file of an object. -/
def sentPayloads (s : AppState) (m : ObjectMetadata) (faults : DeliveryFaults) : List Bytes :=
  let payloads := filePayloads (openRead s.config.storageRoot s.disk m.filepathUuid)
  match faults.readsUntilError with
  | none => payloads
  | some n => payloads.take n

def putStream (s : AppState) (m : ObjectMetadata) (faults : DeliveryFaults) :
    List (Option ObjectChunk) :=
  let chunks :=
    some (.metadata m) :: (sentPayloads s m faults).map fun data => some (.payload data)
  match faults.chunksUntilBreak with
  | none => chunks
  | some n => chunks.take n ++ [none]

def isAck {ε : Type} : Except ε ReplicationAck → Bool
  | .ok ack => ack.success
  | .error _ => false

/-- `replicate_put`: whether it is acknowledged, and the receiver after it. -/
def replicatePut (P : Platform) (s remote : AppState) (now : Instant) (job : OutboxJob)
    (faults : DeliveryFaults) : Bool × AppState :=
  match putMetadata P job with
  | none => (false, remote)
  | some m =>
    let answer := replicateObject P remote now (putStream s m faults) faults.receive
    (isAck answer.1 && !faults.answerLost, answer.2)

def replicateDelete (remote : AppState) (job : OutboxJob) (faults : DeliveryFaults) :
    Bool × AppState :=
  match job.filepathUuid.orElse fun _ => job.filepath with
  | none => (false, remote)
  | some filepathUuid =>
    let answer := GrpcServer.deleteObject remote ⟨filepathUuid, job.etag.getD []⟩ faults.unlink
      faults.delete
    (isAck answer.1 && !faults.answerLost, answer.2)

/-- `process_job`: whether the worker completes the job, and the receiver after it. -/
def processJob (P : Platform) (s remote : AppState) (now : Instant) (job : OutboxJob)
    (faults : DeliveryFaults) : Bool × AppState :=
  if faults.connect then (false, remote)
  else
    match job.operation with
    | .put => replicatePut P s remote now job faults
    | .delete => replicateDelete remote job faults

/-- The chunks of a PUT that arrive are those of its metadata and of a part of the file. -/
theorem collectChunks_payloads (m : ObjectMetadata) (payloads : List Bytes) :
    collectChunks (some (.metadata m) :: payloads.map fun data => some (.payload data)) =
      some (some m, payloads) := by
  have hpayloads : ∀ l : List Bytes,
      collectChunks (l.map fun data => some (.payload data)) = some (none, l) := by
    intro l
    induction l with
    | nil => rfl
    | cons data rest ih =>
      rw [List.map_cons, collectChunks, ih]
      rfl
  rw [collectChunks, hpayloads]
  rfl

theorem collectChunks_broken (stream : List (Option ObjectChunk)) :
    collectChunks (stream ++ [none]) = none := by
  induction stream with
  | nil => rfl
  | cons c rest ih =>
    rcases c with _ | _ | _ | _ <;> simp [collectChunks, ih]

/-- What arrives of a PUT: a broken stream, or all of its chunks. -/
theorem collectChunks_putStream (s : AppState) (m : ObjectMetadata) (faults : DeliveryFaults) :
    collectChunks (putStream s m faults) =
      if faults.chunksUntilBreak.isSome then none
      else some (some m, sentPayloads s m faults) := by
  unfold putStream
  cases faults.chunksUntilBreak with
  | none => exact collectChunks_payloads m _
  | some n => exact collectChunks_broken _

end MyS3.GrpcClient
