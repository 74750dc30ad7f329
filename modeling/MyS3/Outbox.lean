import MyS3.Repository

/-!
The transactional outbox: which peers a change is enqueued for, how jobs are
claimed, completed and failed, and the duplicate check of anti-entropy. A claim
joins the outbox row with its object as it stands at that moment, whatever the
state of that object is, and with the bucket of the object.
-/

namespace MyS3.Outbox

open Library.Strings Library.Tables
open Models Objects Database Repository

/-- `b.replicate_to_all = 1 OR EXISTS (… bucket_replication_peer …)`. -/
def bucketReplicatesTo (db : Db) (b : BucketRecord) (peerId : Text) : Bool :=
  b.replicateToAll ||
    db.bucketReplicationPeer.any fun a => a.bucketId == b.id && a.peerId == peerId

/-- `peer_should_receive_bucket`. -/
def peerShouldReceiveBucket (db : Db) (peerId : Text) (bucketId : Int) : Bool :=
  (db.bucket.byId bucketId).any fun b => bucketReplicatesTo db b peerId

/-- The bucket that the join of the enqueue query finds for an object id. -/
def bucketOfObject (db : Db) (objectId : Int) : Option BucketRecord :=
  (getObjectById db objectId).bind fun o => db.bucket.byId o.bucketId

/-- Active peers other than this node that receive the bucket of the object. -/
def targetPeers (db : Db) (objectId : Int) (excludePeerId : Text) : List ClusterPeer :=
  match bucketOfObject db objectId with
  | none => []
  | some b =>
    db.clusterPeer.rows.filter fun p =>
      p.isActive && p.id != excludePeerId && bucketReplicatesTo db b p.id

def enqueueAll (now : Instant) (objectId : Int) (filepathUuid etag : Text)
    (operation : OutboxOperation) (t : OutboxTable) (peers : List ClusterPeer) : OutboxTable :=
  peers.foldl (fun t p => t.insert p.id objectId filepathUuid etag operation now) t

def enqueueForActivePeers (db : Db) (now : Instant) (objectId : Int) (filepathUuid etag : Text)
    (operation : OutboxOperation) (excludePeerId : Text) : Db :=
  db.withOutbox (enqueueAll now objectId filepathUuid etag operation db.replicationOutbox
    (targetPeers db objectId excludePeerId))

def enqueuePutForActivePeers (db : Db) (now : Instant) (objectId : Int)
    (filepathUuid etag excludePeerId : Text) : Db :=
  enqueueForActivePeers db now objectId filepathUuid etag .put excludePeerId

def enqueueDeleteForActivePeers (db : Db) (now : Instant) (objectId : Int)
    (filepathUuid etag excludePeerId : Text) : Db :=
  enqueueForActivePeers db now objectId filepathUuid etag .delete excludePeerId

/-- `status IN ('PENDING', 'FAILED')`. -/
def isClaimable (s : OutboxStatus) : Bool := s == .pending || s == .failed

/-- `status IN ('PENDING', 'FAILED', 'IN_FLIGHT')`. -/
def isOpen (s : OutboxStatus) : Bool := s == .pending || s == .failed || s == .inFlight

def activePeer (db : Db) (peerId : Text) : Option ClusterPeer :=
  db.clusterPeer.rows.find? fun p => p.id == peerId && p.isActive

/-- The claimed row joined with its peer, its object and the object's bucket. -/
def jobOf (db : Db) (r : OutboxRow) (p : ClusterPeer) : OutboxJob :=
  let o := r.objectId.bind (getObjectById db)
  let b := o.bind fun o => db.bucket.byId o.bucketId
  { id := r.id
    peerId := r.peerId
    objectId := r.objectId
    filepathUuid := r.filepathUuid
    etag := r.etag
    operation := r.operation
    attemptCount := r.attemptCount
    wireguardEndpoint := p.wireguardEndpoint
    originalFilename := o.map (·.originalFilename)
    filepath := (o.map (·.filepath)).orElse fun _ => r.filepathUuid
    fileFormat := o.map (·.fileFormat)
    filesizeBytes := o.map (·.filesizeBytes)
    etagType := o.map (·.etagType)
    objectEtag := (o.map (·.etag)).orElse fun _ => r.etag
    dateUploaded := o.map (·.dateUploaded)
    dateModified := o.map (·.dateModified)
    bucketName := b.map (·.name) }

def isDue (now : Instant) (r : OutboxRow) : Bool :=
  isClaimable r.status && decide (r.nextRetryUtc ≤ now.currentTimestamp.secs)

/-- The rows a claim selects: due, of an active peer, in id order, up to the limit. -/
def claimRows (db : Db) (now : Instant) (limit : Nat) : List OutboxRow :=
  ((db.replicationOutbox.rows.filter fun r =>
      isDue now r && (activePeer db r.peerId).isSome).insertionSort fun a b => a.id ≤ b.id).take limit

def markInFlight (t : OutboxTable) (claimed : List OutboxRow) : OutboxTable :=
  t.updateWhere (fun r => claimed.any fun c => c.id == r.id)
    (fun r => { r with status := .inFlight }) fun _ => rfl

/-- `claim_outbox_jobs`. -/
def claimOutboxJobs (db : Db) (now : Instant) (limit : Nat) : List OutboxJob × Db :=
  let claimed := claimRows db now limit
  (claimed.filterMap fun r => (activePeer db r.peerId).map (jobOf db r),
    db.withOutbox (markInFlight db.replicationOutbox claimed))

def completeOutboxJob (db : Db) (id : Int) : Db :=
  db.withOutbox (db.replicationOutbox.deleteWhere fun r => r.id == id)

/-- The next attempt waits 30 seconds for every failed attempt so far. -/
def failRow (now : Instant) (r : OutboxRow) : OutboxRow :=
  { r with
    status := .failed
    attemptCount := r.attemptCount + 1
    nextRetryUtc := now.currentTimestamp.secs + (r.attemptCount + 1) * 30 }

def failOutboxJob (db : Db) (now : Instant) (id : Int) : Db :=
  db.withOutbox (db.replicationOutbox.updateWhere (fun r => r.id == id) (failRow now) fun _ => rfl)

/-- An open PUT job for this peer and filepath keeps a new one out. -/
def blocksPut (peerId filepathUuid : Text) (r : OutboxRow) : Bool :=
  r.peerId == peerId && r.filepathUuid == some filepathUuid && r.operation == .put &&
    isOpen r.status

/-- `enqueue_put_for_peer`; the references to the object and the peer must hold. -/
def enqueuePutForPeer (db : Db) (now : Instant) (peerId : Text) (objectId : Int)
    (filepathUuid etag : Text) : Option Db :=
  if db.replicationOutbox.rows.any (blocksPut peerId filepathUuid) then some db
  else if (getObjectById db objectId).isSome && db.clusterPeer.rows.any (·.id == peerId) then
    some (db.withOutbox
      (db.replicationOutbox.insert peerId objectId filepathUuid etag .put now))
  else none

@[simp] theorem withOutbox_object (db : Db) (t : OutboxTable) :
    (db.withOutbox t).object = db.object := rfl

@[simp] theorem withOutbox_bucket (db : Db) (t : OutboxTable) :
    (db.withOutbox t).bucket = db.bucket := rfl

@[simp] theorem withOutbox_peer (db : Db) (t : OutboxTable) :
    (db.withOutbox t).clusterPeer = db.clusterPeer := rfl

@[simp] theorem withOutbox_outbox (db : Db) (t : OutboxTable) :
    (db.withOutbox t).replicationOutbox = t := rfl

@[simp] theorem enqueueForActivePeers_object (db : Db) (now : Instant) (objectId : Int)
    (filepathUuid etag : Text) (operation : OutboxOperation) (excludePeerId : Text) :
    (enqueueForActivePeers db now objectId filepathUuid etag operation excludePeerId).object =
      db.object := rfl

@[simp] theorem enqueueForActivePeers_bucket (db : Db) (now : Instant) (objectId : Int)
    (filepathUuid etag : Text) (operation : OutboxOperation) (excludePeerId : Text) :
    (enqueueForActivePeers db now objectId filepathUuid etag operation excludePeerId).bucket =
      db.bucket := rfl

theorem mem_enqueueAll {now : Instant} {objectId : Int} {filepathUuid etag : Text}
    {operation : OutboxOperation} {peers : List ClusterPeer} {t : OutboxTable} {r : OutboxRow} :
    r ∈ (enqueueAll now objectId filepathUuid etag operation t peers).rows →
      r ∈ t.rows ∨ ∃ p ∈ peers, ∃ id,
        r = OutboxTable.newJob id p.id objectId filepathUuid etag operation now := by
  induction peers generalizing t with
  | nil => exact Or.inl
  | cons p rest ih =>
    intro h
    rcases ih h with h | ⟨p', hp', id, rfl⟩
    · rcases List.mem_append.mp h with h | h
      · exact Or.inl h
      · exact Or.inr ⟨p, List.mem_cons_self, t.nextId, List.mem_singleton.mp h⟩
    · exact Or.inr ⟨p', List.mem_cons_of_mem p hp', id, rfl⟩

theorem subset_enqueueAll (now : Instant) (objectId : Int) (filepathUuid etag : Text)
    (operation : OutboxOperation) (peers : List ClusterPeer) (t : OutboxTable) :
    t.rows ⊆ (enqueueAll now objectId filepathUuid etag operation t peers).rows := by
  induction peers generalizing t with
  | nil => exact List.Subset.refl _
  | cons p rest ih =>
    intro r hr
    exact ih _ (List.mem_append_left _ hr)

def isPutFor (peerId : Text) (r : OutboxRow) : Bool := r.peerId == peerId && r.operation == .put

/-- The objects of the PUT jobs for a peer, in the order of the outbox. -/
def putObjects (t : OutboxTable) (peerId : Text) : List (Option Int) :=
  (t.rows.filter (isPutFor peerId)).map (·.objectId)

/-- Enqueuing a PUT adds one job for each listed peer with the id. -/
theorem putObjects_enqueueAll (now : Instant) (objectId : Int) (filepathUuid etag : Text)
    (peers : List ClusterPeer) (t : OutboxTable) (peerId : Text) :
    putObjects (enqueueAll now objectId filepathUuid etag .put t peers) peerId =
      putObjects t peerId ++ (peers.filter (·.id == peerId)).map fun _ => some objectId := by
  induction peers generalizing t with
  | nil => simp [enqueueAll]
  | cons p rest ih =>
    have hinsert : putObjects (t.insert p.id objectId filepathUuid etag .put now) peerId =
        putObjects t peerId ++ if (p.id == peerId) = true then [some objectId] else [] := by
      unfold putObjects OutboxTable.insert
      rw [List.filter_append, List.map_append]
      by_cases hp : (p.id == peerId) = true <;> simp [isPutFor, OutboxTable.newJob, hp]
    rw [show enqueueAll now objectId filepathUuid etag .put t (p :: rest) =
      enqueueAll now objectId filepathUuid etag .put
        (t.insert p.id objectId filepathUuid etag .put now) rest from rfl, ih, hinsert]
    by_cases hp : (p.id == peerId) = true
    · simp [hp]
    · simp [hp]

/-- New jobs come after the old ones. -/
theorem ordered_enqueueAll {now : Instant} {objectId : Int} {filepathUuid etag : Text}
    {operation : OutboxOperation} {peers : List ClusterPeer} {t : OutboxTable}
    (h : t.rows.Pairwise fun a b => a.id < b.id) :
    (enqueueAll now objectId filepathUuid etag operation t peers).rows.Pairwise
      fun a b => a.id < b.id := by
  induction peers generalizing t with
  | nil => exact h
  | cons p rest ih =>
    exact ih (pairwise_append_row h t.id_lt)

/-- An active peer that receives the bucket gets one job. -/
theorem targetPeers_filter {db : Db} {objectId : Int} {excludePeerId : Text} {b : BucketRecord}
    {p : ClusterPeer} (hb : bucketOfObject db objectId = some b) (hp : p ∈ db.clusterPeer.rows)
    (hactive : p.isActive = true) (hlocal : p.id ≠ excludePeerId)
    (hreceives : bucketReplicatesTo db b p.id = true) :
    (targetPeers db objectId excludePeerId).filter (·.id == p.id) = [p] := by
  unfold targetPeers
  rw [hb]
  simp only [List.filter_filter]
  apply filter_eq_singleton db.clusterPeer.id_unique hp
  · simp [hactive, hlocal, hreceives]
  · intro q hq hpq
    simp only [Bool.and_eq_true, beq_iff_eq] at hpq
    exact db.clusterPeer.eq_of_id hq hp hpq.1

theorem mem_claimRows {db : Db} {now : Instant} {limit : Nat} {r : OutboxRow}
    (h : r ∈ claimRows db now limit) :
    r ∈ db.replicationOutbox.rows ∧ isDue now r = true ∧ (activePeer db r.peerId).isSome := by
  have hr := List.mem_of_mem_take h
  rw [List.mem_insertionSort, List.mem_filter, Bool.and_eq_true] at hr
  exact ⟨hr.1, hr.2.1, hr.2.2⟩

/-- Every claimed job is the join of a claimable row of the outbox. -/
theorem mem_claimOutboxJobs {db : Db} {now : Instant} {limit : Nat} {job : OutboxJob}
    (h : job ∈ (claimOutboxJobs db now limit).1) :
    ∃ r ∈ claimRows db now limit, ∃ p, activePeer db r.peerId = some p ∧ job = jobOf db r p := by
  obtain ⟨r, hr, hjob⟩ := List.mem_filterMap.mp h
  obtain ⟨p, hp, rfl⟩ := Option.map_eq_some_iff.mp hjob
  exact ⟨r, hr, p, hp, rfl⟩

end MyS3.Outbox
