import MyS3.AntiEntropy
import MyS3.PeerManager

/-!
What a quiet round of anti-entropy says. A digest has the filepath and the ETag of each
active object, so a round that enqueues nothing for a peer that answered shows that the
peer holds every object under these two, or that the outbox already has an open PUT of
it. The key and the bucket name are not compared: a renamed folder stays as it was.
-/

namespace MyS3.DigestRounds

open Library.Strings Library.Tables
open Models Objects Database Engine Repository Outbox Rbac Http S3Routes GrpcServer
open AntiEntropy PeerManager

/-- A database with more outbox rows at its end, and the same objects, buckets and peers. -/
structure Appends (db db' : Db) : Prop where
  object : db'.object = db.object
  bucket : db'.bucket = db.bucket
  peers : db'.clusterPeer = db.clusterPeer
  assignments : db'.bucketReplicationPeer = db.bucketReplicationPeer
  outbox : db.replicationOutbox.rows <+: db'.replicationOutbox.rows

/-- An open PUT job of a filepath for a peer. -/
def OpenPut (db : Db) (peerId filepath : Text) : Prop :=
  ∃ r ∈ db.replicationOutbox.rows, blocksPut peerId filepath r = true

/-- An active object with the filepath and the ETag of another. -/
def HeldBy (db : Db) (o : ObjectRecord) : Prop :=
  ∃ r ∈ db.object.rows, r.deletedAt = none ∧ r.filepath = o.filepath ∧ r.etag = o.etag

theorem appends_refl (db : Db) : Appends db db := ⟨rfl, rfl, rfl, rfl, List.prefix_refl _⟩

theorem appends_trans {db db' db'' : Db} (h : Appends db db') (h' : Appends db' db'') :
    Appends db db'' where
  object := h'.object.trans h.object
  bucket := h'.bucket.trans h.bucket
  peers := h'.peers.trans h.peers
  assignments := h'.assignments.trans h.assignments
  outbox := h.outbox.trans h'.outbox

theorem appends_foldl {α : Type} {f : Db → α → Db} (hf : ∀ db a, Appends db (f db a))
    (items : List α) (db : Db) : Appends db (items.foldl f db) := by
  induction items generalizing db with
  | nil => exact appends_refl db
  | cons a rest ih => exact appends_trans (hf db a) (ih (f db a))

theorem OpenPut.mono {db db' : Db} {peerId filepath : Text} (h : OpenPut db peerId filepath)
    (happends : Appends db db') : OpenPut db' peerId filepath := by
  obtain ⟨r, hr, hblocks⟩ := h
  exact ⟨r, happends.outbox.subset hr, hblocks⟩

/-- Enqueuing for an existing object and peer leaves an open PUT, an old or a new one. -/
theorem enqueuePutForPeer_open {db : Db} (now : Instant) {peerId : Text} {objectId : Int}
    (filepathUuid etag : Text) (hobject : (getObjectById db objectId).isSome = true)
    (hpeer : ∃ p ∈ db.clusterPeer.rows, p.id = peerId) :
    ∃ db', enqueuePutForPeer db now peerId objectId filepathUuid etag = some db' ∧
      OpenPut db' peerId filepathUuid := by
  unfold enqueuePutForPeer
  by_cases hopen : db.replicationOutbox.rows.any (blocksPut peerId filepathUuid) = true
  · rw [if_pos hopen]
    exact ⟨db, rfl, List.any_eq_true.mp hopen⟩
  · have hexists : ((getObjectById db objectId).isSome &&
        db.clusterPeer.rows.any (·.id == peerId)) = true := by
      simpa [hobject] using hpeer
    rw [if_neg hopen, if_pos hexists]
    refine ⟨_, rfl, OutboxTable.newJob db.replicationOutbox.nextId peerId objectId filepathUuid
      etag .put now, List.mem_append_right _ (List.mem_singleton.mpr rfl), ?_⟩
    simp [blocksPut, OutboxTable.newJob, isOpen]

theorem appends_enqueuePutForPeer {db db' : Db} {now : Instant} {peerId : Text} {objectId : Int}
    {filepathUuid etag : Text}
    (h : enqueuePutForPeer db now peerId objectId filepathUuid etag = some db') :
    Appends db db' := by
  unfold enqueuePutForPeer at h
  split_ifs at h
  · cases h
    exact appends_refl db
  · cases h
    exact ⟨rfl, rfl, rfl, rfl, List.prefix_append _ _⟩

theorem appends_pushEntry (now : Instant) (peerId : Text) (db : Db) (filepath : Text) :
    Appends db (pushEntry now peerId db filepath) := by
  unfold pushEntry
  cases objectByFilepath db filepath with
  | none => exact appends_refl db
  | some o =>
    simp only
    split_ifs
    · cases henqueue : enqueuePutForPeer db now peerId o.id o.filepath o.etag with
      | none => exact appends_refl db
      | some db' => exact appends_enqueuePutForPeer henqueue
    · exact appends_refl db

theorem appends_pushToPeer (now : Instant) (own : List (Text × Text)) (db : Db) (peerId : Text)
    (answer : Option (List (Text × Text))) : Appends db (pushToPeer now own db peerId answer) := by
  cases answer with
  | none => exact appends_refl db
  | some remote => exact appends_foldl (appends_pushEntry now peerId) _ db

/-- Pushing an active object to a known peer that receives its bucket leaves an open PUT. -/
theorem pushEntry_open {db : Db} {now : Instant} {peerId : Text} {o : ObjectRecord}
    (ho : o ∈ db.object.rows) (hactive : o.deletedAt = none)
    (hpeer : ∃ p ∈ db.clusterPeer.rows, p.id = peerId)
    (hreceives : peerShouldReceiveBucket db peerId o.bucketId = true) :
    OpenPut (pushEntry now peerId db o.filepath) peerId o.filepath := by
  have hfind : objectByFilepath db o.filepath = some o :=
    objectByFilepath_eq_some.mpr ⟨ho, rfl, hactive⟩
  have hget : (getObjectById db o.id).isSome = true := by
    rw [getObjectById_eq_some.mpr ⟨ho, rfl⟩]
    rfl
  obtain ⟨db', henqueue, hopen⟩ := enqueuePutForPeer_open now o.filepath o.etag hget hpeer
  unfold pushEntry
  simp only [hfind, hreceives, if_true, henqueue, Option.getD_some]
  exact hopen

theorem receives_of_appends {db db' : Db} (h : Appends db db') {peerId : Text} {bucketId : Int} :
    peerShouldReceiveBucket db' peerId bucketId = peerShouldReceiveBucket db peerId bucketId := by
  unfold peerShouldReceiveBucket bucketReplicatesTo
  rw [h.bucket, h.assignments]

/-- After a peer's part of a round, every missing object has an open PUT. -/
theorem pushToPeer_open {db : Db} {now : Instant} {own remote : List (Text × Text)}
    {peerId : Text} {o : ObjectRecord} (ho : o ∈ db.object.rows) (hactive : o.deletedAt = none)
    (hpeer : ∃ p ∈ db.clusterPeer.rows, p.id = peerId)
    (hreceives : peerShouldReceiveBucket db peerId o.bucketId = true)
    (hmissing : o.filepath ∈ missingEntries own remote) :
    OpenPut (pushToPeer now own db peerId (some remote)) peerId o.filepath := by
  obtain ⟨before, after, hsplit⟩ := List.append_of_mem hmissing
  have hreach : Appends db (before.foldl (pushEntry now peerId) db) :=
    appends_foldl (appends_pushEntry now peerId) before db
  unfold pushToPeer
  simp only
  rw [hsplit, List.foldl_append, List.foldl_cons]
  refine OpenPut.mono ?_ (appends_foldl (appends_pushEntry now peerId) after _)
  apply pushEntry_open _ hactive
  · rw [hreach.peers]
    exact hpeer
  · rw [receives_of_appends hreach]
    exact hreceives
  · rw [hreach.object]
    exact ho

/-- If a round at `a`, in which the peer answers the digest of `b`, enqueues nothing for
the peer, then `b` holds every active object of `a` by filepath and ETag, or the outbox
of `a` already has an open PUT of it for the peer. -/
theorem quiet_round_complete (a b : AppState) (now : Instant) (p : ClusterPeer)
    (remote : ClusterPeer → Option (List (Text × Text)))
    (hpeer : p ∈ listActivePeers a.db) (hother : p.id ≠ a.config.nodeId)
    (hanswer : remote p = some (syncDigest b []))
    (hreceives : ∀ c ∈ a.db.bucket.rows, peerShouldReceiveBucket a.db p.id c.id = true)
    (hquiet : (runOnce a now remote).db.replicationOutbox.rows.filter (·.peerId == p.id) =
      a.db.replicationOutbox.rows.filter (·.peerId == p.id)) :
    ∀ o ∈ a.db.object.rows, o.deletedAt = none →
      HeldBy b.db o ∨ OpenPut a.db p.id o.filepath := by
  intro o ho hactive
  by_cases hmissing : isMissing (syncDigest b []) o.filepath o.etag = true
  · refine Or.inr ?_
    -- The rows of the round for this peer are those before it, so the open PUT is old.
    suffices hround : OpenPut (runOnce a now remote).db p.id o.filepath by
      obtain ⟨r, hr, hblocks⟩ := hround
      have hmem : r ∈ (runOnce a now remote).db.replicationOutbox.rows.filter
          (·.peerId == p.id) := by
        refine List.mem_filter.mpr ⟨hr, ?_⟩
        unfold blocksPut at hblocks
        simp only [Bool.and_eq_true] at hblocks
        exact hblocks.1.1.1
      rw [hquiet] at hmem
      exact ⟨r, List.mem_of_mem_filter hmem, hblocks⟩
    have hlisted : p ∈ (listActivePeers a.db).filter fun p => p.id != a.config.nodeId := by
      rw [List.mem_filter, bne_iff_ne]
      exact ⟨hpeer, hother⟩
    have hentry : o.filepath ∈ missingEntries (digestMap a.db []) (syncDigest b []) := by
      refine List.mem_map.mpr ⟨(o.filepath, o.etag), List.mem_filter.mpr ⟨?_, hmissing⟩, rfl⟩
      exact mem_digestMap_nil.mpr ⟨o, ho, hactive, rfl, rfl⟩
    obtain ⟨before, after, hsplit⟩ := List.append_of_mem hlisted
    unfold runOnce
    simp only
    rw [hsplit, List.foldl_append, List.foldl_cons]
    have hpush : ∀ (db : Db) (q : ClusterPeer),
        Appends db (pushToPeer now (digestMap a.db []) db q.id (remote q)) := by
      intro db q
      exact appends_pushToPeer now _ db q.id (remote q)
    have hreach := appends_foldl hpush before a.db
    refine OpenPut.mono ?_ (appends_foldl hpush after _)
    rw [hanswer]
    obtain ⟨c, hc, hcid⟩ := a.db.object_bucket o ho
    apply pushToPeer_open _ hactive _ _ hentry
    · rw [hreach.object]
      exact ho
    · rw [hreach.peers]
      exact ⟨p, List.mem_of_mem_filter hpeer, rfl⟩
    · rw [receives_of_appends hreach, ← hcid]
      exact hreceives c hc
  · rw [Bool.not_eq_true, isMissing_eq_false] at hmissing
    exact Or.inl (digestLookup_digestMap.mp hmissing)

/-- The receiver of a first delivery of the object `x/k` with one byte to the bucket `b`. -/
def receiver : AppState :=
  (replicateObject Platform.sample (AppState.migrated "node-2".toList) Instant.epoch
    [some (.metadata {
      originalFilename := "x/k".toList
      filepathUuid := (Target.fresh (Uuid.numbered 1)).filepath Platform.sample "x/k".toList
      fileFormat := "bin".toList
      filesizeBytes := 1
      etagType := "md5".toList
      etag := Platform.sample.digest .md5 [97]
      dateUploaded := []
      dateModified := []
      bucketName := ['b'] }), some (.payload [97])] {}).2

/-- The sender of the object, with its PUT still in the outbox. -/
def sender : AppState :=
  let s := AppState.migrated "node-1".toList
  let started := startNode ((createBucket s.db ['b'] 1 .md5).getD s.db) sampleCluster
  (putObjectKeyedInBucket Platform.sample { s with db := started } Instant.epoch
    (Uuid.numbered 1) "x/k".toList [] [some [97]] (some 2) {}).2

/-- The sender after the delivery. -/
def delivered : AppState := { sender with db := completeOutboxJob sender.db 1 }

/-- The sender after the delivery and a rename of the folder. -/
def renamedFolder : AppState :=
  match renamePrefix delivered.db Instant.epoch 2 "x/".toList "y/".toList with
  | .error _ => delivered
  | .ok call => { delivered with db := call.2 }

/-- The sender after the delivery and a rename of the bucket. -/
def renamedBucket : AppState :=
  match renameBucket delivered.db 2 ['c'] with
  | .error _ => delivered
  | .ok db => { delivered with db := db }

def peer : ClusterPeer := ⟨"node-2".toList, "10.0.0.2:50051".toList, true⟩

theorem quiet_round_complete_after_rename :
    renamedFolder.db.object.rows.length = 1 ∧
      ∀ o ∈ renamedFolder.db.object.rows, o.deletedAt = none →
        HeldBy receiver.db o ∨ OpenPut renamedFolder.db peer.id o.filepath :=
  ⟨by decide, quiet_round_complete renamedFolder receiver Instant.epoch peer
    (fun _ => some (syncDigest receiver [])) (by decide) (by decide) rfl (by decide) (by decide)⟩

/-- Bucket names and keys of the active objects. -/
def namesOf (s : AppState) : List (Option Text × Text) :=
  (listObjects s.db).map fun r => (bucketNameOf s.db r, r.originalFilename)

/-- Rounds that enqueue nothing: after a rename of the folder or of the bucket the peer has
the old name, an object whose PUT is open need not be there, and neither need any object
when the peer cannot be reached. -/
theorem quiet_round_can_miss :
    let jobsAfter (s : AppState) (answer : Option (List (Text × Text))) :=
      (runOnce s Instant.epoch fun _ => answer).db.replicationOutbox.rows
    let empty := AppState.migrated "node-2".toList
    (∀ s ∈ [sender, delivered, renamedFolder, renamedBucket],
      peer ∈ listActivePeers s.db ∧ peer.id ≠ s.config.nodeId ∧
        ∀ c ∈ s.db.bucket.rows, peerShouldReceiveBucket s.db peer.id c.id = true) ∧
      (jobsAfter renamedFolder (some (syncDigest receiver [])) = [] ∧
        namesOf renamedFolder = [(some ['b'], "y/k".toList)] ∧
        namesOf receiver = [(some ['b'], "x/k".toList)]) ∧
      (jobsAfter renamedBucket (some (syncDigest receiver [])) = [] ∧
        namesOf renamedBucket = [(some ['c'], "x/k".toList)]) ∧
      (jobsAfter sender (some (syncDigest empty [])) = sender.db.replicationOutbox.rows ∧
        namesOf sender = [(some ['b'], "x/k".toList)] ∧ namesOf empty = []) ∧
      jobsAfter delivered none = [] ∧ namesOf delivered = [(some ['b'], "x/k".toList)] := by
  decide

end MyS3.DigestRounds
