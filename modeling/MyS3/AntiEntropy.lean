import MyS3.ReceiveFailure

/-!
Anti-entropy of `cluster/anti_entropy.rs`: a node compares its digest with that of
each peer and enqueues a PUT for every object that the peer lacks or holds under
another ETag. The object is looked up again when it is enqueued. An acknowledged
replication closes the gap only when the receiver held no other version of it.
-/

namespace MyS3.AntiEntropy

open Library.Strings Library.Tables
open Models Objects Database Engine Repository Outbox Rbac Http S3Routes GrpcServer
open ReceiveFailure

/-- `missing`: the remote digest has no entry, or another ETag. -/
def isMissing (remote : List (Text × Text)) (filepath etag : Text) : Bool :=
  match digestLookup remote filepath with
  | none => true
  | some remoteEtag => remoteEtag != etag

/-- Enqueue one missing object, if it still exists and the peer receives its bucket.
An error of the insert is logged and the loop goes on. -/
def pushEntry (now : Instant) (peerId : Text) (db : Db) (filepath : Text) : Db :=
  match objectByFilepath db filepath with
  | none => db
  | some obj =>
    if peerShouldReceiveBucket db peerId obj.bucketId then
      (enqueuePutForPeer db now peerId obj.id obj.filepath obj.etag).getD db
    else db

/-- The filepaths of a local digest that a remote digest is missing. -/
def missingEntries (own remote : List (Text × Text)) : List Text :=
  (own.filter fun e => isMissing remote e.1 e.2).map (·.1)

def listActivePeers (db : Db) : List ClusterPeer :=
  db.clusterPeer.rows.filter (·.isActive)

/-- One peer of a round; `none` is a peer that cannot be reached. -/
def pushToPeer (now : Instant) (own : List (Text × Text)) (db : Db) (peerId : Text) :
    Option (List (Text × Text)) → Db
  | none => db
  | some remote => (missingEntries own remote).foldl (pushEntry now peerId) db

/-- `run_once`, with the digest that each peer answers. -/
def runOnce (s : AppState) (now : Instant) (remote : ClusterPeer → Option (List (Text × Text))) :
    AppState :=
  { s with
    db := ((listActivePeers s.db).filter fun p => p.id != s.config.nodeId).foldl
      (fun db p => pushToPeer now (digestMap s.db []) db p.id (remote p)) s.db }

theorem isMissing_eq_false {remote : List (Text × Text)} {filepath etag : Text} :
    isMissing remote filepath etag = false ↔ digestLookup remote filepath = some etag := by
  unfold isMissing
  cases digestLookup remote filepath with
  | none => simp
  | some remoteEtag => simp

/-- After an acknowledgement the receiver's digest maps the filepath to the confirmed
ETag, and the sender's next round finds nothing missing, exactly when the receiver
held no row with the filepath before, or an active one with this ETag. -/
theorem acknowledged_in_digest_iff (P : Platform) (s s' : AppState) (now : Instant)
    (stream : List (Option ObjectChunk)) (faults : ReceiveFaults) (ack : ReplicationAck)
    (m : ObjectMetadata) (chunks : List Bytes)
    (hcollect : collectChunks stream = some (some m, chunks))
    (h : replicateObject P s now stream faults = (.ok ack, s')) :
    (digestLookup (syncDigest s' []) m.filepathUuid = some ack.etagConfirmed ∧
        isMissing (syncDigest s' []) m.filepathUuid ack.etagConfirmed = false) ↔
      ∀ r ∈ s.db.object.rows, r.filepath = m.filepathUuid →
        r.deletedAt = none ∧ r.etag = m.etag := by
  obtain ⟨m', chunks', bucketId, db, hcollect', _, _, hetag, hensure, hins, _, _⟩ :=
    replicateObject_ok h
  rw [hcollect] at hcollect'
  cases hcollect'
  have hframe := (ensureBucket_frame s.db m.bucket faults.bucket).1
  rw [hensure] at hframe
  rw [isMissing_eq_false, and_self, hetag]
  unfold syncDigest
  rw [digestLookup_digestMap]
  rcases insertObjectIdempotent_eq hins with ⟨⟨r, hr, hpath⟩, hdb⟩ | ⟨hfree, e, _, hdb⟩
  · rw [hdb, hframe]
    rw [hframe] at hr
    constructor
    · intro h' b hb hbpath
      obtain ⟨a, ha, hactive, hapath, haetag⟩ := h'
      rw [s.db.object.eq_of_filepath hb ha (hbpath.trans hapath.symm)]
      exact ⟨hactive, haetag⟩
    · intro hall
      obtain ⟨hactive, hetag⟩ := hall r hr hpath
      exact ⟨r, hr, hactive, hpath, hetag⟩
  · rw [hframe] at hfree
    constructor
    · intro _ r hr hpath
      exact absurd hpath (hfree r hr)
    · intro _
      exact ⟨_, (Db.mem_insertObject hdb).mpr (Or.inr rfl), rfl, rfl, rfl⟩

/-- A first delivery is acknowledged and its digest agrees. -/
theorem first_delivery_in_digest :
    let s := AppState.migrated "node-2".toList
    let call := replicateObject Platform.sample s Instant.epoch (received sampleMetadata [97]) {}
    digestLookup (syncDigest call.2 []) sampleMetadata.filepathUuid = some sampleMetadata.etag ∧
      isMissing (syncDigest call.2 []) sampleMetadata.filepathUuid sampleMetadata.etag = false := by
  intro s call
  apply (acknowledged_in_digest_iff Platform.sample s call.2 Instant.epoch
    (received sampleMetadata [97]) {}
    ⟨true, "Object successfully replicated".toList, sampleMetadata.etag⟩ sampleMetadata [[97]]
    rfl rfl).mpr
  intro r hr
  cases hr

/-- A second delivery of an object that the receiver recycled is acknowledged, and the
digest does not list it. -/
theorem acknowledged_not_in_digest :
    let s := (S3Routes.deleteObject Limit1.first holdsSample Instant.epoch ['k'] false).2
    let call := replicateObject Platform.sample s Instant.epoch (received sampleMetadata [97]) {}
    (match call.1 with | .error _ => none | .ok ack => some (ack.success, ack.etagConfirmed)) =
        some (true, sampleMetadata.etag) ∧
      digestLookup (syncDigest call.2 []) sampleMetadata.filepathUuid = none := by
  refine ⟨by decide, by decide⟩

end MyS3.AntiEntropy
