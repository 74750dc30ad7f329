import MyS3.Rbac

/-!
The peers of a node: what a heartbeat and the start of the process write. A
restarted process seeds its peers and its own row, and touches no outbox row.
-/

namespace MyS3.PeerManager

open Library.Strings Library.Tables
open Models Objects Database

def defaultNodeAllocatedBytes : Int := 100 * 1024 * 1024 * 1024

def activate (endpoint : Text) (p : ClusterPeer) : ClusterPeer :=
  { p with wireguardEndpoint := endpoint, isActive := true }

/-- Insert an active peer, or update the one with this id. -/
def upsertPeerRow (t : PeerTable) (id endpoint : Text) : PeerTable :=
  if h : ∀ p ∈ t.rows, p.id ≠ id then
    { rows := t.rows ++ [{ id := id, wireguardEndpoint := endpoint, isActive := true }]
      id_unique := pairwise_append_row t.id_unique h }
  else
    { rows := updateRows (fun p => p.id == id) (activate endpoint) t.rows
      id_unique :=
        pairwise_ne_of_map_eq t.id_unique
          (map_updateRows ClusterPeer.id (f := activate endpoint) (fun _ => rfl) t.rows) }

def upsertPeer (db : Db) (id endpoint : Text) : Db :=
  { db with clusterPeer := upsertPeerRow db.clusterPeer id endpoint }

/-- `ON CONFLICT(bucket_id, peer_id) DO NOTHING`. -/
def ensureBucketNodeAssignment (db : Db) (bucketId : Int) (peerId : Text)
    (allocatedBytes : Int) (quotaMode : QuotaMode) : Db :=
  if db.bucketReplicationPeer.any fun a => a.bucketId == bucketId && a.peerId == peerId then db
  else
    { db with
      bucketReplicationPeer :=
        db.bucketReplicationPeer ++ [⟨bucketId, peerId, allocatedBytes, quotaMode⟩] }

/-- What the configuration says about the cluster: peer ids with their endpoints,
and the id and the bind address of the node itself. -/
structure ClusterConfig where
  clusterPeers : List (Text × Text)
  nodeId : Text
  grpcBindAddr : Text
  deriving DecidableEq

def seedPeersFromConfig (db : Db) (config : ClusterConfig) : Db :=
  config.clusterPeers.foldl (fun db p => upsertPeer db p.1 p.2) db

def assignLocalNode (config : ClusterConfig) (db : Db) (b : BucketRecord) : Db :=
  ensureBucketNodeAssignment db b.id config.nodeId defaultNodeAllocatedBytes .soft

def ensureLocalNode (db : Db) (config : ClusterConfig) : Db :=
  db.bucket.rows.foldl (assignLocalNode config)
    (upsertPeer db config.nodeId config.grpcBindAddr)

/-- What `main` does to the database before it spawns its tasks. -/
def startNode (db : Db) (config : ClusterConfig) : Db :=
  ensureLocalNode (seedPeersFromConfig db config) config

/-- Seeding peers and assignments keeps every part of the database that neither of them
is in. -/
theorem foldl_keeps {α β : Type*} (part : Db → β) (f : Db → α → Db)
    (hf : ∀ db a, part (f db a) = part db) (l : List α) (db : Db) :
    part (l.foldl f db) = part db := by
  induction l generalizing db with
  | nil => rfl
  | cons a rest ih => rw [List.foldl_cons, ih, hf]

theorem startNode_keeps {β : Type*} (part : Db → β)
    (hpeer : ∀ db id endpoint, part (upsertPeer db id endpoint) = part db)
    (hassign : ∀ db bucketId peerId bytes mode,
      part (ensureBucketNodeAssignment db bucketId peerId bytes mode) = part db)
    (db : Db) (config : ClusterConfig) : part (startNode db config) = part db := by
  unfold startNode ensureLocalNode seedPeersFromConfig
  rw [foldl_keeps part (assignLocalNode config) (fun db b => hassign db b.id _ _ _), hpeer,
    foldl_keeps part _ (fun db (p : Text × Text) => hpeer db p.1 p.2)]

/-- A start leaves the outbox as it was. -/
theorem startNode_outbox (db : Db) (config : ClusterConfig) :
    (startNode db config).replicationOutbox = db.replicationOutbox := by
  refine startNode_keeps _ (fun _ _ _ => rfl) (fun db bucketId peerId bytes mode => ?_) db config
  unfold ensureBucketNodeAssignment
  split <;> rfl

theorem startNode_object (db : Db) (config : ClusterConfig) :
    (startNode db config).object = db.object := by
  refine startNode_keeps _ (fun _ _ _ => rfl) (fun db bucketId peerId bytes mode => ?_) db config
  unfold ensureBucketNodeAssignment
  split <;> rfl

/-- A node that knows one other. -/
def sampleCluster : ClusterConfig where
  clusterPeers := [("node-2".toList, "10.0.0.2:50051".toList)]
  nodeId := "node-1".toList
  grpcBindAddr := "10.0.0.1:50051".toList

end MyS3.PeerManager
