import MyS3.OutboxRefs

/-!
The edits of the replication of a bucket, in `db/repository.rs`. They change which peers a
bucket goes to from then on: its flag `replicate_to_all` and its node assignments. The
objects, the peers and the jobs in the outbox stay as they are.
-/

namespace MyS3.ReplicationEdits

open Library.Strings Library.Tables
open Models Database Outbox PeerManager

inductive EditError
  | bucketNotFound
  | mustBePositive
  | peerNotFound
  | noFields
  | assignmentNotFound
  | localNode
  | lastNode
  | query
  deriving DecidableEq

/-- The text of the error; a library error has none here. -/
def EditError.message : EditError → Option Text
  | .bucketNotFound => some "bucket not found".toList
  | .mustBePositive => some ("allocated_bytes".toList ++ " must be positive".toList)
  | .peerNotFound => some ("peer not found".toList ++ " or inactive".toList)
  | .noFields => some "no fields to update".toList
  | .assignmentNotFound => some ("node assignment".toList ++ " not found".toList)
  | .localNode => some ("cannot remove".toList ++ " the local node".toList)
  | .lastNode => some ("cannot remove".toList ++ " the last node".toList)
  | .query => none

/-- `UPDATE bucket SET replicate_to_all = ?1 WHERE id = ?2`. -/
def setReplicateToAll (db : Db) (bucketId : Int) (replicateToAll : Bool) : Db :=
  { db with
    bucket := db.bucket.updateWhere (fun b => b.id == bucketId)
      (fun b => { b with replicateToAll := replicateToAll }) (fun _ => rfl) (fun _ => rfl)
    object_bucket := by
      intro r hr
      obtain ⟨b, hb, hid⟩ := db.object_bucket r hr
      have h := exists_updateRows (fun b : BucketRecord => b.id) (fun b => b.id == bucketId)
        (f := fun b => { b with replicateToAll := replicateToAll }) (fun _ => rfl) hb
      obtain ⟨u, hu, heq⟩ := h
      exact ⟨u, hu, heq.trans hid⟩ }

def withAssignments (db : Db) (rows : List BucketNodeAssignment) : Db :=
  { db with bucketReplicationPeer := rows }

def isFor (bucketId : Int) (peerId : Text) (a : BucketNodeAssignment) : Bool :=
  a.bucketId == bucketId && a.peerId == peerId

/-- `INSERT OR IGNORE`, for an active peer. -/
def assignListed (db : Db) (bucketId : Int) (rows : List BucketNodeAssignment) (peerId : Text) :
    List BucketNodeAssignment :=
  if (activePeer db peerId).isNone then rows
  else if rows.any (isFor bucketId peerId) then rows
  else rows ++ [⟨bucketId, peerId, defaultNodeAllocatedBytes, .soft⟩]

def setBucketReplication (db : Db) (bucketId : Int) (replicateToAll : Bool)
    (peerIds : List Text) : Except EditError Db :=
  if (db.bucket.byId bucketId).isNone then .error .bucketNotFound
  else
    let others := db.bucketReplicationPeer.filter fun a => !(a.bucketId == bucketId)
    let rows :=
      if replicateToAll then others else peerIds.foldl (assignListed db bucketId) others
    .ok (withAssignments (setReplicateToAll db bucketId replicateToAll) rows)

/-- `ON CONFLICT(bucket_id, peer_id) DO UPDATE`. -/
def upsertAssignment (rows : List BucketNodeAssignment) (a : BucketNodeAssignment) :
    List BucketNodeAssignment :=
  if rows.any (isFor a.bucketId a.peerId) then
    updateRows (isFor a.bucketId a.peerId)
      (fun r => { r with allocatedBytes := a.allocatedBytes, quotaMode := a.quotaMode }) rows
  else rows ++ [a]

/-- The new row has to refer to a bucket. -/
def assignBucketNode (db : Db) (bucketId : Int) (peerId : Text) (allocatedBytes : Int)
    (quotaMode : QuotaMode) : Except EditError Db :=
  if allocatedBytes ≤ 0 then .error .mustBePositive
  else if (activePeer db peerId).isNone then .error .peerNotFound
  else if (db.bucket.byId bucketId).isNone then .error .query
  else
    .ok (withAssignments (setReplicateToAll db bucketId false)
      (upsertAssignment db.bucketReplicationPeer ⟨bucketId, peerId, allocatedBytes, quotaMode⟩))

def updateBucketNode (db : Db) (bucketId : Int) (peerId : Text) (allocatedBytes : Option Int)
    (quotaMode : Option QuotaMode) : Except EditError Db :=
  if allocatedBytes = none ∧ quotaMode = none then .error .noFields
  else if allocatedBytes.any fun b => b ≤ 0 then .error .mustBePositive
  else
    match db.bucketReplicationPeer.find? (isFor bucketId peerId) with
    | none => .error .assignmentNotFound
    | some row =>
      .ok (withAssignments (setReplicateToAll db bucketId false)
        (updateRows (isFor bucketId peerId)
          (fun r => { r with
            allocatedBytes := allocatedBytes.getD row.allocatedBytes
            quotaMode := quotaMode.getD row.quotaMode }) db.bucketReplicationPeer))

/-- The assignment is removed before the flag is cleared, in a call of its own. -/
def removeBucketNode (db : Db) (bucketId : Int) (peerId localNodeId : Text)
    (updateFails : Bool) : Except EditError Unit × Db :=
  if peerId = localNodeId then (.error .localNode, db)
  else if (db.bucketReplicationPeer.filter fun a => a.bucketId == bucketId).length ≤ 1 then
    (.error .lastNode, db)
  else if !(db.bucketReplicationPeer.any (isFor bucketId peerId)) then
    (.error .assignmentNotFound, db)
  else
    let removed := withAssignments db
      (db.bucketReplicationPeer.filter fun a => !(isFor bucketId peerId a))
    if updateFails then (.error .query, removed)
    else (.ok (), setReplicateToAll removed bucketId false)

/-- An edit of one bucket's replication. -/
inductive Edit
  | setBucketReplication (bucketId : Int) (replicateToAll : Bool) (peerIds : List Text)
  | assignBucketNode (bucketId : Int) (peerId : Text) (allocatedBytes : Int)
      (quotaMode : QuotaMode)
  | updateBucketNode (bucketId : Int) (peerId : Text) (allocatedBytes : Option Int)
      (quotaMode : Option QuotaMode)
  | removeBucketNode (bucketId : Int) (peerId : Text) (updateFails : Bool)
  | ensureBucketNodeAssignment (bucketId : Int) (peerId : Text) (allocatedBytes : Int)
      (quotaMode : QuotaMode)

def edited (db : Db) : Except EditError Db → Db
  | .ok db' => db'
  | .error _ => db

/-- The database after an edit, which an error leaves as it was. -/
def Edit.run (localNodeId : Text) (db : Db) : Edit → Db
  | .setBucketReplication bucketId replicateToAll peerIds =>
    edited db (ReplicationEdits.setBucketReplication db bucketId replicateToAll peerIds)
  | .assignBucketNode bucketId peerId allocatedBytes quotaMode =>
    edited db (ReplicationEdits.assignBucketNode db bucketId peerId allocatedBytes quotaMode)
  | .updateBucketNode bucketId peerId allocatedBytes quotaMode =>
    edited db (ReplicationEdits.updateBucketNode db bucketId peerId allocatedBytes quotaMode)
  | .removeBucketNode bucketId peerId updateFails =>
    (ReplicationEdits.removeBucketNode db bucketId peerId localNodeId updateFails).2
  | .ensureBucketNodeAssignment bucketId peerId allocatedBytes quotaMode =>
    PeerManager.ensureBucketNodeAssignment db bucketId peerId allocatedBytes quotaMode

/-- What an edit leaves as it is. -/
structure SameObjects (db db' : Db) : Prop where
  object : db'.object = db.object
  clusterPeer : db'.clusterPeer = db.clusterPeer
  outbox : db'.replicationOutbox = db.replicationOutbox

theorem SameObjects.refl (db : Db) : SameObjects db db := ⟨rfl, rfl, rfl⟩

theorem sameObjects_set (db : Db) (bucketId : Int) (replicateToAll : Bool)
    (rows : List BucketNodeAssignment) :
    SameObjects db (withAssignments (setReplicateToAll db bucketId replicateToAll) rows) :=
  ⟨rfl, rfl, rfl⟩

theorem sameObjects_edited {db : Db} {result : Except EditError Db}
    (h : ∀ db', result = .ok db' → SameObjects db db') : SameObjects db (edited db result) := by
  cases result with
  | ok db' => exact h db' rfl
  | error err => exact .refl db

theorem setBucketReplication_same {db db' : Db} {bucketId : Int} {replicateToAll : Bool}
    {peerIds : List Text} (h : setBucketReplication db bucketId replicateToAll peerIds = .ok db') :
    SameObjects db db' := by
  unfold setBucketReplication at h
  split_ifs at h
  · cases h
    exact sameObjects_set _ _ _ _
  · cases h
    exact sameObjects_set _ _ _ _

theorem assignBucketNode_same {db db' : Db} {bucketId : Int} {peerId : Text}
    {allocatedBytes : Int} {quotaMode : QuotaMode}
    (h : assignBucketNode db bucketId peerId allocatedBytes quotaMode = .ok db') :
    SameObjects db db' := by
  unfold assignBucketNode at h
  split_ifs at h
  cases h
  exact sameObjects_set _ _ _ _

theorem updateBucketNode_same {db db' : Db} {bucketId : Int} {peerId : Text}
    {allocatedBytes : Option Int} {quotaMode : Option QuotaMode}
    (h : updateBucketNode db bucketId peerId allocatedBytes quotaMode = .ok db') :
    SameObjects db db' := by
  unfold updateBucketNode at h
  split_ifs at h
  split at h
  · cases h
  · cases h
    exact sameObjects_set _ _ _ _

theorem removeBucketNode_same (db : Db) (bucketId : Int) (peerId localNodeId : Text)
    (updateFails : Bool) :
    SameObjects db (removeBucketNode db bucketId peerId localNodeId updateFails).2 := by
  unfold removeBucketNode
  split_ifs <;> exact ⟨rfl, rfl, rfl⟩

theorem ensureBucketNodeAssignment_same (db : Db) (bucketId : Int) (peerId : Text)
    (allocatedBytes : Int) (quotaMode : QuotaMode) :
    SameObjects db (ensureBucketNodeAssignment db bucketId peerId allocatedBytes quotaMode) := by
  unfold ensureBucketNodeAssignment
  split_ifs <;> exact ⟨rfl, rfl, rfl⟩

theorem Edit.sameObjects (localNodeId : Text) (db : Db) (edit : Edit) :
    SameObjects db (edit.run localNodeId db) := by
  cases edit with
  | setBucketReplication bucketId replicateToAll peerIds =>
    exact sameObjects_edited fun _ => setBucketReplication_same
  | assignBucketNode bucketId peerId allocatedBytes quotaMode =>
    exact sameObjects_edited fun _ => assignBucketNode_same
  | updateBucketNode bucketId peerId allocatedBytes quotaMode =>
    exact sameObjects_edited fun _ => updateBucketNode_same
  | removeBucketNode bucketId peerId updateFails => exact removeBucketNode_same _ _ _ _ _
  | ensureBucketNodeAssignment bucketId peerId allocatedBytes quotaMode =>
    exact ensureBucketNodeAssignment_same _ _ _ _ _

end MyS3.ReplicationEdits
