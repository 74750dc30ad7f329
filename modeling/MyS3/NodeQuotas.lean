import MyS3.BucketReceivers
import MyS3.EtagRuns

/-!
The allocations of the nodes of a bucket when its replication is edited as a whole, by
`put_bucket_replication` in `server/settings_routes.rs`. The edit removes every row of the
bucket and inserts the listed peers again, and the node itself after that; the rows that
come back have the default allocation.
-/

namespace MyS3.NodeQuotas

open Library.Strings Library.Tables
open Models Database Outbox Http PeerManager ReplicationEdits BucketReceivers
open EtagRuns (canEditBucketReplication)

structure PutBucketReplication where
  actor : Int
  bucketId : Int
  replicateToAll : Bool
  peerIds : List Text
  deriving DecidableEq

/-- The queries of a request that fail: of the permission check, of the transaction, and
of the insert after it. -/
structure ReplicationFaults where
  permission : Bool := false
  set : Bool := false
  ensure : Bool := false
  deriving DecidableEq

/-- The insert of the node's own row; the row refers to a peer. Its error is ignored. -/
def ensureLocalAssignment (s : AppState) (db : Db) (bucketId : Int) (fails : Bool) : Db :=
  if fails || !(db.clusterPeer.rows.any fun p => p.id == s.config.nodeId) then db
  else ensureBucketNodeAssignment db bucketId s.config.nodeId defaultNodeAllocatedBytes .soft

def putBucketReplication (s : AppState) (req : PutBucketReplication)
    (faults : ReplicationFaults) : Response × Db :=
  if faults.permission then (databaseError, s.db)
  else if canEditBucketReplication s.db req.actor req.bucketId = false then
    (.failure .forbidden (.message "bucket owner or edit permission required".toList), s.db)
  else if faults.set then (databaseError, s.db)
  else
    match setBucketReplication s.db req.bucketId req.replicateToAll req.peerIds with
    | .ok db => (.noContent, ensureLocalAssignment s db req.bucketId faults.ensure)
    | .error err =>
      match err.message with
      | some msg =>
        if (findText "not found".toList msg).isSome then (.failure .notFound (.message msg), s.db)
        else (.failure .internalServerError (.message msg), s.db)
      | none => (databaseError, s.db)

/-- The row of a node of a bucket. -/
def assignmentOf (db : Db) (bucketId : Int) (peerId : Text) : Option BucketNodeAssignment :=
  db.bucketReplicationPeer.find? (isFor bucketId peerId)

def IsDefault (a : BucketNodeAssignment) : Prop :=
  a.allocatedBytes = defaultNodeAllocatedBytes ∧ a.quotaMode = .soft

/-- Every node that is assigned to a bucket before and after has its allocation and quota
mode still. -/
def KeepsQuotas (db db' : Db) : Prop :=
  ∀ b p a a', assignmentOf db b p = some a → assignmentOf db' b p = some a' →
    a'.allocatedBytes = a.allocatedBytes ∧ a'.quotaMode = a.quotaMode

/-- The request is answered with an error. -/
def Refused (s : AppState) (req : PutBucketReplication) (faults : ReplicationFaults) : Prop :=
  faults.permission = true ∨ canEditBucketReplication s.db req.actor req.bucketId = false ∨
    faults.set = true ∨ (s.db.bucket.byId req.bucketId).isNone = true

/-- The nodes that an edit assigns: the listed active peers, unless the bucket goes to all,
and the node itself. -/
def Reassigned (s : AppState) (req : PutBucketReplication) (faults : ReplicationFaults)
    (p : Text) : Prop :=
  (req.replicateToAll = false ∧ p ∈ req.peerIds ∧ (activePeer s.db p).isSome = true) ∨
    (p = s.config.nodeId ∧ faults.ensure = false ∧ ∃ peer ∈ s.db.clusterPeer.rows, peer.id = p)

theorem refused_run {s : AppState} {req : PutBucketReplication} {faults : ReplicationFaults}
    (h : Refused s req faults) : (putBucketReplication s req faults).2 = s.db := by
  unfold putBucketReplication
  split_ifs with hpermission hcan hset
  · rfl
  · rfl
  · rfl
  · have hnone := (h.resolve_left hpermission).resolve_left hcan |>.resolve_left hset
    have hmissing : setBucketReplication s.db req.bucketId req.replicateToAll req.peerIds =
        .error .bucketNotFound := if_pos hnone
    rw [hmissing]
    rfl

/-- The rows while an edit of a bucket rebuilds them: those of other buckets as they were,
and default rows for the peers that are back. -/
structure Rebuilt (db : Db) (b : Int) (rows : List BucketNodeAssignment) (back : Text → Prop) :
    Prop where
  other : ∀ c, c ≠ b → ∀ p, rows.find? (isFor c p) = assignmentOf db c p
  default : ∀ a ∈ rows, a.bucketId = b → IsDefault a
  listed : ∀ p, (rows.find? (isFor b p)).isSome = true ↔ back p

section rebuild

variable {db : Db} {b : Int} {rows : List BucketNodeAssignment} {back : Text → Prop}

theorem rebuilt_others (db : Db) (b : Int) :
    Rebuilt db b (db.bucketReplicationPeer.filter fun a => !(a.bucketId == b)) fun _ => False where
  other c hc p := by
    rw [List.find?_filter]
    unfold assignmentOf
    congr 1
    funext a
    by_cases hfor : isFor c p a = true
    · have hne : a.bucketId ≠ b := (isFor_iff.mp hfor).1 ▸ hc
      simp [hfor, hne]
    · rw [Bool.not_eq_true] at hfor
      simp [hfor]
  default a ha hb := by
    have hne := (List.mem_filter.mp ha).2
    simp [hb] at hne
  listed p := by
    rw [List.find?_filter, iff_false, Bool.not_eq_true, Option.isSome_eq_false_iff,
      Option.isNone_iff_eq_none, List.find?_eq_none]
    intro a _ hp
    obtain ⟨hother, hfor⟩ := of_decide_eq_true hp
    rw [Bool.not_eq_true', beq_eq_false_iff_ne] at hother
    exact hother (isFor_iff.mp hfor).1

/-- A default row for one more peer. -/
theorem Rebuilt.append (h : Rebuilt db b rows back) (q : Text) :
    Rebuilt db b (rows ++ [⟨b, q, defaultNodeAllocatedBytes, .soft⟩]) fun p => back p ∨ p = q where
  other c hc p := by
    have hnone : isFor c p ⟨b, q, defaultNodeAllocatedBytes, .soft⟩ = false := by
      rw [← Bool.not_eq_true, isFor_iff]
      exact fun hfor => hc hfor.1.symm
    rw [List.find?_append, List.find?_singleton, hnone]
    simpa using h.other c hc p
  default a ha hb := by
    rcases List.mem_append.mp ha with ha | ha
    · exact h.default a ha hb
    · rw [List.mem_singleton.mp ha]
      exact ⟨rfl, rfl⟩
  listed p := by
    have hnew : (List.find? (isFor b p)
        [⟨b, q, defaultNodeAllocatedBytes, QuotaMode.soft⟩]).isSome = true ↔ p = q := by
      rw [List.find?_singleton, Option.isSome_ite, isFor_iff]
      exact ⟨fun hfor => hfor.2.symm, fun hpq => ⟨rfl, hpq.symm⟩⟩
    rw [List.find?_append, Option.isSome_or, Bool.or_eq_true, h.listed, hnew]

theorem Rebuilt.congr {back' : Text → Prop} (h : Rebuilt db b rows back)
    (hback : ∀ p, back p ↔ back' p) : Rebuilt db b rows back' :=
  ⟨h.other, h.default, fun p => (h.listed p).trans (hback p)⟩

theorem any_isFor {rows : List BucketNodeAssignment} {p : Text} :
    rows.any (isFor b p) = true ↔ (rows.find? (isFor b p)).isSome = true := by
  rw [List.any_eq_true, List.find?_isSome]

theorem Rebuilt.assignListed (h : Rebuilt db b rows back) (q : Text) :
    Rebuilt db b (assignListed db b rows q) fun p =>
      back p ∨ p = q ∧ (activePeer db q).isSome = true := by
  unfold ReplicationEdits.assignListed
  split_ifs with hpeer hany
  · refine h.congr fun p => (or_iff_left ?_).symm
    intro h'
    obtain ⟨_, hsome⟩ := h'
    rw [Option.isNone_iff_eq_none.mp hpeer] at hsome
    cases hsome
  · have hq := (h.listed q).mp (any_isFor.mp hany)
    refine h.congr fun p => (or_iff_left_of_imp ?_).symm
    intro h'
    obtain ⟨rfl, _⟩ := h'
    exact hq
  · rw [Bool.not_eq_true, Option.isNone_eq_false_iff] at hpeer
    exact (h.append q).congr fun p => or_congr_right (and_iff_left hpeer).symm

theorem Rebuilt.foldl (h : Rebuilt db b rows back) (peerIds : List Text) :
    Rebuilt db b (peerIds.foldl (ReplicationEdits.assignListed db b) rows) fun p =>
      back p ∨ p ∈ peerIds ∧ (activePeer db p).isSome = true := by
  induction peerIds generalizing rows back with
  | nil => exact h.congr fun p => by simp
  | cons q rest ih =>
    refine (ih (h.assignListed q)).congr fun p => ?_
    rw [List.mem_cons]
    constructor
    · intro h'
      rcases h' with (hp | ⟨rfl, hactive⟩) | ⟨hp, hactive⟩
      · exact Or.inl hp
      · exact Or.inr ⟨Or.inl rfl, hactive⟩
      · exact Or.inr ⟨Or.inr hp, hactive⟩
    · intro h'
      rcases h' with hp | ⟨rfl | hp, hactive⟩
      · exact Or.inl (Or.inl hp)
      · exact Or.inl (Or.inr ⟨rfl, hactive⟩)
      · exact Or.inr ⟨hp, hactive⟩

/-- An edit keeps the quotas exactly when the rows that come back were default ones. -/
theorem Rebuilt.keepsQuotas {db' : Db} (h : Rebuilt db b db'.bucketReplicationPeer back) :
    KeepsQuotas db db' ↔ ∀ p a, assignmentOf db b p = some a → back p → IsDefault a := by
  constructor
  · intro hkeeps p a ha hback
    obtain ⟨a', ha'⟩ := Option.isSome_iff_exists.mp ((h.listed p).mpr hback)
    obtain ⟨hbytes, hmode⟩ := hkeeps b p a a' ha ha'
    have hdefault := h.default a' (List.mem_of_find?_eq_some ha')
      (isFor_iff.mp (List.find?_some ha')).1
    exact ⟨hbytes ▸ hdefault.1, hmode ▸ hdefault.2⟩
  · intro hdefault c p a a' ha ha'
    by_cases hc : c = b
    · subst hc
      obtain ⟨hbytes, hmode⟩ := hdefault p a ha
        ((h.listed p).mp (Option.isSome_iff_exists.mpr ⟨a', ha'⟩))
      obtain ⟨hbytes', hmode'⟩ := h.default a' (List.mem_of_find?_eq_some ha')
        (isFor_iff.mp (List.find?_some ha')).1
      exact ⟨hbytes'.trans hbytes.symm, hmode'.trans hmode.symm⟩
    · have hsame := h.other c hc p
      rw [ha] at hsame
      cases hsame.symm.trans ha'
      exact ⟨rfl, rfl⟩

end rebuild

/-- The rows of the bucket after a request that is not refused. -/
theorem rebuilt_run {s : AppState} {req : PutBucketReplication} {faults : ReplicationFaults}
    (h : ¬ Refused s req faults) :
    Rebuilt s.db req.bucketId (putBucketReplication s req faults).2.bucketReplicationPeer
      (Reassigned s req faults) := by
  unfold Refused at h
  simp only [not_or] at h
  obtain ⟨hpermission, hcan, hset, hbucket⟩ := h
  let others := s.db.bucketReplicationPeer.filter fun a => !(a.bucketId == req.bucketId)
  let rows := if req.replicateToAll then others
    else req.peerIds.foldl (ReplicationEdits.assignListed s.db req.bucketId) others
  let db := withAssignments (setReplicateToAll s.db req.bucketId req.replicateToAll) rows
  have hok : setBucketReplication s.db req.bucketId req.replicateToAll req.peerIds = .ok db :=
    if_neg hbucket
  have hrun : (putBucketReplication s req faults).2 =
      ensureLocalAssignment s db req.bucketId faults.ensure := by
    unfold putBucketReplication
    rw [if_neg hpermission, if_neg hcan, if_neg hset, hok]
  have hrows : Rebuilt s.db req.bucketId rows fun p =>
      req.replicateToAll = false ∧ p ∈ req.peerIds ∧ (activePeer s.db p).isSome = true := by
    cases hall : req.replicateToAll with
    | true =>
      simp only [rows, hall, if_true]
      exact (rebuilt_others s.db req.bucketId).congr fun p => by simp
    | false =>
      simp only [rows, hall, Bool.false_eq_true, if_false]
      exact ((rebuilt_others s.db req.bucketId).foldl req.peerIds).congr fun p => by simp
  rw [hrun]
  unfold ensureLocalAssignment
  by_cases hlocal : faults.ensure = false ∧
      ∃ peer ∈ s.db.clusterPeer.rows, peer.id = s.config.nodeId
  · obtain ⟨hensure, peer, hpeer, hid⟩ := hlocal
    have hknown : (db.clusterPeer.rows.any fun p => p.id == s.config.nodeId) = true :=
      List.any_eq_true.mpr ⟨peer, hpeer, beq_iff_eq.mpr hid⟩
    rw [hensure, hknown]
    simp only [Bool.not_true, Bool.or_self, Bool.false_eq_true, if_false]
    unfold ensureBucketNodeAssignment
    split_ifs with hany
    · have hback := (hrows.listed s.config.nodeId).mp (any_isFor.mp hany)
      refine hrows.congr fun p => (or_iff_left_of_imp ?_).symm
      intro h'
      obtain ⟨rfl, _⟩ := h'
      exact hback
    · refine (hrows.append s.config.nodeId).congr fun p => or_congr_right ?_
      exact (and_iff_left_of_imp fun hp => ⟨hensure, peer, hpeer, hid.trans hp.symm⟩).symm
  · have hskip : (faults.ensure ||
        !(db.clusterPeer.rows.any fun p => p.id == s.config.nodeId)) = true := by
      cases hensure : faults.ensure with
      | true => rfl
      | false =>
        rw [Bool.false_or, Bool.not_eq_true', List.any_eq_false]
        intro peer hpeer hid
        exact hlocal ⟨hensure, peer, hpeer, beq_iff_eq.mp hid⟩
    rw [if_pos hskip]
    refine hrows.congr fun p => (or_iff_left ?_).symm
    intro h'
    obtain ⟨rfl, hlocal'⟩ := h'
    exact hlocal hlocal'

theorem keepsQuotas_refl (db : Db) : KeepsQuotas db db := by
  intro b p a a' ha ha'
  rw [ha] at ha'
  cases ha'
  exact ⟨rfl, rfl⟩

/-- An edit of the replication of a bucket keeps the allocation and the quota mode of every
node that stays assigned exactly when it is refused, or those nodes had the default ones. -/
theorem put_replication_keeps_quotas_iff (s : AppState) (req : PutBucketReplication)
    (faults : ReplicationFaults) :
    KeepsQuotas s.db (putBucketReplication s req faults).2 ↔
      Refused s req faults ∨ ∀ p a, assignmentOf s.db req.bucketId p = some a →
        Reassigned s req faults p → IsDefault a := by
  by_cases hrefused : Refused s req faults
  · rw [refused_run hrefused]
    exact iff_of_true (keepsQuotas_refl s.db) (Or.inl hrefused)
  · rw [or_iff_right hrefused]
    exact (rebuilt_run hrefused).keepsQuotas

/-- A node with two peers and an owner, which may hold five bytes of its bucket. -/
def fiveBytes : AppState :=
  let db := startNode { Db.migrated with
    account := [⟨1, "a1".toList, "p1".toList, [], false, none⟩]
    accountRole := [⟨1, 1⟩] } clusterOfThree
  { AppState.migrated "node-1".toList with
    db := edited db (assignBucketNode db 1 "node-1".toList 5 .hard) }

def toNode2 : PutBucketReplication := ⟨1, 1, false, ["node-2".toList]⟩

/-- Sending a bucket to one more peer makes a hard quota of five bytes a soft one of the
default size. -/
theorem put_replication_loses_hard_quota :
    (putBucketReplication fiveBytes toNode2 {}).1 = .noContent ∧
      ¬ KeepsQuotas fiveBytes.db (putBucketReplication fiveBytes toNode2 {}).2 := by
  have hbefore : assignmentOf fiveBytes.db 1 "node-1".toList =
      some ⟨1, "node-1".toList, 5, .hard⟩ := by decide
  have hafter : assignmentOf (putBucketReplication fiveBytes toNode2 {}).2 1 "node-1".toList =
      some ⟨1, "node-1".toList, defaultNodeAllocatedBytes, .soft⟩ := by decide
  refine ⟨by decide, ?_⟩
  intro hkeeps
  obtain ⟨_, hmode⟩ := hkeeps 1 _ _ _ hbefore hafter
  cases hmode

end MyS3.NodeQuotas
