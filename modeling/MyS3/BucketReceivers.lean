import MyS3.ReplicationEdits

/-!
Who receives the new objects of a bucket: every active peer while its flag is set, and
otherwise the active peers that are assigned to it. Every edit of the nodes of a bucket
clears the flag, and so leaves the assigned peers alone as receivers.
-/

namespace MyS3.BucketReceivers

open Library.Strings Library.Tables
open Models Objects Database Repository Outbox PeerManager ReplicationEdits

/-- An active peer that is not the node itself. -/
def Remote (db : Db) (localNodeId peerId : Text) : Prop :=
  ∃ p ∈ db.clusterPeer.rows, p.id = peerId ∧ p.isActive = true ∧ p.id ≠ localNodeId

def Assigned (db : Db) (bucketId : Int) (peerId : Text) : Prop :=
  ∃ a ∈ db.bucketReplicationPeer, a.bucketId = bucketId ∧ a.peerId = peerId

/-- The bucket is there, with its flag `replicate_to_all` set. -/
def SentToAll (db : Db) (bucketId : Int) : Prop :=
  ∃ b, db.bucket.byId bucketId = some b ∧ b.replicateToAll = true

/-- A new object of the bucket is sent to the peer. -/
def Receives (db : Db) (localNodeId : Text) (bucketId : Int) (peerId : Text) : Prop :=
  Remote db localNodeId peerId ∧ peerShouldReceiveBucket db peerId bucketId = true

/-- The peers that an object is enqueued for are the receivers of its bucket. -/
theorem mem_targetPeers {db : Db} {o : ObjectRecord} (ho : getObjectById db o.id = some o)
    {localNodeId peerId : Text} :
    peerId ∈ (targetPeers db o.id localNodeId).map (·.id) ↔
      Receives db localNodeId o.bucketId peerId := by
  unfold targetPeers bucketOfObject Receives peerShouldReceiveBucket
  rw [ho, Option.bind_some]
  cases hbucket : db.bucket.byId o.bucketId with
  | none => simp
  | some b =>
    simp only [List.mem_map, List.mem_filter, Bool.and_eq_true, bne_iff_ne, Option.any_some]
    constructor
    · intro h
      obtain ⟨p, ⟨hp, ⟨hactive, hne⟩, hsend⟩, rfl⟩ := h
      exact ⟨⟨p, hp, rfl, hactive, hne⟩, hsend⟩
    · intro h
      obtain ⟨⟨p, hp, rfl, hactive, hne⟩, hsend⟩ := h
      exact ⟨p, ⟨hp, ⟨hactive, hne⟩, hsend⟩, rfl⟩

theorem receives_iff {db : Db} {localNodeId : Text} {b : Int} {peerId : Text} :
    Receives db localNodeId b peerId ↔ Remote db localNodeId peerId ∧
      (db.bucket.byId b).isSome = true ∧ (SentToAll db b ∨ Assigned db b peerId) := by
  unfold Receives peerShouldReceiveBucket SentToAll Assigned
  apply and_congr_right
  intro _
  cases hbucket : db.bucket.byId b with
  | none => simp
  | some record =>
    obtain ⟨_, hid⟩ := BucketTable.byId_eq_some.mp hbucket
    simp [bucketReplicatesTo, hid]

/-- An edit of the nodes of a bucket: its flag is cleared, and the peers that are assigned
to it are the given ones. -/
structure EditsNodes (db db' : Db) (b : Int) (assigned : Text → Prop) : Prop where
  peers : db'.clusterPeer = db.clusterPeer
  exists_iff : (db'.bucket.byId b).isSome = (db.bucket.byId b).isSome
  cleared : ¬ SentToAll db' b
  assigned_iff : ∀ q, Assigned db' b q ↔ assigned q
  otherBucket : ∀ c, c ≠ b → db'.bucket.byId c = db.bucket.byId c
  otherAssigned : ∀ c, c ≠ b → ∀ q, Assigned db' c q ↔ Assigned db c q

section edits

variable {db db' : Db} {b : Int} {localNodeId p : Text} {assigned : Text → Prop}

theorem remote_congr (h : db'.clusterPeer = db.clusterPeer) {q : Text} :
    Remote db' localNodeId q ↔ Remote db localNodeId q := by
  unfold Remote
  rw [h]

theorem EditsNodes.receives (h : EditsNodes db db' b assigned) (q : Text) :
    Receives db' localNodeId b q ↔
      Remote db localNodeId q ∧ (db.bucket.byId b).isSome = true ∧ assigned q := by
  rw [receives_iff, remote_congr h.peers, h.exists_iff, h.assigned_iff, or_iff_right h.cleared]

theorem EditsNodes.others (h : EditsNodes db db' b assigned) {c : Int} (hc : c ≠ b) (q : Text) :
    Receives db' localNodeId c q ↔ Receives db localNodeId c q := by
  have hsent : SentToAll db' c ↔ SentToAll db c := by
    unfold SentToAll
    rw [h.otherBucket c hc]
  rw [receives_iff, receives_iff, remote_congr h.peers, h.otherBucket c hc, hsent,
    h.otherAssigned c hc]

theorem byId_setReplicateToAll (db : Db) (b : Int) (flag : Bool) (c : Int) :
    (setReplicateToAll db b flag).bucket.byId c = (db.bucket.byId c).map fun r =>
      if r.id == b then { r with replicateToAll := flag } else r := by
  have hrows : (setReplicateToAll db b flag).bucket.rows =
      db.bucket.rows.map fun r => if r.id == b then { r with replicateToAll := flag } else r := rfl
  unfold BucketTable.byId
  rw [hrows, List.find?_map]
  congr 2
  funext r
  simp only [Function.comp_apply]
  split_ifs <;> rfl

/-- The rows that an edit writes are those of the bucket that it names. -/
theorem editsNodes_of_rows {rows : List BucketNodeAssignment}
    (hother : ∀ a : BucketNodeAssignment, a.bucketId ≠ b →
      (a ∈ rows ↔ a ∈ db.bucketReplicationPeer))
    (hrows : ∀ q, (∃ a ∈ rows, a.bucketId = b ∧ a.peerId = q) ↔ assigned q) :
    EditsNodes db (withAssignments (setReplicateToAll db b false) rows) b assigned where
  peers := rfl
  exists_iff := by
    change ((setReplicateToAll db b false).bucket.byId b).isSome = _
    rw [byId_setReplicateToAll, Option.isSome_map]
  cleared := by
    intro h
    obtain ⟨r, hr, hflag⟩ := h
    change (setReplicateToAll db b false).bucket.byId b = some r at hr
    have hid := (BucketTable.byId_eq_some.mp hr).2
    rw [byId_setReplicateToAll] at hr
    obtain ⟨r', _, rfl⟩ := Option.map_eq_some_iff.mp hr
    by_cases hr' : (r'.id == b) = true
    · rw [if_pos hr'] at hflag
      cases hflag
    · rw [if_neg hr'] at hid
      exact hr' (beq_iff_eq.mpr hid)
  assigned_iff := hrows
  otherBucket c hc := by
    change (setReplicateToAll db b false).bucket.byId c = _
    rw [byId_setReplicateToAll]
    cases hfind : db.bucket.byId c with
    | none => rfl
    | some r =>
      have hid := (BucketTable.byId_eq_some.mp hfind).2
      have hne : ¬ (r.id == b) = true := by
        rw [beq_iff_eq, hid]
        exact hc
      rw [Option.map_some, if_neg hne]
  otherAssigned c hc q := by
    constructor
    · intro h
      obtain ⟨a, ha, hbucket, hpeer⟩ := h
      exact ⟨a, (hother a (hbucket ▸ hc)).mp ha, hbucket, hpeer⟩
    · intro h
      obtain ⟨a, ha, hbucket, hpeer⟩ := h
      exact ⟨a, (hother a (hbucket ▸ hc)).mpr ha, hbucket, hpeer⟩

theorem isFor_iff {a : BucketNodeAssignment} :
    isFor b p a = true ↔ a.bucketId = b ∧ a.peerId = p := by
  unfold isFor
  rw [Bool.and_eq_true, beq_iff_eq, beq_iff_eq]

/-- The columns that an edit may set in a row. -/
def setQuota (bytes : Int) (mode : QuotaMode) (a : BucketNodeAssignment) : BucketNodeAssignment :=
  { a with allocatedBytes := bytes, quotaMode := mode }

theorem mem_setQuota_other {bytes : Int} {mode : QuotaMode} {rows : List BucketNodeAssignment}
    {a : BucketNodeAssignment} (ha : a.bucketId ≠ b) :
    a ∈ updateRows (isFor b p) (setQuota bytes mode) rows ↔ a ∈ rows := by
  rw [mem_updateRows]
  constructor
  · intro h
    rcases h with ⟨hmem, _⟩ | ⟨a', ha', hfor, rfl⟩
    · exact hmem
    · exact absurd (isFor_iff.mp hfor).1 ha
  · intro hmem
    refine Or.inl ⟨hmem, ?_⟩
    by_contra hfor
    rw [Bool.not_eq_false] at hfor
    exact ha (isFor_iff.mp hfor).1

theorem assigned_setQuota {bytes : Int} {mode : QuotaMode} (q : Text) :
    (∃ a ∈ updateRows (isFor b p) (setQuota bytes mode) db.bucketReplicationPeer,
      a.bucketId = b ∧ a.peerId = q) ↔ Assigned db b q := by
  constructor
  · intro h
    obtain ⟨a, ha, hbucket, hpeer⟩ := h
    rcases mem_updateRows.mp ha with ⟨hmem, _⟩ | ⟨a', ha', _, rfl⟩
    · exact ⟨a, hmem, hbucket, hpeer⟩
    · exact ⟨a', ha', hbucket, hpeer⟩
  · intro h
    obtain ⟨a, ha, hbucket, hpeer⟩ := h
    by_cases hfor : isFor b p a = true
    · exact ⟨setQuota bytes mode a, mem_updateRows.mpr (Or.inr ⟨a, ha, hfor, rfl⟩), hbucket, hpeer⟩
    · rw [Bool.not_eq_true] at hfor
      exact ⟨a, mem_updateRows.mpr (Or.inl ⟨ha, hfor⟩), hbucket, hpeer⟩

theorem assigned_of_any (h : db.bucketReplicationPeer.any (isFor b p) = true) :
    Assigned db b p := by
  obtain ⟨a, ha, hfor⟩ := List.any_eq_true.mp h
  exact ⟨a, ha, isFor_iff.mp hfor⟩

theorem assignBucketNode_edits {bytes : Int} {mode : QuotaMode}
    (h : assignBucketNode db b p bytes mode = .ok db') :
    EditsNodes db db' b fun q => Assigned db b q ∨ q = p := by
  unfold assignBucketNode at h
  split_ifs at h
  cases h
  unfold upsertAssignment
  by_cases hany : db.bucketReplicationPeer.any (isFor b p) = true
  · simp only [if_pos hany]
    refine editsNodes_of_rows (fun a ha => mem_setQuota_other ha) ?_
    intro q
    refine (assigned_setQuota q).trans ⟨Or.inl, ?_⟩
    intro h'
    rcases h' with hq | rfl
    · exact hq
    · exact assigned_of_any hany
  · simp only [if_neg hany]
    refine editsNodes_of_rows ?_ ?_
    · intro a ha
      rw [List.mem_append, List.mem_singleton]
      refine or_iff_left ?_
      intro h'
      obtain rfl := h'
      exact ha rfl
    · intro q
      constructor
      · intro h'
        obtain ⟨a, ha, hbucket, hpeer⟩ := h'
        rcases List.mem_append.mp ha with ha | ha
        · exact Or.inl ⟨a, ha, hbucket, hpeer⟩
        · rw [List.mem_singleton] at ha
          subst ha
          exact Or.inr hpeer.symm
      · intro h'
        rcases h' with ⟨a, ha, hbucket, hpeer⟩ | rfl
        · exact ⟨a, List.mem_append_left _ ha, hbucket, hpeer⟩
        · exact ⟨_, List.mem_append_right _ (List.mem_singleton.mpr rfl), rfl, rfl⟩

theorem updateBucketNode_edits {bytes : Option Int} {mode : Option QuotaMode}
    (h : updateBucketNode db b p bytes mode = .ok db') :
    EditsNodes db db' b (Assigned db b) ∧ Assigned db b p := by
  unfold updateBucketNode at h
  split_ifs at h
  split at h
  · cases h
  · rename_i row hrow
    cases h
    refine ⟨editsNodes_of_rows (fun a ha => mem_setQuota_other ha) assigned_setQuota, ?_⟩
    exact ⟨row, List.mem_of_find?_eq_some hrow, isFor_iff.mp (List.find?_some hrow)⟩

theorem removeBucketNode_edits {updateFails : Bool}
    (h : removeBucketNode db b p localNodeId updateFails = (.ok (), db')) :
    EditsNodes db db' b fun q => Assigned db b q ∧ q ≠ p := by
  unfold removeBucketNode at h
  split_ifs at h
  · cases h
  · cases h
  · cases h
  · cases h
  · obtain ⟨_, rfl⟩ := Prod.mk.inj h
    change EditsNodes db (withAssignments (setReplicateToAll db b false)
      (db.bucketReplicationPeer.filter fun a => !(isFor b p a))) b _
    have hkept : ∀ a, (!(isFor b p a)) = true ↔ ¬ (a.bucketId = b ∧ a.peerId = p) := by
      intro a
      rw [Bool.not_eq_true', ← Bool.not_eq_true, isFor_iff]
    refine editsNodes_of_rows ?_ ?_
    · intro a ha
      rw [List.mem_filter, hkept]
      exact and_iff_left fun hfor => ha hfor.1
    · intro q
      constructor
      · intro h'
        obtain ⟨a, ha, hbucket, rfl⟩ := h'
        obtain ⟨hmem, hfor⟩ := List.mem_filter.mp ha
        exact ⟨⟨a, hmem, hbucket, rfl⟩, fun hpeer => (hkept a).mp hfor ⟨hbucket, hpeer⟩⟩
      · intro h'
        obtain ⟨⟨a, ha, hbucket, rfl⟩, hne⟩ := h'
        exact ⟨a, List.mem_filter.mpr ⟨ha, (hkept a).mpr fun hfor => hne hfor.2⟩, hbucket, rfl⟩

theorem assignBucketNode_active {bytes : Int} {mode : QuotaMode}
    (h : assignBucketNode db b p bytes mode = .ok db') (hlocal : p ≠ localNodeId) :
    Remote db localNodeId p ∧ (db.bucket.byId b).isSome = true := by
  unfold assignBucketNode at h
  split_ifs at h with hpos hpeer hbucket
  obtain ⟨peer, hpeer⟩ := Option.ne_none_iff_exists'.mp (mt Option.isNone_iff_eq_none.mpr hpeer)
  have hfor := List.find?_some hpeer
  rw [Bool.and_eq_true, beq_iff_eq] at hfor
  refine ⟨⟨peer, List.mem_of_find?_eq_some hpeer, hfor.1, hfor.2, hfor.1 ▸ hlocal⟩, ?_⟩
  rwa [Option.isNone_iff_eq_none, ← ne_eq, ← Option.isSome_iff_ne_none] at hbucket

end edits

/-- Nobody receives the bucket by its flag alone, the named peer apart. -/
def AssignedBeside (db : Db) (localNodeId : Text) (b : Int) (p : Text) : Prop :=
  SentToAll db b → ∀ q, Remote db localNodeId q → q ≠ p → Assigned db b q

/-- What an edit does to the receivers: those of its bucket are the assigned peers, and
those of other buckets stay. -/
structure LeavesAssigned (db db' : Db) (localNodeId : Text) (b : Int) (assigned : Text → Prop) :
    Prop where
  receivers : ∀ q, Receives db' localNodeId b q ↔
    Remote db localNodeId q ∧ (db.bucket.byId b).isSome = true ∧ assigned q
  others : ∀ c, c ≠ b → ∀ q, Receives db' localNodeId c q ↔ Receives db localNodeId c q

theorem EditsNodes.leavesAssigned {db db' : Db} {b : Int} {assigned : Text → Prop}
    (h : EditsNodes db db' b assigned) (localNodeId : Text) :
    LeavesAssigned db db' localNodeId b assigned :=
  ⟨h.receives, fun _ hc => h.others hc⟩

section effects

variable {db db' : Db} {localNodeId p : Text} {b : Int} {assigned : Text → Prop}

/-- Away from the named peer, an edit keeps the receivers exactly when nobody loses the
bucket with the flag. -/
theorem beside_iff (h : LeavesAssigned db db' localNodeId b assigned)
    (hassigned : ∀ q, q ≠ p → (assigned q ↔ Assigned db b q)) :
    (∀ q, q ≠ p → (Receives db' localNodeId b q ↔ Receives db localNodeId b q)) ↔
      AssignedBeside db localNodeId b p := by
  constructor
  · intro hkeeps hall q hremote hne
    have hsome : (db.bucket.byId b).isSome = true := by
      obtain ⟨r, hr, _⟩ := hall
      rw [hr]
      rfl
    have hreceives := (hkeeps q hne).mpr (receives_iff.mpr ⟨hremote, hsome, Or.inl hall⟩)
    exact (hassigned q hne).mp ((h.receivers q).mp hreceives).2.2
  · intro hbeside q hne
    rw [h.receivers, receives_iff, hassigned q hne]
    apply and_congr_right
    intro hremote
    apply and_congr_right
    intro _
    exact ⟨Or.inr, fun h => h.elim (fun hall => hbeside hall q hremote hne) id⟩

end effects

/-- An edit of the nodes of a bucket clears its flag: afterwards its receivers are the
peers that are assigned to it, and those of other buckets stay. The edit adds, keeps or
removes just the peer that it names exactly when no other peer had the bucket by the flag
alone. -/
theorem node_edits_leave_assigned (db : Db) (localNodeId : Text) (b : Int) (p : Text) :
    (∀ bytes mode db', assignBucketNode db b p bytes mode = .ok db' →
      LeavesAssigned db db' localNodeId b (fun q => Assigned db b q ∨ q = p) ∧
        ((∀ q, Receives db' localNodeId b q ↔
          Receives db localNodeId b q ∨ q = p ∧ p ≠ localNodeId) ↔
            AssignedBeside db localNodeId b p)) ∧
    (∀ bytes mode db', updateBucketNode db b p bytes mode = .ok db' →
      LeavesAssigned db db' localNodeId b (Assigned db b) ∧
        ((∀ q, Receives db' localNodeId b q ↔ Receives db localNodeId b q) ↔
          AssignedBeside db localNodeId b p)) ∧
    ∀ updateFails db', removeBucketNode db b p localNodeId updateFails = (.ok (), db') →
      LeavesAssigned db db' localNodeId b (fun q => Assigned db b q ∧ q ≠ p) ∧
        ((∀ q, Receives db' localNodeId b q ↔ Receives db localNodeId b q ∧ q ≠ p) ↔
          AssignedBeside db localNodeId b p) := by
  refine ⟨?_, ?_, ?_⟩
  · intro bytes mode db' h
    have hleaves := (assignBucketNode_edits h).leavesAssigned localNodeId
    refine ⟨hleaves, ?_⟩
    rw [← beside_iff hleaves fun q hne => or_iff_left hne]
    constructor
    · intro heffect q hne
      rw [heffect, or_iff_left fun h => hne h.1]
    · intro hkeeps q
      by_cases hq : q = p
      · subst hq
        rw [hleaves.receivers]
        constructor
        · intro h'
          obtain ⟨⟨peer, hpeer, rfl, _, hne⟩, _⟩ := h'
          exact Or.inr ⟨rfl, hne⟩
        · intro h'
          rcases h' with hreceives | ⟨_, hlocal⟩
          · obtain ⟨hremote, hsome, _⟩ := receives_iff.mp hreceives
            exact ⟨hremote, hsome, Or.inr rfl⟩
          · obtain ⟨hremote, hsome⟩ := assignBucketNode_active h hlocal
            exact ⟨hremote, hsome, Or.inr rfl⟩
      · rw [hkeeps q hq, or_iff_left fun h => hq h.1]
  · intro bytes mode db' h
    obtain ⟨hedits, hassigned⟩ := updateBucketNode_edits h
    have hleaves := hedits.leavesAssigned localNodeId
    refine ⟨hleaves, ?_⟩
    rw [← beside_iff hleaves fun _ _ => Iff.rfl]
    constructor
    · exact fun heffect q _ => heffect q
    · intro hkeeps q
      by_cases hq : q = p
      · subst hq
        rw [hleaves.receivers, receives_iff]
        exact ⟨fun h => ⟨h.1, h.2.1, Or.inr h.2.2⟩, fun h => ⟨h.1, h.2.1, hassigned⟩⟩
      · exact hkeeps q hq
  · intro updateFails db' h
    have hleaves := (removeBucketNode_edits h).leavesAssigned localNodeId
    refine ⟨hleaves, ?_⟩
    rw [← beside_iff hleaves fun q hne => and_iff_left hne]
    constructor
    · intro heffect q hne
      rw [heffect, and_iff_left hne]
    · intro hkeeps q
      by_cases hq : q = p
      · subst hq
        rw [hleaves.receivers]
        exact ⟨fun h => absurd rfl h.2.2.2, fun h => absurd rfl h.2⟩
      · rw [hkeeps q hq, and_iff_left hq]

/-- A node with two peers, whose bucket goes to all of them. -/
def clusterOfThree : ClusterConfig where
  clusterPeers := [("node-2".toList, "10.0.0.2:50051".toList),
    ("node-3".toList, "10.0.0.3:50051".toList)]
  nodeId := "node-1".toList
  grpcBindAddr := "10.0.0.1:50051".toList

def sentToThree : Db := startNode Db.migrated clusterOfThree

instance (db : Db) (localNodeId peerId : Text) : Decidable (Remote db localNodeId peerId) :=
  inferInstanceAs (Decidable (∃ p ∈ db.clusterPeer.rows, _))

instance (db : Db) (localNodeId : Text) (b : Int) (peerId : Text) :
    Decidable (Receives db localNodeId b peerId) := by
  unfold Receives
  infer_instance

/-- Setting a quota of the node itself takes the bucket away from both peers, and assigning
one peer takes it away from the other. -/
theorem node_edit_clears_flag :
    let local1 := "node-1".toList
    let receives db := ["node-2".toList, "node-3".toList].filter fun q => Receives db local1 1 q
    let after result := edited sentToThree result
    receives sentToThree = ["node-2".toList, "node-3".toList] ∧
      (updateBucketNode sentToThree 1 local1 (some 5) none).toOption.isSome = true ∧
      receives (after (updateBucketNode sentToThree 1 local1 (some 5) none)) = [] ∧
      (assignBucketNode sentToThree 1 "node-2".toList 5 .soft).toOption.isSome = true ∧
      receives (after (assignBucketNode sentToThree 1 "node-2".toList 5 .soft)) =
        ["node-2".toList] := by
  decide

end MyS3.BucketReceivers
