import MyS3.BucketNames
import MyS3.Versions

/-!
Sequences of acknowledged uploads to one node. The object table lists the uploads
in order, each with its blob and its ETag, and the outbox holds one PUT job for each
of them and each receiving peer, in the same order. A row is recycled only by a
later upload to its bucket and key.
-/

namespace MyS3.UploadRuns

open Library.Strings Library.Tables Library.Paths
open Models Objects Database Engine Repository Outbox Rbac Http S3Routes GrpcServer Versions
open BucketNames

/-- One upload request with the faults it meets. -/
structure Put where
  now : Instant
  uuid : Uuid
  key : Text
  headers : Headers
  body : List (Option Bytes)
  bucketId : Option Int
  faults : PutFaults

def Put.run (P : Platform) (s : AppState) (p : Put) : Response × AppState :=
  putObjectKeyedInBucket P s p.now p.uuid p.key p.headers p.body p.bucketId p.faults

/-- The bucket and the key that an upload writes. -/
def Put.target (db : Db) (p : Put) : Option Int × Text :=
  (p.bucketId.orElse fun _ => defaultBucketId db, p.key)

/-- Uploads one after another; `none` is one that is not acknowledged. -/
def putAll (P : Platform) : AppState → List Put → Option AppState
  | s, [] => some s
  | s, p :: rest =>
    if (p.run P s).1.isFailure then none else putAll P (p.run P s).2 rest

/-- A node without objects and jobs, with an active peer that receives every bucket. -/
structure Source (a : AppState) (p : ClusterPeer) : Prop where
  noObjects : a.db.object.rows = []
  noJobs : a.db.replicationOutbox.rows = []
  peer : p ∈ a.db.clusterPeer.rows
  active : p.isActive = true
  remote : p.id ≠ a.config.nodeId
  receives : ∀ b ∈ a.db.bucket.rows, bucketReplicatesTo a.db b p.id = true
  names : NamesTrimmed a.db

/-- A filepath that the engine makes up. -/
def IsBlobName (P : Platform) (filepath : Text) : Prop :=
  ∃ uuid filename, filepath = (Target.fresh uuid).filepath P filename

/-- Blobs with different names are different files. -/
theorem absolutePathFor_inj {P : Platform} {root : Path} {f g : Text} (hf : IsBlobName P f)
    (hg : IsBlobName P g) (h : absolutePathFor root f = absolutePathFor root g) : f = g := by
  obtain ⟨u, k, rfl⟩ := hf
  obtain ⟨v, l, rfl⟩ := hg
  rw [absolutePathFor_fresh, absolutePathFor_fresh] at h
  have hname := List.append_cancel_left h
  simp only [List.cons.injEq, and_true, true_and] at hname
  simp only [Target.filepath, relativeFilepath, hname]

/-- What the uploads so far left, counted from the node they started on. -/
structure Sending (P : Platform) (a s : AppState) (p : ClusterPeer) (puts : List Put) : Prop where
  config : s.config = a.config
  bucket : s.db.bucket = a.db.bucket
  clusterPeer : s.db.clusterPeer = a.db.clusterPeer
  assignments : s.db.bucketReplicationPeer = a.db.bucketReplicationPeer
  targets : s.db.object.rows.map (fun r => (some r.bucketId, r.originalFilename)) =
    puts.map (·.target a.db)
  jobs : putObjects s.db.replicationOutbox p.id = s.db.object.rows.map fun r => some r.id
  ordered : s.db.replicationOutbox.rows.Pairwise fun a b => a.id < b.id
  blobs : ∀ r ∈ s.db.object.rows, IsBlobName P r.filepath ∧
    ∃ data, s.disk (targetFile s r.filepath) = some data ∧ P.digest r.etagType data = r.etag
  active : (puts.map (·.target a.db)).Nodup → ∀ r ∈ s.db.object.rows, r.deletedAt = none

theorem sending_start {P : Platform} {a : AppState} {p : ClusterPeer} (h : Source a p) :
    Sending P a a p [] where
  config := rfl
  bucket := rfl
  clusterPeer := rfl
  assignments := rfl
  targets := by simp [h.noObjects]
  jobs := by simp [putObjects, h.noObjects, h.noJobs]
  ordered := by simp [h.noJobs]
  blobs := by simp [h.noObjects]
  active := by simp [h.noObjects]

/-- A soft delete keeps the columns that it does not set. -/
theorem map_recycled {β : Type} (g : ObjectRecord → β) (db : Db) (now : Instant) (key : Text)
    (b : Int) (hg : ∀ r, g ((recycle now).apply r) = g r) :
    (recycled db now key b).object.rows.map g = db.object.rows.map g := by
  unfold recycled softDeleteObjectByFilename
  cases softDeleteCandidate Limit1.first db key (some b) with
  | none => rfl
  | some r => exact map_updateRows g hg _

/-- A row of a recycled table is an old row, up to its times. -/
theorem mem_recycled {db : Db} {now : Instant} {key : Text} {b : Int} {r : ObjectRecord}
    (h : r ∈ (recycled db now key b).object.rows) :
    r ∈ db.object.rows ∨ ∃ c ∈ db.object.rows, r = (recycle now).apply c := by
  unfold recycled softDeleteObjectByFilename at h
  cases hcand : softDeleteCandidate Limit1.first db key (some b) with
  | none =>
    rw [hcand] at h
    exact Or.inl h
  | some a =>
    rw [hcand] at h
    rcases mem_recycleById.mp h with ⟨hr, _⟩ | ⟨c, hc, _, rfl⟩
    · exact Or.inl hr
    · exact Or.inr ⟨c, hc, rfl⟩

/-- The new object gets one job for the peer. -/
theorem putObjects_uploaded {P : Platform} {s t : AppState} {now : Instant} {uuid : Uuid}
    {key : Text} {data : Bytes} {b : Int} {etagType : EtagType} {p : ClusterPeer}
    (h : Uploaded P s t now uuid key data b etagType) (hp : p ∈ s.db.clusterPeer.rows)
    (hactive : p.isActive = true) (hremote : p.id ≠ s.config.nodeId)
    (hreceives : ∀ c ∈ s.db.bucket.rows, bucketReplicatesTo s.db c p.id = true) :
    putObjects t.db.replicationOutbox p.id =
      putObjects s.db.replicationOutbox p.id ++ [some s.db.object.nextId] := by
  have hnew : (uploadedRow P now uuid key etagType data b).record s.db.object.nextId ∈
      t.db.object.rows := by
    rw [h.rows]
    exact List.mem_append_right _ List.mem_cons_self
  obtain ⟨c, hc, hcid⟩ := t.db.object_bucket _ hnew
  have hbucket : bucketOfObject t.db s.db.object.nextId = some c := by
    have hget : getObjectById t.db s.db.object.nextId = some _ :=
      getObjectById_eq_some.mpr ⟨hnew, rfl⟩
    unfold bucketOfObject
    rw [hget, Option.bind_some]
    exact BucketTable.byId_eq_some.mpr ⟨hc, hcid⟩
  have hreplicates : bucketReplicatesTo t.db c p.id = true := by
    unfold bucketReplicatesTo
    rw [h.assignments]
    exact hreceives c (h.bucket ▸ hc)
  rw [h.outbox, putObjects_enqueueAll,
    targetPeers_filter hbucket (h.clusterPeer ▸ hp) hactive hremote hreplicates]
  rfl

/-- A key that no earlier upload wrote has no version to recycle. -/
theorem recycled_of_new_target {db : Db} {now : Instant} {key : Text} {b : Int}
    (h : (some b, key) ∉ db.object.rows.map fun r => (some r.bucketId, r.originalFilename)) :
    recycled db now key b = db := by
  have hnone : softDeleteCandidate Limit1.first db key (some b) = none := by
    apply getObjectByFilenameInBucket_eq_none.mpr
    intro r hr hkey hbucket _
    exact h (List.mem_map.mpr ⟨r, hr, by rw [hkey, hbucket]⟩)
  unfold recycled
  rw [softDelete_of_none hnone]

theorem sending_step {P : Platform} {a s t : AppState} {p : ClusterPeer} {puts : List Put}
    {put : Put} {data : Bytes} {b : Int} {etagType : EtagType} (hsource : Source a p)
    (h : Sending P a s p puts) (hb : put.target a.db = (some b, put.key))
    (hup : Uploaded P s t put.now put.uuid put.key data b etagType) :
    Sending P a t p (puts ++ [put]) := by
  have hreceives : ∀ c ∈ s.db.bucket.rows, bucketReplicatesTo s.db c p.id = true := by
    intro c hc
    unfold bucketReplicatesTo
    rw [h.assignments]
    exact hsource.receives c (h.bucket ▸ hc)
  have htargets : t.db.object.rows.map (fun r => (some r.bucketId, r.originalFilename)) =
      s.db.object.rows.map (fun r => (some r.bucketId, r.originalFilename)) ++
        [(some b, put.key)] := by
    rw [hup.rows, List.map_append, map_recycled]
    · rfl
    · exact fun _ => rfl
  refine {
    config := hup.config.trans h.config
    bucket := hup.bucket.trans h.bucket
    clusterPeer := hup.clusterPeer.trans h.clusterPeer
    assignments := hup.assignments.trans h.assignments
    targets := by rw [htargets, h.targets, List.map_append, List.map_singleton, hb]
    jobs := ?_
    ordered := by
      rw [hup.outbox]
      exact ordered_enqueueAll h.ordered
    blobs := ?_
    active := ?_ }
  · rw [putObjects_uploaded hup (h.clusterPeer ▸ hsource.peer) hsource.active
      (h.config ▸ hsource.remote) hreceives, h.jobs, hup.rows, List.map_append,
      map_recycled (fun r => some r.id) _ _ _ _ fun _ => rfl]
    rfl
  · have hold : ∀ c ∈ s.db.object.rows, IsBlobName P c.filepath ∧
        ∃ data, t.disk (targetFile t c.filepath) = some data ∧
          P.digest c.etagType data = c.etag := by
      intro c hc
      obtain ⟨hname, old, hdisk, hdigest⟩ := h.blobs c hc
      refine ⟨hname, old, ?_, hdigest⟩
      rw [targetFile_congr hup.config, hup.disk, setFile_other _ ?_, hdisk]
      intro hpath
      have hsame := absolutePathFor_inj hname ⟨put.uuid, put.key, rfl⟩ hpath
      have hmem : c.filepath ∈ (recycled s.db put.now put.key b).object.rows.map (·.filepath) := by
        rw [map_recycled (·.filepath) _ _ _ _ fun _ => rfl]
        exact List.mem_map_of_mem hc
      obtain ⟨c', hc', heq⟩ := List.mem_map.mp hmem
      exact hup.free.1 c' hc' (heq.trans hsame)
    intro r hr
    rw [hup.rows] at hr
    rcases List.mem_append.mp hr with hr | hr
    · rcases mem_recycled hr with hr | ⟨c, hc, rfl⟩
      · exact hold r hr
      · exact hold c hc
    · rw [List.mem_singleton.mp hr]
      refine ⟨⟨put.uuid, put.key, rfl⟩, data, ?_, rfl⟩
      rw [targetFile_congr hup.config, hup.disk]
      exact setFile_same _ _ _
  · intro hnodup r hr
    rw [List.map_append, List.map_singleton, List.nodup_append] at hnodup
    obtain ⟨hprev, _, hdisjoint⟩ := hnodup
    have hnew : (some b, put.key) ∉
        s.db.object.rows.map fun r => (some r.bucketId, r.originalFilename) := by
      rw [h.targets]
      intro hmem
      exact hdisjoint _ hmem _ (List.mem_singleton.mpr rfl) hb.symm
    rw [hup.rows, recycled_of_new_target hnew] at hr
    rcases List.mem_append.mp hr with hr | hr
    · exact h.active hprev r hr
    · rw [List.mem_singleton.mp hr]
      rfl

theorem target_of_uploadBucket {a s : AppState} {put : Put} {b : Int}
    (hbucket : s.db.bucket = a.db.bucket)
    (h : uploadBucket s.db put.bucketId put.faults.defaultBucketId = some b) :
    put.target a.db = (some b, put.key) := by
  unfold Put.target
  unfold uploadBucket at h
  cases hid : put.bucketId with
  | some id =>
    rw [hid, Option.orElse_some] at h
    rw [Option.orElse_some, h]
  | none =>
    rw [hid, Option.orElse_none] at h
    rw [Option.orElse_none]
    unfold query at h
    split_ifs at h
    unfold defaultBucketId at h ⊢
    rw [← hbucket, h]

/-- A sequence of acknowledged uploads. -/
theorem sending_putAll {P : Platform} {a s t : AppState} {p : ClusterPeer}
    {done puts : List Put} (hsource : Source a p) (h : Sending P a s p done)
    (hputs : putAll P s puts = some t) : Sending P a t p (done ++ puts) := by
  induction puts generalizing s done with
  | nil =>
    rw [← Option.some.inj hputs, List.append_nil]
    exact h
  | cons put rest ih =>
    unfold putAll at hputs
    split_ifs at hputs with hfail
    rcases putObjectKeyedInBucket_cases P s put.now put.uuid put.key put.headers put.body
      put.bucketId put.faults with ⟨hfailed, _⟩ | ⟨b, default, _, hbucket, _, _, hup⟩
    · exact absurd hfailed hfail
    · have htarget := target_of_uploadBucket h.bucket hbucket
      have hnext := ih (sending_step hsource h htarget hup) hputs
      rwa [List.append_assoc, List.singleton_append] at hnext

end MyS3.UploadRuns
