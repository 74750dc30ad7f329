import MyS3.GrpcServer
import MyS3.Purge

/-!
Deleting a bucket. The objects are purged one by one, each in a transaction of its own,
before the bucket row is removed, and that removal is refused while a share link refers
to the bucket. From the first purge on, an error leaves part of the bucket.
-/

namespace MyS3.BucketDeletion

open Library.Strings Library.Tables
open Models Objects Database Engine Repository Outbox Rbac Http S3Routes GrpcServer Purge

/-- The calls of the handler that fail, those of a purge by the id of its object. -/
structure DeletionFaults where
  bucket : Bool := false
  owns : Bool := false
  listIds : Bool := false
  purgeTx : Int → Bool := fun _ => false
  unlink : Int → Bool := fun _ => false
  deleteBucket : DeleteBucketFaults := {}

/-- The loop over the objects; it ends at the first that cannot be purged. -/
def purgeIds (now : Instant) (txFails unlinkFails : Int → Bool) :
    AppState → List Int → Bool × AppState
  | s, [] => (true, s)
  | s, id :: rest =>
    if txFails id then (false, s)
    else
      match hardPurgeObject s now id (unlinkFails id) with
      | none => (false, s)
      | some t => purgeIds now txFails unlinkFails t rest

/-- The answer to an error of `rbac::delete_bucket`. -/
def deletionError : DeleteBucketError → Response
  | .notFound => .failure .notFound (.message "bucket not found".toList)
  | .defaultBucket => .failure .conflict (.message "cannot delete default storage bucket".toList)
  | .containsObjects => .failure .conflict (.message "bucket still contains objects".toList)
  | .query => databaseError

/-- The end of the handler, from the outcome of the loop. -/
def removeBucket (id : Int) (faults : DeleteBucketFaults) : Bool × AppState → Response × AppState
  | (false, t) => (databaseError, t)
  | (true, t) =>
    match Rbac.deleteBucket t.db id faults with
    | .error err => (deletionError err, t)
    | .ok db => (.noContent, { t with db := db })

/-- The handler `delete_bucket` for an authenticated account. -/
def deleteBucket (s : AppState) (now : Instant) (accountId id : Int) (faults : DeletionFaults) :
    Response × AppState :=
  if faults.bucket then (databaseError, s)
  else if faults.owns then (databaseError, s)
  else if accountOwnsBucket s.db accountId id = false then
    (.failure .forbidden (.message "only the bucket owner can delete this bucket".toList), s)
  else if (getBucketById s.db id).map (·.name) = some "storage".toList then
    (.failure .conflict (.message "cannot delete default storage bucket".toList), s)
  else if faults.listIds then (databaseError, s)
  else
    removeBucket id faults.deleteBucket
      (purgeIds now faults.purgeTx faults.unlink s (listObjectIdsInBucket s.db id))

/-- The bucket, its objects and their blobs are gone. -/
structure Gone (s t : AppState) (id : Int) : Prop where
  bucket : ∀ b ∈ t.db.bucket.rows, b.id ≠ id
  objects : ∀ r ∈ t.db.object.rows, r.bucketId ≠ id
  blobs : ∀ r ∈ s.db.object.rows, r.bucketId = id → t.disk (targetFile s r.filepath) = none

/-- The bucket, its object rows and every blob are as before. -/
structure AsBefore (s t : AppState) (id : Int) : Prop where
  bucket : t.db.bucket.rows = s.db.bucket.rows
  objects : ∀ r, r.bucketId = id → (r ∈ t.db.object.rows ↔ r ∈ s.db.object.rows)
  blobs : t.disk = s.disk

/-- Success and everything is gone, or an error and everything is as before. -/
def AllOrNothing (s : AppState) (id : Int) (call : Response × AppState) : Prop :=
  (call.1 = .noContent ∧ Gone s call.2 id) ∨ (call.1.isFailure = true ∧ AsBefore s call.2 id)

/-- The handler answers with an error before its first purge. -/
def RefusedEarly (s : AppState) (id : Int) (faults : DeletionFaults) : Prop :=
  faults.bucket = true ∨ faults.owns = true ∨
    (∃ b ∈ s.db.bucket.rows, b.id = id ∧ b.name = "storage".toList) ∨ faults.listIds = true

/-- Every purge and every later query succeeds, no share link refers to the bucket, and
each blob of the bucket that exists is removed. -/
structure Completes (s : AppState) (id : Int) (faults : DeletionFaults) : Prop where
  purges : ∀ oid ∈ listObjectIdsInBucket s.db id, faults.purgeTx oid = false
  queries : faults.deleteBucket = {}
  links : ∀ l ∈ s.db.shareLink, l.bucketId ≠ id
  blobs : ∀ r ∈ s.db.object.rows, r.bucketId = id → s.disk (targetFile s r.filepath) ≠ none →
    ∃ a ∈ s.db.object.rows, a.bucketId = id ∧
      targetFile s a.filepath = targetFile s r.filepath ∧ faults.unlink a.id = false

/-- No purge is committed before an error, or there is no error. -/
def DeletesWhole (s : AppState) (id : Int) (faults : DeletionFaults) : Prop :=
  RefusedEarly s id faults ∨ listObjectIdsInBucket s.db id = [] ∨
    (∃ first, (listObjectIdsInBucket s.db id).head? = some first ∧
      faults.purgeTx first = true) ∨
    Completes s id faults

/-- What the loop did when every transaction succeeded. -/
structure Purged (s t : AppState) (ids : List Int) (unlinkFails : Int → Bool) : Prop where
  config : t.config = s.config
  bucket : t.db.bucket = s.db.bucket
  shareLink : t.db.shareLink = s.db.shareLink
  rows : ∀ r, r ∈ t.db.object.rows ↔ r ∈ s.db.object.rows ∧ r.id ∉ ids
  disk : ∀ p, t.disk p = none ↔ s.disk p = none ∨
    ∃ r ∈ s.db.object.rows, r.id ∈ ids ∧ targetFile s r.filepath = p ∧ unlinkFails r.id = false

theorem unlink_eq_none {root : Library.Paths.Path} {disk : Disk} {filepath : Text} {fails : Bool}
    {p : Library.Paths.Path} : unlink root disk filepath fails p = none ↔
      disk p = none ∨ (absolutePathFor root filepath = p ∧ fails = false) := by
  unfold unlink
  by_cases hfails : fails = true
  · simp [hfails]
  · rw [if_neg hfails, Bool.not_eq_true] at *
    by_cases hp : p = absolutePathFor root filepath
    · subst hp
      simp [hfails]
    · rw [setFile_other _ hp]
      simp [hfails, Ne.symm hp]

theorem purged_cons {s u t : AppState} {now : Instant} {a : ObjectRecord} {rest : List Int}
    {unlinkFails : Int → Bool} (ha : a ∈ s.db.object.rows)
    (hu : u = purgeRow now (fun _ => unlinkFails a.id) s a) (h : Purged u t rest unlinkFails)
    (hrest : a.id ∉ rest) : Purged s t (a.id :: rest) unlinkFails := by
  have hconfig : u.config = s.config := by rw [hu]; rfl
  have hrows : ∀ r, r ∈ u.db.object.rows ↔ r ∈ s.db.object.rows ∧ r.id ≠ a.id := by
    intro r
    rw [hu, purgeRow_rows]
  have hdisk : ∀ p, u.disk p = none ↔
      s.disk p = none ∨ (targetFile s a.filepath = p ∧ unlinkFails a.id = false) := by
    intro p
    rw [hu]
    exact unlink_eq_none
  refine ⟨h.config.trans hconfig, ?_, ?_, ?_, ?_⟩
  · rw [h.bucket, hu]
    rfl
  · rw [h.shareLink, hu]
    rfl
  · intro r
    rw [h.rows, hrows, List.mem_cons, not_or, and_assoc]
  · intro p
    rw [h.disk, hdisk, or_assoc]
    refine or_congr_right ?_
    constructor
    · intro hcase
      rcases hcase with ⟨htarget, hunlink⟩ | ⟨r, hr, hid, htarget, hunlink⟩
      · exact ⟨a, ha, List.mem_cons_self, htarget, hunlink⟩
      · rw [targetFile_congr hconfig] at htarget
        exact ⟨r, ((hrows r).mp hr).1, List.mem_cons_of_mem _ hid, htarget, hunlink⟩
    · intro hcase
      obtain ⟨r, hr, hid, htarget, hunlink⟩ := hcase
      rcases List.mem_cons.mp hid with heq | hid
      · rw [s.db.object.eq_of_id hr ha heq] at htarget hunlink
        exact Or.inl ⟨htarget, hunlink⟩
      · have hne : r.id ≠ a.id := by
          intro heq
          exact hrest (heq ▸ hid)
        refine Or.inr ⟨r, (hrows r).mpr ⟨hr, hne⟩, hid, ?_, hunlink⟩
        rw [targetFile_congr hconfig]
        exact htarget

theorem purgeIds_ok (now : Instant) {txFails unlinkFails : Int → Bool} {s : AppState}
    {ids : List Int} (hdistinct : ids.Nodup)
    (hpresent : ∀ id ∈ ids, ∃ r ∈ s.db.object.rows, r.id = id)
    (htx : ∀ id ∈ ids, txFails id = false) :
    ∃ t, purgeIds now txFails unlinkFails s ids = (true, t) ∧ Purged s t ids unlinkFails := by
  induction ids generalizing s with
  | nil => exact ⟨s, rfl, rfl, rfl, rfl, by simp, by simp⟩
  | cons id rest ih =>
    obtain ⟨hid, hrest⟩ := List.nodup_cons.mp hdistinct
    obtain ⟨a, ha, rfl⟩ := hpresent id List.mem_cons_self
    have hget : getObjectById s.db a.id = some a := getObjectById_eq_some.mpr ⟨ha, rfl⟩
    let u := purgeRow now (fun _ => unlinkFails a.id) s a
    have hpurge : hardPurgeObject s now a.id (unlinkFails a.id) = some u := by
      simp [hardPurgeObject, hget, u]
    have hpresent' : ∀ id ∈ rest, ∃ r ∈ u.db.object.rows, r.id = id := by
      intro id hmem
      obtain ⟨r, hr, hrid⟩ := hpresent id (List.mem_cons_of_mem _ hmem)
      refine ⟨r, purgeRow_rows.mpr ⟨hr, ?_⟩, hrid⟩
      intro heq
      exact hid (heq ▸ hrid ▸ hmem)
    obtain ⟨t, ht, hpurged⟩ := ih hrest hpresent' fun id hmem => htx id (List.mem_cons_of_mem _ hmem)
    refine ⟨t, ?_, purged_cons ha rfl hpurged hid⟩
    simp only [purgeIds, htx a.id List.mem_cons_self, Bool.false_eq_true, if_false, hpurge]
    exact ht

theorem purgeIds_rows_subset {now : Instant} {txFails unlinkFails : Int → Bool} {s : AppState}
    {ids : List Int} {r : ObjectRecord}
    (h : r ∈ (purgeIds now txFails unlinkFails s ids).2.db.object.rows) :
    r ∈ s.db.object.rows := by
  induction ids generalizing s with
  | nil => exact h
  | cons id rest ih =>
    unfold purgeIds at h
    split_ifs at h
    · exact h
    split at h
    · exact h
    · rename_i t ht
      obtain ⟨a, _, rfl⟩ := Option.map_eq_some_iff.mp ht
      exact (purgeRow_rows.mp (ih h)).1

/-- A first purge that succeeds takes its object away for good. -/
theorem purgeIds_loses_first {now : Instant} {txFails unlinkFails : Int → Bool} {s : AppState}
    {a : ObjectRecord} {rest : List Int} (ha : a ∈ s.db.object.rows)
    (htx : txFails a.id = false) :
    a ∉ (purgeIds now txFails unlinkFails s (a.id :: rest)).2.db.object.rows := by
  have hget : getObjectById s.db a.id = some a := getObjectById_eq_some.mpr ⟨ha, rfl⟩
  intro h
  simp only [purgeIds, htx, Bool.false_eq_true, if_false, hardPurgeObject, hget,
    Option.map_some] at h
  exact (purgeRow_rows.mp (purgeIds_rows_subset h)).2 rfl

theorem listObjectIdsInBucket_nodup (db : Db) (id : Int) :
    (listObjectIdsInBucket db id).Nodup := by
  unfold listObjectIdsInBucket
  have hperm := List.perm_insertionSort (fun a b : Int => a ≤ b)
    ((db.object.rows.filter fun r => r.bucketId == id).map (·.id))
  exact hperm.nodup_iff.mpr (List.pairwise_map.mpr (db.object.id_unique.filter _))

theorem purgeIds_true {now : Instant} {txFails unlinkFails : Int → Bool} {s t : AppState}
    {ids : List Int} (h : purgeIds now txFails unlinkFails s ids = (true, t)) :
    ∀ id ∈ ids, txFails id = false := by
  induction ids generalizing s with
  | nil => simp
  | cons id rest ih =>
    unfold purgeIds at h
    split_ifs at h with htx
    · simp at h
    split at h
    · simp at h
    · rw [List.forall_mem_cons]
      exact ⟨by simpa using htx, ih h⟩

theorem deleteBucket_ok {db db' : Db} {id : Int} {faults : DeleteBucketFaults}
    (h : Rbac.deleteBucket db id faults = .ok db') :
    faults = {} ∧ db.deleteBucketRow id = some db' := by
  obtain ⟨select, count, delete⟩ := faults
  unfold Rbac.deleteBucket at h
  by_cases hselect : select = true
  · simp [hselect] at h
  rw [if_neg hselect] at h
  cases hget : getBucketById db id with
  | none => simp [hget] at h
  | some b =>
    rw [hget] at h
    by_cases hname : b.name = "storage".toList
    · simp only [if_pos hname, reduceCtorEq] at h
    by_cases hcount : count = true
    · simp only [if_neg hname, if_pos hcount, reduceCtorEq] at h
    by_cases hobjects : 0 < (db.object.rows.filter fun r => r.bucketId == id).length
    · simp only [if_neg hname, if_neg hcount, if_pos hobjects, reduceCtorEq] at h
    by_cases hdelete : delete = true
    · simp only [if_neg hname, if_neg hcount, if_neg hobjects, if_pos hdelete,
        reduceCtorEq] at h
    simp only [if_neg hname, if_neg hcount, if_neg hobjects, if_neg hdelete] at h
    rw [Bool.not_eq_true] at hselect hcount hdelete
    subst hselect hcount hdelete
    cases hrow : db.deleteBucketRow id with
    | none => simp [hrow] at h
    | some db'' =>
      rw [hrow] at h
      cases h
      exact ⟨rfl, rfl⟩

theorem deleteBucket_clean {db : Db} {b : BucketRecord} (hb : b ∈ db.bucket.rows)
    (hname : b.name ≠ "storage".toList) (hobjects : ∀ r ∈ db.object.rows, r.bucketId ≠ b.id)
    (hlinks : ∀ l ∈ db.shareLink, l.bucketId ≠ b.id) :
    ∃ db', Rbac.deleteBucket db b.id {} = .ok db' := by
  have hget : getBucketById db b.id = some b := BucketTable.byId_eq_some.mpr ⟨hb, rfl⟩
  have hempty : ¬ 0 < (db.object.rows.filter fun r => r.bucketId == b.id).length := by
    rw [List.filter_eq_nil_iff.mpr fun r hr => by simpa using hobjects r hr]
    simp
  obtain ⟨db', hdb⟩ := Option.isSome_iff_exists.mp
    (Db.deleteBucketRow_isSome.mpr ⟨hobjects, hlinks⟩)
  refine ⟨db', ?_⟩
  unfold Rbac.deleteBucket
  simp only [Bool.false_eq_true, if_false, hget, hname, hempty, hdb]

theorem removeBucket_error_or {id : Int} {faults : DeleteBucketFaults} {call : Bool × AppState} :
    ((removeBucket id faults call).1.isFailure = true ∧
        (removeBucket id faults call).2 = call.2) ∨
      ∃ db, call.1 = true ∧ Rbac.deleteBucket call.2.db id faults = .ok db ∧
        removeBucket id faults call = (.noContent, { call.2 with db := db }) := by
  obtain ⟨done, t⟩ := call
  cases done with
  | false => exact Or.inl ⟨rfl, rfl⟩
  | true =>
    cases hdelete : Rbac.deleteBucket t.db id faults with
    | error err =>
      refine Or.inl ?_
      unfold removeBucket
      simp only [hdelete, and_true]
      cases err <;> rfl
    | ok db =>
      refine Or.inr ⟨db, rfl, rfl, ?_⟩
      unfold removeBucket
      simp only [hdelete]

section handler

variable {s : AppState} {accountId id : Int} {faults : DeletionFaults}

theorem name_eq_storage_iff : (getBucketById s.db id).map (·.name) = some "storage".toList ↔
    ∃ b ∈ s.db.bucket.rows, b.id = id ∧ b.name = "storage".toList := by
  unfold getBucketById
  rw [Option.map_eq_some_iff]
  simp only [BucketTable.byId_eq_some, and_assoc]

theorem deleteBucket_refused (now : Instant)
    (howns : accountOwnsBucket s.db accountId id = true)
    (h : RefusedEarly s id faults) :
    (deleteBucket s now accountId id faults).1.isFailure = true ∧
      (deleteBucket s now accountId id faults).2 = s := by
  unfold RefusedEarly at h
  rw [← name_eq_storage_iff] at h
  unfold deleteBucket
  rw [howns, if_neg (by simp : ¬ true = false)]
  split_ifs with hbucket hown hname hlist
  · exact ⟨rfl, rfl⟩
  · exact ⟨rfl, rfl⟩
  · exact ⟨rfl, rfl⟩
  · exact ⟨rfl, rfl⟩
  · tauto

theorem deleteBucket_of_not_refused (now : Instant)
    (howns : accountOwnsBucket s.db accountId id = true)
    (h : ¬ RefusedEarly s id faults) : deleteBucket s now accountId id faults =
      removeBucket id faults.deleteBucket
        (purgeIds now faults.purgeTx faults.unlink s (listObjectIdsInBucket s.db id)) := by
  unfold RefusedEarly at h
  rw [← name_eq_storage_iff] at h
  push Not at h
  obtain ⟨hbucket, hown, hname, hlist⟩ := h
  unfold deleteBucket
  rw [if_neg hbucket, if_neg hown, howns, if_neg (by simp), if_neg hname, if_neg hlist]

end handler

theorem asBefore_refl (s : AppState) (id : Int) : AsBefore s s id := ⟨rfl, fun _ _ => Iff.rfl, rfl⟩

/-- The rows that the listing of ids stands for. -/
theorem id_mem_of_bucket {s : AppState} {id : Int} {r : ObjectRecord}
    (hr : r ∈ s.db.object.rows) :
    r.id ∈ listObjectIdsInBucket s.db id ↔ r.bucketId = id := by
  rw [mem_listObjectIdsInBucket]
  constructor
  · intro h
    obtain ⟨a, ha, hbucket, hid⟩ := h
    rw [← s.db.object.eq_of_id ha hr hid]
    exact hbucket
  · intro h
    exact ⟨r, hr, h, rfl⟩

/-- The loop of purges over the objects of a bucket, when no transaction fails. -/
theorem purgeIds_bucket {s : AppState} (now : Instant) {id : Int} {faults : DeletionFaults}
    (hall : ∀ oid ∈ listObjectIdsInBucket s.db id, faults.purgeTx oid = false) :
    ∃ t, purgeIds now faults.purgeTx faults.unlink s (listObjectIdsInBucket s.db id) = (true, t) ∧
      Purged s t (listObjectIdsInBucket s.db id) faults.unlink := by
  refine purgeIds_ok now (listObjectIdsInBucket_nodup s.db id) ?_ hall
  intro oid hoid
  obtain ⟨r, hr, _, hid⟩ := mem_listObjectIdsInBucket.mp hoid
  exact ⟨r, hr, hid⟩

/-- A deletion that completes takes the bucket and its objects. -/
theorem allOrNothing_of_completes {s : AppState} {now : Instant} {accountId id : Int}
    {faults : DeletionFaults} (howns : accountOwnsBucket s.db accountId id = true)
    (hearly : ¬ RefusedEarly s id faults) (hbucket : ∃ b ∈ s.db.bucket.rows, b.id = id)
    (h : Completes s id faults) :
    AllOrNothing s id (deleteBucket s now accountId id faults) := by
  rw [deleteBucket_of_not_refused _ howns hearly]
  obtain ⟨t, ht, hp⟩ := purgeIds_bucket now h.purges
  obtain ⟨b, hb, rfl⟩ := hbucket
  have hname : b.name ≠ "storage".toList := by
    intro hname
    exact hearly (Or.inr (Or.inr (Or.inl ⟨b, hb, rfl, hname⟩)))
  have hobjects : ∀ r ∈ t.db.object.rows, r.bucketId ≠ b.id := by
    intro r hr hrb
    obtain ⟨hr, hnot⟩ := (hp.rows r).mp hr
    exact hnot ((id_mem_of_bucket hr).mpr hrb)
  have hlinks : ∀ l ∈ t.db.shareLink, l.bucketId ≠ b.id := by
    rw [hp.shareLink]
    exact h.links
  have hb' : b ∈ t.db.bucket.rows := by
    rw [hp.bucket]
    exact hb
  obtain ⟨db, hdelete⟩ := deleteBucket_clean hb' hname hobjects hlinks
  obtain ⟨_, hobject, hgone⟩ := Db.deleteBucketRow_eq (deleteBucket_ok hdelete).2
  rw [ht]
  refine Or.inl ?_
  simp only [removeBucket, h.queries, hdelete]
  refine ⟨trivial, hgone, ?_, ?_⟩
  · rw [hobject]
    exact hobjects
  · intro r hr hrb
    rw [hp.disk]
    by_cases hblob : s.disk (targetFile s r.filepath) = none
    · exact Or.inl hblob
    · obtain ⟨c, hc, hcb, htarget, hun⟩ := h.blobs r hr hrb hblob
      exact Or.inr ⟨c, hc, (id_mem_of_bucket hc).mpr hcb, htarget, hun⟩

/-- A success that leaves nothing of the bucket was a deletion that completes. -/
theorem completes_of_gone {s : AppState} {now : Instant} {id : Int} {faults : DeletionFaults}
    (hresponse : (removeBucket id faults.deleteBucket (purgeIds now faults.purgeTx faults.unlink s
      (listObjectIdsInBucket s.db id))).1 = .noContent)
    (hgone : Gone s (removeBucket id faults.deleteBucket (purgeIds now faults.purgeTx
      faults.unlink s (listObjectIdsInBucket s.db id))).2 id) : Completes s id faults := by
  generalize hcall : purgeIds now faults.purgeTx faults.unlink s (listObjectIdsInBucket s.db id) =
    call at *
  rcases removeBucket_error_or with ⟨hfailure, _⟩ | ⟨db, hdone, hdelete, heq⟩
  · rw [hresponse] at hfailure
    simp [Response.isFailure] at hfailure
  · obtain ⟨done, t⟩ := call
    obtain rfl : done = true := hdone
    have htxs := purgeIds_true hcall
    obtain ⟨t', ht', hp⟩ := purgeIds_bucket now htxs
    rw [hcall, Prod.mk.injEq] at ht'
    obtain rfl := ht'.2
    obtain ⟨hqueries, hrow⟩ := deleteBucket_ok hdelete
    refine ⟨htxs, hqueries, ?_, ?_⟩
    · rw [← hp.shareLink]
      exact (Db.deleteBucketRow_eq hrow).1
    · intro r hr hrb hblob
      have hnone := hgone.blobs r hr hrb
      rw [heq] at hnone
      rcases (hp.disk (targetFile s r.filepath)).mp hnone with hold | ⟨c, hc, hcid, htarget, hun⟩
      · exact absurd hold hblob
      · exact ⟨c, hc, (id_mem_of_bucket hc).mp hcid, htarget, hun⟩

/-- After a first purge that succeeds, only a deletion that completes is whole. -/
theorem allOrNothing_iff_completes {s : AppState} {now : Instant} {accountId id first : Int}
    {faults : DeletionFaults} (howns : accountOwnsBucket s.db accountId id = true)
    (hearly : ¬ RefusedEarly s id faults)
    (hfirst : (listObjectIdsInBucket s.db id).head? = some first)
    (htx : faults.purgeTx first = false) :
    AllOrNothing s id (deleteBucket s now accountId id faults) ↔ Completes s id faults := by
  obtain ⟨a, ha, hbucket, hid⟩ := mem_listObjectIdsInBucket.mp (List.mem_of_head? hfirst)
  constructor
  · intro h
    rw [deleteBucket_of_not_refused _ howns hearly] at h
    rcases h with ⟨hresponse, hgone⟩ | ⟨_, hsame⟩
    · exact completes_of_gone hresponse hgone
    · -- The first object is gone for good, so nothing is as before.
      generalize hcall : purgeIds now faults.purgeTx faults.unlink s
        (listObjectIdsInBucket s.db id) = call at hsame
      have hlost : a ∉ call.2.db.object.rows := by
        obtain ⟨rest, hrest⟩ := List.head?_eq_some_iff.mp hfirst
        rw [← hcall, hrest, ← hid]
        exact purgeIds_loses_first ha (hid ▸ htx)
      have hmem := (hsame.objects a hbucket).mpr ha
      rcases removeBucket_error_or with ⟨_, hstate⟩ | ⟨db, _, hdelete, heq⟩
      · rw [hstate] at hmem
        exact absurd hmem hlost
      · rw [heq] at hmem
        simp only [(Db.deleteBucketRow_eq (deleteBucket_ok hdelete).2).2.1] at hmem
        exact absurd hmem hlost
  · intro h
    obtain ⟨b, hb, hbid⟩ := s.db.object_bucket a ha
    exact allOrNothing_of_completes howns hearly ⟨b, hb, hbid.trans hbucket⟩ h

/-- The owner's request deletes the whole bucket or changes nothing exactly when it is
refused before the first purge, finds no object, fails at the first one, or completes. -/
theorem delete_bucket_whole_iff (s : AppState) (now : Instant) (accountId id : Int)
    (faults : DeletionFaults) (howns : accountOwnsBucket s.db accountId id = true) :
    AllOrNothing s id (deleteBucket s now accountId id faults) ↔ DeletesWhole s id faults := by
  by_cases hearly : RefusedEarly s id faults
  · obtain ⟨hfailure, hstate⟩ := deleteBucket_refused now howns hearly
    constructor
    · intro _
      exact Or.inl hearly
    · intro _
      refine Or.inr ⟨hfailure, ?_⟩
      rw [hstate]
      exact asBefore_refl s id
  have hcall := deleteBucket_of_not_refused now howns hearly
  cases hids : listObjectIdsInBucket s.db id with
  | nil =>
    constructor
    · intro _
      exact Or.inr (Or.inl hids)
    · intro _
      rw [hcall, hids]
      have hempty : ∀ r ∈ s.db.object.rows, r.bucketId ≠ id := by
        intro r hr hrb
        have hmem := (id_mem_of_bucket hr).mpr hrb
        rw [hids] at hmem
        cases hmem
      rcases removeBucket_error_or with ⟨hfailure, hstate⟩ | ⟨db, _, hdelete, heq⟩
      · refine Or.inr ⟨hfailure, ?_⟩
        rw [hstate]
        exact asBefore_refl s id
      · obtain ⟨_, hobject, hgone⟩ := Db.deleteBucketRow_eq (deleteBucket_ok hdelete).2
        rw [heq]
        refine Or.inl ⟨rfl, hgone, ?_, fun r hr hrb => absurd hrb (hempty r hr)⟩
        rw [hobject]
        exact hempty
  | cons first rest =>
    by_cases htx : faults.purgeTx first = true
    · constructor
      · intro _
        exact Or.inr (Or.inr (Or.inl ⟨first, by rw [hids]; rfl, htx⟩))
      · intro _
        rw [hcall, hids]
        refine Or.inr ?_
        simp only [purgeIds, htx, if_true, removeBucket]
        exact ⟨rfl, asBefore_refl s id⟩
    · rw [Bool.not_eq_true] at htx
      have hfirst : (listObjectIdsInBucket s.db id).head? = some first := by rw [hids]; rfl
      rw [allOrNothing_iff_completes howns hearly hfirst htx]
      constructor
      · intro h
        exact Or.inr (Or.inr (Or.inr h))
      · intro h
        rcases h with h | h | ⟨oid, hhead, hfails⟩ | h
        · exact absurd h hearly
        · rw [hids] at h
          cases h
        · rw [hfirst] at hhead
          rw [Option.some.inj hhead, hfails] at htx
          cases htx
        · exact h

/-- A node whose account 1 owns the bucket `photos` with one object. -/
def ownedBucket : AppState :=
  let s := AppState.migrated "node-1".toList
  let account : AccountRecord := ⟨1, [], [], [], false, none⟩
  let db := (createBucket { s.db with account := [account] } "photos".toList 1 .md5).getD s.db
  (putObjectKeyedInBucket Platform.sample { s with db := db } Instant.epoch (Uuid.numbered 1)
    ['k'] [] [some [97]] (some 2) {}).2

theorem delete_bucket_whole_iff_of_one_object :
    AllOrNothing ownedBucket 2 (deleteBucket ownedBucket Instant.epoch 1 2 {}) ↔
      DeletesWhole ownedBucket 2 {} :=
  delete_bucket_whole_iff ownedBucket Instant.epoch 1 2 {} rfl

/-- The bucket with a share link to its object. -/
def sharedBucket : AppState :=
  { ownedBucket with
    db := { ownedBucket.db with
      shareLink := [⟨1, ['t'], none, 2, ['k'], .file, .publicAccess, none, 1, some 0,
        Instant.epoch.currentTimestamp⟩] } }

/-- A link, although revoked, keeps the bucket, and the object and its blob are gone. -/
theorem delete_bucket_can_lose_objects :
    let call := deleteBucket sharedBucket Instant.epoch 1 2 {}
    accountOwnsBucket sharedBucket.db 1 2 = true ∧ call.1 = databaseError ∧
      (getBucketById call.2.db 2).isSome = true ∧
      sharedBucket.db.object.rows.length = 1 ∧ call.2.db.object.rows = [] ∧
      sharedBucket.db.object.rows.all (fun r =>
        (sharedBucket.disk (targetFile sharedBucket r.filepath)).isSome &&
          (call.2.disk (targetFile sharedBucket r.filepath)).isNone) = true ∧
      ¬ AllOrNothing sharedBucket 2 call := by
  intro call
  refine ⟨by decide, by decide, by decide, by decide, by decide, by decide, ?_⟩
  intro h
  rcases h with ⟨hresponse, _⟩ | ⟨_, hsame⟩
  · exact absurd hresponse (by decide)
  · obtain ⟨r, hr, hrb⟩ : ∃ r ∈ sharedBucket.db.object.rows, r.bucketId = 2 := by decide
    have hmem := (hsame.objects r hrb).mpr hr
    rw [show call.2.db.object.rows = [] by decide] at hmem
    cases hmem

end MyS3.BucketDeletion
