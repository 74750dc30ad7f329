import MyS3.Purge
import MyS3.Rbac
import MyS3.GrpcServer
import MyS3.Versions

/-!
Operations of the web API on a bucket other than the default one, as changes that
leave the default bucket alone: uploads, deletes, folder operations, restores,
purges and new buckets.
-/

namespace MyS3.WebChanges

open Library.Strings Library.Tables Library.Paths
open Models Objects Database Engine Repository Outbox Rbac Http Keys S3Routes GrpcServer
open Versions Purge

/-- A row of the default bucket. -/
def InStorage (s : AppState) (r : ObjectRecord) : Prop := some r.bucketId = defaultBucketId s.db

instance (s : AppState) (r : ObjectRecord) : Decidable (InStorage s r) :=
  inferInstanceAs (Decidable (some r.bucketId = defaultBucketId s.db))

/-- A change to other buckets: the default bucket, its rows and the blobs of its active
rows stay. -/
structure WebChange (s t : AppState) : Prop where
  config : t.config = s.config
  storage : defaultBucketId t.db = defaultBucketId s.db
  rows : ∀ r, InStorage s r → (r ∈ t.db.object.rows ↔ r ∈ s.db.object.rows)
  blobs : ∀ r ∈ s.db.object.rows, r.deletedAt = none → InStorage s r →
    t.disk (targetFile s r.filepath) = s.disk (targetFile s r.filepath)

theorem webChange_trans {s t u : AppState} (h : WebChange s t) (h' : WebChange t u) :
    WebChange s u where
  config := h'.config.trans h.config
  storage := h'.storage.trans h.storage
  rows r hin := by
    have hin' : InStorage t r := by
      unfold InStorage at *
      rw [h.storage, hin]
    rw [h'.rows r hin', h.rows r hin]
  blobs r hr hd hin := by
    have hin' : InStorage t r := by
      unfold InStorage at *
      rw [h.storage, hin]
    have hmem := (h.rows r hin).mpr hr
    rw [← h.blobs r hr hd hin, ← targetFile_congr h.config, h'.blobs r hmem hd hin']

/-- A change of the database that keeps the rows of the default bucket. -/
theorem webChange_of_rows {s : AppState} {db : Db} (hbucket : db.bucket = s.db.bucket)
    (hrows : ∀ r, InStorage s r → (r ∈ db.object.rows ↔ r ∈ s.db.object.rows)) :
    WebChange s { s with db := db } where
  config := rfl
  storage := by simp only [defaultBucketId, hbucket]
  rows := hrows
  blobs _ _ _ _ := rfl

theorem bucket_ne {s : AppState} {b : Int} (hb : defaultBucketId s.db ≠ some b)
    {r : ObjectRecord} (hin : InStorage s r) : r.bucketId ≠ b := by
  intro h
  obtain rfl := h
  exact hb hin.symm

/-- Updating rows of one bucket keeps the rows of the others. -/
theorem mem_updateRows_other {rows : List ObjectRecord} {p : ObjectRecord → Bool}
    {f : ObjectRecord → ObjectRecord} {b : Int} (hf : ∀ a, (f a).bucketId = a.bucketId)
    (hp : ∀ a ∈ rows, p a = true → a.bucketId = b) {r : ObjectRecord} (hr : r.bucketId ≠ b) :
    r ∈ updateRows p f rows ↔ r ∈ rows := by
  rw [mem_updateRows]
  constructor
  · intro h
    rcases h with ⟨hmem, _⟩ | ⟨a, ha, hpa, rfl⟩
    · exact hmem
    · exact absurd ((hf a).trans (hp a ha hpa)) hr
  · intro hmem
    refine Or.inl ⟨hmem, ?_⟩
    by_contra hpr
    rw [Bool.not_eq_false] at hpr
    exact hr (hp r hmem hpr)

/-- An upload to another bucket, whatever its outcome. -/
theorem webChange_put (P : Platform) (s : AppState) (now : Instant) (uuid : Uuid) (key : Text)
    (headers : Headers) (body : List (Option Bytes)) (b : Int) (faults : PutFaults)
    (hb : defaultBucketId s.db ≠ some b)
    (hfresh : ∀ r ∈ s.db.object.rows, targetFile s r.filepath ≠ blobPath P s uuid key) :
    WebChange s (putObjectKeyedInBucket P s now uuid key headers body (some b) faults).2 := by
  rcases putObjectKeyedInBucket_cases P s now uuid key headers body (some b) faults with
    ⟨_, href⟩ | ⟨b', default, _, hbucket, _, _, hup⟩
  · have htables : ∀ id, some b = some id →
        WebChange s { s with db := recycled s.db now key id } := by
      rintro id hid
      cases hid
      exact webChange_of_rows (softDelete_tables Limit1.first s.db now key (some b)).1
        fun r hin => softDelete_other_rows (bucket_ne hb hin)
    have hstep : ∃ db, (db = s.db ∨ ∃ id, some b = some id ∧ db = recycled s.db now key id) ∧
        (putObjectKeyedInBucket P s now uuid key headers body (some b) faults).2.db = db :=
      ⟨_, href.db, rfl⟩
    obtain ⟨db, hdb, hsame⟩ := hstep
    have hchange : WebChange s { s with db := db } := by
      rcases hdb with rfl | ⟨id, hid, rfl⟩
      · exact webChange_of_rows rfl fun _ _ => Iff.rfl
      · exact htables id hid
    exact {
      config := href.config
      storage := by rw [hsame]; exact hchange.storage
      rows := fun r hin => by rw [hsame]; exact hchange.rows r hin
      blobs := fun r hr _ _ => href.disk _ (hfresh r hr) }
  · cases hbucket
    exact {
      config := hup.config
      storage := by simp only [defaultBucketId, hup.bucket]
      rows := by
        intro r hin
        rw [hup.rows, List.mem_append, softDelete_other_rows (bucket_ne hb hin),
          List.mem_singleton]
        refine or_iff_left ?_
        intro h
        obtain rfl := h
        exact bucket_ne hb hin rfl
      blobs := by
        intro r hr _ _
        rw [hup.disk]
        exact setFile_other _ (hfresh r hr) }

theorem webChange_delete (q : Limit1 ObjectRecord) (s : AppState) (now : Instant) (key : Text)
    (b : Int) (fails : Bool) (hb : defaultBucketId s.db ≠ some b) :
    WebChange s (deleteObjectKeyedInBucket q s now key (some b) fails).2 := by
  unfold deleteObjectKeyedInBucket
  split_ifs
  · exact webChange_of_rows rfl fun _ _ => Iff.rfl
  · exact webChange_of_rows (softDelete_tables q s.db now key (some b)).1
      fun r hin => softDelete_other_rows (bucket_ne hb hin)

theorem webChange_softDeletePrefix (s : AppState) (now : Instant) (b : Int) (pre : Text)
    (hb : defaultBucketId s.db ≠ some b) :
    WebChange s { s with db := (softDeletePrefix s.db now b pre).2 } := by
  refine webChange_of_rows rfl fun r hin => ?_
  refine mem_updateRows_other (recycle now).bucket_eq ?_ (bucket_ne hb hin)
  intro a _ hp
  simp only [Bool.and_eq_true, beq_iff_eq] at hp
  exact hp.1.2

theorem webChange_restore {s : AppState} {now : Instant} {id b : Int} {db : Db}
    (h : restoreObject s.db now id = .ok db)
    (hrow : ∀ r ∈ s.db.object.rows, r.id = id → r.bucketId = b)
    (hb : defaultBucketId s.db ≠ some b) : WebChange s { s with db := db } := by
  unfold restoreObject at h
  split at h
  · cases h
  split_ifs at h
  split at h
  · cases h
  · rename_i hupdate
    cases h
    obtain ⟨hrows, hbucket, _⟩ := Db.updateObjectsChecked_rows hupdate
    refine webChange_of_rows hbucket fun r hin => ?_
    rw [hrows]
    refine mem_updateRows_other (restore now).bucket_eq ?_ (bucket_ne hb hin)
    intro a ha hp
    exact hrow a ha (by simpa using hp)

/-- A new bucket with another name is not the default one. -/
theorem webChange_createBucket {s : AppState} {name : Text} {owner : Int} {etagType : EtagType}
    {db : Db} (h : createBucket s.db name owner etagType = some db)
    (hname : name ≠ "storage".toList) : WebChange s { s with db := db } := by
  obtain ⟨inserted, hins, rfl⟩ := Option.map_eq_some_iff.mp h
  obtain ⟨hobj, _, _, hrows⟩ := Db.insertBucket_eq hins
  refine ⟨rfl, ?_, fun r _ => by simp [hobj], fun _ _ _ _ => rfl⟩
  have hnew : (BucketTable.newBucket s.db.bucket.nextId name (some owner) true etagType).name =
    name := rfl
  unfold defaultBucketId BucketTable.byName
  rw [grantOwnerRole_bucket, hrows, List.find?_append, List.find?_singleton, hnew,
    if_neg (by simpa using hname), Option.or_none]

/-- The planned ids are those of the listed rows. -/
theorem planRenames_mem {db : Db} {b : Int} {fromPrefix toPrefix : Text}
    {rows : List ObjectRecord} {plan : List (Int × Text)}
    (h : planRenames db b fromPrefix toPrefix rows = .ok plan) :
    ∀ e ∈ plan, ∃ r ∈ rows, r.id = e.1 := by
  induction rows generalizing plan with
  | nil =>
    cases h
    simp
  | cons row rest ih =>
    have hskip : ∀ plan', planRenames db b fromPrefix toPrefix rest = .ok plan' →
        ∀ e ∈ plan', ∃ r ∈ row :: rest, r.id = e.1 := by
      intro plan' hplan e he
      obtain ⟨r, hr, hid⟩ := ih hplan e he
      exact ⟨r, List.mem_cons_of_mem _ hr, hid⟩
    unfold planRenames at h
    split at h
    · exact hskip plan h
    · simp only at h
      split at h
      · cases h
      · split at h
        · cases h
        · rename_i plan' hplan
          cases h
          intro e he
          rcases List.mem_cons.mp he with rfl | he
          · exact ⟨row, List.mem_cons_self, rfl⟩
          · exact hskip plan' hplan e he

/-- Renaming rows of one bucket keeps the rows of the others. -/
theorem applyRenames_other {now : Instant} {b : Int} {plan : List (Int × Text)} {db db' : Db}
    (h : applyRenames now db plan = some db')
    (hplan : ∀ e ∈ plan, ∀ r ∈ db.object.rows, r.id = e.1 → r.bucketId = b) :
    db'.bucket = db.bucket ∧
      ∀ r : ObjectRecord, r.bucketId ≠ b → (r ∈ db'.object.rows ↔ r ∈ db.object.rows) := by
  induction plan generalizing db with
  | nil =>
    cases h
    exact ⟨rfl, fun _ _ => Iff.rfl⟩
  | cons e rest ih =>
    obtain ⟨id, newKey⟩ := e
    obtain ⟨next, hnext, hrest⟩ := Option.bind_eq_some_iff.mp h
    obtain ⟨hrows, hbucket, _⟩ := Db.updateObjectsChecked_rows hnext
    have hplan' : ∀ e ∈ rest, ∀ r ∈ next.object.rows, r.id = e.1 → r.bucketId = b := by
      intro e he r hr hid
      have he' := hplan e (List.mem_cons_of_mem _ he)
      rw [hrows] at hr
      rcases mem_updateRows.mp hr with ⟨hr, _⟩ | ⟨a, ha, _, rfl⟩
      · exact he' r hr hid
      · exact ((rename now newKey).bucket_eq a).trans (he' a ha hid)
    obtain ⟨hbucket', hsame⟩ := ih hrest hplan'
    refine ⟨hbucket'.trans hbucket, fun r hr => (hsame r hr).trans ?_⟩
    rw [hrows]
    refine mem_updateRows_other (rename now newKey).bucket_eq ?_ hr
    intro a ha hp
    simp only [Bool.and_eq_true, beq_iff_eq] at hp
    exact hplan _ List.mem_cons_self a ha hp.1

theorem webChange_renamePrefix {s : AppState} {now : Instant} {b : Int}
    {fromPrefix toPrefix : Text} {n : Nat} {db : Db}
    (h : renamePrefix s.db now b fromPrefix toPrefix = .ok (n, db))
    (hb : defaultBucketId s.db ≠ some b) : WebChange s { s with db := db } := by
  unfold renamePrefix at h
  by_cases hsame : fromPrefix = toPrefix
  · rw [if_pos hsame] at h
    cases h
    exact webChange_of_rows rfl fun _ _ => Iff.rfl
  rw [if_neg hsame] at h
  simp only at h
  split_ifs at h
  split at h
  · cases h
  · rename_i plan hplan
    split at h
    · cases h
    · rename_i db' happly
      cases h
      have hids : ∀ e ∈ plan, ∀ r ∈ s.db.object.rows, r.id = e.1 → r.bucketId = b := by
        intro e he r hr hid
        obtain ⟨a, ha, haid⟩ := planRenames_mem hplan e he
        simp only [listKeysUnderPrefix, List.mem_insertionSort, List.mem_filter,
          Bool.and_eq_true, beq_iff_eq] at ha
        rw [s.db.object.eq_of_id hr ha.1 (hid.trans haid.symm)]
        exact ha.2.1.2
      obtain ⟨hbucket, hrows⟩ := applyRenames_other happly hids
      exact webChange_of_rows hbucket fun r hin => hrows r (bucket_ne hb hin)

/-- A purge of an object of another bucket, whose blob no object of the default bucket has. -/
theorem webChange_hardPurge {s t : AppState} {now : Instant} {id : Int} {unlinkFails : Bool}
    (h : hardPurgeObject s now id unlinkFails = some t) {a : ObjectRecord}
    (ha : a ∈ s.db.object.rows) (hid : a.id = id) (hin : ¬ InStorage s a)
    (hfile : ∀ r ∈ s.db.object.rows, r ≠ a → targetFile s r.filepath ≠ targetFile s a.filepath) :
    WebChange s t := by
  obtain ⟨record, hrecord, rfl⟩ := Option.map_eq_some_iff.mp h
  obtain ⟨hmem, hrid⟩ := getObjectById_eq_some.mp hrecord
  have hrow : record = a := s.db.object.eq_of_id hmem ha (hrid.trans hid.symm)
  subst hrow
  have hne : ∀ r, InStorage s r → r ≠ record := by
    intro r hr h'
    obtain rfl := h'
    exact hin hr
  exact {
    config := rfl
    storage := rfl
    rows := by
      intro r hr
      rw [purgeRow_rows]
      refine and_iff_left_of_imp fun hrmem hrid' => hne r hr ?_
      exact s.db.object.eq_of_id hrmem ha hrid'
    blobs := by
      intro r hr _ hr'
      exact unlink_other _ _ _ _ (hfile r hr (hne r hr')) }

end MyS3.WebChanges
