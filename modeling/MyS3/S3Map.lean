import MyS3.Library.KeyValue
import MyS3.WebChanges

/-!
The S3 API as a map. Its state represents the map from the keys of the bucket
`storage` to their contents. Uploads go to that bucket, but reads, deletes and
listings look at every bucket; they act on the map as long as no other bucket
holds an active object under the key they ask for, or under any key for a listing.
-/

namespace MyS3.S3Map

open Library.Strings Library.Tables Library.Paths Library.Runs Library.KeyValue
open Models Objects Database Engine Repository Outbox Rbac Http Keys S3Routes GrpcServer
open Versions WebChanges

/-- The active object of the default bucket under a key. -/
def storageObject (s : AppState) (k : Text) : Option ObjectRecord :=
  (defaultBucketId s.db).bind fun b => getObjectByFilenameInBucket s.db k b

/-- The map that a state represents. -/
def view (s : AppState) : Store Text Bytes := fun k =>
  (storageObject s k).bind fun r => s.disk (targetFile s r.filepath)

/-- S3 requests, and a change that the web API makes. -/
inductive Request
  | put (now : Instant) (uuid : Uuid) (rawKey : Text) (headers : Headers)
      (body : List (Option Bytes)) (faults : PutFaults)
  | get (q : Limit1 ObjectRecord) (rawKey : Text)
  | delete (q : Limit1 ObjectRecord) (now : Instant) (rawKey : Text) (fails : Bool)
  | list (fails : Bool)
  | web (t : AppState)

def step (P : Platform) (s : AppState) : Request → Option AppState
  | .put now uuid rawKey headers body faults =>
    some (putObject P s now uuid rawKey headers body faults).2
  | .get _ _ => some s
  | .delete q now rawKey fails => some (S3Routes.deleteObject q s now rawKey fails).2
  | .list _ => some s
  | .web t => some t

def event (P : Platform) (s : AppState) : Request → Event Text Bytes
  | .put now uuid rawKey headers body faults =>
    match normalizeObjectKey rawKey with
    | .error _ => .keep
    | .ok k =>
      if (putObject P s now uuid rawKey headers body faults).1.isFailure then .refuse k
      else .put k (content body)
  | .delete _ _ rawKey fails =>
    match normalizeObjectKey rawKey with
    | .error _ => .keep
    | .ok k => if fails then .keep else .erase k
  | _ => .keep

/-- No bucket but the default one holds an active object under the key. -/
def OnlyInStorage (s : AppState) (k : Text) : Prop :=
  ∀ r ∈ s.db.object.rows, r.originalFilename = k → r.deletedAt = none → InStorage s r

/-- The name of a new blob is new, and a web change is one to other buckets. -/
def Legal (P : Platform) (s : AppState) : Request → Prop
  | .put _ uuid rawKey _ _ _ =>
    ∀ k, normalizeObjectKey rawKey = .ok k → s.disk (blobPath P s uuid k) = none
  | .web t => WebChange s t
  | _ => True

/-- What a read, a delete or a listing needs of the other buckets. -/
def Scoped (s : AppState) : Request → Prop
  | .get _ rawKey => ∀ k, normalizeObjectKey rawKey = .ok k → OnlyInStorage s k
  | .delete _ _ rawKey _ => ∀ k, normalizeObjectKey rawKey = .ok k → OnlyInStorage s k
  | .list _ => ∀ r ∈ s.db.object.rows, r.deletedAt = none → InStorage s r
  | _ => True

def Allowed (P : Platform) (s : AppState) (a : Request) : Prop := Legal P s a ∧ Scoped s a

/-- The blob of every active object of the default bucket is on disk, in its size. -/
def BlobsStored (s : AppState) : Prop :=
  ∀ r ∈ s.db.object.rows, r.deletedAt = none → InStorage s r →
    ∃ data, s.disk (targetFile s r.filepath) = some data ∧ r.filesizeBytes = data.length

theorem storageObject_eq_some {s : AppState} {k : Text} {r : ObjectRecord} :
    storageObject s k = some r ↔
      r ∈ s.db.object.rows ∧ r.originalFilename = k ∧ InStorage s r ∧ r.deletedAt = none := by
  unfold storageObject InStorage
  cases hb : defaultBucketId s.db with
  | none => simp
  | some b =>
    rw [Option.bind_some, getObjectByFilenameInBucket_eq_some]
    simp

/-- Two states with the same active rows of a key have the same object under it. -/
theorem storageObject_congr {s t : AppState} {k : Text}
    (hstorage : defaultBucketId t.db = defaultBucketId s.db)
    (h : ∀ r, InStorage s r → r.originalFilename = k → r.deletedAt = none →
      (r ∈ t.db.object.rows ↔ r ∈ s.db.object.rows)) :
    storageObject t k = storageObject s k := by
  apply Option.ext
  intro r
  rw [storageObject_eq_some, storageObject_eq_some]
  unfold InStorage at *
  rw [hstorage]
  constructor
  · intro h'
    obtain ⟨hr, hk, hin, hd⟩ := h'
    exact ⟨(h r hin hk hd).mp hr, hk, hin, hd⟩
  · intro h'
    obtain ⟨hr, hk, hin, hd⟩ := h'
    exact ⟨(h r hin hk hd).mpr hr, hk, hin, hd⟩

/-- The map agrees at a key whose object and blob are the same. -/
theorem view_congr {s t : AppState} {k : Text} (hobj : storageObject t k = storageObject s k)
    (hdisk : ∀ r, storageObject s k = some r →
      t.disk (targetFile t r.filepath) = s.disk (targetFile s r.filepath)) :
    view t k = view s k := by
  unfold view
  rw [hobj]
  cases hr : storageObject s k with
  | none => rfl
  | some r => exact hdisk r hr

/-- A stored blob is not the file of a new one. -/
theorem BlobsStored.ne_fresh {s : AppState} (h : BlobsStored s) {r : ObjectRecord} {k : Text}
    (hr : storageObject s k = some r) {p : Path} (hfresh : s.disk p = none) :
    targetFile s r.filepath ≠ p := by
  obtain ⟨hmem, _, hin, hactive⟩ := storageObject_eq_some.mp hr
  obtain ⟨data, hdata, _⟩ := h r hmem hactive hin
  intro h'
  obtain rfl := h'
  simp [hfresh] at hdata

/-- Blobs stay stored when the active rows of the bucket and their files do. -/
theorem BlobsStored.of_subset {s t : AppState} (h : BlobsStored s)
    (hconfig : t.config = s.config) (hstorage : defaultBucketId t.db = defaultBucketId s.db)
    (hrows : ∀ r, InStorage s r → r.deletedAt = none → r ∈ t.db.object.rows →
      r ∈ s.db.object.rows)
    (hdisk : ∀ r ∈ s.db.object.rows, r.deletedAt = none → InStorage s r →
      t.disk (targetFile s r.filepath) = s.disk (targetFile s r.filepath)) :
    BlobsStored t := by
  intro r hr hactive hin
  have hin' : InStorage s r := by
    unfold InStorage at *
    rw [← hstorage, hin]
  have hmem := hrows r hin' hactive hr
  rw [targetFile_congr hconfig, hdisk r hmem hactive hin']
  exact h r hmem hactive hin'

/-- An acknowledged upload to the default bucket stores its content under its key. -/
theorem uploaded_effect {P : Platform} {s t : AppState} {now : Instant} {uuid : Uuid} {k : Text}
    {data : Bytes} {b : Int} {etagType : EtagType}
    (h : Uploaded P s t now uuid k data b etagType) (hb : defaultBucketId s.db = some b)
    (hblobs : BlobsStored s) (hfresh : s.disk (blobPath P s uuid k) = none) :
    BlobsStored t ∧ view t = Function.update (view s) k (some data) := by
  have hstorage : defaultBucketId t.db = defaultBucketId s.db := by
    unfold defaultBucketId
    rw [h.bucket]
  have hdisk : ∀ p, p ≠ blobPath P s uuid k → t.disk p = s.disk p := by
    intro p hp
    rw [h.disk]
    exact setFile_other _ hp
  have hnew : t.disk (targetFile t ((Target.fresh uuid).filepath P k)) = some data := by
    rw [targetFile_congr h.config, h.disk]
    exact setFile_same _ _ _
  have hbucket : ∀ r, InStorage s r ↔ r.bucketId = b := by
    intro r
    unfold InStorage
    rw [hb]
    simp
  constructor
  · intro r hr hactive hin
    rcases h.mem_active.mp ⟨hr, hactive⟩ with ⟨hmem, _, _⟩ | rfl
    · have hin' : InStorage s r := by
        unfold InStorage at *
        rw [← hstorage, hin]
      have hobj : storageObject s r.originalFilename = some r :=
        storageObject_eq_some.mpr ⟨hmem, rfl, hin', hactive⟩
      rw [targetFile_congr h.config, hdisk _ (hblobs.ne_fresh hobj hfresh)]
      exact hblobs r hmem hactive hin'
    · exact ⟨data, hnew, rfl⟩
  · funext j
    by_cases hj : j = k
    · subst hj
      rw [Function.update_self]
      have hobj : storageObject t j = some ((uploadedRow P now uuid j etagType data b).record
          s.db.object.nextId) := by
        rw [storageObject_eq_some]
        obtain ⟨hmem, hactive⟩ := h.mem_active.mpr (Or.inr rfl)
        refine ⟨hmem, rfl, ?_, hactive⟩
        unfold InStorage
        rw [hstorage, hb]
        rfl
      unfold view
      rw [hobj]
      exact hnew
    · rw [Function.update_of_ne hj]
      apply view_congr
      · apply storageObject_congr hstorage
        intro r hin hkey hactive
        constructor
        · intro hr
          rcases h.mem_active.mp ⟨hr, hactive⟩ with ⟨hmem, _⟩ | rfl
          · exact hmem
          · exact absurd hkey.symm hj
        · intro hr
          have hne : ¬ (r.bucketId = b ∧ r.originalFilename = k) := fun hc =>
            hj (hkey.symm.trans hc.2)
          exact (h.mem_active.mpr (Or.inl ⟨hr, hactive, hne⟩)).1
      · intro r hr
        rw [targetFile_congr h.config]
        exact hdisk _ (hblobs.ne_fresh hr hfresh)

/-- Taking the key out of the active rows of the bucket erases it. -/
theorem erase_effect {s t : AppState} {k : Text} (hconfig : t.config = s.config)
    (hstorage : defaultBucketId t.db = defaultBucketId s.db)
    (hactive : ∀ r, InStorage s r → r.deletedAt = none →
      (r ∈ t.db.object.rows ↔ r ∈ s.db.object.rows ∧ r.originalFilename ≠ k))
    (hdisk : ∀ r ∈ s.db.object.rows, r.deletedAt = none → InStorage s r →
      t.disk (targetFile s r.filepath) = s.disk (targetFile s r.filepath))
    (hblobs : BlobsStored s) :
    BlobsStored t ∧ view t = Function.update (view s) k none := by
  constructor
  · exact hblobs.of_subset hconfig hstorage
      (fun r hin hd hr => ((hactive r hin hd).mp hr).1) hdisk
  · funext j
    by_cases hj : j = k
    · subst hj
      have hnone : storageObject t j = none := by
        rw [Option.eq_none_iff_forall_ne_some]
        intro r hr
        obtain ⟨hmem, hkey, hin, hd⟩ := storageObject_eq_some.mp hr
        have hin' : InStorage s r := by
          unfold InStorage at *
          rw [← hstorage, hin]
        exact ((hactive r hin' hd).mp hmem).2 hkey
      rw [Function.update_self]
      unfold view
      rw [hnone]
      rfl
    · rw [Function.update_of_ne hj]
      apply view_congr
      · apply storageObject_congr hstorage
        intro r hin hkey hd
        rw [hactive r hin hd]
        exact and_iff_left (fun hk => hj (hkey.symm.trans hk))
      · intro r hr
        obtain ⟨hmem, _, hin, hd⟩ := storageObject_eq_some.mp hr
        rw [targetFile_congr hconfig]
        exact hdisk r hmem hd hin

/-- A change to other buckets keeps the map. -/
theorem webChange_effect {s t : AppState} (h : WebChange s t) (hblobs : BlobsStored s) :
    BlobsStored t ∧ view t = view s := by
  constructor
  · exact hblobs.of_subset h.config h.storage (fun r hin _ hr => (h.rows r hin).mp hr)
      h.blobs
  · funext j
    apply view_congr
    · exact storageObject_congr h.storage fun r hin _ _ => h.rows r hin
    · intro r hr
      obtain ⟨hmem, _, hin, hd⟩ := storageObject_eq_some.mp hr
      rw [targetFile_congr h.config]
      exact h.blobs r hmem hd hin

/-- A refused upload to the default bucket keeps the map or loses the key. -/
theorem refused_effect {P : Platform} {s t : AppState} {now : Instant} {uuid : Uuid} {k : Text}
    (h : Refused P s t now uuid k (defaultBucketId s.db)) (hblobs : BlobsStored s)
    (hfresh : s.disk (blobPath P s uuid k) = none) :
    BlobsStored t ∧ (view t = view s ∨ view t = Function.update (view s) k none) := by
  have hdisk : ∀ r ∈ s.db.object.rows, r.deletedAt = none → InStorage s r →
      t.disk (targetFile s r.filepath) = s.disk (targetFile s r.filepath) := by
    intro r hmem hd hin
    have hobj := storageObject_eq_some.mpr ⟨hmem, rfl, hin, hd⟩
    exact h.disk _ (hblobs.ne_fresh hobj hfresh)
  rcases h.db with hdb | ⟨b, hb, hdb⟩
  · have hchange : BlobsStored t ∧ view t = view s := by
      constructor
      · exact hblobs.of_subset h.config (by rw [hdb]) (fun r _ _ hr => hdb ▸ hr) hdisk
      · funext j
        apply view_congr
        · exact storageObject_congr (by rw [hdb]) fun r _ _ _ => by rw [hdb]
        · intro r hr
          obtain ⟨hmem, _, hin, hd⟩ := storageObject_eq_some.mp hr
          rw [targetFile_congr h.config]
          exact hdisk r hmem hd hin
    exact ⟨hchange.1, Or.inl hchange.2⟩
  · have hstorage : defaultBucketId t.db = defaultBucketId s.db := by
      unfold defaultBucketId
      rw [hdb, (softDelete_tables Limit1.first s.db now k (some b)).1]
    have herase := erase_effect (k := k) h.config hstorage (by
      intro r hin hd
      have hbucket : r.bucketId = b := by
        unfold InStorage at hin
        rw [hb] at hin
        exact Option.some.inj hin
      have hiff := mem_active_softDelete Limit1.first s.db now k b r
      rw [hdb]
      simp only [hd, and_true, true_and, hbucket] at hiff
      exact hiff) hdisk hblobs
    exact ⟨herase.1, Or.inr herase.2⟩

/-- With no other bucket in the way, a delete by key recycles the object of the bucket. -/
theorem delete_active {q : Limit1 ObjectRecord} {s : AppState} {now : Instant} {k : Text}
    (honly : OnlyInStorage s k) {r : ObjectRecord} (hin : InStorage s r)
    (hd : r.deletedAt = none) :
    r ∈ (softDeleteObjectByFilename q s.db now k none).2.object.rows ↔
      r ∈ s.db.object.rows ∧ r.originalFilename ≠ k := by
  have hcand : softDeleteCandidate q s.db k none = q.pick (activeByFilename s.db k) := rfl
  cases hpick : q.pick (activeByFilename s.db k) with
  | none =>
    rw [softDelete_of_none (hcand.trans hpick)]
    have hnil := q.nonempty _ hpick
    refine (and_iff_left_of_imp fun hr hkey => ?_).symm
    have hmem := mem_activeByFilename.mpr ⟨hr, hkey, hd⟩
    simp [hnil] at hmem
  | some a =>
    obtain ⟨ha, hakey, had⟩ := mem_activeByFilename.mp (q.mem _ _ hpick)
    have hain := honly a ha hakey had
    rw [softDelete_of_some (hcand.trans hpick)]
    have hiff := mem_active_recycleById s.db now a.id r
    simp only [hd, and_true, true_and] at hiff
    rw [hiff]
    refine and_congr_right fun hr => ?_
    constructor
    · intro hid hkey
      have hbucket : r.bucketId = a.bucketId := Option.some.inj (hin.trans hain.symm)
      exact hid (by rw [s.db.object.eq_of_active hr ha hd had hbucket (hkey.trans hakey.symm)])
    · intro hkey hid
      rw [s.db.object.eq_of_id hr ha hid] at hkey
      exact hkey hakey

/-- Such a delete changes no row of another bucket. -/
theorem delete_other_rows {q : Limit1 ObjectRecord} {s : AppState} {now : Instant} {k : Text}
    (honly : OnlyInStorage s k) {r : ObjectRecord} (hin : ¬ InStorage s r) :
    r ∈ (softDeleteObjectByFilename q s.db now k none).2.object.rows ↔
      r ∈ s.db.object.rows := by
  have hcand : softDeleteCandidate q s.db k none = q.pick (activeByFilename s.db k) := rfl
  cases hpick : q.pick (activeByFilename s.db k) with
  | none => rw [softDelete_of_none (hcand.trans hpick)]
  | some a =>
    obtain ⟨ha, hakey, had⟩ := mem_activeByFilename.mp (q.mem _ _ hpick)
    have hain := honly a ha hakey had
    rw [softDelete_of_some (hcand.trans hpick), mem_recycleById]
    constructor
    · intro h
      rcases h with ⟨hr, _⟩ | ⟨c, hc, hid, rfl⟩
      · exact hr
      · rw [s.db.object.eq_of_id hc ha hid] at hin
        exact absurd hain hin
    · intro hr
      refine Or.inl ⟨hr, fun hid => hin ?_⟩
      rw [s.db.object.eq_of_id hr ha hid]
      exact hain

theorem putObject_cases (P : Platform) (s : AppState) (now : Instant) (uuid : Uuid)
    (rawKey : Text) (headers : Headers) (body : List (Option Bytes)) (faults : PutFaults)
    {k : Text} (hkey : normalizeObjectKey rawKey = .ok k) :
    let call := putObject P s now uuid rawKey headers body faults
    (call.1.isFailure = true ∧ Refused P s call.2 now uuid k (defaultBucketId s.db)) ∨
      (call.1.isFailure = false ∧ ∃ b etagType, defaultBucketId s.db = some b ∧
        Uploaded P s call.2 now uuid k (content body) b etagType) := by
  have hcall : putObject P s now uuid rawKey headers body faults =
      putObjectKeyedInBucket P s now uuid k headers body none faults := by
    unfold putObject
    rw [hkey]
  have hbucket : ∀ b, uploadBucket s.db none faults.defaultBucketId = some b →
      defaultBucketId s.db = some b := by
    intro b hb
    by_cases hfail : faults.defaultBucketId = true
    · simp [uploadBucket, hfail] at hb
    · rw [Bool.not_eq_true] at hfail
      simpa [uploadBucket, hfail] using hb
  rw [hcall]
  rcases putObjectKeyedInBucket_cases P s now uuid k headers body none faults with
    ⟨hfail, href⟩ | ⟨b, default, hstored, hb, _, _, hup⟩
  · refine Or.inl ⟨hfail, href.config, href.disk, ?_⟩
    rcases href.db with hdb | ⟨id, hid, hdb⟩
    · exact Or.inl hdb
    · exact Or.inr ⟨id, hbucket id hid, hdb⟩
  · exact Or.inr ⟨by rw [hstored]; rfl, b, _, hbucket b hb, hup⟩

/-- The S3 API refines a map of keys to contents. -/
theorem s3_refines (P : Platform) :
    Refines (step P) (Allowed P) BlobsStored view (event P) := by
  have hstep : ∀ s a t, BlobsStored s → Allowed P s a → step P s a = some t →
      BlobsStored t ∧ (event P s a).Effect (view s) (view t) := by
    intro s a t hblobs hok hnext
    cases a with
    | put now uuid rawKey headers body faults =>
      cases hnext
      cases hkey : normalizeObjectKey rawKey with
      | error msg =>
        have hsame : (putObject P s now uuid rawKey headers body faults).2 = s := by
          unfold putObject
          rw [hkey]
        simp only [event, hkey, hsame]
        exact ⟨hblobs, rfl⟩
      | ok k =>
        have hfresh := hok.1 k hkey
        simp only [event, hkey]
        rcases putObject_cases P s now uuid rawKey headers body faults hkey with
          ⟨hfail, href⟩ | ⟨hfail, b, etagType, hb, hup⟩
        · rw [if_pos hfail]
          exact refused_effect href hblobs hfresh
        · rw [if_neg (by simp [hfail])]
          exact uploaded_effect hup hb hblobs hfresh
    | get q rawKey =>
      cases hnext
      exact ⟨hblobs, rfl⟩
    | delete q now rawKey fails =>
      cases hnext
      cases hkey : normalizeObjectKey rawKey with
      | error msg =>
        simp only [event, S3Routes.deleteObject, hkey]
        exact ⟨hblobs, rfl⟩
      | ok k =>
        simp only [event, S3Routes.deleteObject, hkey, deleteObjectKeyedInBucket]
        cases fails with
        | true => exact ⟨hblobs, rfl⟩
        | false =>
          have honly := hok.2 k hkey
          have hstorage : defaultBucketId (softDeleteObjectByFilename q s.db now k none).2 =
              defaultBucketId s.db := by
            unfold defaultBucketId
            rw [(softDelete_tables q s.db now k none).1]
          exact erase_effect rfl hstorage (fun r hin hd => delete_active honly hin hd)
            (fun _ _ _ _ => rfl) hblobs
    | list fails =>
      cases hnext
      exact ⟨hblobs, rfl⟩
    | web u =>
      cases hnext
      exact webChange_effect hok.1 hblobs
  exact ⟨fun s a t h hok hnext => (hstep s a t h hok hnext).1,
    fun s a t h hok hnext => (hstep s a t h hok hnext).2⟩

/-- With no other bucket in the way, a read finds the object of the bucket. -/
theorem getObjectByFilename_eq {q : Limit1 ObjectRecord} {s : AppState} {k : Text}
    (honly : OnlyInStorage s k) : getObjectByFilename q s.db k = storageObject s k := by
  unfold getObjectByFilename
  cases hobj : storageObject s k with
  | some r =>
    obtain ⟨hr, hkey, hin, hd⟩ := storageObject_eq_some.mp hobj
    apply q.pick_eq_of_unique (mem_activeByFilename.mpr ⟨hr, hkey, hd⟩)
    intro a ha
    obtain ⟨ha, hakey, had⟩ := mem_activeByFilename.mp ha
    have hbucket := Option.some.inj ((honly a ha hakey had).trans hin.symm)
    exact s.db.object.eq_of_active ha hr had hd hbucket (hakey.trans hkey.symm)
  | none =>
    have hnil : activeByFilename s.db k = [] := by
      rw [List.eq_nil_iff_forall_not_mem]
      intro a ha
      obtain ⟨ha, hakey, had⟩ := mem_activeByFilename.mp ha
      have hsome := storageObject_eq_some.mpr ⟨ha, hakey, honly a ha hakey had, had⟩
      simp [hobj] at hsome
    rw [hnil, q.pick_nil]

theorem serveRecord_whole {P : Platform} {s : AppState} {r : ObjectRecord} {data : Bytes}
    (hdata : s.disk (targetFile s r.filepath) = some data)
    (hsize : r.filesizeBytes = data.length) :
    ∃ headers, serveRecord P s r [] = .content .ok headers data ∧
      headers.etag = etagHeaders r.etag r.etagType ∧ headers.contentLength = data.length := by
  have hopen : openRead s.config.storageRoot s.disk r.filepath = some data := hdata
  unfold serveRecord
  simp only [Headers.get, List.find?_nil, Option.map_none, Option.bind_none, Option.isSome_none,
    Bool.false_and, Bool.false_eq_true, if_false, hopen]
  exact ⟨_, rfl, rfl, by simp [hsize]⟩

/-- What the S3 API promises in a state that it has reached. -/
structure ActsAsMap (P : Platform) (s : AppState) : Prop where
  /-- A read answers from the map, and from a row of the bucket. -/
  get : ∀ q rawKey k, normalizeObjectKey rawKey = .ok k → Allowed P s (.get q rawKey) →
    (view s k = none ∧ getObject P q s rawKey = ⟨none, noSuchKey⟩) ∨
      ∃ data r headers, view s k = some data ∧ InStorage s r ∧
        getObject P q s rawKey = ⟨some r, .content .ok headers data⟩ ∧
        headers.contentLength = data.length
  /-- An acknowledged upload is read back until the key is written or deleted again. -/
  putGet : ∀ now uuid rawKey headers body faults k t q rawKey',
    normalizeObjectKey rawKey = .ok k → normalizeObjectKey rawKey' = .ok k →
    Allowed P s (.put now uuid rawKey headers body faults) →
    (putObject P s now uuid rawKey headers body faults).1.isFailure = false →
    Run (step P) (fun s a => Allowed P s a ∧ (event P s a).key ≠ some k)
      (putObject P s now uuid rawKey headers body faults).2 t →
    Allowed P t (.get q rawKey') →
    ∃ r headers, getObject P q t rawKey' = ⟨some r, .content .ok headers (content body)⟩
  /-- A deleted key has no active row in the bucket. -/
  deleteGone : ∀ q now rawKey k, normalizeObjectKey rawKey = .ok k →
    Allowed P s (.delete q now rawKey false) →
    storageObject (S3Routes.deleteObject q s now rawKey false).2 k = none
  /-- The listing is that of the bucket. -/
  list : ∀ b, Allowed P s (.list false) → defaultBucketId s.db = some b →
    listObjectsRoute P s false = .listed ((listObjectsInBucket s.db b).map (listEntry P))
  /-- No request changes a row of another bucket. -/
  isolated : ∀ a t r, Allowed P s a → (∀ u, a ≠ .web u) → step P s a = some t →
    ¬ InStorage s r → (r ∈ t.db.object.rows ↔ r ∈ s.db.object.rows)

theorem getObject_eq {P : Platform} {q : Limit1 ObjectRecord} {s : AppState} {rawKey k : Text}
    (hkey : normalizeObjectKey rawKey = .ok k) (hblobs : BlobsStored s)
    (honly : OnlyInStorage s k) :
    (view s k = none ∧ getObject P q s rawKey = ⟨none, noSuchKey⟩) ∨
      ∃ data r headers, view s k = some data ∧ InStorage s r ∧
        getObject P q s rawKey = ⟨some r, .content .ok headers data⟩ ∧
        headers.contentLength = data.length := by
  unfold getObject getObjectKeyedWithHeaders view
  simp only [hkey, getObjectByFilename_eq honly]
  cases hobj : storageObject s k with
  | none => exact Or.inl ⟨rfl, rfl⟩
  | some r =>
    obtain ⟨hr, _, hin, hd⟩ := storageObject_eq_some.mp hobj
    obtain ⟨data, hdata, hsize⟩ := hblobs r hr hd hin
    obtain ⟨headers, hserve, _, hlen⟩ := serveRecord_whole (P := P) hdata hsize
    exact Or.inr ⟨data, r, headers, hdata, hin, by simp only [hserve], hlen⟩

theorem isolated_step {P : Platform} {s t : AppState} {a : Request} {r : ObjectRecord}
    (hok : Allowed P s a) (hweb : ∀ u, a ≠ .web u) (hnext : step P s a = some t)
    (hin : ¬ InStorage s r) : r ∈ t.db.object.rows ↔ r ∈ s.db.object.rows := by
  cases a with
  | put now uuid rawKey headers body faults =>
    cases hnext
    cases hkey : normalizeObjectKey rawKey with
    | error msg =>
      unfold putObject
      rw [hkey]
    | ok k =>
      have hother : ∀ b, defaultBucketId s.db = some b →
          (r ∈ (recycled s.db now k b).object.rows ↔ r ∈ s.db.object.rows) := by
        intro b hb
        apply softDelete_other_rows
        intro hbucket
        exact hin (by unfold InStorage; rw [hb, hbucket])
      rcases putObject_cases P s now uuid rawKey headers body faults hkey with
        ⟨_, href⟩ | ⟨_, b, etagType, hb, hup⟩
      · rcases href.db with hdb | ⟨b, hb, hdb⟩
        · rw [hdb]
        · rw [hdb]
          exact hother b hb
      · rw [hup.rows, List.mem_append, hother b hb, List.mem_singleton]
        refine or_iff_left ?_
        intro h
        obtain rfl := h
        exact hin hb.symm
  | get q rawKey =>
    cases hnext
    exact Iff.rfl
  | delete q now rawKey fails =>
    cases hnext
    cases hkey : normalizeObjectKey rawKey with
    | error msg =>
      simp only [S3Routes.deleteObject, hkey]
    | ok k =>
      simp only [S3Routes.deleteObject, hkey, deleteObjectKeyedInBucket]
      cases fails with
      | true => exact Iff.rfl
      | false => exact delete_other_rows (hok.2 k hkey) hin
  | list fails =>
    cases hnext
    exact Iff.rfl
  | web u => exact absurd rfl (hweb u)

theorem list_scoped {P : Platform} {s : AppState} {b : Int} (hok : Allowed P s (.list false))
    (hb : defaultBucketId s.db = some b) :
    listObjectsRoute P s false = .listed ((listObjectsInBucket s.db b).map (listEntry P)) := by
  have hfilter : s.db.object.rows.filter isActive =
      s.db.object.rows.filter fun r => r.bucketId == b && isActive r := by
    apply List.filter_congr
    intro r hr
    by_cases hd : isActive r = true
    · have hin := hok.2 r hr (isActive_iff.mp hd)
      unfold InStorage at hin
      rw [hb] at hin
      simp [hd, Option.some.inj hin]
    · simp [hd]
  unfold listObjectsRoute listObjects listObjectsInBucket
  rw [hfilter]
  rfl

/-- In every run of S3 requests and changes to other buckets in which the requests meet
no object of another bucket, the S3 API acts as one map held in the default bucket. -/
theorem s3_acts_as_map (P : Platform) (nodeId : Text) (s : AppState)
    (hrun : Run (step P) (Allowed P) (AppState.migrated nodeId) s) : ActsAsMap P s := by
  have hstart : BlobsStored (AppState.migrated nodeId) := by
    intro r hr
    cases hr
  have hblobs : BlobsStored s := (s3_refines P).invariant hstart hrun
  refine {
    get := fun q rawKey k hkey hok => getObject_eq hkey hblobs (hok.2 k hkey)
    putGet := ?_
    deleteGone := ?_
    list := fun b hok hb => list_scoped hok hb
    isolated := fun a t r hok hweb hnext hin => isolated_step hok hweb hnext hin }
  · intro now uuid rawKey headers body faults k t q rawKey' hkey hkey' hput hack hrest hget
    have hnext : step P s (.put now uuid rawKey headers body faults) =
      some (putObject P s now uuid rawKey headers body faults).2 := rfl
    have heffect := (s3_refines P).effect s _ _ hblobs hput hnext
    have hstored := (s3_refines P).preserves s _ _ hblobs hput hnext
    simp only [event, hkey, hack, Bool.false_eq_true, if_false] at heffect
    obtain ⟨hinv, hview⟩ := (s3_refines P).read_back hstored hrest
    have hvalue : view t k = some (content body) := by
      rw [hview, show view _ = _ from heffect, Function.update_self]
    rcases getObject_eq (P := P) (q := q) hkey' hinv (hget.2 k hkey') with
      ⟨hnone, _⟩ | ⟨data, r, headers, hdata, _, hanswer, _⟩
    · simp [hvalue] at hnone
    · rw [hvalue] at hdata
      cases hdata
      exact ⟨r, headers, hanswer⟩
  · intro q now rawKey k hkey hok
    rw [Option.eq_none_iff_forall_ne_some]
    intro r hr
    simp only [S3Routes.deleteObject, hkey, deleteObjectKeyedInBucket, Bool.false_eq_true,
      if_false] at hr
    obtain ⟨hmem, hrkey, hin, hd⟩ := storageObject_eq_some.mp hr
    have hin' : InStorage s r := by
      unfold InStorage defaultBucketId at *
      rw [(softDelete_tables q s.db now k none).1] at hin
      exact hin
    exact ((delete_active (hok.2 k hkey) hin' hd).mp hmem).2 hrkey

/-- A node after one upload through the S3 API. -/
def oneUpload : AppState :=
  (putObject Platform.sample (AppState.migrated "node-1".toList) Instant.epoch
    (Uuid.numbered 1) ['k'] [] [some [97]] {}).2

theorem oneUpload_allowed :
    Allowed Platform.sample (AppState.migrated "node-1".toList)
      (.put Instant.epoch (Uuid.numbered 1) ['k'] [] [some [97]] {}) :=
  ⟨fun _ _ => rfl, trivial⟩

/-- After its upload the node answers as one map. -/
theorem s3_acts_as_map_after_upload : ActsAsMap Platform.sample oneUpload :=
  s3_acts_as_map Platform.sample "node-1".toList oneUpload
    (Run.tail _ (Run.refl _) oneUpload_allowed rfl)

/-- A bucket that the web API adds. -/
def withPhotos : AppState :=
  { oneUpload with
    db := (createBucket oneUpload.db "photos".toList 1 .md5).getD oneUpload.db }

/-- The web API stores another object under the same key in the new bucket. -/
def sameKeyTwice : AppState :=
  (putObjectKeyedInBucket Platform.sample withPhotos Instant.epoch (Uuid.numbered 2) ['k'] []
    [some [98]] (some 2) {}).2

/-- The key of another bucket is listed; a GET may answer with its content, and a DELETE
may recycle it and leave the object of the bucket `storage`. -/
theorem s3_meets_another_bucket :
    Run (step Platform.sample) (Legal Platform.sample) (AppState.migrated "node-1".toList)
      sameKeyTwice ∧
    view sameKeyTwice ['k'] = some [97] ∧
    ∃ r ∈ sameKeyTwice.db.object.rows, ¬ InStorage sameKeyTwice r ∧
      (getObject Platform.sample Limit1.last sameKeyTwice ['k']).row = some r ∧
      (∃ headers, (getObject Platform.sample Limit1.last sameKeyTwice ['k']).response =
        .content .ok headers [98]) ∧
      r ∉ (S3Routes.deleteObject Limit1.last sameKeyTwice Instant.epoch ['k']
        false).2.db.object.rows ∧
      view (S3Routes.deleteObject Limit1.last sameKeyTwice Instant.epoch ['k'] false).2 ['k'] =
        some [97] ∧
      ∃ first second,
        listObjectsRoute Platform.sample sameKeyTwice false = .listed [first, second] := by
  have hcreate : WebChange oneUpload withPhotos :=
    webChange_createBucket (rfl : createBucket _ "photos".toList 1 .md5 = some _) (by decide)
  have hput : WebChange withPhotos sameKeyTwice := by
    refine webChange_put _ _ _ _ _ _ _ _ _ (by decide) ?_
    intro r hr
    rw [List.mem_singleton.mp hr]
    decide
  refine ⟨?_, by decide, _, List.mem_cons_of_mem _ List.mem_cons_self, by decide, rfl,
    ⟨_, rfl⟩, by decide, by decide, _, _, rfl⟩
  exact Run.tail (.web sameKeyTwice) (Run.tail (.web withPhotos)
    (Run.tail _ (Run.refl _) oneUpload_allowed.1 rfl) hcreate rfl) hput rfl

end MyS3.S3Map
