import MyS3.Blobs
import MyS3.EtagRehash
import MyS3.Library.Runs
import MyS3.Purge

/-!
Sequential runs of one node: uploads, soft deletes, restores, renames, ETag rehashes, purges
and reconciles, one after another. In every state each row has its blob, with the recorded
length and ETag, and every version that was acknowledged and not purged is still a row.
-/

namespace MyS3.BlobRuns

open Library.Strings Library.Tables Library.Paths Library.Runs
open Models Objects Database Engine Repository Outbox Http S3Routes Keys Versions UploadRuns
open Purge Reconcile Blobs EtagRehash

inductive Op
  | put (p : Put)
  | delete (q : Limit1 ObjectRecord) (now : Instant) (key : Text) (bucketId : Option Int)
      (fails : Bool)
  | deletePrefix (now : Instant) (bucketId : Int) (pre : Text)
  | restore (now : Instant) (id : Int)
  | rename (now : Instant) (bucketId : Int) (fromPrefix toPrefix : Text)
  | setEtagType (bucketId : Int) (etagType : EtagType)
  | rehash (now : Instant) (bucketId : Int) (etagType : EtagType) (faults : RehashFaults)
  | hardPurge (now : Instant) (id : Int) (txFails unlinkFails : Bool)
  | purgeOnce (now : Instant) (txFails unlinkFails : ObjectRecord → Bool)
  | reconcile (names namesAfter : List Text) (unlinkFails : Text → Bool)

/-- What an operation leaves on the node. -/
def Op.run (P : Platform) (s : AppState) : Op → AppState
  | .put p => (p.run P s).2
  | .delete q now key bucketId fails => (deleteObjectKeyedInBucket q s now key bucketId fails).2
  | .deletePrefix now bucketId pre => { s with db := (softDeletePrefix s.db now bucketId pre).2 }
  | .restore now id =>
    match restoreObject s.db now id with
    | .error _ => s
    | .ok db => { s with db := db }
  | .rename now bucketId fromPrefix toPrefix =>
    match renamePrefix s.db now bucketId fromPrefix toPrefix with
    | .error _ => s
    | .ok (_, db) => { s with db := db }
  | .setEtagType bucketId etagType =>
    { s with db := (setBucketEtagType s.db bucketId etagType).getD s.db }
  | .rehash now bucketId etagType faults => runBucketRehash P s now bucketId etagType faults
  | .hardPurge now id txFails unlinkFails =>
    if txFails then s else (hardPurgeObject s now id unlinkFails).getD s
  | .purgeOnce now txFails unlinkFails => Purge.purgeOnce s now txFails unlinkFails
  | .reconcile names namesAfter unlinkFails => (Reconcile.reconcile s names namesAfter unlinkFails).2

/-- The filepaths of the versions that an operation purges. -/
def Op.purged (s : AppState) : Op → List Text
  | .hardPurge _ id txFails _ =>
    if txFails then [] else (getObjectById s.db id).toList.map (·.filepath)
  | .purgeOnce now txFails _ =>
    (cutoff s.db.appSettings now).toList.flatMap fun olderThan =>
      ((listExpiredDeletedObjects s.db olderThan).takeWhile fun obj => !txFails obj).map (·.filepath)
  | _ => []

/-- The filepath of a version that an operation acknowledges. -/
def Op.acknowledged (P : Platform) (s : AppState) : Op → List Text
  | .put p => if (p.run P s).1.isFailure then [] else [(Target.fresh p.uuid).filepath P p.key]
  | _ => []

/-- The node, and the versions that were acknowledged and not purged, by their filepaths. -/
structure Node where
  app : AppState
  versions : List Text

def step (P : Platform) (n : Node) (op : Op) : Option Node :=
  some ⟨op.run P n.app,
    (n.versions ++ op.acknowledged P n.app).filter fun f => !(op.purged n.app).contains f⟩

/-- The routes normalize keys, UUIDs are new, and a directory lists what it holds. -/
def Legal (P : Platform) (n : Node) : Op → Prop
  | .put p => (∃ raw, normalizeObjectKey raw = .ok p.key) ∧
      ∀ r ∈ n.app.db.object.rows, r.filepath ≠ (Target.fresh p.uuid).filepath P p.key
  | .reconcile names _ _ => ListsObjects n.app names
  | _ => True

/-- Every row has its blob, every version that should be there has a row, and the rows do not
share filepaths or active keys. -/
structure Sound (P : Platform) (n : Node) : Prop where
  blobs : ∀ r ∈ n.app.db.object.rows, HasBlob P n.app r
  filepaths : n.app.db.object.rows.Pairwise fun a b => a.filepath ≠ b.filepath
  keys : ∀ a ∈ n.app.db.object.rows, ∀ b ∈ n.app.db.object.rows, a.deletedAt = none →
    b.deletedAt = none → a.bucketId = b.bucketId → a.originalFilename = b.originalFilename → a = b
  versions : ∀ f ∈ n.versions, ∃ r ∈ n.app.db.object.rows, r.filepath = f

/-- The rows of a state carry over to another one: each row there is one from here, up to its
key and its times and a new hash of the same blob, and none is lost. -/
structure Carried (P : Platform) (s t : AppState) : Prop where
  blobs : ∀ r ∈ s.db.object.rows, blobOf t r = blobOf s r
  rows : ∀ u ∈ t.db.object.rows, ∃ r ∈ s.db.object.rows, u.id = r.id ∧
    u.filepath = r.filepath ∧ u.filesizeBytes = r.filesizeBytes ∧
    ((u.etagType = r.etagType ∧ u.etag = r.etag) ∨
      ∃ data, blobOf s r = some data ∧ P.digest u.etagType data = u.etag)
  kept : ∀ r ∈ s.db.object.rows, ∃ u ∈ t.db.object.rows, u.filepath = r.filepath

theorem blobOf_congr {s t : AppState} {r u : ObjectRecord} (h : blobOf t r = blobOf s r)
    (hfile : u.filepath = r.filepath) : blobOf t u = blobOf s u := by
  unfold blobOf at h ⊢
  rw [hfile]
  exact h

theorem Carried.refl (P : Platform) (s : AppState) : Carried P s s where
  blobs _ _ := rfl
  rows u hu := ⟨u, hu, rfl, rfl, rfl, Or.inl ⟨rfl, rfl⟩⟩
  kept r hr := ⟨r, hr, rfl⟩

theorem Carried.trans {P : Platform} {s t w : AppState} (h : Carried P s t)
    (h' : Carried P t w) : Carried P s w where
  blobs r hr := by
    obtain ⟨u, hu, hfile⟩ := h.kept r hr
    exact (blobOf_congr (h'.blobs u hu) hfile.symm).trans (h.blobs r hr)
  rows v hv := by
    obtain ⟨u, hu, hid, hfile, hsize, hetag⟩ := h'.rows v hv
    obtain ⟨r, hr, hid', hfile', hsize', hetag'⟩ := h.rows u hu
    refine ⟨r, hr, hid.trans hid', hfile.trans hfile', hsize.trans hsize', ?_⟩
    rcases hetag with ⟨htype, hsame⟩ | ⟨data, hdata, hdigest⟩
    · rcases hetag' with ⟨htype', hsame'⟩ | ⟨data, hdata, hdigest⟩
      · exact Or.inl ⟨htype.trans htype', hsame.trans hsame'⟩
      · exact Or.inr ⟨data, hdata, by rw [htype, hsame, hdigest]⟩
    · refine Or.inr ⟨data, ?_, hdigest⟩
      have hback := blobOf_congr (h.blobs r hr) hfile'
      rw [hback] at hdata
      unfold blobOf at hdata ⊢
      rwa [hfile'] at hdata
  kept r hr := by
    obtain ⟨u, hu, hfile⟩ := h.kept r hr
    obtain ⟨v, hv, hfile'⟩ := h'.kept u hu
    exact ⟨v, hv, hfile'.trans hfile⟩

/-- What carries over keeps its blob. -/
theorem Carried.hasBlob {P : Platform} {s t : AppState} (h : Carried P s t)
    (hs : ∀ r ∈ s.db.object.rows, StoredName P r.filepath ∧ HasBlob P s r) :
    ∀ u ∈ t.db.object.rows, StoredName P u.filepath ∧ HasBlob P t u := by
  intro u hu
  obtain ⟨r, hr, _, hfile, hsize, hetag⟩ := h.rows u hu
  obtain ⟨hname, data, hdata, hlen, hdigest⟩ := hs r hr
  refine ⟨hfile ▸ hname, data, ?_, hsize ▸ hlen, ?_⟩
  · rw [blobOf_congr (h.blobs r hr) hfile]
    unfold blobOf at hdata ⊢
    rw [hfile]
    exact hdata
  · rcases hetag with ⟨htype, hsame⟩ | ⟨data', hdata', hdigest'⟩
    · rw [htype, hsame, hdigest]
    · rw [hdata, Option.some.injEq] at hdata'
      rw [hdata', hdigest']

/-- A change of the database that updates columns beside the blob's. -/
theorem Carried.of_update {P : Platform} {s : AppState} {db : Db} {p : ObjectRecord → Bool}
    {f : ObjectRecord → ObjectRecord} (hrows : db.object.rows = updateRows p f s.db.object.rows)
    (hf : ∀ r, (f r).id = r.id ∧ (f r).filepath = r.filepath ∧
      (f r).filesizeBytes = r.filesizeBytes ∧ (f r).etagType = r.etagType ∧ (f r).etag = r.etag) :
    Carried P s { s with db := db } where
  blobs _ _ := rfl
  rows u hu := by
    rw [hrows] at hu
    rcases mem_updateRows.mp hu with ⟨hu, _⟩ | ⟨r, hr, _, rfl⟩
    · exact ⟨u, hu, rfl, rfl, rfl, Or.inl ⟨rfl, rfl⟩⟩
    · obtain ⟨hid, hfile, hsize, htype, hetag⟩ := hf r
      exact ⟨r, hr, hid, hfile, hsize, Or.inl ⟨htype, hetag⟩⟩
  kept r hr := by
    rw [hrows]
    exact exists_updateRows (·.filepath) p (fun a => (hf a).2.1) hr

/-- A change that leaves the object table and the blobs of its rows alone. -/
theorem Carried.of_disk {P : Platform} {s t : AppState} (hconfig : t.config = s.config)
    (hrows : t.db.object.rows = s.db.object.rows)
    (hdisk : ∀ r ∈ s.db.object.rows,
      t.disk (absolutePathFor s.config.storageRoot r.filepath) =
        s.disk (absolutePathFor s.config.storageRoot r.filepath)) : Carried P s t where
  blobs r hr := by
    unfold blobOf openRead
    rw [hconfig, hdisk r hr]
  rows u hu := ⟨u, hrows ▸ hu, rfl, rfl, rfl, Or.inl ⟨rfl, rfl⟩⟩
  kept r hr := ⟨r, hrows ▸ hr, rfl⟩

/-- A soft delete of any kind. -/
theorem carried_softDelete (P : Platform) (q : Limit1 ObjectRecord) (s : AppState)
    (now : Instant) (key : Text) (bucketId : Option Int) :
    Carried P s { s with db := (softDeleteObjectByFilename q s.db now key bucketId).2 } := by
  unfold softDeleteObjectByFilename
  cases softDeleteCandidate q s.db key bucketId with
  | none => exact Carried.refl P s
  | some r =>
    exact Carried.of_update (f := (recycle now).apply) (Db.updateObjects_rows _ _ _)
      fun _ => ⟨rfl, rfl, rfl, rfl, rfl⟩

theorem carried_restore {P : Platform} {s : AppState} {now : Instant} {id : Int} {db : Db}
    (h : restoreObject s.db now id = .ok db) : Carried P s { s with db := db } := by
  unfold restoreObject at h
  cases hget : getObjectById s.db id with
  | none => simp [hget] at h
  | some record =>
    rw [hget] at h
    simp only at h
    split_ifs at h
    cases hupdate : s.db.updateObjectsChecked (fun r => r.id == id) (restore now) with
    | none => simp [hupdate] at h
    | some db' =>
      rw [hupdate] at h
      cases h
      exact Carried.of_update (Db.updateObjectsChecked_rows hupdate).1
        fun _ => ⟨rfl, rfl, rfl, rfl, rfl⟩

theorem carried_applyRenames {P : Platform} {now : Instant} {plan : List (Int × Text)} {db : Db}
    {s : AppState} (h : applyRenames now s.db plan = some db) :
    Carried P s { s with db := db } := by
  induction plan generalizing s with
  | nil =>
    rw [← Option.some.inj h]
    exact Carried.refl P s
  | cons entry rest ih =>
    obtain ⟨id, newKey⟩ := entry
    obtain ⟨mid, hmid, hrest⟩ := Option.bind_eq_some_iff.mp h
    have hfirst : Carried P s { s with db := mid } :=
      Carried.of_update (Db.updateObjectsChecked_rows hmid).1 fun _ => ⟨rfl, rfl, rfl, rfl, rfl⟩
    exact hfirst.trans (ih (s := { s with db := mid }) hrest)

theorem carried_rename {P : Platform} {s : AppState} {now : Instant} {bucketId : Int}
    {fromPrefix toPrefix : Text} {n : Nat} {db : Db}
    (h : renamePrefix s.db now bucketId fromPrefix toPrefix = .ok (n, db)) :
    Carried P s { s with db := db } := by
  unfold renamePrefix at h
  simp only at h
  split_ifs at h
  · cases h
    exact Carried.refl P s
  · cases hplan : planRenames s.db bucketId fromPrefix toPrefix
        (listKeysUnderPrefix s.db bucketId fromPrefix) with
    | error err => simp [hplan] at h
    | ok plan =>
      rw [hplan] at h
      simp only at h
      cases happly : applyRenames now s.db plan with
      | none => simp [happly] at h
      | some db' =>
        rw [happly] at h
        cases h
        exact carried_applyRenames happly

theorem carried_setEtagType (P : Platform) (s : AppState) (bucketId : Int)
    (etagType : EtagType) :
    Carried P s { s with db := (setBucketEtagType s.db bucketId etagType).getD s.db } := by
  cases hset : setBucketEtagType s.db bucketId etagType with
  | none => exact Carried.refl P s
  | some db =>
    have hobject := setBucketEtagType_object hset
    exact Carried.of_disk rfl (by rw [Option.getD_some, hobject]) fun _ _ => rfl

/-- A listed object still has its filepath when its turn comes, so the new hash is that of
its own blob. -/
theorem carried_rehashOne {P : Platform} {s : AppState} (now : Instant) (etagType : EtagType)
    (faults : RehashFaults) {obj : ObjectRecord}
    (hobj : ∀ r ∈ s.db.object.rows, r.id = obj.id → r.filepath = obj.filepath) :
    Carried P s (rehashOne P s now etagType faults obj).2 := by
  rcases rehashOne_cases P s now etagType faults obj with
    hsame | ⟨data, hdata, hconfig, hdisk, hrows⟩
  · rw [hsame]
    exact Carried.refl P s
  · refine ⟨?_, ?_, ?_⟩
    · intro r _
      unfold blobOf
      rw [hconfig, hdisk]
    · intro u hu
      rw [hrows] at hu
      rcases mem_updateRows.mp hu with ⟨hu, _⟩ | ⟨r, hr, hp, rfl⟩
      · exact ⟨u, hu, rfl, rfl, rfl, Or.inl ⟨rfl, rfl⟩⟩
      · have hid : r.id = obj.id := by
          rw [Bool.and_eq_true, beq_iff_eq] at hp
          exact hp.1
        refine ⟨r, hr, rfl, rfl, rfl, Or.inr ⟨data, ?_, rfl⟩⟩
        unfold blobOf
        rw [hobj r hr hid]
        exact hdata
    · intro r hr
      rw [hrows]
      refine exists_updateRows (·.filepath) _ ?_ hr
      exact fun _ => rfl

theorem carried_rehashAll {P : Platform} {now : Instant} {etagType : EtagType}
    {faults : RehashFaults} {objs : List ObjectRecord} {s : AppState}
    (hobjs : ∀ obj ∈ objs, ∀ r ∈ s.db.object.rows, r.id = obj.id → r.filepath = obj.filepath) :
    Carried P s (rehashAll P now etagType faults s objs) := by
  induction objs generalizing s with
  | nil => exact Carried.refl P s
  | cons obj rest ih =>
    have hfirst := carried_rehashOne (P := P) now etagType faults (hobjs obj List.mem_cons_self)
    unfold rehashAll
    simp only
    split_ifs
    · exact hfirst
    · refine hfirst.trans (ih ?_)
      intro obj' hobj' u hu hid
      obtain ⟨r, hr, hid', hfile, _⟩ := hfirst.rows u hu
      exact hfile.trans (hobjs obj' (List.mem_cons_of_mem _ hobj') r hr (hid'.symm.trans hid))

theorem carried_rehash (P : Platform) (s : AppState) (now : Instant) (bucketId : Int)
    (etagType : EtagType) (faults : RehashFaults) :
    Carried P s (runBucketRehash P s now bucketId etagType faults) := by
  unfold runBucketRehash
  split_ifs
  · exact Carried.refl P s
  · apply carried_rehashAll
    intro obj hobj r hr hid
    rw [s.db.object.eq_of_id hr (mem_listObjectsForEtagRehash hobj) hid]

/-- A reconcile spares every file that a row names. -/
theorem carried_reconcile {P : Platform} (hlower : LowerKeepsEnd P) {s : AppState}
    (hs : ∀ r ∈ s.db.object.rows, StoredName P r.filepath) {names : List Text}
    (hnames : ListsObjects s names) (namesAfter : List Text) (unlinkFails : Text → Bool) :
    Carried P s (Reconcile.reconcile s names namesAfter unlinkFails).2 := by
  refine Carried.of_disk rfl rfl fun r hr => ?_
  apply unlinkAll_other
  intro rel hrel
  obtain ⟨⟨name, hplain, rfl⟩, _⟩ := orphan_listed hnames hrel
  have hlisted : ∃ f ∈ listDbObjectFiles s.db, f.filepath = normalizeObjectRel r.filepath :=
    ⟨_, List.mem_map_of_mem hr, rfl⟩
  have hunnamed := orphan_unnamed hlower hrel (hs r hr) hlisted
  exact orphan_path_ne (hs r hr).isBlobName hplain fun heq => hunnamed heq.symm

/-- The file of a new upload is that of no row. -/
theorem blobPath_ne {P : Platform} {s : AppState} {uuid : Uuid} {key f : Text}
    (hf : StoredName P f) (hne : f ≠ (Target.fresh uuid).filepath P key) :
    absolutePathFor s.config.storageRoot f ≠ blobPath P s uuid key :=
  fun heq => hne (absolutePathFor_inj hf.isBlobName ⟨uuid, key, rfl⟩ heq)

theorem carried_refused {P : Platform} {s t : AppState} {now : Instant} {uuid : Uuid}
    {key : Text} {b : Option Int} (hs : ∀ r ∈ s.db.object.rows, StoredName P r.filepath)
    (hfresh : ∀ r ∈ s.db.object.rows, r.filepath ≠ (Target.fresh uuid).filepath P key)
    (h : Refused P s t now uuid key b) : Carried P s t := by
  have hdisk : ∀ r ∈ s.db.object.rows,
      t.disk (absolutePathFor s.config.storageRoot r.filepath) =
        s.disk (absolutePathFor s.config.storageRoot r.filepath) :=
    fun r hr => h.disk _ (blobPath_ne (hs r hr) (hfresh r hr))
  have hfiles : Carried P s { s with disk := t.disk } := Carried.of_disk rfl rfl hdisk
  have hconfig := h.config
  rcases h.db with hdb | ⟨id, _, hdb⟩
  · exact Carried.of_disk hconfig (by rw [hdb]) hdisk
  · have hrow := hfiles.trans
      (carried_softDelete P Limit1.first { s with disk := t.disk } now key (some id))
    refine hrow.trans (Carried.of_disk hconfig (by rw [hdb]) fun _ _ => rfl)

/-- The rows after an acknowledged upload have their blobs. -/
theorem hasBlob_uploaded {P : Platform} {s t : AppState} {now : Instant} {uuid : Uuid}
    {raw key : Text} {data : Bytes} {b : Int} {etagType : EtagType}
    (hkey : normalizeObjectKey raw = .ok key)
    (hfresh : ∀ r ∈ s.db.object.rows, r.filepath ≠ (Target.fresh uuid).filepath P key)
    (hs : ∀ r ∈ s.db.object.rows, StoredName P r.filepath ∧ HasBlob P s r)
    (h : Uploaded P s t now uuid key data b etagType) :
    ∀ r ∈ t.db.object.rows, StoredName P r.filepath ∧ HasBlob P t r := by
  intro r hr
  rw [h.rows] at hr
  rcases List.mem_append.mp hr with hr | hr
  · -- The rows before it: recycled at most, beside the new file.
    have hfile : Carried P s { s with disk := t.disk } := by
      refine Carried.of_disk rfl rfl fun r hr => ?_
      simp only [h.disk]
      exact setFile_other _ (blobPath_ne (hs r hr).1 (hfresh r hr))
    have hrow := hfile.trans
      (carried_softDelete P Limit1.first { s with disk := t.disk } now key (some b))
    obtain ⟨hname, hblob⟩ := hrow.hasBlob hs r hr
    refine ⟨hname, hasBlob_congr hblob rfl rfl rfl rfl ?_⟩
    unfold blobOf
    rw [h.config]
  · rw [List.mem_singleton.mp hr]
    refine ⟨⟨uuid, raw, key, hkey, rfl⟩, data, ?_, rfl, rfl⟩
    unfold blobOf openRead
    rw [h.config, h.disk]
    exact setFile_same _ _ _

theorem purgeRows_takeWhile (now : Instant) (txFails unlinkFails : ObjectRecord → Bool)
    (s : AppState) (objs : List ObjectRecord) :
    purgeRows now txFails unlinkFails s objs =
      purgeRows now (fun _ => false) unlinkFails s (objs.takeWhile fun obj => !txFails obj) := by
  induction objs generalizing s with
  | nil => rfl
  | cons obj rest ih =>
    unfold purgeRows
    cases hfails : txFails obj with
    | true => simp [hfails]
    | false => simp [hfails, ih]

/-- A purge takes the files of the rows that it takes. -/
theorem blobOf_purgeRows {P : Platform} {s : AppState} (now : Instant)
    (unlinkFails : ObjectRecord → Bool) {objs : List ObjectRecord} {r : ObjectRecord}
    (hr : IsBlobName P r.filepath)
    (hobjs : ∀ obj ∈ objs, IsBlobName P obj.filepath ∧ r.filepath ≠ obj.filepath) :
    blobOf (purgeRows now (fun _ => false) unlinkFails s objs) r = blobOf s r := by
  induction objs generalizing s with
  | nil => rfl
  | cons obj rest ih =>
    obtain ⟨hname, hne⟩ := hobjs obj List.mem_cons_self
    simp only [purgeRows, Bool.false_eq_true, if_false]
    rw [ih fun obj' hobj' => hobjs obj' (List.mem_cons_of_mem _ hobj')]
    unfold blobOf openRead
    exact unlink_other _ _ _ _ fun heq => hne (absolutePathFor_inj hr hname heq)

/-- What every operation preserves. -/
structure Intact (P : Platform) (n : Node) : Prop where
  rows : ∀ r ∈ n.app.db.object.rows, StoredName P r.filepath ∧ HasBlob P n.app r
  versions : ∀ f ∈ n.versions, ∃ r ∈ n.app.db.object.rows, r.filepath = f

theorem intact_carried {P : Platform} {n : Node} {t : AppState} (h : Intact P n)
    (hcarried : Carried P n.app t) {versions : List Text} (hsub : versions ⊆ n.versions) :
    Intact P ⟨t, versions⟩ where
  rows := hcarried.hasBlob h.rows
  versions f hf := by
    obtain ⟨r, hr, hfile⟩ := h.versions f (hsub hf)
    obtain ⟨u, hu, hfile'⟩ := hcarried.kept r hr
    exact ⟨u, hu, hfile'.trans hfile⟩

/-- An upload with a new UUID, acknowledged or not. -/
theorem intact_put {P : Platform} {n : Node} {p : Put} (h : Intact P n)
    (hlegal : Legal P n (.put p)) :
    Intact P ⟨(p.run P n.app).2, n.versions ++ (Op.put p).acknowledged P n.app⟩ := by
  obtain ⟨⟨raw, hkey⟩, hfresh⟩ := hlegal
  rcases putObjectKeyedInBucket_cases P n.app p.now p.uuid p.key p.headers p.body p.bucketId
    p.faults with ⟨hfailed, hrefused⟩ | ⟨b, default, hstored, _, _, _, huploaded⟩
  · have hcarried := carried_refused (fun r hr => (h.rows r hr).1) hfresh hrefused
    have hnone : (Op.put p).acknowledged P n.app = [] := if_pos hfailed
    rw [hnone, List.append_nil]
    exact intact_carried h hcarried (List.Subset.refl _)
  · have hack : (Op.put p).acknowledged P n.app = [(Target.fresh p.uuid).filepath P p.key] := by
      refine if_neg ?_
      unfold Put.run
      rw [hstored]
      exact Bool.false_ne_true
    rw [hack]
    refine ⟨hasBlob_uploaded hkey hfresh h.rows huploaded, ?_⟩
    intro f hf
    have hrows : (p.run P n.app).2.db.object.rows = _ := huploaded.rows
    simp only [hrows]
    rcases List.mem_append.mp hf with hf | hf
    · obtain ⟨r, hr, hfile⟩ := h.versions f hf
      obtain ⟨u, hu, hfile'⟩ := (carried_softDelete P Limit1.first n.app p.now p.key
        (some b)).kept r hr
      exact ⟨u, List.mem_append_left _ hu, hfile'.trans hfile⟩
    · rw [List.mem_singleton.mp hf]
      exact ⟨_, List.mem_append_right _ List.mem_cons_self, rfl⟩

/-- A purge takes whole rows: each with its blob and its version. -/
theorem intact_purgeRows {P : Platform} {n : Node} (h : Intact P n) (now : Instant)
    (unlinkFails : ObjectRecord → Bool) {objs : List ObjectRecord}
    (hobjs : ∀ obj ∈ objs, obj ∈ n.app.db.object.rows) :
    Intact P ⟨purgeRows now (fun _ => false) unlinkFails n.app objs,
      n.versions.filter fun f => !(objs.map (·.filepath)).contains f⟩ := by
  refine ⟨?_, ?_⟩
  · intro r hr
    obtain ⟨hr, hids⟩ := mem_purgeRows.mp hr
    obtain ⟨hname, hblob⟩ := h.rows r hr
    refine ⟨hname, hasBlob_congr hblob rfl rfl rfl rfl ?_⟩
    apply blobOf_purgeRows now unlinkFails hname.isBlobName
    intro obj hobj
    refine ⟨(h.rows obj (hobjs obj hobj)).1.isBlobName, fun heq => ?_⟩
    apply hids obj hobj
    rw [n.app.db.object.eq_of_filepath hr (hobjs obj hobj) heq]
  · intro f hf
    obtain ⟨hf, hleft⟩ := List.mem_filter.mp hf
    obtain ⟨r, hr, rfl⟩ := h.versions f hf
    refine ⟨r, mem_purgeRows.mpr ⟨hr, fun obj hobj hid => ?_⟩, rfl⟩
    have hsame := n.app.db.object.eq_of_id hr (hobjs obj hobj) hid
    simp only [Bool.not_eq_true', List.contains_eq_mem, decide_eq_false_iff_not] at hleft
    exact hleft (hsame ▸ List.mem_map_of_mem hobj)

/-- One operation, case by case. -/
theorem intact_step {P : Platform} (hlower : LowerKeepsEnd P) {n m : Node} {op : Op}
    (h : Intact P n) (hlegal : Legal P n op) (hstep : step P n op = some m) : Intact P m := by
  rw [← Option.some.inj hstep]
  have hcarried : ∀ t, Carried P n.app t →
      Intact P ⟨t, (n.versions ++ []).filter fun f => !([] : List Text).contains f⟩ := by
    intro t ht
    refine intact_carried h ht fun f hf => ?_
    simpa using hf
  cases op with
  | put p =>
    have hput := intact_put h hlegal
    refine ⟨hput.rows, fun f hf => hput.versions f (List.mem_of_mem_filter hf)⟩
  | delete q now key bucketId fails =>
    apply hcarried
    simp only [Op.run, deleteObjectKeyedInBucket]
    split_ifs
    · exact Carried.refl P n.app
    · exact carried_softDelete P q n.app now key bucketId
  | deletePrefix now bucketId pre =>
    apply hcarried
    exact Carried.of_update (f := (recycle now).apply) (Db.updateObjects_rows _ _ _)
      fun _ => ⟨rfl, rfl, rfl, rfl, rfl⟩
  | restore now id =>
    apply hcarried
    simp only [Op.run]
    cases hrestore : restoreObject n.app.db now id with
    | error err => exact Carried.refl P n.app
    | ok db => exact carried_restore hrestore
  | rename now bucketId fromPrefix toPrefix =>
    apply hcarried
    simp only [Op.run]
    cases hrename : renamePrefix n.app.db now bucketId fromPrefix toPrefix with
    | error err => exact Carried.refl P n.app
    | ok renamed => exact carried_rename hrename
  | setEtagType bucketId etagType => exact hcarried _ (carried_setEtagType P n.app _ _)
  | rehash now bucketId etagType faults => exact hcarried _ (carried_rehash P n.app _ _ _ _)
  | reconcile names namesAfter unlinkFails =>
    exact hcarried _ (carried_reconcile hlower (fun r hr => (h.rows r hr).1) hlegal _ _)
  | hardPurge now id txFails unlinkFails =>
    simp only [Op.run, Op.purged, Op.acknowledged]
    split_ifs
    · exact hcarried _ (Carried.refl P n.app)
    · unfold hardPurgeObject
      cases hget : getObjectById n.app.db id with
      | none => exact hcarried _ (Carried.refl P n.app)
      | some record =>
        have hmem : ∀ obj ∈ [record], obj ∈ n.app.db.object.rows := by
          intro obj hobj
          rw [List.mem_singleton.mp hobj]
          exact (getObjectById_eq_some.mp hget).1
        rw [List.append_nil]
        exact intact_purgeRows h now (fun _ => unlinkFails) hmem
  | purgeOnce now txFails unlinkFails =>
    simp only [Op.run, Op.purged, Op.acknowledged]
    unfold Purge.purgeOnce
    cases hcut : cutoff n.app.db.appSettings now with
    | none => exact hcarried _ (Carried.refl P n.app)
    | some olderThan =>
      simp only [Option.toList_some, List.flatMap_cons, List.flatMap_nil, List.append_nil]
      rw [purgeRows_takeWhile]
      apply intact_purgeRows h
      intro obj hobj
      exact (mem_listExpiredDeletedObjects.mp ((List.takeWhile_prefix _).subset hobj)).1

theorem Intact.sound {P : Platform} {n : Node} (h : Intact P n) : Sound P n where
  blobs r hr := (h.rows r hr).2
  filepaths := n.app.db.object.filepath_unique
  keys _ ha _ hb hactive hactive' hbucket hkey :=
    n.app.db.object.eq_of_active ha hb hactive hactive' hbucket hkey
  versions := h.versions

/-- In every state of a sequential run each row has its blob, and every acknowledged version
that was not purged is still a row. -/
theorem run_sound (P : Platform) (app : AppState) (n : Node) (hlower : LowerKeepsEnd P)
    (hrows : ∀ r ∈ app.db.object.rows, StoredName P r.filepath ∧ HasBlob P app r)
    (hrun : Run (step P) (Legal P) ⟨app, []⟩ n) : Sound P n := by
  have hintact : Intact P n := by
    refine hrun.invariant (fun _ _ _ h hlegal hstep => intact_step hlower h hlegal hstep) ?_
    exact ⟨hrows, fun f hf => by cases hf⟩
  exact hintact.sound

/-- A platform that knows two digests of one text. -/
def platform : Platform :=
  .tabulated [((.md5, [97]), "0cc175b9c0f1b6a831c399e269772661".toList),
    ((.sha256, [97]),
      "ca978112ca1bbdcafac231b39a23dc4da786eff8147c4e72b9807785afee48bb".toList)]

def node : Node := ⟨AppState.migrated "node-1".toList, []⟩

def after (ops : List Op) : Node := (exec (step platform) node ops).getD node

def upload (n : Nat) : Put where
  now := Instant.epoch
  uuid := Uuid.numbered n
  key := ['k']
  headers := []
  body := [some [97]]
  bucketId := none
  faults := {}

def blobName : Text := "00000000-0000-4000-8000-000000000001.bin".toList

/-- The first object is rehashed, renamed, recycled and restored. -/
def changes : List Op :=
  [.setEtagType 1 .sha256, .rehash Instant.epoch 1 .sha256 {},
    .rename Instant.epoch 1 ['k'] ['l'], .delete Limit1.first Instant.epoch ['l'] none false,
    .restore Instant.epoch 1]

def reconciling : Op := .reconcile [blobName] [blobName] fun _ => false

/-- Then a reconcile, a second object, and a purge of the first. -/
def whole : List Op :=
  .put (upload 1) :: changes ++
    [reconciling, .put (upload 2), .hardPurge Instant.epoch 1 false false]

theorem legal_upload {n : Node} {i : Nat}
    (h : ∀ r ∈ n.app.db.object.rows,
      r.filepath ≠ (Target.fresh (Uuid.numbered i)).filepath platform ['k']) :
    Legal platform n (.put (upload i)) := by
  refine ⟨⟨['k'], ?_⟩, h⟩
  show normalizeObjectKey ['k'] = .ok ['k']
  decide

theorem legal_reconciling : Legal platform (after (.put (upload 1) :: changes)) reconciling :=
  listsObjects_single (P := platform) (Uuid.numbered 1) ['k'] [97] rfl

/-- The run leaves the second version, with its blob. -/
theorem whole_sound : (after whole).versions =
    ["objects/00000000-0000-4000-8000-000000000002.bin".toList] ∧
    Sound platform (after whole) := by
  have hput : Run (step platform) (Legal platform) node (after [.put (upload 1)]) :=
    .tail _ (.refl node) (legal_upload fun r hr => by cases hr) rfl
  have hchanges : Run (step platform) (Legal platform) node
      (after (.put (upload 1) :: changes)) := by
    refine hput.trans (run_of_exec_of_ok (fun op hop n => ?_)
      (rfl : exec _ _ changes = some _))
    simp only [changes, List.mem_cons, List.not_mem_nil, or_false] at hop
    rcases hop with rfl | rfl | rfl | rfl | rfl
    all_goals trivial
  have hreconcile := hchanges.tail reconciling legal_reconciling rfl
  have hsecond := hreconcile.tail (.put (upload 2)) (legal_upload fun r hr => by
    rw [List.mem_singleton.mp hr]
    decide) rfl
  have hrun : Run (step platform) (Legal platform) node (after whole) :=
    hsecond.tail (.hardPurge Instant.epoch 1 false false) trivial rfl
  exact ⟨by decide, run_sound platform _ (after whole) (lowerKeepsEnd_tabulated _)
    (fun r hr => by cases hr) hrun⟩

end MyS3.BlobRuns
