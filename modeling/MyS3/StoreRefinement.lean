import MyS3.BlobRuns
import MyS3.FolderRenames
import MyS3.Library.VersionedStore

/-!
The object operations of a node refine a store of versions. The place of a version is its
bucket and key, its content is its blob, and it is live while it is not recycled. Each
operation of a sequential run is one change of that store, whatever fails on the way, so
a live version stays at its place until an operation of that very place, or a purge.
-/

namespace MyS3.StoreRefinement

open Library.Strings Library.Tables Library.Paths Library.Runs Library.VersionedStore
open Models Objects Database Engine Repository Outbox Http S3Routes Keys Versions UploadRuns
open Purge Reconcile Blobs EtagRehash BlobRuns FolderPrefixes LevelTotals FolderRenames

/-- A bucket and a key. -/
abbrev Place := Int × Text

/-- What a row stands for. -/
def entryOf (s : AppState) (r : ObjectRecord) : Entry Place (Option Bytes) where
  place := (r.bucketId, r.originalFilename)
  content := blobOf s r
  live := r.deletedAt.isNone

/-- The store that a node holds. -/
def view (s : AppState) : Store Int Place (Option Bytes) := fun id =>
  (getObjectById s.db id).map (entryOf s)

/-- The places of a folder, as its soft delete finds them. -/
def folderPlaces (bucketId : Int) (pre : Text) : Set Place :=
  {k | k.1 = bucketId ∧ underPrefix pre k.2 = true}

/-- The places that the rename of a folder moves, and where to. -/
def renamedPlaces (bucketId : Int) (fromPrefix : Text) : Set Place :=
  {k | k.1 = bucketId ∧ fromPrefix <+: k.2}

def renamedPlace (fromPrefix toPrefix : Text) (k : Place) : Place :=
  (k.1, toPrefix ++ k.2.drop fromPrefix.length)

/-- The change that an operation is, by what it answers. -/
def Means (P : Platform) (s : AppState) : Op → Change Int Place (Option Bytes) → Prop
  | .put p, c =>
    ∃ b, uploadBucket s.db p.bucketId p.faults.defaultBucketId = b ∧
      if (p.run P s).1.isFailure then c = .keep ∨ ∃ id, b = some id ∧ c = .recycle {(id, p.key)}
      else ∃ id, b = some id ∧ c = .add s.db.object.nextId (id, p.key) (some (content p.body))
  | .delete _ _ key bucketId fails, c =>
    if fails then c = .keep
    else match bucketId with
      | some b => c = .recycle {(b, key)}
      | none => c = .keep ∨ ∃ b, c = .recycle {(b, key)}
  | .deletePrefix _ bucketId pre, c => c = .recycle (folderPlaces bucketId pre)
  | .restore now id, c =>
    match restoreObject s.db now id with
    | .error _ => c = .keep
    | .ok _ => c = .restore id
  | .rename now bucketId fromPrefix toPrefix, c =>
    match renamePrefix s.db now bucketId fromPrefix toPrefix with
    | .error _ => c = .keep
    | .ok _ =>
      if fromPrefix = toPrefix then c = .keep
      else c = .move (renamedPlaces bucketId fromPrefix) (renamedPlace fromPrefix toPrefix)
  | .hardPurge _ id txFails _, c => if txFails then c = .keep else c = .purge {id}
  | .purgeOnce _ _ _, c =>
    ∃ ids, c = .purge ids ∧ ∀ id ∈ ids, ∃ e, view s id = some e ∧ e.live = false
  | _, c => c = .keep

theorem view_eq_some {s : AppState} {id : Int} {e : Entry Place (Option Bytes)} :
    view s id = some e ↔ ∃ r ∈ s.db.object.rows, r.id = id ∧ entryOf s r = e := by
  unfold view
  rw [Option.map_eq_some_iff]
  constructor
  · intro h
    obtain ⟨r, hr, he⟩ := h
    obtain ⟨hmem, hid⟩ := getObjectById_eq_some.mp hr
    exact ⟨r, hmem, hid, he⟩
  · intro h
    obtain ⟨r, hmem, hid, he⟩ := h
    exact ⟨r, getObjectById_eq_some.mpr ⟨hmem, hid⟩, he⟩

/-- A live entry is an active row. -/
theorem reads_iff {s : AppState} {b : Int} {key : Text} {v : Option Bytes} :
    Reads (view s) (b, key) v ↔ ∃ r, getObjectByFilenameInBucket s.db key b = some r ∧
      blobOf s r = v := by
  unfold Reads
  simp only [view_eq_some]
  constructor
  · intro h
    obtain ⟨id, r, hr, rfl, he⟩ := h
    unfold entryOf at he
    simp only [Entry.mk.injEq, Prod.mk.injEq, Option.isNone_iff_eq_none] at he
    obtain ⟨⟨hbucket, hkey⟩, hblob, hactive⟩ := he
    exact ⟨r, getObjectByFilenameInBucket_eq_some.mpr ⟨hr, hkey, hbucket, hactive⟩, hblob⟩
  · intro h
    obtain ⟨r, hget, rfl⟩ := h
    obtain ⟨hr, rfl, rfl, hactive⟩ := getObjectByFilenameInBucket_eq_some.mp hget
    exact ⟨r.id, r, hr, rfl, by simp [entryOf, hactive]⟩

/-- Rows that are changed one by one change the entries one by one. -/
theorem view_of_rows {s t : AppState} {f : ObjectRecord → ObjectRecord}
    {g : Int → Entry Place (Option Bytes) → Entry Place (Option Bytes)}
    (hrows : t.db.object.rows = s.db.object.rows.map f) (hid : ∀ r, (f r).id = r.id)
    (hentry : ∀ r ∈ s.db.object.rows, entryOf t (f r) = g r.id (entryOf s r)) :
    view t = fun id => (view s id).map (g id) := by
  funext id
  apply Option.ext
  intro e
  rw [view_eq_some, Option.map_eq_some_iff]
  constructor
  · intro h
    obtain ⟨u, hu, rfl, rfl⟩ := h
    rw [hrows] at hu
    obtain ⟨r, hr, rfl⟩ := List.mem_map.mp hu
    refine ⟨entryOf s r, view_eq_some.mpr ⟨r, hr, (hid r).symm, rfl⟩, ?_⟩
    rw [hid]
    exact (hentry r hr).symm
  · intro h
    obtain ⟨e', he', rfl⟩ := h
    obtain ⟨r, hr, rfl, rfl⟩ := view_eq_some.mp he'
    exact ⟨f r, hrows ▸ List.mem_map_of_mem hr, hid r, hentry r hr⟩

/-- Rows that stand for the same entries. -/
theorem view_same {s t : AppState} {f : ObjectRecord → ObjectRecord}
    (hrows : t.db.object.rows = s.db.object.rows.map f) (hid : ∀ r, (f r).id = r.id)
    (hentry : ∀ r ∈ s.db.object.rows, entryOf t (f r) = entryOf s r) : view t = view s := by
  rw [view_of_rows (g := fun _ e => e) hrows hid hentry]
  funext id
  exact Option.map_id'

theorem entryOf_congr {s t : AppState} (hconfig : t.config = s.config) {r u : ObjectRecord}
    (hdisk : t.disk (absolutePathFor s.config.storageRoot r.filepath) =
      s.disk (absolutePathFor s.config.storageRoot r.filepath))
    (hbucket : u.bucketId = r.bucketId) (hkey : u.originalFilename = r.originalFilename)
    (hfile : u.filepath = r.filepath) (hdeleted : u.deletedAt = r.deletedAt) :
    entryOf t u = entryOf s r := by
  unfold entryOf blobOf openRead
  rw [hbucket, hkey, hfile, hdeleted, hconfig, hdisk]

/-- A recycled row stands for the entry in the bin. -/
theorem entryOf_recycle (s : AppState) (db : Db) (now : Instant) (r : ObjectRecord)
    (places : Set Place) (h : r.deletedAt = none ∧ (r.bucketId, r.originalFilename) ∈ places) :
    entryOf { s with db := db } ((Objects.recycle now).apply r) =
      (entryOf s r).recycle places := by
  unfold Entry.recycle
  rw [if_pos ⟨by simp [entryOf, h.1], h.2⟩]
  rfl

theorem entryOf_spared (s : AppState) (db : Db) (r : ObjectRecord) (places : Set Place)
    (h : ¬ (r.deletedAt = none ∧ (r.bucketId, r.originalFilename) ∈ places)) :
    entryOf { s with db := db } r = (entryOf s r).recycle places := by
  unfold Entry.recycle
  rw [if_neg]
  · rfl
  · intro hlive
    exact h ⟨by simpa [entryOf] using hlive.1, hlive.2⟩

/-- A soft delete of the rows that are active at some places. -/
theorem view_recycle {s : AppState} {db : Db} {now : Instant} {p : ObjectRecord → Bool}
    {places : Set Place}
    (hrows : db.object.rows = updateRows p (Objects.recycle now).apply s.db.object.rows)
    (hp : ∀ r ∈ s.db.object.rows, p r = true ↔
      r.deletedAt = none ∧ (r.bucketId, r.originalFilename) ∈ places) :
    view { s with db := db } = apply (view s) (.recycle places) := by
  refine view_of_rows (g := fun _ => Entry.recycle places) hrows ?_ ?_
  · intro r
    split_ifs <;> rfl
  · intro r hr
    split_ifs with hpr
    · exact entryOf_recycle s db now r places ((hp r hr).mp hpr)
    · exact entryOf_spared s db r places fun h => hpr ((hp r hr).mpr h)

/-- The soft delete of a row that is active at its place. -/
theorem view_recycleById {s : AppState} {now : Instant} {r : ObjectRecord}
    (hr : r ∈ s.db.object.rows) (hactive : r.deletedAt = none) :
    view { s with db := recycleById s.db now r.id } =
      apply (view s) (.recycle {(r.bucketId, r.originalFilename)}) := by
  refine view_recycle (Db.updateObjects_rows _ _ _) ?_
  intro x hx
  rw [beq_iff_eq, Set.mem_singleton_iff, Prod.mk.injEq]
  constructor
  · intro hid
    rw [s.db.object.eq_of_id hx hr hid]
    exact ⟨hactive, rfl, rfl⟩
  · intro h
    rw [s.db.object.eq_of_active hx hr h.1 hactive h.2.1 h.2.2]

/-- A soft delete in a bucket recycles the place of the key. -/
theorem view_softDelete (q : Limit1 ObjectRecord) (s : AppState) (now : Instant) (key : Text)
    (b : Int) :
    view { s with db := (softDeleteObjectByFilename q s.db now key (some b)).2 } =
      apply (view s) (.recycle {(b, key)}) := by
  have hcand : softDeleteCandidate q s.db key (some b) = getObjectByFilenameInBucket s.db key b := rfl
  cases hget : getObjectByFilenameInBucket s.db key b with
  | none =>
    rw [softDelete_of_none (hcand.trans hget)]
    have hnone := getObjectByFilenameInBucket_eq_none.mp hget
    refine view_of_rows (f := id) (g := fun _ => Entry.recycle {(b, key)}) (List.map_id _).symm
      (fun _ => rfl) ?_
    intro r hr
    refine entryOf_spared s s.db r {(b, key)} ?_
    intro h
    rw [Set.mem_singleton_iff, Prod.mk.injEq] at h
    exact hnone r hr h.2.2 h.2.1 h.1
  | some r =>
    rw [softDelete_of_some (hcand.trans hget)]
    obtain ⟨hr, hkey, hbucket, hactive⟩ := getObjectByFilenameInBucket_eq_some.mp hget
    rw [view_recycleById hr hactive, hkey, hbucket]

/-- A soft delete without a bucket recycles the key in one bucket, if in any. -/
theorem view_softDelete_any (q : Limit1 ObjectRecord) (s : AppState) (now : Instant)
    (key : Text) :
    view { s with db := (softDeleteObjectByFilename q s.db now key none).2 } = view s ∨
      ∃ b, view { s with db := (softDeleteObjectByFilename q s.db now key none).2 } =
        apply (view s) (.recycle {(b, key)}) := by
  have hcand : softDeleteCandidate q s.db key none = q.pick (activeByFilename s.db key) := rfl
  cases hpick : q.pick (activeByFilename s.db key) with
  | none =>
    rw [softDelete_of_none (hcand.trans hpick)]
    exact Or.inl rfl
  | some r =>
    rw [softDelete_of_some (hcand.trans hpick)]
    obtain ⟨hr, hkey, hactive⟩ := mem_activeByFilename.mp (q.mem _ _ hpick)
    exact Or.inr ⟨r.bucketId, by rw [view_recycleById hr hactive, hkey]⟩

theorem view_softDeletePrefix (s : AppState) (now : Instant) (bucketId : Int) (pre : Text) :
    view { s with db := (softDeletePrefix s.db now bucketId pre).2 } =
      apply (view s) (.recycle (folderPlaces bucketId pre)) := by
  refine view_recycle (Db.updateObjects_rows _ _ _) ?_
  intro r _
  rw [Bool.and_eq_true, Bool.and_eq_true, isActive_iff, beq_iff_eq, and_assoc]
  rfl

/-- A restore that succeeds finds its version in the bin and its place free. -/
theorem view_restore {s : AppState} {now : Instant} {id : Int} {db : Db}
    (h : restoreObject s.db now id = .ok db) :
    Enabled (view s) (.restore id) ∧ view { s with db := db } = apply (view s) (.restore id) := by
  unfold restoreObject at h
  cases hget : getObjectById s.db id with
  | none => simp [hget] at h
  | some record =>
    obtain ⟨hmem, hid⟩ := getObjectById_eq_some.mp hget
    rw [hget] at h
    simp only at h
    split_ifs at h with hactive hfree
    cases hupdate : s.db.updateObjectsChecked (fun r => r.id == id) (Objects.restore now) with
    | none => simp [hupdate] at h
    | some db' =>
      rw [hupdate] at h
      cases h
      constructor
      · intro e he
        obtain ⟨r, hr, hrid, rfl⟩ := view_eq_some.mp he
        have hsame : r = record := s.db.object.eq_of_id hr hmem (hrid.trans hid.symm)
        subst hsame
        refine ⟨by simp [entryOf, Option.isNone_eq_false_iff, Option.isSome_iff_ne_none, hactive], ?_⟩
        intro v hreads
        obtain ⟨x, hx, _⟩ := reads_iff.mp hreads
        obtain ⟨hx, hkey, hbucket, hxactive⟩ := getObjectByFilenameInBucket_eq_some.mp hx
        apply hfree
        refine List.any_eq_true.mpr ⟨x, hx, ?_⟩
        have hne : x.id ≠ id := by
          intro hxid
          have heq := s.db.object.eq_of_id hx hr (hxid.trans hid.symm)
          exact hactive (heq ▸ hxactive)
        simp [hbucket, hkey, hxactive, hne, isActive]
      · have hrows := (Db.updateObjectsChecked_rows hupdate).1
        rw [view_of_rows (s := s) (t := { s with db := db })
          (g := fun i e => if i = id then { e with live := true } else e) hrows]
        · funext i
          by_cases hi : i = id
          · simp [apply, hi]
          · simp [apply, hi]
        · intro r
          split_ifs <;> rfl
        · intro r _
          by_cases hr : r.id = id
          · rw [if_pos (beq_iff_eq.mpr hr), if_pos hr]
            rfl
          · rw [if_neg (by simpa using hr), if_neg hr]
            rfl

theorem renamedPlace_inj (bucketId : Int) (fromPrefix toPrefix : Text) :
    Set.InjOn (renamedPlace fromPrefix toPrefix) (renamedPlaces bucketId fromPrefix) := by
  intro k hk k' hk' heq
  obtain ⟨hbucket, tail, htail⟩ := hk
  obtain ⟨hbucket', tail', htail'⟩ := hk'
  unfold renamedPlace at heq
  rw [Prod.mk.injEq, ← htail, ← htail', List.drop_left, List.drop_left] at heq
  exact Prod.ext (hbucket.trans hbucket'.symm) (by
    rw [← htail, ← htail', List.append_cancel_left heq.2])

/-- A rename that succeeds moves what is live under the prefix to free places. -/
theorem view_rename {s : AppState} {now : Instant} {bucketId : Int} {fromPrefix toPrefix : Text}
    {n : Nat} {db : Db} (hne : fromPrefix ≠ toPrefix)
    (h : renamePrefix s.db now bucketId fromPrefix toPrefix = .ok (n, db)) :
    let c := Change.move (renamedPlaces bucketId fromPrefix) (renamedPlace fromPrefix toPrefix)
    Enabled (view s) c ∧ view { s with db := db } = apply (view s) c := by
  intro c
  unfold renamePrefix at h
  rw [if_neg hne] at h
  simp only at h
  split_ifs at h
  cases hplan : planRenames s.db bucketId fromPrefix toPrefix
      (listKeysUnderPrefix s.db bucketId fromPrefix) with
  | error err => simp [hplan] at h
  | ok plan =>
    rw [hplan] at h
    simp only at h
    cases happly : applyRenames now s.db plan with
    | none => simp [happly] at h
    | some db' =>
      rw [happly] at h
      cases h
      obtain ⟨db'', hall, hrows⟩ := applyRenames_fresh now (fresh_of_plan hplan)
      rw [happly] at hall
      cases hall
      have hunder : ∀ r, isUnder (some bucketId) fromPrefix r = true ↔
          r.deletedAt = none ∧ (r.bucketId, r.originalFilename) ∈ renamedPlaces bucketId fromPrefix := by
        intro r
        rw [isUnder_iff]
        simp only [Option.all_some, beq_iff_eq, eq_comm (a := bucketId)]
        rfl
      refine ⟨⟨renamedPlace_inj bucketId fromPrefix toPrefix, ?_⟩, ?_⟩
      · intro k hk hlive w hreads
        obtain ⟨b, key⟩ := k
        obtain ⟨v, hv⟩ := hlive
        obtain ⟨r, hget, _⟩ := reads_iff.mp hv
        obtain ⟨hr, rfl, rfl, hactive⟩ := getObjectByFilenameInBucket_eq_some.mp hget
        obtain ⟨rfl, hprefix⟩ := hk
        obtain ⟨hplan', hfree⟩ := planRenames_ok hplan
        have hmoved : r ∈ movedRows s.db r.bucketId fromPrefix :=
          mem_movedRows.mpr ⟨hr, hactive, rfl, hprefix⟩
        have hnone := hfree (r.id, toPrefix ++ r.originalFilename.drop fromPrefix.length) (by
          rw [hplan']
          exact List.mem_map_of_mem (f := fun r : ObjectRecord =>
            (r.id, toPrefix ++ r.originalFilename.drop fromPrefix.length)) hmoved)
        obtain ⟨x, hx, _⟩ := reads_iff.mp hreads
        rw [hnone] at hx
        cases hx
      · refine view_of_rows (f := moveRow now bucketId fromPrefix toPrefix)
          (g := fun _ => Entry.move (renamedPlaces bucketId fromPrefix)
            (renamedPlace fromPrefix toPrefix)) ?_ ?_ ?_
        · exact hrows.trans (List.map_congr_left fun r hr => renamedBy_plan now hplan hr)
        · intro r
          unfold moveRow
          split_ifs <;> rfl
        · intro r _
          unfold moveRow Entry.move
          by_cases hr : isUnder (some bucketId) fromPrefix r = true
          · rw [if_pos hr, if_pos ⟨by simp [entryOf, ((hunder r).mp hr).1], ((hunder r).mp hr).2⟩]
            rfl
          · rw [if_neg hr, if_neg]
            · rfl
            · intro hlive
              exact hr ((hunder r).mpr ⟨by simpa [entryOf] using hlive.1, hlive.2⟩)

/-- The same rows, with their blobs. -/
theorem view_of_disk {s t : AppState} (hconfig : t.config = s.config)
    (hrows : t.db.object.rows = s.db.object.rows)
    (hdisk : ∀ r ∈ s.db.object.rows, t.disk (absolutePathFor s.config.storageRoot r.filepath) =
      s.disk (absolutePathFor s.config.storageRoot r.filepath)) : view t = view s := by
  refine view_same (f := id) ?_ (fun _ => rfl) ?_
  · rw [hrows, List.map_id]
  · intro r hr
    exact entryOf_congr hconfig (hdisk r hr) rfl rfl rfl rfl

theorem view_setEtagType (s : AppState) (bucketId : Int) (etagType : EtagType) :
    view { s with db := (setBucketEtagType s.db bucketId etagType).getD s.db } = view s := by
  cases hset : setBucketEtagType s.db bucketId etagType with
  | none => rfl
  | some db =>
    have hobject := setBucketEtagType_object hset
    exact view_of_disk rfl (by rw [Option.getD_some, hobject]) fun _ _ => rfl

theorem view_rehashOne (P : Platform) (s : AppState) (now : Instant) (etagType : EtagType)
    (faults : RehashFaults) (obj : ObjectRecord) :
    view (rehashOne P s now etagType faults obj).2 = view s := by
  rcases rehashOne_cases P s now etagType faults obj with hsame | ⟨data, _, hconfig, hdisk, hrows⟩
  · rw [hsame]
  · refine view_same hrows ?_ ?_
    · intro r
      split_ifs <;> rfl
    · intro r _
      split_ifs
      · exact entryOf_congr hconfig (by rw [hdisk]) rfl rfl rfl rfl
      · exact entryOf_congr hconfig (by rw [hdisk]) rfl rfl rfl rfl

theorem view_rehash (P : Platform) (s : AppState) (now : Instant) (bucketId : Int)
    (etagType : EtagType) (faults : RehashFaults) :
    view (runBucketRehash P s now bucketId etagType faults) = view s := by
  have hall : ∀ (objs : List ObjectRecord) (t : AppState),
      view (rehashAll P now etagType faults t objs) = view t := by
    intro objs
    induction objs with
    | nil => exact fun t => rfl
    | cons obj rest ih =>
      intro t
      unfold rehashAll
      simp only
      split_ifs
      · exact view_rehashOne P t now etagType faults obj
      · exact (ih _).trans (view_rehashOne P t now etagType faults obj)
  unfold runBucketRehash
  split_ifs
  · rfl
  · exact hall _ s

/-- A reconcile unlinks no file of a row. -/
theorem view_reconcile {P : Platform} (hlower : LowerKeepsEnd P) {s : AppState}
    (hs : ∀ r ∈ s.db.object.rows, StoredName P r.filepath) {names : List Text}
    (hnames : ListsObjects s names) (namesAfter : List Text) (unlinkFails : Text → Bool) :
    view (Reconcile.reconcile s names namesAfter unlinkFails).2 = view s := by
  refine view_same (f := id) (List.map_id _).symm (fun _ => rfl) ?_
  intro r hr
  unfold entryOf
  rw [id, (carried_reconcile hlower hs hnames namesAfter unlinkFails).blobs r hr]

/-- A purge takes the entries of the ids, and the blobs of no other rows. -/
theorem view_purge {P : Platform} {s : AppState} (now : Instant)
    (unlinkFails : ObjectRecord → Bool) {objs : List ObjectRecord}
    (hnames : ∀ r ∈ s.db.object.rows, StoredName P r.filepath)
    (hobjs : ∀ obj ∈ objs, obj ∈ s.db.object.rows) :
    view (purgeRows now (fun _ => false) unlinkFails s objs) =
      apply (view s) (.purge {id | ∃ obj ∈ objs, obj.id = id}) := by
  have hblob : ∀ r ∈ s.db.object.rows, (∀ obj ∈ objs, r.id ≠ obj.id) →
      entryOf (purgeRows now (fun _ => false) unlinkFails s objs) r = entryOf s r := by
    intro r hr hother
    unfold entryOf
    rw [blobOf_purgeRows now unlinkFails (hnames r hr).isBlobName]
    intro obj hobj
    refine ⟨(hnames obj (hobjs obj hobj)).isBlobName, fun heq => hother obj hobj ?_⟩
    rw [s.db.object.eq_of_filepath hr (hobjs obj hobj) heq]
  funext id
  apply Option.ext
  intro e
  simp only [apply, Set.mem_ofPred_eq]
  rw [view_eq_some]
  constructor
  · intro h
    obtain ⟨r, hr, rfl, rfl⟩ := h
    obtain ⟨hr, hother⟩ := mem_purgeRows.mp hr
    rw [if_neg]
    · exact view_eq_some.mpr ⟨r, hr, rfl, (hblob r hr hother).symm⟩
    · intro hpurged
      obtain ⟨obj, hobj, hid⟩ := hpurged
      exact hother obj hobj hid.symm
  · intro h
    split_ifs at h with hpurged
    obtain ⟨r, hr, rfl, rfl⟩ := view_eq_some.mp h
    have hother : ∀ obj ∈ objs, r.id ≠ obj.id := fun obj hobj hid => hpurged ⟨obj, hobj, hid.symm⟩
    exact ⟨r, mem_purgeRows.mpr ⟨hr, hother⟩, rfl, hblob r hr hother⟩

/-- A row of a recycled database has the file of one from before. -/
theorem recycled_filepath {P : Platform} {s : AppState} {now : Instant} {key : Text} {b : Int}
    {u : ObjectRecord} (hu : u ∈ (recycled s.db now key b).object.rows) :
    ∃ r ∈ s.db.object.rows, u.filepath = r.filepath := by
  obtain ⟨r, hr, _, hfile, _⟩ :=
    (carried_softDelete P Limit1.first s now key (some b)).rows u hu
  exact ⟨r, hr, hfile⟩

/-- A refused upload recycles its place, or changes nothing. -/
theorem view_refused {P : Platform} {s t : AppState} {now : Instant} {uuid : Uuid} {key : Text}
    {b : Option Int} (hs : ∀ r ∈ s.db.object.rows, StoredName P r.filepath)
    (hfresh : ∀ r ∈ s.db.object.rows, r.filepath ≠ (Target.fresh uuid).filepath P key)
    (h : Refused P s t now uuid key b) :
    view t = view s ∨ ∃ id, b = some id ∧ view t = apply (view s) (.recycle {(id, key)}) := by
  have hdisk : ∀ r ∈ s.db.object.rows,
      t.disk (absolutePathFor s.config.storageRoot r.filepath) =
        s.disk (absolutePathFor s.config.storageRoot r.filepath) :=
    fun r hr => h.disk _ (blobPath_ne (hs r hr) (hfresh r hr))
  rcases h.db with hdb | ⟨id, hid, hdb⟩
  · exact Or.inl (view_of_disk h.config (by rw [hdb]) hdisk)
  · refine Or.inr ⟨id, hid, ?_⟩
    rw [← view_softDelete Limit1.first s now key id]
    refine view_of_disk h.config (by rw [hdb]) ?_
    intro u hu
    obtain ⟨r, hr, hfile⟩ := recycled_filepath (P := P) hu
    rw [hfile]
    exact hdisk r hr

/-- An acknowledged upload adds its version. -/
theorem view_uploaded {P : Platform} {s t : AppState} {now : Instant} {uuid : Uuid} {key : Text}
    {data : Bytes} {b : Int} {etagType : EtagType}
    (hs : ∀ r ∈ s.db.object.rows, StoredName P r.filepath)
    (hfresh : ∀ r ∈ s.db.object.rows, r.filepath ≠ (Target.fresh uuid).filepath P key)
    (h : Uploaded P s t now uuid key data b etagType) :
    Enabled (view s) (.add s.db.object.nextId (b, key) (some data)) ∧
      view t = apply (view s) (.add s.db.object.nextId (b, key) (some data)) := by
  have hold : ∀ r ∈ s.db.object.rows, r.id ≠ s.db.object.nextId :=
    fun r hr => ne_of_lt (s.db.object.id_lt r hr)
  have hnew : entryOf t ((uploadedRow P now uuid key etagType data b).record s.db.object.nextId) =
      ⟨(b, key), some data, true⟩ := by
    have hblob : blobOf t ((uploadedRow P now uuid key etagType data b).record
        s.db.object.nextId) = some data := by
      unfold blobOf openRead
      rw [h.config, h.disk]
      exact setFile_same _ _ _
    unfold entryOf
    rw [hblob]
    rfl
  have hrecycled := view_softDelete Limit1.first s now key b
  have hentry : ∀ u ∈ (recycled s.db now key b).object.rows,
      entryOf t u = entryOf { s with db := recycled s.db now key b } u := by
    intro u hu
    obtain ⟨r, hr, hfile⟩ := recycled_filepath (P := P) hu
    refine entryOf_congr h.config ?_ rfl rfl rfl rfl
    rw [h.disk, hfile]
    exact setFile_other _ (blobPath_ne (hs r hr) (hfresh r hr))
  constructor
  · show view s s.db.object.nextId = none
    rw [Option.eq_none_iff_forall_not_mem]
    intro e he
    obtain ⟨r, hr, hid, _⟩ := view_eq_some.mp he
    exact hold r hr hid
  · funext id
    apply Option.ext
    intro e
    have hother : apply (view s) (.recycle {(b, key)}) id =
        (view s id).map (Entry.recycle {(b, key)}) := rfl
    simp only [apply]
    rw [view_eq_some]
    constructor
    · intro hmem
      obtain ⟨u, hu, rfl, rfl⟩ := hmem
      rw [h.rows] at hu
      rcases List.mem_append.mp hu with hu | hu
      · have hview : view { s with db := recycled s.db now key b } u.id = some (entryOf t u) :=
          view_eq_some.mpr ⟨u, hu, rfl, (hentry u hu).symm⟩
        rw [hrecycled, hother] at hview
        rw [if_neg]
        · exact hview
        · intro hid
          obtain ⟨e', he', _⟩ := Option.map_eq_some_iff.mp hview
          obtain ⟨r, hr, hrid, _⟩ := view_eq_some.mp he'
          exact hold r hr (hrid.trans hid)
      · rw [List.mem_singleton.mp hu, hnew]
        exact if_pos rfl
    · intro hadded
      split_ifs at hadded with hid
      · cases hadded
        refine ⟨(uploadedRow P now uuid key etagType data b).record s.db.object.nextId, ?_,
          hid.symm, hnew⟩
        rw [h.rows]
        exact List.mem_append_right _ List.mem_cons_self
      · rw [← hother, ← hrecycled] at hadded
        obtain ⟨u, hu, hid, rfl⟩ := view_eq_some.mp hadded
        refine ⟨u, ?_, hid, hentry u hu⟩
        rw [h.rows]
        exact List.mem_append_left _ hu

/-- Whatever an upload answers, it is one change of the store. -/
theorem refines_put {P : Platform} {n : Node} {p : Put} (h : Intact P n)
    (hlegal : Legal P n (.put p)) : ∃ c, Means P n.app (.put p) c ∧ Enabled (view n.app) c ∧
      view ((Op.put p).run P n.app) = apply (view n.app) c := by
  obtain ⟨_, hfresh⟩ := hlegal
  have hs : ∀ r ∈ n.app.db.object.rows, StoredName P r.filepath := fun r hr => (h.rows r hr).1
  unfold Means
  rcases putObjectKeyedInBucket_cases P n.app p.now p.uuid p.key p.headers p.body p.bucketId
    p.faults with ⟨hfailed, hrefused⟩ | ⟨b, default, hstored, hbucket, _, _, huploaded⟩
  · have hfailed' : (p.run P n.app).1.isFailure = true := hfailed
    rcases view_refused hs hfresh hrefused with hsame | ⟨id, hid, hview⟩
    · exact ⟨.keep, ⟨_, rfl, by rw [if_pos hfailed']; exact Or.inl rfl⟩, trivial, hsame⟩
    · refine ⟨.recycle {(id, p.key)}, ⟨_, rfl, ?_⟩, trivial, hview⟩
      rw [if_pos hfailed']
      exact Or.inr ⟨id, hid, rfl⟩
  · have hstored' : ¬ (p.run P n.app).1.isFailure = true := by
      unfold Put.run
      rw [hstored]
      exact Bool.false_ne_true
    obtain ⟨henabled, hview⟩ := view_uploaded hs hfresh huploaded
    refine ⟨_, ⟨_, rfl, ?_⟩, henabled, hview⟩
    rw [if_neg hstored']
    exact ⟨b, hbucket, rfl⟩

/-- One operation is one change of the store, case by case. -/
theorem refines_step {P : Platform} (hlower : LowerKeepsEnd P) {n : Node} {op : Op}
    (h : Intact P n) (hlegal : Legal P n op) : ∃ c, Means P n.app op c ∧
      Enabled (view n.app) c ∧ view (op.run P n.app) = apply (view n.app) c := by
  have hs : ∀ r ∈ n.app.db.object.rows, StoredName P r.filepath := fun r hr => (h.rows r hr).1
  cases op with
  | put p => exact refines_put h hlegal
  | delete q now key bucketId fails =>
    unfold Means
    simp only [Op.run, deleteObjectKeyedInBucket]
    cases fails with
    | true => exact ⟨.keep, by simp, trivial, rfl⟩
    | false =>
      simp only [Bool.false_eq_true, if_false]
      cases bucketId with
      | some b => exact ⟨_, rfl, trivial, view_softDelete q n.app now key b⟩
      | none =>
        rcases view_softDelete_any q n.app now key with hsame | ⟨b, hview⟩
        · exact ⟨.keep, Or.inl rfl, trivial, hsame⟩
        · exact ⟨_, Or.inr ⟨b, rfl⟩, trivial, hview⟩
  | deletePrefix now bucketId pre =>
    exact ⟨_, rfl, trivial, view_softDeletePrefix n.app now bucketId pre⟩
  | restore now id =>
    unfold Means
    simp only [Op.run]
    cases hrestore : restoreObject n.app.db now id with
    | error err => exact ⟨.keep, rfl, trivial, rfl⟩
    | ok db => exact ⟨.restore id, rfl, view_restore hrestore⟩
  | rename now bucketId fromPrefix toPrefix =>
    unfold Means
    simp only [Op.run]
    cases hrename : renamePrefix n.app.db now bucketId fromPrefix toPrefix with
    | error err => exact ⟨.keep, rfl, trivial, rfl⟩
    | ok renamed =>
      obtain ⟨count, db⟩ := renamed
      simp only
      split_ifs with hsame
      · unfold renamePrefix at hrename
        rw [if_pos hsame] at hrename
        cases hrename
        exact ⟨.keep, rfl, trivial, rfl⟩
      · exact ⟨_, rfl, view_rename hsame hrename⟩
  | setEtagType bucketId etagType =>
    exact ⟨.keep, rfl, trivial, view_setEtagType n.app bucketId etagType⟩
  | rehash now bucketId etagType faults =>
    exact ⟨.keep, rfl, trivial, view_rehash P n.app now bucketId etagType faults⟩
  | reconcile names namesAfter unlinkFails =>
    exact ⟨.keep, rfl, trivial, view_reconcile hlower hs hlegal namesAfter unlinkFails⟩
  | hardPurge now id txFails unlinkFails =>
    unfold Means
    simp only [Op.run]
    cases txFails with
    | true => exact ⟨.keep, rfl, trivial, rfl⟩
    | false =>
      simp only [Bool.false_eq_true, if_false]
      refine ⟨_, rfl, trivial, ?_⟩
      unfold hardPurgeObject
      cases hget : getObjectById n.app.db id with
      | none =>
        funext i
        simp only [Option.map_none, Option.getD_none, apply, Set.mem_singleton_iff]
        split_ifs with hi
        · rw [hi]
          unfold view
          rw [hget]
          rfl
        · rfl
      | some record =>
        obtain ⟨hmem, hid⟩ := getObjectById_eq_some.mp hget
        have hview : view (purgeRows now (fun _ => false) (fun _ => unlinkFails) n.app [record]) =
            apply (view n.app) (.purge {i | ∃ obj ∈ [record], obj.id = i}) := by
          refine view_purge now (fun _ => unlinkFails) hs ?_
          intro obj hobj
          rw [List.mem_singleton.mp hobj]
          exact hmem
        have hids : {i | ∃ obj ∈ [record], obj.id = i} = ({id} : Set Int) := by
          ext i
          simp [hid, eq_comm]
        rw [hids] at hview
        exact hview
  | purgeOnce now txFails unlinkFails =>
    unfold Means
    simp only [Op.run]
    unfold Purge.purgeOnce
    cases hcut : cutoff n.app.db.appSettings now with
    | none =>
      refine ⟨.purge ∅, ⟨∅, rfl, fun id hid => by cases hid⟩, trivial, ?_⟩
      funext i
      simp [apply]
    | some olderThan =>
      simp only
      rw [purgeRows_takeWhile]
      have hmem : ∀ obj ∈ (listExpiredDeletedObjects n.app.db olderThan).takeWhile
          fun obj => !txFails obj, obj ∈ n.app.db.object.rows ∧ obj.deletedAt ≠ none := by
        intro obj hobj
        obtain ⟨hrow, d, hd, _⟩ :=
          mem_listExpiredDeletedObjects.mp ((List.takeWhile_prefix _).subset hobj)
        exact ⟨hrow, by rw [hd]; exact Option.some_ne_none d⟩
      refine ⟨_, ⟨_, rfl, ?_⟩, trivial, view_purge now unlinkFails hs fun obj hobj => (hmem obj hobj).1⟩
      intro id hid
      obtain ⟨obj, hobj, rfl⟩ := hid
      obtain ⟨hrow, hdeleted⟩ := hmem obj hobj
      refine ⟨_, view_eq_some.mpr ⟨obj, hrow, rfl, rfl⟩, ?_⟩
      simp [entryOf, Option.isNone_eq_false_iff, Option.isSome_iff_ne_none, hdeleted]

theorem intact_run {P : Platform} (hlower : LowerKeepsEnd P) {n m : Node} {ok : Node → Op → Prop}
    (hok : ∀ n op, ok n op → Legal P n op) (h : Intact P n) (hrun : Run (step P) ok n m) :
    Intact P m :=
  hrun.invariant (fun _ _ _ hintact hlegal hstep => intact_step hlower hintact (hok _ _ hlegal) hstep) h

/-- In every state of a sequential run, every operation, whatever fails in it, is one change
of the store of versions, and the change is the one that the answer means. -/
theorem store_refined (P : Platform) (app : AppState) (n : Node) (hlower : LowerKeepsEnd P)
    (hrows : ∀ r ∈ app.db.object.rows, StoredName P r.filepath ∧ HasBlob P app r)
    (hrun : Run (step P) (Legal P) ⟨app, []⟩ n) (op : Op) (hlegal : Legal P n op) :
    ∃ c, Means P n.app op c ∧ Enabled (view n.app) c ∧
      view (op.run P n.app) = apply (view n.app) c := by
  have hstart : Intact P ⟨app, []⟩ := ⟨hrows, fun f hf => by cases hf⟩
  exact refines_step hlower (intact_run hlower (fun _ _ h => h) hstart hrun) hlegal

/-- A node with one object. -/
def stored : Node := after [.put (upload 1)]

theorem step_stored : step platform node (.put (upload 1)) = some stored := rfl

theorem run_stored : Run (step platform) (Legal platform) ⟨node.app, []⟩ stored :=
  .tail _ (.refl node) (legal_upload fun r hr => by cases hr) step_stored

/-- The deletion of its key in bucket 1 recycles that place. -/
theorem stored_deleted :
    view ((Op.delete Limit1.first Instant.epoch ['k'] (some 1) false).run platform stored.app) =
      apply (view stored.app) (.recycle {(1, ['k'])}) := by
  obtain ⟨c, hmeans, _, hview⟩ := store_refined platform node.app stored
    (lowerKeepsEnd_tabulated _) (fun r hr => by cases hr) run_stored
    (.delete Limit1.first Instant.epoch ['k'] (some 1) false) trivial
  cases hmeans
  exact hview

/-- An operation that does not name the version which is live at a place. -/
def Apart (n : Node) (b : Int) (key : Text) : Op → Prop
  | .put p => uploadBucket n.app.db p.bucketId p.faults.defaultBucketId ≠ some b ∨ p.key ≠ key
  | .delete _ _ k bucketId fails =>
    fails = true ∨ k ≠ key ∨ ∃ other, bucketId = some other ∧ other ≠ b
  | .deletePrefix _ bucketId pre => bucketId ≠ b ∨ underPrefix pre key = false
  | .rename _ bucketId fromPrefix toPrefix =>
    bucketId ≠ b ∨ ¬ fromPrefix <+: key ∨ fromPrefix = toPrefix
  | .hardPurge _ id txFails _ => txFails = true ∨
      ∀ r, getObjectByFilenameInBucket n.app.db key b = some r → r.id ≠ id
  | _ => True

/-- Such an operation spares the place, whatever it answers. -/
theorem spares_of_apart {P : Platform} {n : Node} {op : Op} {b : Int} {key : Text}
    {c : Change Int Place (Option Bytes)} (hapart : Apart n b key op)
    (hmeans : Means P n.app op c) : Spares (view n.app) (b, key) c := by
  have hother : ∀ {b' : Int} {k : Text}, b ≠ b' ∨ key ≠ k →
      Spares (view n.app) (b, key) (.recycle {(b', k)}) := by
    intro b' k h hmem
    rw [Set.mem_singleton_iff, Prod.mk.injEq] at hmem
    rcases h with h | h
    · exact h hmem.1
    · exact h hmem.2
  cases op with
  | put p =>
    obtain ⟨bucket, hbucket, hmeans⟩ := hmeans
    have hne : ∀ id, bucket = some id → b ≠ id ∨ key ≠ p.key := by
      intro id hid
      rcases hapart with hb | hkey
      · left
        intro heq
        exact hb (by rw [hbucket, hid, heq])
      · exact Or.inr (Ne.symm hkey)
    split_ifs at hmeans with hfailed
    · rcases hmeans with rfl | ⟨id, hid, rfl⟩
      · trivial
      · exact hother (hne id hid)
    · obtain ⟨id, hid, rfl⟩ := hmeans
      exact hother (hne id hid)
  | delete q now k bucketId fails =>
    simp only [Means] at hmeans
    split_ifs at hmeans with hfails
    · rw [hmeans]
      trivial
    · rcases hapart with hfailed | hkey | ⟨other, rfl, hne⟩
      · exact absurd hfailed hfails
      · cases bucketId with
        | some b' =>
          rw [hmeans]
          exact hother (Or.inr (Ne.symm hkey))
        | none =>
          rcases hmeans with rfl | ⟨b', rfl⟩
          · trivial
          · exact hother (Or.inr (Ne.symm hkey))
      · rw [hmeans]
        exact hother (Or.inl (Ne.symm hne))
  | deletePrefix now bucketId pre =>
    rw [hmeans]
    intro hmem
    rcases hapart with hb | hunder
    · exact hb hmem.1.symm
    · exact absurd hmem.2 (by rw [hunder]; exact Bool.false_ne_true)
  | restore now id =>
    simp only [Means] at hmeans
    split at hmeans
    · rw [hmeans]
      trivial
    · rw [hmeans]
      trivial
  | rename now bucketId fromPrefix toPrefix =>
    simp only [Means] at hmeans
    split at hmeans
    · rw [hmeans]
      trivial
    · split_ifs at hmeans with hsame
      · rw [hmeans]
        trivial
      · rw [hmeans]
        intro hmem
        rcases hapart with hb | hpre | heq
        · exact hb hmem.1.symm
        · exact hpre hmem.2
        · exact hsame heq
  | hardPurge now id txFails unlinkFails =>
    simp only [Means] at hmeans
    split_ifs at hmeans with hfails
    · rw [hmeans]
      trivial
    · rw [hmeans]
      intro i hi v hv
      rw [Set.mem_singleton_iff.mp hi] at hv
      obtain ⟨r, hr, hid, he⟩ := view_eq_some.mp hv
      unfold entryOf at he
      simp only [Entry.mk.injEq, Prod.mk.injEq, Option.isNone_iff_eq_none] at he
      obtain ⟨⟨hbucket, hkey⟩, _, hactive⟩ := he
      rcases hapart with hfailed | hlive
      · exact hfails hfailed
      · exact hlive r (getObjectByFilenameInBucket_eq_some.mpr ⟨hr, hkey, hbucket, hactive⟩) hid
  | purgeOnce now txFails unlinkFails =>
    obtain ⟨ids, rfl, hbin⟩ := hmeans
    intro i hi v hv
    obtain ⟨e, he, hlive⟩ := hbin i hi
    rw [hv] at he
    cases he
    cases hlive
  | setEtagType bucketId etagType =>
    rw [hmeans]
    trivial
  | rehash now bucketId etagType faults =>
    rw [hmeans]
    trivial
  | reconcile names namesAfter unlinkFails =>
    rw [hmeans]
    trivial

/-- An intact node whose place reads the content. -/
def Holding (P : Platform) (b : Int) (key : Text) (v : Option Bytes) (n : Node) : Prop :=
  Intact P n ∧ Reads (view n.app) (b, key) v

theorem holding_put {P : Platform} (hlower : LowerKeepsEnd P) {n t : Node} {p : Put} {b : Int}
    (h : Intact P n) (hlegal : Legal P n (.put p)) (hstep : step P n (.put p) = some t)
    (hstored : (p.run P n.app).1.isFailure = false)
    (hbucket : uploadBucket n.app.db p.bucketId p.faults.defaultBucketId = some b) :
    Holding P b p.key (some (content p.body)) t := by
  refine ⟨intact_step hlower h hlegal hstep, ?_⟩
  obtain ⟨c, ⟨bucket, hbucket', hmeans⟩, henabled, hview⟩ := refines_step hlower h hlegal
  rw [if_neg (by rw [hstored]; exact Bool.false_ne_true)] at hmeans
  obtain ⟨id, hid, rfl⟩ := hmeans
  cases Option.some.inj (hid.symm.trans (hbucket'.symm.trans hbucket))
  unfold step at hstep
  cases hstep
  rw [hview, reads_add henabled]
  exact Or.inl ⟨rfl, rfl⟩

theorem holding_step {P : Platform} (hlower : LowerKeepsEnd P) {n m : Node} {op : Op} {b : Int}
    {key : Text} {v : Option Bytes} (h : Holding P b key v n) (hlegal : Legal P n op)
    (hapart : Apart n b key op) (hstep : step P n op = some m) : Holding P b key v m := by
  obtain ⟨hintact, hreads⟩ := h
  obtain ⟨c, hmeans, henabled, hview⟩ := refines_step hlower hintact hlegal
  refine ⟨intact_step hlower hintact hlegal hstep, ?_⟩
  unfold step at hstep
  cases hstep
  rw [hview]
  exact hreads.kept henabled (spares_of_apart hapart hmeans)

/-- Other keys are recycled and renamed, and the object itself is rehashed. -/
def elsewhere : List Op :=
  [.delete Limit1.first Instant.epoch ['m'] none false, .deletePrefix Instant.epoch 1 ['m', '/'],
    .rename Instant.epoch 1 ['m'] ['n'], .rehash Instant.epoch 1 .sha256 {},
    .purgeOnce Instant.epoch (fun _ => false) fun _ => false]

end MyS3.StoreRefinement
