import MyS3.Versions

/-!
What a refused upload leaves behind. The blob of a body that breaks off stays on
disk, and the recycled version stays recycled when the insert, the enqueue or the
commit fails, since the two run on different connections. Everything else is
undone, and the condition for it is exact.
-/

namespace MyS3.UploadFailure

open Library.Strings Library.Tables Library.Paths Library.Timestamps
open Models Objects Database Engine Repository Outbox Http S3Routes Versions

/-- No file is created, or the copy succeeds, the undo removes the blob, and no
version of the key is recycled. -/
def LeavesNoTrace (s : AppState) (key : Text) (body : List (Option Bytes))
    (bucketId : Option Int) (faults : PutFaults) : Prop :=
  ∀ b, uploadBucket s.db bucketId faults.defaultBucketId = some b →
    query faults.bucketEtagType (bucketEtagType s.db b) ≠ none →
    faults.io.createDir = false → faults.io.createFile = false →
    ¬ CopyBreaks body faults.io ∧ faults.io.unlink = false ∧
      (FailsBeforeRecycle s.db key b (content body).length faults ∨
        getObjectByFilenameInBucket s.db key b = none)

/-- The files below the objects directory. -/
def blobFiles (s : AppState) : Set Path :=
  {p | s.config.storageRoot ++ [objectsDir] <+: p ∧ s.disk p ≠ none}

/-- The object rows and the set of blob files are the same. -/
def Unchanged (s s' : AppState) : Prop :=
  s'.db.object.rows = s.db.object.rows ∧ blobFiles s' = blobFiles s

/-- A soft delete changes the rows exactly when it finds one. -/
theorem softDelete_rows_eq_iff {db : Db} {now : Instant} {key : Text} {bucketId : Int} :
    (softDeleteObjectByFilename Limit1.first db now key (some bucketId)).2.object.rows =
        db.object.rows ↔ getObjectByFilenameInBucket db key bucketId = none := by
  have hcand : softDeleteCandidate Limit1.first db key (some bucketId) =
    getObjectByFilenameInBucket db key bucketId := rfl
  cases hget : getObjectByFilenameInBucket db key bucketId with
  | none =>
    rw [softDelete_of_none (hcand.trans hget)]
    simp
  | some r =>
    obtain ⟨hr, _, _, hactive⟩ := getObjectByFilenameInBucket_eq_some.mp hget
    rw [softDelete_of_some (hcand.trans hget)]
    simp only [reduceCtorEq, iff_false]
    intro hrows
    have hmem : (recycle now).apply r ∈ db.object.rows := by
      rw [← hrows]
      exact mem_recycleById.mpr (Or.inr ⟨r, hr, rfl, rfl⟩)
    have heq := db.object.eq_of_id hmem hr rfl
    have hdeleted : ((recycle now).apply r).deletedAt ≠ none := by simp [recycle]
    exact hdeleted (heq ▸ hactive)

/-- The two ways in which the database steps fail. -/
theorem registerObject_failure {s : AppState} {now : Instant} {key : Text} {bucketId : Int}
    {stored : StoredObject} {faults : PutFaults} {failure : Response} {db : Db}
    (h : registerObject s now key bucketId stored faults = (some failure, db)) :
    (FailsBeforeRecycle s.db key bucketId stored.filesizeBytes faults ∧ db = s.db) ∨
      (¬ FailsBeforeRecycle s.db key bucketId stored.filesizeBytes faults ∧
        db = (softDeleteObjectByFilename Limit1.first s.db now key (some bucketId)).2) := by
  rcases registerObject_cases s now key bucketId stored faults with
    ⟨_, heq, _, hearly⟩ | ⟨heq, hlate⟩ | ⟨_, _, _, heq, _⟩
  · rw [heq] at h
    exact Or.inl ⟨hearly, (Prod.mk.inj h).2.symm⟩
  · rw [heq] at h
    exact Or.inr ⟨hlate, (Prod.mk.inj h).2.symm⟩
  · rw [heq] at h
    cases (Prod.mk.inj h).1

/-- An upload in which every error is one of the named kinds. -/
theorem putObjectKeyedInBucket_failure {P : Platform} {s : AppState} {now : Instant}
    {uuid : Uuid} {key : Text} {headers : Headers} {body : List (Option Bytes)}
    {bucketId : Option Int} {faults : PutFaults} {b : Int}
    (hbucket : uploadBucket s.db bucketId faults.defaultBucketId = some b)
    (hetag : query faults.bucketEtagType (bucketEtagType s.db b) ≠ none)
    (hdir : faults.io.createDir = false) (hfile : faults.io.createFile = false)
    (hfail : (putObjectKeyedInBucket P s now uuid key headers body bucketId faults).1.isFailure =
      true) {s' : AppState}
    (hs' : (putObjectKeyedInBucket P s now uuid key headers body bucketId faults).2 = s') :
    let path := absolutePathFor s.config.storageRoot ((Target.fresh uuid).filepath P key)
    (CopyBreaks body faults.io ∧ s'.disk path ≠ none) ∨
      (¬ CopyBreaks body faults.io ∧
        s'.disk = (if faults.io.unlink then setFile s.disk path (some (content body))
          else setFile s.disk path none) ∧
        ((FailsBeforeRecycle s.db key b (content body).length faults ∧ s'.db = s.db) ∨
          (¬ FailsBeforeRecycle s.db key b (content body).length faults ∧
            s'.db = (softDeleteObjectByFilename Limit1.first s.db now key (some b)).2))) := by
  intro path
  obtain ⟨bucketDefault, hdefault⟩ := Option.ne_none_iff_exists'.mp hetag
  unfold putObjectKeyedInBucket at hfail hs'
  simp only [hbucket, hdefault] at hfail hs'
  rcases hput : putChunks P s.config.storageRoot s.disk body key
    (resolveEtagType headers bucketDefault) none (.fresh uuid) faults.io with ⟨res, disk⟩
  simp only [hput] at hfail hs'
  cases res with
  | error err =>
    simp only at hs'
    subst hs'
    exact Or.inl (putChunks_error_of_created hput hdir hfile)
  | ok stored =>
    obtain ⟨hstored, hdisk, _⟩ := putChunks_ok hput
    have hsize : stored.filesizeBytes = (content body).length := by rw [hstored]
    have hpath : stored.filepath = (Target.fresh uuid).filepath P key := by rw [hstored]
    simp only at hfail hs'
    cases hreg : registerObject s now key b stored faults with
    | mk failure db =>
      rw [hreg] at hfail hs'
      cases failure with
      | none => simp [Response.isFailure] at hfail
      | some failure =>
        simp only at hs'
        subst hs'
        refine Or.inr ⟨putChunks_ok_copy hput, ?_, ?_⟩
        · simp only [unlink, hdisk, hpath, setFile_setFile, path]
        · rw [← hsize]
          exact registerObject_failure hreg

theorem putObjectKeyedInBucket_config (P : Platform) (s : AppState) (now : Instant) (uuid : Uuid)
    (key : Text) (headers : Headers) (body : List (Option Bytes)) (bucketId : Option Int)
    (faults : PutFaults) :
    (putObjectKeyedInBucket P s now uuid key headers body bucketId faults).2.config =
      s.config := by
  unfold putObjectKeyedInBucket
  split
  · rfl
  split
  · rfl
  simp only
  split
  · rfl
  · split <;> rfl

/-- A file that was not there before is a new blob file. -/
theorem blobFiles_ne {s s' : AppState} {p : Path}
    (hp : s.config.storageRoot ++ [objectsDir] <+: p) (hroot : s'.config = s.config)
    (hfree : s.disk p = none) (hnew : s'.disk p ≠ none) : blobFiles s' ≠ blobFiles s := by
  intro heq
  have hmem : p ∈ blobFiles s' := ⟨by rwa [hroot], hnew⟩
  rw [heq] at hmem
  exact hmem.2 hfree

theorem blobPath_below (P : Platform) (root : Path) (uuid : Uuid) (key : Text) :
    root ++ [objectsDir] <+: absolutePathFor root ((Target.fresh uuid).filepath P key) := by
  rw [absolutePathFor_fresh]
  exact ⟨[uuid.text ++ '.' :: extensionFromFilename P key], by simp⟩

/-- An upload that creates no file changes nothing. -/
theorem putObjectKeyedInBucket_not_created {P : Platform} {s : AppState} {now : Instant}
    {uuid : Uuid} {key : Text} {headers : Headers} {body : List (Option Bytes)}
    {bucketId : Option Int} {faults : PutFaults}
    (h : ∀ b, uploadBucket s.db bucketId faults.defaultBucketId = some b →
      query faults.bucketEtagType (bucketEtagType s.db b) ≠ none →
      faults.io.createDir = true ∨ faults.io.createFile = true) :
    (putObjectKeyedInBucket P s now uuid key headers body bucketId faults).2 = s := by
  unfold putObjectKeyedInBucket
  cases hbucket : uploadBucket s.db bucketId faults.defaultBucketId with
  | none => rfl
  | some b =>
    cases hetag : query faults.bucketEtagType (bucketEtagType s.db b) with
    | none => simp only [hetag]
    | some bucketDefault =>
      simp only [hetag]
      obtain ⟨err, hput⟩ := putChunks_not_created P s.config.storageRoot s.disk body key
        (resolveEtagType headers bucketDefault) none (.fresh uuid) (h b hbucket (by simp [hetag]))
      rw [hput]

/-- A refused upload leaves the object rows and the blob files as they were exactly
when it leaves no trace. The name of the blob is new. -/
theorem refused_upload_unchanged_iff (P : Platform) (s : AppState) (now : Instant) (uuid : Uuid)
    (key : Text) (headers : Headers) (body : List (Option Bytes)) (bucketId : Option Int)
    (faults : PutFaults)
    (hfresh : s.disk (absolutePathFor s.config.storageRoot
      ((Target.fresh uuid).filepath P key)) = none)
    (hfail : (putObjectKeyedInBucket P s now uuid key headers body bucketId faults).1.isFailure =
      true) :
    Unchanged s (putObjectKeyedInBucket P s now uuid key headers body bucketId faults).2 ↔
      LeavesNoTrace s key body bucketId faults := by
  by_cases hstart : ∃ b, uploadBucket s.db bucketId faults.defaultBucketId = some b ∧
      query faults.bucketEtagType (bucketEtagType s.db b) ≠ none ∧
      faults.io.createDir = false ∧ faults.io.createFile = false
  · obtain ⟨b, hbucket, hetag, hdir, hfile⟩ := hstart
    have htrace : LeavesNoTrace s key body bucketId faults ↔
        ¬ CopyBreaks body faults.io ∧ faults.io.unlink = false ∧
          (FailsBeforeRecycle s.db key b (content body).length faults ∨
            getObjectByFilenameInBucket s.db key b = none) := by
      constructor
      · intro h
        exact h b hbucket hetag hdir hfile
      · intro h b' hb' _ _ _
        cases hbucket.symm.trans hb'
        exact h
    rw [htrace]
    have hconfig := putObjectKeyedInBucket_config P s now uuid key headers body bucketId faults
    have hout := putObjectKeyedInBucket_failure hbucket hetag hdir hfile hfail rfl
    generalize (putObjectKeyedInBucket P s now uuid key headers body bucketId faults).2 = s'
      at hconfig hout
    have hkept := blobPath_below P s.config.storageRoot uuid key
    rcases hout with ⟨hcopy, hnew⟩ | ⟨hcopy, hdisk, hdb⟩
    · constructor
      · intro h
        exact absurd h.2 (blobFiles_ne hkept hconfig hfresh hnew)
      · intro h
        exact absurd hcopy h.1
    by_cases hunlink : faults.io.unlink = true
    · rw [if_pos hunlink] at hdisk
      constructor
      · intro h
        exact absurd h.2 (blobFiles_ne hkept hconfig hfresh (by simp [hdisk]))
      · intro h
        simp [hunlink] at h
    rw [if_neg hunlink, setFile_eq_self.mpr hfresh] at hdisk
    have hblobs : blobFiles s' = blobFiles s := by
      unfold blobFiles
      rw [hconfig, hdisk]
    rcases hdb with ⟨hearly, hdb⟩ | ⟨hlate, hdb⟩
    · constructor
      · intro _
        exact ⟨hcopy, by simpa using hunlink, Or.inl hearly⟩
      · intro _
        exact ⟨by rw [hdb], hblobs⟩
    · constructor
      · intro h
        have hrows := h.1
        rw [hdb] at hrows
        exact ⟨hcopy, by simpa using hunlink, Or.inr (softDelete_rows_eq_iff.mp hrows)⟩
      · intro h
        have hnone := h.2.2.resolve_left hlate
        refine ⟨?_, hblobs⟩
        rw [hdb]
        exact softDelete_rows_eq_iff.mpr hnone
  · have hsame : (putObjectKeyedInBucket P s now uuid key headers body bucketId faults).2 = s := by
      apply putObjectKeyedInBucket_not_created
      intro b hbucket hetag
      by_contra hio
      simp only [not_or, Bool.not_eq_true] at hio
      exact hstart ⟨b, hbucket, hetag, hio.1, hio.2⟩
    rw [hsame]
    constructor
    · intro _ b hbucket hetag hdir hfile
      exact absurd ⟨b, hbucket, hetag, hdir, hfile⟩ hstart
    · intro _
      exact ⟨rfl, rfl⟩

/-- One byte under a key whose commit fails: the first upload of the key. -/
theorem refused_first_upload_unchanged_iff :
    let P := Platform.sample
    let s := AppState.migrated "node-1".toList
    let faults : PutFaults := { commit := true }
    Unchanged s (putObjectKeyedInBucket P s Instant.epoch (Uuid.numbered 1) ['k'] [] [some [97]]
        none faults).2 ↔ LeavesNoTrace s ['k'] [some [97]] none faults :=
  refused_upload_unchanged_iff Platform.sample (AppState.migrated "node-1".toList)
    Instant.epoch (Uuid.numbered 1) ['k'] [] [some [97]] none { commit := true } rfl (by decide)

/-- A node that holds one version of the key `k`. -/
def oneVersion : AppState :=
  (putObjectKeyedInBucket Platform.sample (AppState.migrated "node-1".toList)
    Instant.epoch (Uuid.numbered 1) ['k'] [] [some [97]] none {}).2

/-- The second upload of a key whose commit fails loses the active version, and one
whose body breaks off leaves its first byte on disk. -/
theorem refused_upload_can_change :
    let P := Platform.sample
    let overwrite (body : List (Option Bytes)) (faults : PutFaults) :=
      putObjectKeyedInBucket P oneVersion Instant.epoch (Uuid.numbered 2) ['k'] [] body none faults
    let uncommitted := overwrite [some [98]] { commit := true }
    let broken := overwrite [some [98], none] {}
    (uncommitted.1.isFailure = true ∧ ¬ Unchanged oneVersion uncommitted.2 ∧
        (getObjectByFilenameInBucket oneVersion.db ['k'] 1).isSome = true ∧
        getObjectByFilenameInBucket uncommitted.2.db ['k'] 1 = none) ∧
      broken.1.isFailure = true ∧ ¬ Unchanged oneVersion broken.2 := by
  intro P overwrite uncommitted broken
  refine ⟨⟨by decide, ?_, by decide, by decide⟩, by decide, ?_⟩
  · intro h
    exact absurd h.1 (by decide)
  · intro h
    have hnew : blobFiles broken.2 ≠ blobFiles oneVersion :=
      blobFiles_ne (blobPath_below P oneVersion.config.storageRoot (Uuid.numbered 2) ['k'])
        rfl (by decide) (by decide)
    exact hnew h.2

end MyS3.UploadFailure
