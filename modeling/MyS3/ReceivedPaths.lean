import MyS3.ReceiveFailure

/-!
Which file a peer's filepath names. The path is joined to the storage root, or to the
objects directory when it has no slash, and nothing is checked, so `..` segments and an
absolute path lead anywhere. The condition for staying below the objects directory is
read off the segments of the filepath alone.
-/

namespace MyS3.ReceivedPaths

open Library.Strings Library.Tables Library.Paths
open Models Objects Database Engine Repository Http GrpcServer ReceiveFailure

/-- The objects directory and those above it, which no file can replace. -/
def IsDirectory (root p : Path) : Prop := p <+: root ++ [objectsDir]

/-- A change of the disk that touches only files below the objects directory. -/
def StaysBelow (root : Path) (disk disk' : Disk) : Prop :=
  ∀ p, disk' p ≠ disk p → root ++ [objectsDir] <+: p

/-- Replications of a filepath, of which those into a directory cannot create their file. -/
def ReplicationsStay (P : Platform) (root : Path) (f : Text) : Prop :=
  ∀ (s : AppState) (now : Instant) (stream : List (Option ObjectChunk)) (faults : ReceiveFaults)
    (m : ObjectMetadata) (chunks : List Bytes), s.config.storageRoot = root →
    collectChunks stream = some (some m, chunks) → m.filepathUuid = f →
    (IsDirectory root (absolutePathFor root f) →
      faults.io.createDir = true ∨ faults.io.createFile = true) →
    StaysBelow root s.disk (replicateObject P s now stream faults).2.disk

/-- Deletions of a filepath, of which those of a directory cannot remove it. -/
def DeletionsStay (root : Path) (f : Text) : Prop :=
  ∀ (s : AppState) (req : DeleteRequest) (unlinkFails dbFails : Bool),
    s.config.storageRoot = root → req.filepathUuid = f →
    (IsDirectory root (absolutePathFor root f) → unlinkFails = true) →
    StaysBelow root s.disk (deleteObject s req unlinkFails dbFails).2.disk

/-- What the names of a filepath have to begin with: the whole path of the objects
directory if the filepath is absolute, and otherwise the names of the root that its `..`
segments climb over, and `objects`. -/
def requiredNames (root : Path) (f : Text) : Path :=
  if startsWith ['/'] f then root ++ [objectsDir]
  else root.drop (root.length - (resolve f).1) ++ [objectsDir]

/-- A filepath without a slash, one whose names begin as required, or one that ends at a
directory on the way. -/
def Contained (root : Path) (f : Text) : Prop :=
  '/' ∉ f ∨ requiredNames root f <+: (resolve f).2 ∨ (resolve f).2 <+: requiredNames root f

instance (root : Path) (f : Text) : Decidable (Contained root f) := by
  unfold Contained
  infer_instance

/-- The target is below the objects directory or a directory on the way to it. -/
def OnTheWay (root p : Path) : Prop := root ++ [objectsDir] <+: p ∨ IsDirectory root p

theorem onTheWay_of_no_slash {root : Path} {f : Text} (h : '/' ∉ f) :
    OnTheWay root (absolutePathFor root f) := by
  have hstart : startsWith (objectsDir ++ ['/']) f = false := by
    rw [← Bool.not_eq_true, startsWith_iff]
    intro hp
    exact h (hp.subset (by decide))
  have habs : startsWith ['/'] f = false := by
    rw [← Bool.not_eq_true, startsWith_iff]
    intro hp
    exact h (hp.subset (by decide))
  have hjoin : absolutePathFor root f = enter (root ++ [objectsDir]) f := by
    simp only [absolutePathFor, hstart, h, decide_false, Bool.or_self, Bool.false_eq_true,
      if_false, join, habs, split, List.splitOn_eq_singleton h, List.foldl_cons, List.foldl_nil]
  rw [hjoin]
  unfold enter
  split_ifs
  · exact Or.inl (List.prefix_refl _)
  · refine Or.inr ?_
    simp [IsDirectory]
  · exact Or.inl (List.prefix_append _ _)

theorem absolutePathFor_of_slash {f : Text} (h : '/' ∈ f) (root : Path) :
    absolutePathFor root f = join root f := by
  simp [absolutePathFor, h]

theorem onTheWay_join {root : Path} {f : Text} :
    OnTheWay root (join root f) ↔
      requiredNames root f <+: (resolve f).2 ∨ (resolve f).2 <+: requiredNames root f := by
  rw [join_eq_below]
  unfold OnTheWay IsDirectory requiredNames
  by_cases habs : startsWith ['/'] f = true
  · simp [habs, below]
  · simp only [if_neg habs]
    rw [show resolve f = ((resolve f).1, (resolve f).2) from rfl, append_prefix_below,
      below_prefix_append]

theorem contained_iff {root : Path} {f : Text} :
    Contained root f ↔ OnTheWay root (absolutePathFor root f) := by
  by_cases hslash : '/' ∈ f
  · rw [absolutePathFor_of_slash hslash, onTheWay_join]
    unfold Contained
    simp [hslash]
  · constructor
    · intro _
      exact onTheWay_of_no_slash hslash
    · intro _
      exact Or.inl hslash

/-- A change of one file below the objects directory. -/
theorem staysBelow_of_target (target : Path) {root : Path} {disk disk' : Disk}
    (hother : ∀ p, p ≠ target → disk' p = disk p)
    (htarget : disk' target ≠ disk target → root ++ [objectsDir] <+: target) :
    StaysBelow root disk disk' := by
  intro p hp
  by_cases heq : p = target
  · subst heq
    exact htarget hp
  · exact absurd (hother p heq) hp

theorem replicationsStay_iff (P : Platform) (root : Path) (f : Text) :
    ReplicationsStay P root f ↔ Contained root f := by
  rw [contained_iff]
  constructor
  · intro hstay
    by_contra hway
    unfold OnTheWay at hway
    push Not at hway
    -- An empty disk and an object without content: its file is created.
    let s : AppState := {
      config := { (AppState.migrated []).config with storageRoot := root }
      db := Db.migrated
      disk := fun _ => none }
    let m : ObjectMetadata := {
      originalFilename := [], filepathUuid := f, fileFormat := [], filesizeBytes := 0
      etagType := [], etag := P.digest .md5 [], dateUploaded := [], dateModified := []
      bucketName := [] }
    have hcollect : collectChunks [some (.metadata m)] = some (some m, []) := rfl
    have hbelow := hstay s Instant.epoch [some (.metadata m)] {} m [] rfl hcollect rfl
      (fun hdir => absurd hdir hway.2) (absolutePathFor root f)
    apply hway.1
    apply hbelow
    have hleft : leftover P m [] {} = some [] := by
      have htype : m.hashType = .md5 := rfl
      have hetag : m.etag = P.digest .md5 [] := rfl
      simp [leftover, copyBreaks, htype, hetag]
    rw [replicateObject_disk hcollect]
    have hdisk := putChunks_received_disk P root s.disk m [] {} rfl rfl
    rw [show s.config.storageRoot = root from rfl, hdisk, hleft, show m.filepathUuid = f from rfl,
      setFile_same]
    simp [s]
  · intro hway s now stream faults m chunks hroot hcollect hf hdir
    subst hroot hf
    rw [replicateObject_disk hcollect]
    apply staysBelow_of_target (absolutePathFor s.config.storageRoot m.filepathUuid)
    · intro p hp
      exact putChunks_other P _ _ _ _ _ _ (.forced m.filepathUuid) _ hp
    · intro hchange
      rcases hway with hway | hway
      · exact hway
      · exfalso
        apply hchange
        obtain ⟨err, hput⟩ := putChunks_not_created P s.config.storageRoot s.disk
          (chunks.map some) m.originalFilename m.hashType (some m.etag) (.forced m.filepathUuid)
          (hdir hway)
        rw [hput]

theorem deletionsStay_iff (root : Path) (f : Text) : DeletionsStay root f ↔ Contained root f := by
  rw [contained_iff]
  constructor
  · intro hstay
    by_contra hway
    unfold OnTheWay at hway
    push Not at hway
    -- Any disk with a file there: it is removed.
    let s : AppState := {
      config := { (AppState.migrated []).config with storageRoot := root }
      db := Db.migrated
      disk := fun _ => some [] }
    have hbelow := hstay s ⟨f, []⟩ false false rfl rfl (fun hdir => absurd hdir hway.2)
      (absolutePathFor root f)
    apply hway.1
    apply hbelow
    simp [deleteObject, unlink, s]
  · intro hway s req unlinkFails dbFails hroot hf hdir
    subst hroot hf
    have hdisk : (deleteObject s req unlinkFails dbFails).2.disk =
        unlink s.config.storageRoot s.disk req.filepathUuid unlinkFails := by
      unfold deleteObject
      by_cases hdb : dbFails = true
      · simp [hdb]
      · simp [hdb]
    rw [hdisk]
    apply staysBelow_of_target (absolutePathFor s.config.storageRoot req.filepathUuid)
    · intro p hp
      exact unlink_other _ _ _ _ hp
    · intro hchange
      rcases hway with hway | hway
      · exact hway
      · exfalso
        apply hchange
        simp [unlink, hdir hway]

example : Contained [".data".toList] "objects/../objects/a.jpg".toList := by decide

example : Contained [".data".toList] "..".toList := by decide

end MyS3.ReceivedPaths
