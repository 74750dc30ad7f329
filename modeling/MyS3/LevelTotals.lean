import Mathlib.Algebra.BigOperators.Ring.Finset
import Mathlib.Order.Bounds.Basic
import MyS3.Library.Totals
import MyS3.ShareListings

/-!
What the folders of one level add up to. The listing groups the rows by common prefixes,
leaves the `.keep` markers out of the objects, and computes each folder from all rows
again. The common prefixes of a level do not cover each other's keys, so that every row
under the listed prefix is in one folder, or an object, or a marker of the level itself.
-/

namespace MyS3.LevelTotals

open Library.Strings Library.Tables Library.Totals Library.Like
open Models Objects Database Engine Repository Listings FolderPrefixes Delimiters
open ShareListings (unbroken_slash folder_between object_under)

/-- An active row of the listed buckets whose key starts with the prefix. -/
def isUnder (bucketId : Option Int) (pre : Text) (r : ObjectRecord) : Bool :=
  isActive r && bucketId.all (· == r.bucketId) && startsWith pre r.originalFilename

/-- A `.keep` marker with no slash after the prefix. -/
def isMarkerAt (bucketId : Option Int) (pre : Text) (r : ObjectRecord) : Bool :=
  isUnder bucketId pre r && !(r.originalFilename.drop pre.length).contains '/' &&
    baseName r.originalFilename == keepMarker

def rowsUnder (db : Db) (bucketId : Option Int) (pre : Text) : List ObjectRecord :=
  db.object.rows.filter (isUnder bucketId pre)

def markersAt (db : Db) (bucketId : Option Int) (pre : Text) : List ObjectRecord :=
  db.object.rows.filter (isMarkerAt bucketId pre)

/-- A listing of a level counts every row under its prefix once: the folders, the objects
and the markers of the level add up to the rows, in number and in bytes. -/
structure CountsOnce (db : Db) (bucketId : Option Int) (pre : Text) (listing : PrefixListResult) :
    Prop where
  count : (listing.folders.map (·.objectCount)).sum + listing.objects.length +
    (markersAt db bucketId pre).length = (rowsUnder db bucketId pre).length
  bytes : (listing.folders.map (·.totalBytes)).sum + (listing.objects.map (·.filesizeBytes)).sum +
    ((markersAt db bucketId pre).map (·.filesizeBytes)).sum =
      ((rowsUnder db bucketId pre).map (·.filesizeBytes)).sum
  folder : ∀ r ∈ rowsUnder db bucketId pre, ∀ f ∈ listing.folders, f.pre <+: r.originalFilename →
    (∀ f' ∈ listing.folders, f'.pre <+: r.originalFilename → f' = f) ∧
      r ∉ listing.objects ∧ r ∉ markersAt db bucketId pre
  alone : ∀ r ∈ rowsUnder db bucketId pre, (∀ f ∈ listing.folders, ¬ f.pre <+: r.originalFilename) →
    (r ∈ listing.objects ↔ r ∉ markersAt db bucketId pre)

/-- The dates of a folder are the first upload and the last change of the rows under it. -/
structure DatedByRows (instant : Text → Int) (db : Db) (bucketId : Option Int) (f : FolderEntry) :
    Prop where
  created : ∃ t, f.dateCreated = some t ∧
    IsLeast {u | ∃ r ∈ rowsUnder db bucketId f.pre, instant r.dateUploaded = u} t
  modified : ∃ t, f.dateModified = some t ∧
    IsGreatest {u | ∃ r ∈ rowsUnder db bucketId f.pre, instant r.dateModified = u} t

/-- The rows that the query of a level selects. -/
abbrev levelRows (db : Db) (bucketId : Option Int) (pre : Text) : List ObjectRecord :=
  rowsLike db bucketId (likeEscape pre ++ ['%'])

section rows

variable {db : Db} {bucketId : Option Int} {pre : Text} {r : ObjectRecord}

theorem isUnder_iff : isUnder bucketId pre r = true ↔ r.deletedAt = none ∧
    bucketId.all (· == r.bucketId) = true ∧ pre <+: r.originalFilename := by
  unfold isUnder
  rw [Bool.and_eq_true, Bool.and_eq_true, isActive_iff, startsWith_iff, and_assoc]

theorem mem_rowsUnder : r ∈ rowsUnder db bucketId pre ↔ Candidate db bucketId pre r := by
  rw [rowsUnder, List.mem_filter, isUnder_iff]
  constructor
  · intro h
    obtain ⟨hmem, hactive, hbucket, hkey⟩ := h
    exact ⟨hmem, hactive, hbucket, hkey⟩
  · intro h
    obtain ⟨hmem, hactive, hbucket, hkey⟩ := h
    exact ⟨hmem, hactive, hbucket, hkey⟩

/-- The query selects every row under a longer prefix, so that a total of them is one of
the table. -/
theorem total_levelRows (size : ObjectRecord → Int) {p : ObjectRecord → Bool} {cp : Text}
    (hcp : pre <+: cp) (hp : ∀ r, p r = true → cp <+: r.originalFilename) :
    total size p (levelRows db bucketId pre) =
      total size (fun r => isUnder bucketId cp r && p r) db.object.rows := by
  unfold levelRows rowsLike
  rw [total_perm (List.perm_insertionSort _ _), total, total, List.filter_filter]
  congr 2
  apply List.filter_congr
  intro r _
  by_cases hpr : p r = true
  · have hkey := hp r hpr
    have hlike : underPrefix pre r.originalFilename = true :=
      underPrefix_iff.mpr (foldedPrefix_of_isPrefix (hcp.trans hkey))
    have hstarts : startsWith cp r.originalFilename = true := startsWith_iff.mpr hkey
    unfold underPrefix at hlike
    simp [isUnder, hpr, hlike, hstarts]
  · rw [Bool.not_eq_true] at hpr
    simp [hpr]

theorem hasDelimiter_slash {rest : Text} : HasDelimiter pre ['/'] (pre ++ rest) ↔ '/' ∈ rest := by
  rw [hasDelimiter_append]
  constructor
  · intro h'
    obtain ⟨i, after, hafter⟩ := h'
    have hmem : '/' ∈ rest.drop i := by
      rw [← hafter]
      exact List.mem_cons_self
    exact List.mem_of_mem_drop hmem
  · intro h
    obtain ⟨before, after, rfl⟩ := List.append_of_mem h
    exact ⟨before.length, after, by simp⟩

/-- A marker of a level is under the prefix, and neither in a folder nor an object. -/
theorem isMarkerAt_eq : isMarkerAt bucketId pre r =
    (isUnder bucketId pre r && !(levelOf pre ['/'] r.originalFilename).pre?.isSome &&
      !(levelOf pre ['/'] r.originalFilename == .object)) := by
  by_cases hunder : isUnder bucketId pre r = true
  · obtain ⟨rest, hrest⟩ := (isUnder_iff.mp hunder).2.2
    have hplaced := placed_levelOf pre ['/'] r.originalFilename
    have hdelim : HasDelimiter pre ['/'] (pre ++ rest) ↔ '/' ∈ rest := hasDelimiter_slash
    rw [hrest] at hdelim
    have hdrop : r.originalFilename.drop pre.length = rest := by
      rw [← hrest, List.drop_left]
    unfold isMarkerAt
    rw [hunder, hdrop]
    generalize levelOf pre ['/'] r.originalFilename = level at hplaced
    cases hplaced with
    | outside haway => exact absurd ⟨rest, hrest⟩ haway
    | marker _ hno hkeep =>
      have hslash : '/' ∉ rest := fun h => hno (hdelim.mpr h)
      simp [hslash, hkeep, Level.pre?]
    | object _ hno hkeep =>
      simp [hkeep, Level.pre?]
    | folder rest' i hkey hfind =>
      have hslash : '/' ∈ rest := hdelim.mp (hkey ▸ (cut_of_findText pre hfind).hasDelimiter)
      simp [hslash, Level.pre?]
    | broken rest' i hkey hfind hwide => exact absurd hwide (by decide)
  · rw [Bool.not_eq_true] at hunder
    simp [isMarkerAt, hunder]

/-- The common prefixes of a level. -/
abbrev commonOf (db : Db) (bucketId : Option Int) (pre : Text) : List Text :=
  sortedSet ((levelRows db bucketId pre).filterMap fun r =>
    (levelOf pre ['/'] r.originalFilename).pre?)

theorem mem_commonOf {cp : Text} : cp ∈ commonOf db bucketId pre ↔
    ∃ r ∈ levelRows db bucketId pre, levelOf pre ['/'] r.originalFilename = .folder cp := by
  simp only [mem_sortedSet, List.mem_filterMap, pre?_eq_some]

theorem nodup_commonOf : (commonOf db bucketId pre).Nodup :=
  (List.perm_insertionSort _ _).nodup_iff.mpr (List.nodup_dedup _)

/-- A key that a common prefix covers has no other folder. -/
theorem covers_iff {cp : Text} (hcp : cp ∈ commonOf db bucketId pre) {key : Text} :
    cp <+: key ↔ levelOf pre ['/'] key = .folder cp := by
  obtain ⟨r, hr, hfolder⟩ := mem_commonOf.mp hcp
  have hcut := cut_of_levelOf hfolder
  constructor
  · intro hcovers
    obtain ⟨before, hbefore⟩ := hcut.ends
    have hdelim : HasDelimiter pre ['/'] key := ⟨before, hbefore ▸ hcovers⟩
    obtain ⟨_, _, _, _, _, hlevel⟩ :=
      levelOf_of_hasDelimiter hdelim (ShareListings.levelOf_slash_ne_broken pre key)
    rw [hlevel, (cut_of_levelOf hlevel).eq_of_covers hcut hcovers]
  · intro hlevel
    exact (folder_between hlevel).2

/-- The folder that a row of a level is in. -/
abbrev groupOf (pre : Text) (r : ObjectRecord) : Option Text :=
  (levelOf pre ['/'] r.originalFilename).pre?

/-- The folders of a level, each computed from all rows, share out the rows in folders. -/
theorem folders_total (size : ObjectRecord → Int) :
    ((commonOf db bucketId pre).map fun cp =>
        total size (fun r => startsWith cp r.originalFilename) (levelRows db bucketId pre)).sum =
      total size (fun r => (groupOf pre r).isSome) (levelRows db bucketId pre) := by
  have hgroups : ((commonOf db bucketId pre).map fun cp =>
        total size (fun r => startsWith cp r.originalFilename) (levelRows db bucketId pre)) =
      (commonOf db bucketId pre).map fun cp =>
        total size (fun r => groupOf pre r == some cp) (levelRows db bucketId pre) := by
    apply List.map_congr_left
    intro cp hcp
    apply total_congr
    intro r _
    rw [Bool.eq_iff_iff, startsWith_iff, covers_iff hcp, beq_iff_eq, pre?_eq_some]
  rw [hgroups, sum_totals size (groupOf pre) nodup_commonOf]
  apply total_congr
  intro r hr
  cases hlevel : groupOf pre r with
  | none => rfl
  | some cp =>
    have hmem : cp ∈ commonOf db bucketId pre := mem_commonOf.mpr ⟨r, hr, pre?_eq_some.mp hlevel⟩
    simpa using hmem

theorem under_of_group {r : ObjectRecord} (h : (groupOf pre r).isSome = true) :
    pre <+: r.originalFilename := by
  obtain ⟨cp, hcp⟩ := Option.isSome_iff_exists.mp h
  obtain ⟨hfirst, hcovers⟩ := folder_between (pre?_eq_some.mp hcp)
  exact hfirst.trans hcovers

/-- The folders, the objects and the markers of a level share out the rows under it. -/
theorem level_total (size : ObjectRecord → Int) :
    ((commonOf db bucketId pre).map fun cp =>
        total size (fun r => startsWith cp r.originalFilename) (levelRows db bucketId pre)).sum +
      total size (fun r => levelOf pre ['/'] r.originalFilename == .object)
        (levelRows db bucketId pre) +
      total size (isMarkerAt bucketId pre) db.object.rows =
    total size (isUnder bucketId pre) db.object.rows := by
  let under := isUnder bucketId pre
  let object := fun r : ObjectRecord => levelOf pre ['/'] r.originalFilename == .object
  have hobject : ∀ r, object r = true → pre <+: r.originalFilename :=
    fun r hr => object_under (beq_iff_eq.mp hr)
  have hobjects : total size (fun r => under r && object r) db.object.rows =
      total size (fun r => under r && !(groupOf pre r).isSome && object r) db.object.rows := by
    apply total_congr
    intro r _
    simp only [object, groupOf]
    cases levelOf pre ['/'] r.originalFilename <;> simp [Level.pre?]
  have hmarkers : total size (isMarkerAt bucketId pre) db.object.rows =
      total size (fun r => under r && !(groupOf pre r).isSome && !object r) db.object.rows :=
    total_congr fun r _ => isMarkerAt_eq
  calc _ = total size (fun r => under r && (groupOf pre r).isSome) db.object.rows +
        total size (fun r => under r && object r) db.object.rows +
          total size (isMarkerAt bucketId pre) db.object.rows := by
        rw [folders_total, total_levelRows size List.prefix_rfl fun r => under_of_group,
          total_levelRows size List.prefix_rfl hobject]
    _ = total size (fun r => under r && (groupOf pre r).isSome) db.object.rows +
        total size (fun r => under r && !(groupOf pre r).isSome) db.object.rows := by
        rw [hobjects, hmarkers, add_assoc,
          ← total_split size (fun r => under r && !(groupOf pre r).isSome) object]
    _ = total size under db.object.rows :=
        (total_split size under (fun r => (groupOf pre r).isSome) db.object.rows).symm

/-- The folder of a common prefix is computed from the rows under it. -/
theorem levelRows_under {cp : Text} (hcp : pre <+: cp) {r : ObjectRecord} :
    r ∈ (levelRows db bucketId pre).filter (fun r => startsWith cp r.originalFilename) ↔
      r ∈ rowsUnder db bucketId cp := by
  rw [List.mem_filter, startsWith_iff, mem_rowsUnder, mem_candidates]
  constructor
  · intro h'
    obtain ⟨hmem, hkey⟩ := h'
    obtain ⟨hrow, hactive, hbucket, _⟩ := mem_candidates.mpr ⟨hmem, hcp.trans hkey⟩
    exact mem_candidates.mp ⟨hrow, hactive, hbucket, hkey⟩
  · intro h
    obtain ⟨hrow, hactive, hbucket, hkey⟩ := mem_candidates.mpr h
    exact ⟨(mem_candidates.mp ⟨hrow, hactive, hbucket, hcp.trans hkey⟩).1, hkey⟩

theorem mem_levelDates {cp : Text} (hcp : pre <+: cp) (date : ObjectRecord → Int) {u : Int} :
    u ∈ ((levelRows db bucketId pre).filter fun r => startsWith cp r.originalFilename).map date ↔
      ∃ r ∈ rowsUnder db bucketId cp, date r = u := by
  rw [List.mem_map]
  exact exists_congr fun r => and_congr_left' (levelRows_under hcp)

theorem datedByRows_folder (instant : Text → Int) {cp : Text}
    (hcp : cp ∈ commonOf db bucketId pre) :
    DatedByRows instant db bucketId
      (folderEntryFromRows instant cp (levelRows db bucketId pre)) := by
  obtain ⟨r, hr, hfolder⟩ := mem_commonOf.mp hcp
  obtain ⟨hpre, hcovers⟩ := folder_between hfolder
  have hdate : ∀ date : ObjectRecord → Int, date r ∈ ((levelRows db bucketId pre).filter
      fun r => startsWith cp r.originalFilename).map date := by
    intro date
    exact List.mem_map_of_mem (List.mem_filter.mpr ⟨hr, startsWith_iff.mpr hcovers⟩)
  refine ⟨?_, ?_⟩
  · obtain ⟨t, ht⟩ := Option.isSome_iff_exists.mp
      (List.isSome_min?_of_mem (hdate fun r => instant r.dateUploaded))
    obtain ⟨hmem, hle⟩ := List.min?_eq_some_iff.mp ht
    refine ⟨t, ht, (mem_levelDates hpre _).mp hmem, ?_⟩
    intro u hu
    exact hle u ((mem_levelDates hpre _).mpr hu)
  · obtain ⟨t, ht⟩ := Option.isSome_iff_exists.mp
      (List.isSome_max?_of_mem (hdate fun r => instant r.dateModified))
    obtain ⟨hmem, hle⟩ := List.max?_eq_some_iff.mp ht
    refine ⟨t, ht, (mem_levelDates hpre _).mp hmem, ?_⟩
    intro u hu
    exact hle u ((mem_levelDates hpre _).mpr hu)

end rows

/-- The folders and the objects of a level, before they are cut into pages. -/
abbrev levelFolders (instant : Text → Int) (db : Db) (bucketId : Option Int) (pre : Text) :
    List FolderEntry :=
  (commonOf db bucketId pre).map fun cp =>
    folderEntryFromRows instant cp (levelRows db bucketId pre)

abbrev levelObjects (db : Db) (bucketId : Option Int) (pre : Text) : List ObjectRecord :=
  (levelRows db bucketId pre).filter fun r => levelOf pre ['/'] r.originalFilename == .object

/-- Without a limit there is one page. -/
theorem listObjects_whole (P : Platform) (instant : Text → Int) (db : Db)
    (bucketId : Option Int) (pre : Text) {offset limit : Int} (hoffset : offset ≤ 0)
    (hlimit : limit ≤ 0) :
    ∃ listing, listObjectsWithPrefix P instant db pre ['/'] none bucketId offset limit =
        some listing ∧ listing.folders = levelFolders instant db bucketId pre ∧
      listing.objects = levelObjects db bucketId pre ∧
      listing.total = listing.folders.length + listing.objects.length := by
  have hstart : offset.toNat = 0 := by omega
  refine ⟨_, listObjects_unbroken (by decide) (unbroken_slash db bucketId pre) offset, ?_, ?_, ?_⟩
  · simp [pageFolderObjectLists, slice, hstart, hlimit]
  · simp [pageFolderObjectLists, slice, hstart, hlimit]
  · simp [pageFolderObjectLists, slice, hstart, hlimit]

section level

variable {instant : Text → Int} {db : Db} {bucketId : Option Int} {pre : Text}
  {listing : PrefixListResult}

theorem level_count (hfolders : listing.folders = levelFolders instant db bucketId pre)
    (hobjects : listing.objects = levelObjects db bucketId pre) :
    (listing.folders.map (·.objectCount)).sum + listing.objects.length +
      (markersAt db bucketId pre).length = (rowsUnder db bucketId pre).length := by
  have htotal := @level_total db bucketId pre fun _ => 1
  simp only [total_one] at htotal
  rw [hfolders, hobjects, List.map_map]
  have hcounts : ((commonOf db bucketId pre).map fun cp => (((levelRows db bucketId pre).filter
      fun r => startsWith cp r.originalFilename).length : Int)).sum =
      (((commonOf db bucketId pre).map (FolderEntry.objectCount ∘ fun cp =>
        folderEntryFromRows instant cp (levelRows db bucketId pre))).sum : Nat) := by
    rw [Nat.cast_list_sum, List.map_map]
    rfl
  rw [hcounts] at htotal
  exact_mod_cast htotal

theorem level_bytes (hfolders : listing.folders = levelFolders instant db bucketId pre)
    (hobjects : listing.objects = levelObjects db bucketId pre) :
    (listing.folders.map (·.totalBytes)).sum + (listing.objects.map (·.filesizeBytes)).sum +
      ((markersAt db bucketId pre).map (·.filesizeBytes)).sum =
        ((rowsUnder db bucketId pre).map (·.filesizeBytes)).sum := by
  rw [hfolders, hobjects, List.map_map]
  exact level_total (·.filesizeBytes)

theorem mem_levelFolders {f : FolderEntry} : f ∈ levelFolders instant db bucketId pre ↔
    f.pre ∈ commonOf db bucketId pre ∧
      f = folderEntryFromRows instant f.pre (levelRows db bucketId pre) := by
  rw [List.mem_map]
  constructor
  · intro h
    obtain ⟨cp, hcp, rfl⟩ := h
    exact ⟨hcp, rfl⟩
  · intro h
    obtain ⟨hmem, heq⟩ := h
    exact ⟨f.pre, hmem, heq.symm⟩

/-- A row under the prefix of a level is in a folder, or an object, or a marker. -/
theorem mem_levelObjects {r : ObjectRecord} : r ∈ levelObjects db bucketId pre ↔
    r ∈ rowsUnder db bucketId pre ∧ levelOf pre ['/'] r.originalFilename = .object := by
  rw [List.mem_filter, beq_iff_eq, mem_rowsUnder, mem_candidates]
  constructor
  · intro h
    obtain ⟨hmem, hlevel⟩ := h
    exact ⟨⟨hmem, object_under hlevel⟩, hlevel⟩
  · intro h
    obtain ⟨⟨hmem, _⟩, hlevel⟩ := h
    exact ⟨hmem, hlevel⟩

theorem mem_markersAt {r : ObjectRecord} : r ∈ markersAt db bucketId pre ↔
    r ∈ rowsUnder db bucketId pre ∧ (groupOf pre r).isSome = false ∧
      levelOf pre ['/'] r.originalFilename ≠ .object := by
  rw [markersAt, rowsUnder, List.mem_filter, List.mem_filter, isMarkerAt_eq]
  simp only [Bool.and_eq_true, Bool.not_eq_true', beq_eq_false_iff_ne, and_assoc]

theorem countsOnce_level (hfolders : listing.folders = levelFolders instant db bucketId pre)
    (hobjects : listing.objects = levelObjects db bucketId pre) :
    CountsOnce db bucketId pre listing where
  count := level_count hfolders hobjects
  bytes := level_bytes hfolders hobjects
  folder r hr f hf hcovers := by
    rw [hfolders] at hf ⊢
    rw [hobjects]
    obtain ⟨hmem, hentry⟩ := mem_levelFolders.mp hf
    have hlevel := (covers_iff hmem).mp hcovers
    refine ⟨?_, ?_, ?_⟩
    · intro f' hf' hcovers'
      obtain ⟨hmem', hentry'⟩ := mem_levelFolders.mp hf'
      have hlevel' := (covers_iff hmem').mp hcovers'
      have hsame : f'.pre = f.pre := Level.folder.inj (hlevel'.symm.trans hlevel)
      rw [hentry', hentry, hsame]
    · intro hobject
      have := (mem_levelObjects.mp hobject).2
      rw [hlevel] at this
      cases this
    · intro hmarker
      have hgroup := (mem_markersAt.mp hmarker).2.1
      rw [groupOf, hlevel] at hgroup
      cases hgroup
  alone r hr hno := by
    rw [hobjects, mem_levelObjects, mem_markersAt]
    have hgroup : (groupOf pre r).isSome = false := by
      cases hlevel : groupOf pre r with
      | none => rfl
      | some cp =>
        have hfolder := pre?_eq_some.mp hlevel
        have hmem : cp ∈ commonOf db bucketId pre :=
          mem_commonOf.mpr ⟨r, (mem_candidates.mp (mem_rowsUnder.mp hr)).1, hfolder⟩
        refine absurd (folder_between hfolder).2 (hno
          (folderEntryFromRows instant cp (levelRows db bucketId pre)) ?_)
        rw [hfolders]
        exact List.mem_map_of_mem hmem
    simp [hr, hgroup]

end level

/-- The listing of a level without a limit counts every active row under the prefix once:
the folders, the objects and the markers of the level add up to the rows in number and in
bytes, and each folder has the dates of its rows. The sums of bytes are taken to stay below
2 ^ 63. -/
theorem level_counts_once (P : Platform) (instant : Text → Int) (db : Db)
    (bucketId : Option Int) (pre : Text) (offset limit : Int) (hoffset : offset ≤ 0)
    (hlimit : limit ≤ 0) :
    ∃ listing, listObjectsWithPrefix P instant db pre ['/'] none bucketId offset limit =
        some listing ∧ CountsOnce db bucketId pre listing ∧
      ∀ f ∈ listing.folders, DatedByRows instant db bucketId f := by
  obtain ⟨listing, hlisting, hfolders, hobjects, _⟩ :=
    listObjects_whole P instant db bucketId pre hoffset hlimit
  refine ⟨listing, hlisting, countsOnce_level hfolders hobjects, ?_⟩
  intro f hf
  rw [hfolders] at hf
  obtain ⟨cp, hcp, rfl⟩ := List.mem_map.mp hf
  exact datedByRows_folder instant hcp

theorem level_counts_once_photos :
    ∃ listing, listObjectsWithPrefix Platform.sample (fun _ => 0) twoFolders [] ['/'] none (some 1)
        0 0 = some listing ∧ CountsOnce twoFolders (some 1) [] listing ∧
      ∀ f ∈ listing.folders, DatedByRows (fun _ => 0) twoFolders (some 1) f :=
  level_counts_once Platform.sample (fun _ => 0) twoFolders (some 1) [] 0 0 (by decide) (by decide)

end MyS3.LevelTotals
