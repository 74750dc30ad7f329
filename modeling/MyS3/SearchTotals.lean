import MyS3.SearchFolders

/-!
The totals of the folders of a search. They are computed from the rows that the search
selects, those of a listing from all rows under the folder, so they agree as long as the
search selects every row under each folder that it shows.
-/

namespace MyS3.SearchTotals

open Library.Strings Library.Tables Library.Timestamps Library.Like
open Models Objects Database Engine Repository Listings FolderPrefixes Delimiters LevelTotals
open SearchFolders

section entries

variable (P : Platform) (instant : Text → Int) (db : Db) (bucketId : Option Int)

/-- A search shows an entry for a folder, on some page. -/
def SearchEntry (q : Text) (f : FolderEntry) : Prop :=
  ∃ pre delimiter offset limit result,
    listObjectsWithPrefix P instant db pre delimiter (some q) bucketId offset limit =
      some result ∧ f ∈ result.folders

/-- The listing of a level shows an entry for a folder, on some page. -/
def LevelEntry (parent : Text) (f : FolderEntry) : Prop :=
  ∃ offset limit result,
    listObjectsWithPrefix P instant db parent ['/'] none bucketId offset limit = some result ∧
      f ∈ result.folders

structure SameTotals (f g : FolderEntry) : Prop where
  count : f.objectCount = g.objectCount
  bytes : f.totalBytes = g.totalBytes
  created : f.dateCreated = g.dateCreated
  modified : f.dateModified = g.dateModified

/-- The listing of the parent of a folder has an entry for it, with the same totals. -/
def AgreesWithLevel (f : FolderEntry) : Prop :=
  ∃ folder : Folder, folder.text = f.pre ∧
    (∃ g, LevelEntry P instant db bucketId folder.parent g ∧ g.pre = f.pre) ∧
    ∀ g, LevelEntry P instant db bucketId folder.parent g → g.pre = f.pre → SameTotals f g

end entries

/-- There are rows under a folder, and a search selects each of them. -/
def SelectsWhole (db : Db) (bucketId : Option Int) (q : Text) (folder : Folder) : Prop :=
  rowsUnder db bucketId folder.text ≠ [] ∧
    ∀ r ∈ rowsUnder db bucketId folder.text, ContainsFolded q r.originalFilename

theorem min?_perm {l l' : List Int} (h : l.Perm l') : l.min? = l'.min? := by
  apply Option.ext
  intro a
  simp only [List.min?_eq_some_iff, h.mem_iff]

theorem max?_perm {l l' : List Int} (h : l.Perm l') : l.max? = l'.max? := by
  apply Option.ext
  intro a
  simp only [List.max?_eq_some_iff, h.mem_iff]

/-- The order of the rows does not matter to a folder. -/
theorem folderEntryFromRows_perm (instant : Text → Int) {pre : Text} {rows rows' : List ObjectRecord}
    (h : (rows.filter fun r => startsWith pre r.originalFilename).Perm rows') :
    folderEntryFromRows instant pre rows = {
      pre := pre
      dateCreated := (rows'.map fun r => instant r.dateUploaded).min?
      dateModified := (rows'.map fun r => instant r.dateModified).max?
      totalBytes := (rows'.map (·.filesizeBytes)).sum
      objectCount := rows'.length } := by
  unfold folderEntryFromRows
  simp only [min?_perm (h.map _), max?_perm (h.map _), (h.map _).sum_eq, h.length_eq]

section folder

variable {P : Platform} {instant : Text → Int} {db : Db} {bucketId : Option Int} {q : Text}
  {folder : Folder}

/-- The rows of a query that begin with a prefix are those under the prefix that match the
pattern. -/
theorem rowsLike_under_perm (pattern pre : Text) : ((rowsLike db bucketId pattern).filter fun r =>
    startsWith pre r.originalFilename).Perm ((rowsUnder db bucketId pre).filter fun r =>
      like (some '\\') pattern r.originalFilename) := by
  have hperm := (List.perm_insertionSort (fun a b : ObjectRecord =>
    textLe a.originalFilename b.originalFilename = true) (db.object.rows.filter fun r =>
      isActive r && bucketId.all (· == r.bucketId) &&
        like (some '\\') pattern r.originalFilename)).filter fun r =>
          startsWith pre r.originalFilename
  refine hperm.trans (List.Perm.of_eq ?_)
  unfold rowsUnder
  rw [List.filter_filter, List.filter_filter]
  apply List.filter_congr
  intro r _
  unfold isUnder
  rw [Bool.eq_iff_iff]
  simp only [Bool.and_eq_true]
  tauto

/-- The query of the parent selects every row under a folder. -/
theorem levelRows_under_perm : ((levelRows db bucketId folder.parent).filter fun r =>
    startsWith folder.text r.originalFilename).Perm (rowsUnder db bucketId folder.text) := by
  refine (rowsLike_under_perm _ _).trans (List.Perm.of_eq (List.filter_eq_self.mpr ?_))
  intro r hr
  have hcovers := (isUnder_iff.mp (List.mem_filter.mp hr).2).2.2
  have hparent : folder.parent <+: r.originalFilename := by
    rw [Folder.text, List.append_assoc] at hcovers
    exact (List.prefix_append _ _).trans hcovers
  rw [likeEscape_eq_escape, like_escape_prefix (by decide)]
  exact hparent.map foldCase

/-- A folder is a folder of the level of its parent. -/
theorem levelOf_folder {key : Text} (h : folder.text <+: key) :
    levelOf folder.parent ['/'] key = .folder folder.text := by
  have hcut : Cut folder.parent ['/'] key folder.text := by
    refine ⟨h, ⟨folder.name, rfl⟩, ?_⟩
    intro before hbefore
    by_contra hlt
    have hshorter : folder.parent ++ before ++ ['/'] <+: folder.parent ++ folder.name := by
      refine List.prefix_of_prefix_length_le hbefore
        ((List.prefix_append _ ['/']).trans h) ?_
      have hlen : folder.text.length = (folder.parent ++ folder.name).length + 1 := by
        simp only [Folder.text, List.length_append, List.length_singleton]
      omega
    rw [List.append_assoc, List.prefix_append_right_inj] at hshorter
    exact folder.plain (hshorter.subset (by simp))
  obtain ⟨_, _, _, _, _, hlevel⟩ :=
    levelOf_of_hasDelimiter hcut.hasDelimiter (ShareListings.levelOf_slash_ne_broken _ key)
  rw [hlevel, hcut.eq_of_covers (cut_of_levelOf hlevel) (ShareListings.folder_between hlevel).2]

theorem mem_commonOf_folder :
    folder.text ∈ commonOf db bucketId folder.parent ↔ rowsUnder db bucketId folder.text ≠ [] := by
  rw [mem_commonOf, ← List.length_pos_iff, List.length_pos_iff_exists_mem]
  have hparent : folder.parent <+: folder.text := by
    rw [Folder.text, List.append_assoc]
    exact List.prefix_append _ _
  constructor
  · intro h
    obtain ⟨r, hr, hlevel⟩ := h
    refine ⟨r, (levelRows_under hparent).mp (List.mem_filter.mpr ⟨hr, ?_⟩)⟩
    exact startsWith_iff.mpr (ShareListings.folder_between hlevel).2
  · intro h
    obtain ⟨r, hr⟩ := h
    obtain ⟨hmem, hcovers⟩ := List.mem_filter.mp ((levelRows_under hparent).mpr hr)
    exact ⟨r, hmem, levelOf_folder (startsWith_iff.mp hcovers)⟩

/-- The listing of the parent has an entry for each folder with rows under it, and one only. -/
theorem levelEntry_iff {f : FolderEntry} (hf : f.pre = folder.text) :
    LevelEntry P instant db bucketId folder.parent f ↔
      rowsUnder db bucketId folder.text ≠ [] ∧
        f = folderEntryFromRows instant folder.text (levelRows db bucketId folder.parent) := by
  have hmem : f ∈ levelFolders instant db bucketId folder.parent ↔
      rowsUnder db bucketId folder.text ≠ [] ∧
        f = folderEntryFromRows instant folder.text (levelRows db bucketId folder.parent) := by
    rw [mem_levelFolders, hf, mem_commonOf_folder]
  rw [← hmem]
  constructor
  · intro h
    obtain ⟨offset, limit, result, hresult, hfolder⟩ := h
    rw [listObjects_unbroken (by decide)
      (ShareListings.unbroken_slash db bucketId folder.parent) offset] at hresult
    rw [← Option.some.inj hresult] at hfolder
    exact mem_slice hfolder
  · intro hfolder
    obtain ⟨result, hresult, hfolders, _⟩ :=
      listObjects_whole P instant db bucketId folder.parent (le_refl 0) (le_refl 0)
    exact ⟨0, 0, result, hresult, hfolders ▸ hfolder⟩

theorem searchEntry_iff (hq : q ≠ []) {f : FolderEntry} : SearchEntry P instant db bucketId q f ↔
    ∃ folder : Folder, (∃ r ∈ searchRows db bucketId q, Adds P q r.originalFilename folder) ∧
      f = folderEntryFromRows instant folder.text (searchRows db bucketId q) := by
  have hmem : f ∈ (searchFolderPrefixes P q (searchRows db bucketId q)).map (fun cp =>
      folderEntryFromRows instant cp (searchRows db bucketId q)) ↔
      ∃ folder : Folder, (∃ r ∈ searchRows db bucketId q, Adds P q r.originalFilename folder) ∧
        f = folderEntryFromRows instant folder.text (searchRows db bucketId q) := by
    simp only [List.mem_map, searchFolderPrefixes, mem_sortedSet, List.mem_flatMap,
      mem_searchFolders]
    constructor
    · intro h
      obtain ⟨_, ⟨r, hr, folder, rfl, hadds⟩, rfl⟩ := h
      exact ⟨folder, ⟨r, hr, hadds⟩, rfl⟩
    · intro h
      obtain ⟨folder, ⟨r, hr, hadds⟩, rfl⟩ := h
      exact ⟨folder.text, ⟨r, hr, folder, rfl, hadds⟩, rfl⟩
  rw [← hmem]
  unfold SearchEntry
  simp only [listObjects_search P instant db bucketId hq, Option.some.injEq]
  constructor
  · intro h
    obtain ⟨pre, delimiter, offset, limit, _, rfl, hfolder⟩ := h
    exact mem_slice hfolder
  · intro hfolder
    refine ⟨[], [], 0, 0, _, rfl, ?_⟩
    simpa [pageFolderObjectLists, slice] using hfolder

/-- The rows under a folder that a search selects are as many as all of them only if they are
all of them. -/
theorem sameTotals_iff : SameTotals
    (folderEntryFromRows instant folder.text (searchRows db bucketId q))
    (folderEntryFromRows instant folder.text (levelRows db bucketId folder.parent)) ↔
      ∀ r ∈ rowsUnder db bucketId folder.text, ContainsFolded q r.originalFilename := by
  have hselected : ∀ t, like (some '\\') ('%' :: likeEscape q ++ ['%']) t = true ↔
      ContainsFolded q t := by
    intro t
    rw [likeEscape_eq_escape]
    exact like_escape_infix (by decide)
  rw [folderEntryFromRows_perm instant (rowsLike_under_perm _ _),
    folderEntryFromRows_perm instant levelRows_under_perm]
  constructor
  · intro h r hr
    exact (hselected _).mp (List.length_filter_eq_length_iff.mp h.count r hr)
  · intro h
    rw [List.filter_eq_self.mpr fun r hr => (hselected _).mpr (h r hr)]
    exact ⟨rfl, rfl, rfl, rfl⟩

end folder

end MyS3.SearchTotals
