import MyS3.FolderPrefixes
import MyS3.ReadRoutes

/-!
The entries of a folder archive. The query selects by LIKE, so it may return keys that do not
begin with the prefix. Keys that were normalized have no segment which would leave the folder
that the archive is extracted to; the filters leave the markers out, and the keys with a NUL
after the prefix.
-/

namespace MyS3.ArchiveEntries

open Library.Strings Library.Paths Library.Tables Library.Like
open Models Objects Database Engine Repository Listings Keys FolderPrefixes ReadRoutes

/-- A key of the folder that an archive has: no marker, and without a NUL after the prefix. -/
structure Archived (pre key : Text) : Prop where
  covers : pre <+: key
  object : baseName key ≠ keepMarker
  plain : '\x00' ∉ key.drop pre.length

/-- A name that is extracted below the folder it is extracted in. -/
structure Extractable (name : Text) : Prop where
  relative : name.head? ≠ some '/'
  segments : ∀ seg ∈ split '/' name, seg ≠ [] ∧ seg ≠ ['.'] ∧ seg ≠ ['.', '.']

/-- An archive has one entry for each key of the folder, and no other ones. -/
structure ArchiveOf (root : Path) (db : Db) (b : Int) (pre : Text) (entries : List (Text × Path)) :
    Prop where
  entry : ∀ r, ActiveIn db b r → Archived pre r.originalFilename →
    ∃ name, r.originalFilename = pre ++ name ∧
      entries.filter (fun e => e.1 == name) = [(name, absolutePathFor root r.filepath)]
  only : ∀ e ∈ entries, ∃ r, ActiveIn db b r ∧ Archived pre r.originalFilename ∧
    r.originalFilename = pre ++ e.1 ∧ e.2 = absolutePathFor root r.filepath
  distinct : (entries.map (·.1)).Nodup
  extractable : ∀ e ∈ entries, Extractable e.1

theorem archiveEntry_eq_some {pre name : Text} {r : ObjectRecord} :
    archiveEntry pre r = some name ↔ pre ++ name = r.originalFilename ∧
      baseName r.originalFilename ≠ keepMarker ∧ name ≠ [] ∧ '\x00' ∉ name ∧
        ∀ seg ∈ split '/' name, seg ≠ ['.'] ∧ seg ≠ ['.', '.'] := by
  unfold archiveEntry
  by_cases hbase : baseName r.originalFilename = keepMarker
  · simp [hbase]
  · rw [if_neg hbase, Option.filter_eq_some_iff, stripPrefix_eq_some]
    simp [hbase, and_assoc]

theorem validSegments_iff {key : Text} : validSegments key = true ↔
    ∀ seg ∈ split '/' key, seg ≠ [] ∧ seg ≠ ['.'] ∧ seg ≠ ['.', '.'] := by
  simp [validSegments, and_assoc]

/-- What follows a folder prefix has segments of the key only. -/
theorem validSegments_rest {folder name : Text}
    (h : validSegments (folder ++ ['/'] ++ name) = true) : validSegments name = true := by
  rw [validSegments_iff] at h ⊢
  intro seg hseg
  apply h
  rw [split, List.append_assoc, List.singleton_append, List.splitOn_append_cons_self]
  exact List.mem_append_right _ hseg

theorem extractable_of_valid {name : Text} (h : validSegments name = true) : Extractable name := by
  refine ⟨?_, validSegments_iff.mp h⟩
  intro hhead
  obtain ⟨rest, rfl⟩ := List.head?_eq_some_iff.mp hhead
  have hempty : [] ∈ split '/' ('/' :: rest) := by
    rw [split, ← List.nil_append ('/' :: rest), List.splitOn_append_cons_self]
    exact List.mem_append_left _ (by simp)
  exact (validSegments_iff.mp h [] hempty).1 rfl

section entries

variable {root : Path} {db : Db} {b : Int} {pre : Text}

theorem mem_entries {e : Text × Path} :
    e ∈ filterArchiveEntries root pre (listKeysUnderPrefix db b pre) ↔
      ∃ r, ActiveIn db b r ∧ archiveEntry pre r = some e.1 ∧
        e.2 = absolutePathFor root r.filepath := by
  simp only [filterArchiveEntries, List.mem_filterMap, Option.map_eq_some_iff]
  constructor
  · intro h
    obtain ⟨r, hr, name, hname, rfl⟩ := h
    obtain ⟨hmem, hactive, hbucket, _⟩ := mem_listKeysUnderPrefix.mp hr
    exact ⟨r, ⟨hmem, hactive, hbucket⟩, hname, rfl⟩
  · intro h
    obtain ⟨r, ⟨hmem, hactive, hbucket⟩, hname, hpath⟩ := h
    -- A key that begins with the prefix is selected by the pattern.
    have hcovers : pre <+: r.originalFilename := ⟨e.1, (archiveEntry_eq_some.mp hname).1⟩
    have hunder := underPrefix_iff.mpr (foldedPrefix_of_isPrefix hcovers)
    exact ⟨r, mem_listKeysUnderPrefix.mpr ⟨hmem, hactive, hbucket, hunder⟩, e.1, hname,
      Prod.ext rfl hpath.symm⟩

/-- The active keys of a bucket are different, and so are the names. -/
theorem names_nodup :
    ((filterArchiveEntries root pre (listKeysUnderPrefix db b pre)).map (·.1)).Nodup := by
  have hrows : (listKeysUnderPrefix db b pre).Pairwise fun r r' => r.id ≠ r'.id := by
    refine ((List.perm_insertionSort _ _).pairwise_iff fun h => Ne.symm h).mpr ?_
    exact db.object.id_unique.sublist List.filter_sublist
  unfold filterArchiveEntries
  rw [List.map_filterMap]
  refine List.pairwise_filterMap.mpr (hrows.imp_of_mem ?_)
  intro r r' hr hr' hne name hname name' hname' heq
  simp only [Option.map_map, Option.map_eq_some_iff, Function.comp_apply,
    exists_eq_right] at hname hname'
  subst heq
  obtain ⟨hmem, hactive, hbucket, _⟩ := mem_listKeysUnderPrefix.mp hr
  obtain ⟨hmem', hactive', hbucket', _⟩ := mem_listKeysUnderPrefix.mp hr'
  have hkey := (archiveEntry_eq_some.mp hname).1
  have hkey' := (archiveEntry_eq_some.mp hname').1
  exact hne (congrArg ObjectRecord.id (db.object.eq_of_active hmem hmem' hactive hactive'
    (hbucket.trans hbucket'.symm) (hkey.symm.trans hkey')))

/-- With pairwise different names, the entries of one name are that entry. -/
theorem filter_name {entries : List (Text × Path)} (hnames : (entries.map (·.1)).Nodup)
    {e : Text × Path} (he : e ∈ entries) : entries.filter (fun x => x.1 == e.1) = [e] := by
  induction entries with
  | nil => cases he
  | cons x rest ih =>
    rw [List.map_cons, List.nodup_cons] at hnames
    rcases List.mem_cons.mp he with rfl | hrest
    · rw [List.filter_cons_of_pos (by simp), List.filter_eq_nil_iff.mpr]
      intro y hy heq
      exact hnames.1 (beq_iff_eq.mp heq ▸ List.mem_map_of_mem hy)
    · have hne : ¬ (x.1 == e.1) = true := by
        intro heq
        exact hnames.1 (beq_iff_eq.mp heq ▸ List.mem_map_of_mem hrest)
      rw [List.filter_cons_of_neg (p := fun y : Text × Path => y.1 == e.1) hne]
      exact ih hnames.2 hrest

end entries

/-- Where every active key was normalized, the archive of a normalized folder has one entry for
each key of the folder that is no marker and has no NUL after the prefix, under a name that
stays below the folder it is extracted in, with the blob of that key. -/
theorem archive_entries_exact (root : Path) (db : Db) (b : Int) (raw pre : Text)
    (hpre : normalizeFolderPrefix raw = .ok pre)
    (hkeys : ∀ r, ActiveIn db b r → ∃ raw, normalizeObjectKey raw = .ok r.originalFilename) :
    ArchiveOf root db b pre (filterArchiveEntries root pre (listKeysUnderPrefix db b pre)) := by
  obtain ⟨folder, rfl⟩ := normalizeFolderPrefix_slash hpre
  have hvalid : ∀ r name, ActiveIn db b r → folder ++ ['/'] ++ name = r.originalFilename →
      validSegments name = true := by
    intro r name hr hname
    obtain ⟨_, hraw⟩ := hkeys r hr
    exact validSegments_rest (hname ▸ (normalizeObjectKey_valid hraw).2)
  refine ⟨?_, ?_, names_nodup, ?_⟩
  · intro r hr harchived
    obtain ⟨name, hname⟩ := harchived.covers
    have hsegments := validSegments_iff.mp (hvalid r name hr hname)
    have hplain := harchived.plain
    rw [← hname, List.drop_left] at hplain
    have hne : name ≠ [] := by
      intro hnil
      exact (hsegments [] (by simp [hnil, split])).1 rfl
    refine ⟨name, hname.symm, filter_name (e := (name, absolutePathFor root r.filepath))
      names_nodup (mem_entries.mpr ⟨r, hr, ?_, rfl⟩)⟩
    exact archiveEntry_eq_some.mpr
      ⟨hname, harchived.object, hne, hplain, fun seg hseg => (hsegments seg hseg).2⟩
  · intro e he
    obtain ⟨r, hr, hentry, hpath⟩ := mem_entries.mp he
    obtain ⟨hname, hobject, _, hplain, _⟩ := archiveEntry_eq_some.mp hentry
    refine ⟨r, hr, ⟨⟨e.1, hname⟩, hobject, ?_⟩, hname.symm, hpath⟩
    rwa [← hname, List.drop_left]
  · intro e he
    obtain ⟨r, hr, hentry, _⟩ := mem_entries.mp he
    exact extractable_of_valid (hvalid r e.1 hr (archiveEntry_eq_some.mp hentry).1)

/-- A key with a NUL in the name of its folder. -/
def nulKey : Text := ['a', '\x00', '/', 'b']

def nulFolder : Db := (holding [nulKey]).db

theorem archive_entries_exact_nul :
    ArchiveOf [] nulFolder 1 ['a', '\x00', '/']
      (filterArchiveEntries [] ['a', '\x00', '/']
        (listKeysUnderPrefix nulFolder 1 ['a', '\x00', '/'])) := by
  refine archive_entries_exact [] nulFolder 1 ['a', '\x00'] ['a', '\x00', '/'] (by decide) ?_
  intro r hr
  have hall : ∀ r ∈ nulFolder.object.rows, normalizeObjectKey nulKey = .ok r.originalFilename := by
    decide
  exact ⟨nulKey, hall r hr.1⟩

/-- The archive of the folder has an entry for the key. -/
theorem nul_in_prefix_archived :
    normalizeFolderPrefix ['a', '\x00'] = .ok ['a', '\x00', '/'] ∧
      normalizeObjectKey nulKey = .ok nulKey ∧
      (∀ r ∈ nulFolder.object.rows, r.originalFilename = nulKey ∧ '\x00' ∈ r.originalFilename) ∧
      (filterArchiveEntries [] ['a', '\x00', '/']
        (listKeysUnderPrefix nulFolder 1 ['a', '\x00', '/'])).map (·.1) = [['b']] := by
  decide

end MyS3.ArchiveEntries
