import MyS3.Listings
import MyS3.S3Routes

/-!
What a folder prefix selects. The soft delete, the key listing and the test for objects
select the keys that begin with the prefix up to the case of ASCII letters. For a key
that does not differ from the prefix by case alone, all of them agree with the listing
of the folder, apart from the `.keep` markers that a listing does not show.
-/

namespace MyS3.FolderPrefixes

open Library.Strings Library.Tables Library.Like
open Models Objects Database Engine Repository Keys Listings Http S3Routes

/-- A key begins with a prefix, up to the case of ASCII letters. -/
def FoldedPrefix (p key : Text) : Prop := p.map foldCase <+: key.map foldCase

/-- A key that does not differ from a prefix by letter case alone. -/
def CaseExact (p key : Text) : Prop := FoldedPrefix p key → p <+: key

/-- An active row of a bucket. -/
def ActiveIn (db : Db) (b : Int) (r : ObjectRecord) : Prop :=
  r ∈ db.object.rows ∧ r.deletedAt = none ∧ r.bucketId = b

/-- The flat listing of a prefix shows a row, on some page. -/
def FlatListed (P : Platform) (instant : Text → Int) (db : Db) (b : Int) (p : Text)
    (limit : Int) (r : ObjectRecord) : Prop :=
  ∃ offset result, listObjectsWithPrefix P instant db p [] none (some b) offset limit =
    some result ∧ r ∈ result.objects

/-- The listing of a folder level shows a row, as an object or in a folder, on some page. -/
def LevelListed (P : Platform) (instant : Text → Int) (db : Db) (b : Int) (p : Text)
    (limit : Int) (r : ObjectRecord) : Prop :=
  ∃ offset result, listObjectsWithPrefix P instant db p ['/'] none (some b) offset limit =
    some result ∧ (r ∈ result.objects ∨ ∃ cp ∈ result.commonPrefixes, cp <+: r.originalFilename)

/-- The soft delete of a prefix recycles a row. -/
def RecycledByPrefix (db : Db) (now : Instant) (b : Int) (p : Text) (r : ObjectRecord) : Prop :=
  (recycle now).apply r ∈ (softDeletePrefix db now b p).2.object.rows

theorem likeEscape_eq_escape (t : Text) : likeEscape t = escape '\\' t := rfl

theorem underPrefix_iff {p key : Text} : underPrefix p key = true ↔ FoldedPrefix p key := by
  unfold underPrefix
  rw [likeEscape_eq_escape]
  exact like_escape_prefix (by decide)

/-- `like_escape`, as the three replacements that the source makes one after another. -/
def likeEscapeInTurn (t : Text) : Text :=
  replaceChar '_' ['\\', '_'] (replaceChar '%' ['\\', '%'] (replaceChar '\\' ['\\', '\\'] t))

theorem likeEscapeInTurn_eq (t : Text) : likeEscapeInTurn t = likeEscape t := by
  rw [likeEscape_eq_escape]
  exact escape_eq_replace (by decide) (by decide) t

/-- The pattern of a prefix matches the texts whose first characters are the prefix, up to the
case of ASCII letters. -/
theorem prefix_pattern_exact (p s : Text) :
    like (some '\\') (likeEscapeInTurn p ++ ['%']) s = true ↔
      (s.take p.length).map foldCase = p.map foldCase := by
  rw [likeEscapeInTurn_eq, likeEscape_eq_escape, like_escape_prefix (by decide),
    List.prefix_iff_eq_take, List.length_map, List.map_take]
  exact eq_comm

theorem foldedPrefix_of_isPrefix {p key : Text} (h : p <+: key) : FoldedPrefix p key := h.map foldCase

theorem underPrefix_of_caseExact {p key : Text} (h : CaseExact p key) :
    underPrefix p key = true ↔ p <+: key := by
  rw [underPrefix_iff]
  exact ⟨h, foldedPrefix_of_isPrefix⟩

theorem recycledByPrefix_iff {db : Db} (now : Instant) {b : Int} {p : Text} {r : ObjectRecord}
    (hr : ActiveIn db b r) :
    RecycledByPrefix db now b p r ↔ underPrefix p r.originalFilename = true := by
  obtain ⟨hmem, hactive, hbucket⟩ := hr
  unfold RecycledByPrefix softDeletePrefix
  simp only [Db.updateObjects_rows, mem_updateRows]
  constructor
  · intro h
    rcases h with ⟨hkept, _⟩ | ⟨a, ha, hp, heq⟩
    · -- The recycled row has the id of the active one, so it is no old row.
      have hsame := db.object.eq_of_id hkept hmem rfl
      have hdeleted : ((recycle now).apply r).deletedAt ≠ none := by simp [recycle]
      exact absurd (hsame ▸ hactive) hdeleted
    · have hid : a.id = r.id := congrArg (·.id) heq
      rw [db.object.eq_of_id ha hmem hid] at hp
      simp only [Bool.and_eq_true] at hp
      exact hp.2
  · intro hunder
    exact Or.inr ⟨r, hmem, by simp [isActive, hactive, hbucket, hunder], rfl⟩

/-- The prefix query of a listing returns the rows under the prefix. -/
theorem mem_prefixRows {db : Db} {b : Int} {p : Text} {r : ObjectRecord} :
    r ∈ rowsLike db (some b) (likeEscape p ++ ['%']) ↔
      ActiveIn db b r ∧ underPrefix p r.originalFilename = true := by
  rw [mem_rowsLike]
  unfold ActiveIn underPrefix
  tauto

theorem flatListed_iff {P : Platform} {instant : Text → Int} {db : Db} {b : Int} {p : Text}
    {limit : Int} {r : ObjectRecord} :
    FlatListed P instant db b p limit r ↔ (ActiveIn db b r ∧
      underPrefix p r.originalFilename = true) ∧ baseName r.originalFilename ≠ keepMarker := by
  have hlist : ∀ offset, listObjectsWithPrefix P instant db p [] none (some b) offset limit =
      some (pageFolderObjectLists [] ((rowsLike db (some b) (likeEscape p ++ ['%'])).filter
        fun r => baseName r.originalFilename != keepMarker) p [] offset limit) := by
    intro offset
    simp [listObjectsWithPrefix]
  unfold FlatListed
  simp only [hlist, Option.some.injEq, exists_eq_left']
  rw [mem_page_objects, List.mem_filter, mem_prefixRows, bne_iff_ne]

theorem levelOf_folder {pre key rest : Text} {idx : Nat}
    (hrest : stripPrefix pre key = some rest) (hfind : findText ['/'] rest = some idx) :
    levelOf pre ['/'] key = .folder (pre ++ rest.take (idx + 1)) := by
  have hascii : ((['/'] : Text).head?.all fun c => decide (c.toNat < 128)) = true := by decide
  unfold levelOf
  rw [hrest]
  simp only
  rw [hfind]
  simp only [hascii, if_true]

theorem levelOf_object {pre key rest : Text} (hrest : stripPrefix pre key = some rest)
    (hfind : findText ['/'] rest = none) :
    levelOf pre ['/'] key = if baseName key = keepMarker then .hidden else .object := by
  unfold levelOf
  rw [hrest]
  simp only
  rw [hfind]

/-- Where a key shows in the listing of a folder: in a folder below, as an object, or not
at all when it is the marker of the folder or not below it. -/
inductive Shown (folder key : Text) : Level → Prop
  | folder (cp : Text) (hkey : cp <+: key) (hbelow : folder ++ ['/'] <+: cp)
      (hslash : '/' ∈ cp.drop (folder.length + 1)) : Shown folder key (.folder cp)
  | object (hkey : folder ++ ['/'] <+: key) (hmarker : key ≠ folder ++ '/' :: keepMarker) :
      Shown folder key .object
  | marker (hkey : key = folder ++ '/' :: keepMarker) : Shown folder key .hidden
  | outside (hkey : ¬ folder ++ ['/'] <+: key) : Shown folder key .hidden

theorem shown_levelOf (folder key : Text) :
    Shown folder key (levelOf (folder ++ ['/']) ['/'] key) := by
  cases hrest : stripPrefix (folder ++ ['/']) key with
  | none =>
    have hlevel : levelOf (folder ++ ['/']) ['/'] key = .hidden := by
      unfold levelOf
      rw [hrest]
    rw [hlevel]
    exact .outside (stripPrefix_eq_none.mp hrest)
  | some rest =>
    have hkey : (folder ++ ['/']) ++ rest = key := stripPrefix_eq_some.mp hrest
    have hcons : key = folder ++ '/' :: rest := by simp [← hkey]
    cases hfind : findText ['/'] rest with
    | some idx =>
      rw [levelOf_folder hrest hfind]
      have hdrop : ((folder ++ ['/']) ++ rest.take (idx + 1)).drop (folder.length + 1) =
          rest.take (idx + 1) := List.drop_left' (by simp)
      refine .folder _ ?_ (List.prefix_append _ _) ?_
      · rw [← hkey]
        exact (List.prefix_append_right_inj _).mpr (List.take_prefix _ _)
      · rw [hdrop]
        exact mem_take_of_findText hfind
    | none =>
      have hbase : baseName key = rest := by
        rw [hcons]
        exact baseName_append (not_mem_of_findText hfind)
      rw [levelOf_object hrest hfind, hbase]
      by_cases hkeep : rest = keepMarker
      · rw [if_pos hkeep]
        exact .marker (by rw [hcons, hkeep])
      · rw [if_neg hkeep]
        refine .object ⟨rest, hkey⟩ ?_
        intro heq
        rw [hcons] at heq
        exact hkeep (by simpa using heq)

theorem levelOf_slash_ne_broken (folder key : Text) :
    levelOf (folder ++ ['/']) ['/'] key ≠ .broken := by
  have hshown := shown_levelOf folder key
  intro hbroken
  rw [hbroken] at hshown
  cases hshown

/-- The folders of a level, before they are cut into pages. -/
def foldersOf (db : Db) (b : Int) (p : Text) : List Text :=
  sortedSet ((rowsLike db (some b) (likeEscape p ++ ['%'])).filterMap fun r =>
    (levelOf p ['/'] r.originalFilename).pre?)

def objectsOf (db : Db) (b : Int) (p : Text) : List ObjectRecord :=
  (rowsLike db (some b) (likeEscape p ++ ['%'])).filter fun r =>
    levelOf p ['/'] r.originalFilename == .object

theorem listObjects_level (P : Platform) (instant : Text → Int) (db : Db) (b : Int)
    (folder : Text) (offset limit : Int) :
    listObjectsWithPrefix P instant db (folder ++ ['/']) ['/'] none (some b) offset limit =
      some (pageFolderObjectLists ((foldersOf db b (folder ++ ['/'])).map fun cp =>
          folderEntryFromRows instant cp
            (rowsLike db (some b) (likeEscape (folder ++ ['/']) ++ ['%'])))
        (objectsOf db b (folder ++ ['/'])) (folder ++ ['/']) ['/'] offset limit) := by
  have hwhole : ((rowsLike db (some b) (likeEscape (folder ++ ['/']) ++ ['%'])).any fun r =>
      levelOf (folder ++ ['/']) ['/'] r.originalFilename == .broken) = false := by
    rw [List.any_eq_false]
    intro r _ hbroken
    exact levelOf_slash_ne_broken folder r.originalFilename (by simpa using hbroken)
  unfold listObjectsWithPrefix
  simp only [Option.filter_none, hwhole, Bool.false_eq_true, if_false, reduceCtorEq]
  rfl

/-- A row is shown below a folder, on some page, as an object or in a folder of the level. -/
theorem levelListed_iff_mem {P : Platform} {instant : Text → Int} {db : Db} {b : Int}
    {folder : Text} {limit : Int} {r : ObjectRecord} :
    LevelListed P instant db b (folder ++ ['/']) limit r ↔
      r ∈ objectsOf db b (folder ++ ['/']) ∨
        ∃ cp ∈ foldersOf db b (folder ++ ['/']), cp <+: r.originalFilename := by
  unfold LevelListed
  simp only [listObjects_level, Option.some.injEq, exists_eq_left']
  rw [exists_or, mem_page_objects]
  refine or_congr Iff.rfl ?_
  constructor
  · intro h
    obtain ⟨offset, cp, hcp, hkey⟩ := h
    have hmem := mem_page_prefixes.mp ⟨offset, hcp⟩
    refine ⟨cp, ?_, hkey⟩
    simpa [folderEntryFromRows] using hmem
  · intro h
    obtain ⟨cp, hcp, hkey⟩ := h
    have hmem : cp ∈ ((foldersOf db b (folder ++ ['/'])).map fun cp =>
        folderEntryFromRows instant cp
          (rowsLike db (some b) (likeEscape (folder ++ ['/']) ++ ['%']))).map (·.pre) := by
      simpa [folderEntryFromRows] using hcp
    obtain ⟨offset, hpage⟩ := mem_page_prefixes.mpr hmem
    exact ⟨offset, cp, hpage, hkey⟩

theorem levelListed_iff {P : Platform} {instant : Text → Int} {db : Db} {b : Int}
    {folder : Text} {limit : Int} {r : ObjectRecord} (hr : ActiveIn db b r) :
    LevelListed P instant db b (folder ++ ['/']) limit r ↔
      folder ++ ['/'] <+: r.originalFilename ∧
        r.originalFilename ≠ (folder ++ ['/']) ++ keepMarker := by
  have hmarker : (folder ++ ['/']) ++ keepMarker = folder ++ '/' :: keepMarker := by simp
  rw [levelListed_iff_mem, hmarker]
  constructor
  · intro h
    rcases h with hobject | ⟨cp, hcp, hkey⟩
    · have hlevel : levelOf (folder ++ ['/']) ['/'] r.originalFilename = .object := by
        simpa using (List.mem_filter.mp hobject).2
      have hshown := shown_levelOf folder r.originalFilename
      rw [hlevel] at hshown
      cases hshown with
      | object hpre hne => exact ⟨hpre, hne⟩
    · obtain ⟨a, _, ha⟩ := List.mem_filterMap.mp (mem_sortedSet.mp hcp)
      have hlevel : levelOf (folder ++ ['/']) ['/'] a.originalFilename = .folder cp := by
        cases hl : levelOf (folder ++ ['/']) ['/'] a.originalFilename with
        | folder pre =>
          rw [hl] at ha
          rw [Option.some.inj ha]
        | hidden => simp [hl, Level.pre?] at ha
        | object => simp [hl, Level.pre?] at ha
        | broken => simp [hl, Level.pre?] at ha
      have hshown := shown_levelOf folder a.originalFilename
      rw [hlevel] at hshown
      cases hshown with
      | folder _ _ hbelow hslash =>
        refine ⟨hbelow.trans hkey, ?_⟩
        intro heq
        rw [heq] at hkey
        have hdrop : (folder ++ '/' :: keepMarker).drop (folder.length + 1) = keepMarker := by
          rw [← hmarker]
          exact List.drop_left' (by simp)
        have hmem := (hkey.drop (folder.length + 1)).subset hslash
        rw [hdrop] at hmem
        exact absurd hmem (by decide)
  · intro h
    obtain ⟨hpre, hne⟩ := h
    have hrow : r ∈ rowsLike db (some b) (likeEscape (folder ++ ['/']) ++ ['%']) :=
      mem_prefixRows.mpr ⟨hr, underPrefix_iff.mpr (foldedPrefix_of_isPrefix hpre)⟩
    have hshown := shown_levelOf folder r.originalFilename
    cases hl : levelOf (folder ++ ['/']) ['/'] r.originalFilename with
    | folder cp =>
      rw [hl] at hshown
      cases hshown with
      | folder _ hkey _ _ =>
        refine Or.inr ⟨cp, mem_sortedSet.mpr (List.mem_filterMap.mpr ⟨r, hrow, ?_⟩), hkey⟩
        rw [hl]
        rfl
    | object => exact Or.inl (List.mem_filter.mpr ⟨hrow, by simp [hl]⟩)
    | hidden =>
      rw [hl] at hshown
      cases hshown with
      | marker hkey => exact absurd hkey hne
      | outside hno => exact absurd hpre hno
    | broken => exact absurd hl (levelOf_slash_ne_broken folder r.originalFilename)

/-- A normalized folder prefix ends in a slash. -/
theorem normalizeFolderPrefix_slash {raw p : Text} (h : normalizeFolderPrefix raw = .ok p) :
    ∃ folder, p = folder ++ ['/'] := by
  unfold normalizeFolderPrefix at h
  simp only at h
  split_ifs at h
  cases h
  exact ⟨_, rfl⟩

/-- What the operations on a folder prefix do with one active row of the bucket. -/
structure Selection (P : Platform) (instant : Text → Int) (db : Db) (now : Instant) (b : Int)
    (p : Text) (limit : Int) (r : ObjectRecord) : Prop where
  deleted : RecycledByPrefix db now b p r ↔ p <+: r.originalFilename
  keys : r ∈ listKeysUnderPrefix db b p ↔ p <+: r.originalFilename
  flat : FlatListed P instant db b p limit r ↔
    p <+: r.originalFilename ∧ baseName r.originalFilename ≠ keepMarker
  level : LevelListed P instant db b p limit r ↔
    p <+: r.originalFilename ∧ r.originalFilename ≠ p ++ keepMarker
  deletedLevel : RecycledByPrefix db now b p r ↔
    LevelListed P instant db b p limit r ∨ r.originalFilename = p ++ keepMarker

/-- A node with the given keys in its default bucket. -/
def holding (keys : List Text) : AppState :=
  (keys.zipIdx.foldl (fun s key => (putObject Platform.sample s Instant.epoch
    (Uuid.numbered key.2) key.1 [] [some [97]] {}).2) (AppState.migrated "node-1".toList))

def twoFolders : Db :=
  (holding ["Photos/a.jpg".toList, "photos/b.jpg".toList, "photos/.keep".toList]).db

end MyS3.FolderPrefixes
