import MyS3.FolderPrefixes

/-!
The listing of one level under any delimiter. The code cuts a key after the first byte of
the delimiter that it finds. That is the whole delimiter when it is one ASCII character;
a longer delimiter is cut short, and one that begins with a longer character makes the
code panic.
-/

namespace MyS3.Delimiters

open Library.Strings Library.Tables Library.Like
open Models Objects Database Engine Repository Listings FolderPrefixes Http S3Routes

/-- An active row of the listed buckets whose key starts with the prefix. -/
structure Candidate (db : Db) (bucketId : Option Int) (pre : Text) (r : ObjectRecord) : Prop where
  mem : r ∈ db.object.rows
  active : r.deletedAt = none
  bucket : bucketId.all (· == r.bucketId) = true
  key : pre <+: r.originalFilename

/-- After the prefix, the key has the delimiter somewhere. -/
def HasDelimiter (pre delimiter key : Text) : Prop := ∃ before, pre ++ before ++ delimiter <+: key

/-- The prefix, with the rest of the key through the whole first delimiter. -/
structure Cut (pre delimiter key cp : Text) : Prop where
  covers : cp <+: key
  ends : ∃ before, cp = pre ++ before ++ delimiter
  first : ∀ before, pre ++ before ++ delimiter <+: key →
    cp.length ≤ (pre ++ before ++ delimiter).length

theorem Cut.hasDelimiter {pre delimiter key cp : Text} (h : Cut pre delimiter key cp) :
    HasDelimiter pre delimiter key := by
  obtain ⟨before, rfl⟩ := h.ends
  exact ⟨before, h.covers⟩

/-- A cut of another key that covers the key is its own cut. -/
theorem Cut.eq_of_covers {pre delimiter key key' cp cp' : Text} (h : Cut pre delimiter key cp)
    (h' : Cut pre delimiter key' cp') (hcovers : cp' <+: key) : cp' = cp := by
  obtain ⟨before, rfl⟩ := h.ends
  obtain ⟨before', rfl⟩ := h'.ends
  have hle := h.first before' hcovers
  have hpre : pre ++ before ++ delimiter <+: pre ++ before' ++ delimiter :=
    List.prefix_of_prefix_length_le h.covers hcovers hle
  have hle' := h'.first before (hpre.trans h'.covers)
  exact (hpre.eq_of_length (le_antisymm hle hle')).symm

theorem hasDelimiter_append {pre delimiter rest : Text} :
    HasDelimiter pre delimiter (pre ++ rest) ↔ ∃ i, delimiter <+: rest.drop i := by
  constructor
  · intro h
    obtain ⟨before, hbefore⟩ := h
    rw [List.append_assoc, List.prefix_append_right_inj] at hbefore
    obtain ⟨after, rfl⟩ := hbefore
    refine ⟨before.length, after, ?_⟩
    simp
  · intro h
    obtain ⟨i, after, hafter⟩ := h
    refine ⟨rest.take i, after, ?_⟩
    rw [List.append_assoc, List.append_assoc, hafter, List.take_append_drop]

/-- The cut that the found delimiter gives. -/
theorem cut_of_findText (pre : Text) {delimiter rest : Text} {i : Nat}
    (h : findText delimiter rest = some i) :
    Cut pre delimiter (pre ++ rest) (pre ++ rest.take i ++ delimiter) := by
  obtain ⟨after, hafter⟩ := findText_eq_some h
  refine ⟨⟨after, ?_⟩, ⟨rest.take i, rfl⟩, ?_⟩
  · rw [List.append_assoc, List.append_assoc, hafter, List.take_append_drop]
  · intro before hbefore
    rw [List.append_assoc, List.prefix_append_right_inj] at hbefore
    obtain ⟨rest', rfl⟩ := hbefore
    have hle : i ≤ before.length := by
      by_contra hlt
      exact findText_first h (Nat.lt_of_not_le hlt) ⟨rest', by simp⟩
    simp only [List.length_append, List.length_take]
    omega

/-- The code cuts after the first byte of the delimiter, which then is one character. -/
def beginsAscii (delimiter : Text) : Bool := delimiter.head?.all fun c => decide (c.toNat < 128)

/-- What becomes of a key in the listing of a level. -/
inductive Placed (pre delimiter key : Text) : Level → Prop
  | outside (away : ¬ pre <+: key) : Placed pre delimiter key .hidden
  | marker (under : pre <+: key) (whole : ¬ HasDelimiter pre delimiter key)
      (keep : baseName key = keepMarker) : Placed pre delimiter key .hidden
  | object (under : pre <+: key) (whole : ¬ HasDelimiter pre delimiter key)
      (keep : baseName key ≠ keepMarker) : Placed pre delimiter key .object
  | folder (rest : Text) (i : Nat) (split : key = pre ++ rest)
      (found : findText delimiter rest = some i) (ascii : beginsAscii delimiter = true) :
      Placed pre delimiter key (.folder (pre ++ rest.take (i + 1)))
  | broken (rest : Text) (i : Nat) (split : key = pre ++ rest)
      (found : findText delimiter rest = some i) (wide : beginsAscii delimiter = false) :
      Placed pre delimiter key .broken

theorem placed_levelOf (pre delimiter key : Text) :
    Placed pre delimiter key (levelOf pre delimiter key) := by
  unfold levelOf
  cases hrest : stripPrefix pre key with
  | none => exact .outside (stripPrefix_eq_none.mp hrest)
  | some rest =>
    have hkey : pre ++ rest = key := stripPrefix_eq_some.mp hrest
    simp only
    cases hfind : findText delimiter rest with
    | none =>
      have hwhole : ¬ HasDelimiter pre delimiter key := by
        rw [← hkey, hasDelimiter_append]
        intro h
        obtain ⟨i, hi⟩ := h
        exact findText_eq_none hfind (hi.isInfix.trans (List.drop_suffix i rest).isInfix)
      simp only
      split_ifs with hkeep
      · exact .marker ⟨rest, hkey⟩ hwhole hkeep
      · exact .object ⟨rest, hkey⟩ hwhole hkeep
    | some i =>
      simp only
      split_ifs with hascii
      · exact .folder rest i hkey.symm hfind hascii
      · exact .broken rest i hkey.symm hfind (Bool.not_eq_true _ ▸ hascii)

theorem mem_candidates {db : Db} {bucketId : Option Int} {pre : Text} {r : ObjectRecord} :
    Candidate db bucketId pre r ↔
      r ∈ rowsLike db bucketId (likeEscape pre ++ ['%']) ∧ pre <+: r.originalFilename := by
  simp only [rowsLike, List.mem_insertionSort, List.mem_filter, Bool.and_eq_true, isActive_iff]
  constructor
  · intro h
    obtain ⟨hmem, hactive, hbucket, hkey⟩ := h
    have hunder : underPrefix pre r.originalFilename = true :=
      underPrefix_iff.mpr (foldedPrefix_of_isPrefix hkey)
    exact ⟨⟨hmem, ⟨hactive, hbucket⟩, hunder⟩, hkey⟩
  · intro h
    obtain ⟨⟨hmem, ⟨hactive, hbucket⟩, _⟩, hkey⟩ := h
    exact ⟨hmem, hactive, hbucket, hkey⟩

/-- A delimiter of one character is cut whole. -/
theorem cut_of_levelOf {pre key cp : Text} {c : Char} (h : levelOf pre [c] key = .folder cp) :
    Cut pre [c] key cp := by
  have hplaced := placed_levelOf pre [c] key
  rw [h] at hplaced
  cases hplaced with
  | folder rest i hkey hfind =>
    obtain ⟨after, hafter⟩ := findText_eq_some hfind
    have htake : rest.take (i + 1) = rest.take i ++ [c] := by
      rw [List.take_add, ← hafter]
      rfl
    rw [hkey, htake, ← List.append_assoc]
    exact cut_of_findText _ hfind

section listing

variable (P : Platform) (instant : Text → Int) (db : Db) (pre delimiter : Text)
  (bucketId : Option Int) (limit : Int)

/-- Some page of the listing has the row as an object. -/
def ShowsObject (r : ObjectRecord) : Prop :=
  ∃ offset result, listObjectsWithPrefix P instant db pre delimiter none bucketId offset limit =
    some result ∧ r ∈ result.objects

/-- Some page of the listing has the common prefix. -/
def ShowsPrefix (cp : Text) : Prop :=
  ∃ offset result, listObjectsWithPrefix P instant db pre delimiter none bucketId offset limit =
    some result ∧ cp ∈ result.commonPrefixes

/-- The listing answers, and its pages show every candidate once: as an object, or by the
one common prefix that ends with its first delimiter. A `.keep` marker is no object. -/
structure ListsWhole : Prop where
  answers : ∀ offset,
    (listObjectsWithPrefix P instant db pre delimiter none bucketId offset limit).isSome = true
  object : ∀ r, ShowsObject P instant db pre delimiter bucketId limit r ↔
    Candidate db bucketId pre r ∧ ¬ HasDelimiter pre delimiter r.originalFilename ∧
      baseName r.originalFilename ≠ keepMarker
  folder : ∀ r, Candidate db bucketId pre r → HasDelimiter pre delimiter r.originalFilename →
    ∃ cp, Cut pre delimiter r.originalFilename cp ∧
      ∀ cp', ShowsPrefix P instant db pre delimiter bucketId limit cp' ∧
        cp' <+: r.originalFilename ↔ cp' = cp
  noOther : ∀ cp, ShowsPrefix P instant db pre delimiter bucketId limit cp →
    ∃ r, Candidate db bucketId pre r ∧ Cut pre delimiter r.originalFilename cp

section levels

variable {P instant db pre delimiter bucketId limit}

theorem listObjects_delimited (h : delimiter ≠ []) (offset : Int) :
    listObjectsWithPrefix P instant db pre delimiter none bucketId offset limit =
      if ∃ r ∈ rowsLike db bucketId (likeEscape pre ++ ['%']),
          levelOf pre delimiter r.originalFilename = .broken then none
      else
        let rows := rowsLike db bucketId (likeEscape pre ++ ['%'])
        some (pageFolderObjectLists
          ((sortedSet (rows.filterMap fun r => (levelOf pre delimiter r.originalFilename).pre?)).map
            fun cp => folderEntryFromRows instant cp rows)
          (rows.filter fun r => levelOf pre delimiter r.originalFilename == .object)
          pre delimiter offset limit) := by
  unfold listObjectsWithPrefix
  simp only [Option.filter_none, if_neg h, List.any_eq_true, beq_iff_eq]

/-- No row of the listing makes it panic. -/
def Unbroken (db : Db) (bucketId : Option Int) (pre delimiter : Text) : Prop :=
  ∀ r ∈ rowsLike db bucketId (likeEscape pre ++ ['%']),
    levelOf pre delimiter r.originalFilename ≠ .broken

theorem listObjects_unbroken (h : delimiter ≠ []) (hwhole : Unbroken db bucketId pre delimiter)
    (offset : Int) :
    listObjectsWithPrefix P instant db pre delimiter none bucketId offset limit =
      let rows := rowsLike db bucketId (likeEscape pre ++ ['%'])
      some (pageFolderObjectLists
        ((sortedSet (rows.filterMap fun r => (levelOf pre delimiter r.originalFilename).pre?)).map
          fun cp => folderEntryFromRows instant cp rows)
        (rows.filter fun r => levelOf pre delimiter r.originalFilename == .object)
        pre delimiter offset limit) := by
  rw [listObjects_delimited h, if_neg]
  intro h'
  obtain ⟨r, hr, hbroken⟩ := h'
  exact hwhole r hr hbroken

theorem unbroken_of_answers (h : delimiter ≠ [])
    (hanswers : (listObjectsWithPrefix P instant db pre delimiter none bucketId 0 limit).isSome =
      true) : Unbroken db bucketId pre delimiter := by
  intro r hr hbroken
  rw [listObjects_delimited h, if_pos ⟨r, hr, hbroken⟩] at hanswers
  cases hanswers

theorem showsObject_iff (h : delimiter ≠ []) (hwhole : Unbroken db bucketId pre delimiter)
    {r : ObjectRecord} : ShowsObject P instant db pre delimiter bucketId limit r ↔
      r ∈ rowsLike db bucketId (likeEscape pre ++ ['%']) ∧
        levelOf pre delimiter r.originalFilename = .object := by
  unfold ShowsObject
  simp only [listObjects_unbroken h hwhole, Option.some.injEq, exists_eq_left']
  rw [mem_page_objects, List.mem_filter, beq_iff_eq]

theorem pre?_eq_some {level : Level} {cp : Text} : level.pre? = some cp ↔ level = .folder cp := by
  cases level <;> simp [Level.pre?]

theorem showsPrefix_iff (h : delimiter ≠ []) (hwhole : Unbroken db bucketId pre delimiter)
    {cp : Text} : ShowsPrefix P instant db pre delimiter bucketId limit cp ↔
      ∃ r ∈ rowsLike db bucketId (likeEscape pre ++ ['%']),
        levelOf pre delimiter r.originalFilename = .folder cp := by
  unfold ShowsPrefix
  simp only [listObjects_unbroken h hwhole, Option.some.injEq, exists_eq_left']
  rw [mem_page_prefixes, List.map_map]
  have hid : (FolderEntry.pre ∘ fun cp => folderEntryFromRows instant cp
      (rowsLike db bucketId (likeEscape pre ++ ['%']))) = id := rfl
  rw [hid, List.map_id, mem_sortedSet, List.mem_filterMap]
  simp only [pre?_eq_some]

/-- A key with the delimiter after the prefix is in a folder, unless it makes the code panic. -/
theorem levelOf_of_hasDelimiter {key : Text} (h : HasDelimiter pre delimiter key)
    (hwhole : levelOf pre delimiter key ≠ .broken) :
    beginsAscii delimiter = true ∧ ∃ rest i, key = pre ++ rest ∧
      findText delimiter rest = some i ∧
      levelOf pre delimiter key = .folder (pre ++ rest.take (i + 1)) := by
  have hplaced := placed_levelOf pre delimiter key
  generalize hlevel : levelOf pre delimiter key = level at hplaced hwhole
  cases hplaced with
  | outside haway =>
    obtain ⟨before, hbefore⟩ := h
    rw [List.append_assoc] at hbefore
    exact absurd ((List.prefix_append _ _).trans hbefore) haway
  | marker _ hno _ => exact absurd h hno
  | object _ hno _ => exact absurd h hno
  | folder rest i hkey hfind hascii => exact ⟨hascii, rest, i, hkey, hfind, rfl⟩
  | broken => exact absurd rfl hwhole

/-- The listing is whole when the code cuts every key after its first whole delimiter. -/
theorem listsWhole_of_cuts (h : delimiter ≠ []) (hwhole : Unbroken db bucketId pre delimiter)
    (hcut : ∀ r ∈ rowsLike db bucketId (likeEscape pre ++ ['%']), ∀ cp,
      levelOf pre delimiter r.originalFilename = .folder cp →
        Cut pre delimiter r.originalFilename cp) :
    ListsWhole P instant db pre delimiter bucketId limit where
  answers offset := by
    rw [listObjects_unbroken h hwhole]
    rfl
  object r := by
    rw [showsObject_iff h hwhole]
    have hplaced := placed_levelOf pre delimiter r.originalFilename
    constructor
    · intro h'
      obtain ⟨hr, hlevel⟩ := h'
      rw [hlevel] at hplaced
      cases hplaced with
      | object hunder hno hkeep => exact ⟨mem_candidates.mpr ⟨hr, hunder⟩, hno, hkeep⟩
    · intro h'
      obtain ⟨hr, hno, hkeep⟩ := h'
      obtain ⟨hmem, hunder⟩ := mem_candidates.mp hr
      refine ⟨hmem, ?_⟩
      generalize levelOf pre delimiter r.originalFilename = level at hplaced
      cases hplaced with
      | outside haway => exact absurd hunder haway
      | marker _ _ hmarker => exact absurd hmarker hkeep
      | object => rfl
      | folder rest i hkey hfind =>
        have hcut := cut_of_findText pre hfind
        exact absurd (hkey ▸ hcut.hasDelimiter) hno
      | broken rest i hkey hfind =>
        have hcut := cut_of_findText pre hfind
        exact absurd (hkey ▸ hcut.hasDelimiter) hno
  folder r hr hdelim := by
    obtain ⟨hmem, _⟩ := mem_candidates.mp hr
    obtain ⟨_, rest, i, _, _, hlevel⟩ := levelOf_of_hasDelimiter hdelim (hwhole r hmem)
    refine ⟨_, hcut r hmem _ hlevel, fun cp' => ⟨?_, ?_⟩⟩
    · intro h'
      obtain ⟨hshows, hcovers⟩ := h'
      obtain ⟨r', hmem', hlevel'⟩ := (showsPrefix_iff h hwhole).mp hshows
      exact (hcut r hmem _ hlevel).eq_of_covers (hcut r' hmem' _ hlevel') hcovers
    · intro h'
      obtain rfl := h'
      exact ⟨(showsPrefix_iff h hwhole).mpr ⟨r, hmem, hlevel⟩, (hcut r hmem _ hlevel).covers⟩
  noOther cp hshows := by
    obtain ⟨r, hmem, hlevel⟩ := (showsPrefix_iff h hwhole).mp hshows
    have hc := hcut r hmem cp hlevel
    refine ⟨r, mem_candidates.mpr ⟨hmem, ?_⟩, hc⟩
    obtain ⟨before, rfl⟩ := hc.ends
    rw [List.append_assoc] at hc
    exact (List.prefix_append _ _).trans hc.covers

/-- The cut after one byte of a longer delimiter is no cut after a whole one. -/
theorem short_cut_not_whole {rest key : Text} {i : Nat}
    (hfind : findText delimiter rest = some i) (hlong : 1 < delimiter.length) :
    ¬ Cut pre delimiter key (pre ++ rest.take (i + 1)) := by
  intro hcut
  obtain ⟨before, hbefore⟩ := hcut.ends
  rw [List.append_assoc] at hbefore
  have htake : rest.take (i + 1) = before ++ delimiter := List.append_cancel_left hbefore
  have hlen := congrArg List.length htake
  simp only [List.length_take, List.length_append] at hlen
  refine findText_first hfind (j := before.length) (by omega) ?_
  have hdrop : delimiter <+: (rest.take (i + 1)).drop before.length := by
    rw [htake, List.drop_left]
  exact hdrop.trans ((List.take_prefix _ _).drop _)

end levels

/-- The listing of a level is whole exactly when the delimiter is one ASCII character, or
none of the keys under the prefix has it. -/
theorem lists_whole_iff (h : delimiter ≠ []) :
    ListsWhole P instant db pre delimiter bucketId limit ↔
      (∃ c, delimiter = [c] ∧ c.toNat < 128) ∨
        ∀ r, Candidate db bucketId pre r → ¬ HasDelimiter pre delimiter r.originalFilename := by
  constructor
  · intro hlists
    have hwhole := unbroken_of_answers h (hlists.answers 0)
    by_contra hcond
    simp only [not_or, not_forall, not_not] at hcond
    obtain ⟨hsingle, r, hr, hdelim⟩ := hcond
    obtain ⟨hmem, _⟩ := mem_candidates.mp hr
    obtain ⟨hascii, rest, i, _, hfind, hlevel⟩ := levelOf_of_hasDelimiter hdelim (hwhole r hmem)
    obtain ⟨_, _, hcut⟩ := hlists.noOther _ ((showsPrefix_iff h hwhole).mpr ⟨r, hmem, hlevel⟩)
    refine short_cut_not_whole hfind ?_ hcut
    cases delimiter with
    | nil => exact absurd rfl h
    | cons c tail =>
      cases tail with
      | nil => exact absurd ⟨c, rfl, by simpa [beginsAscii] using hascii⟩ hsingle
      | cons d tail => simp
  · intro h'
    rcases h' with ⟨c, rfl, hascii⟩ | hnone
    · apply listsWhole_of_cuts h
      · intro r _ hbroken
        have hplaced := placed_levelOf pre [c] r.originalFilename
        rw [hbroken] at hplaced
        cases hplaced with
        | broken rest i hkey hfind hwide => simp [beginsAscii, hascii] at hwide
      · intro r _ cp hlevel
        exact cut_of_levelOf hlevel
    · have hdelim : ∀ r ∈ rowsLike db bucketId (likeEscape pre ++ ['%']), ∀ rest i,
          r.originalFilename = pre ++ rest → findText delimiter rest = some i → False := by
        intro r hr rest i hkey hfind
        refine hnone r (mem_candidates.mpr ⟨hr, ?_⟩) ?_
        · rw [hkey]
          exact List.prefix_append _ _
        · rw [hkey]
          exact (cut_of_findText pre hfind).hasDelimiter
      apply listsWhole_of_cuts h
      · intro r hr hbroken
        have hplaced := placed_levelOf pre delimiter r.originalFilename
        rw [hbroken] at hplaced
        cases hplaced with
        | broken rest i hkey hfind => exact hdelim r hr rest i hkey hfind
      · intro r hr cp hlevel
        have hplaced := placed_levelOf pre delimiter r.originalFilename
        rw [hlevel] at hplaced
        cases hplaced with
        | folder rest i hkey hfind => exact absurd hfind fun hf => hdelim r hr rest i hkey hf

end listing

theorem lists_whole_slash :
    ListsWhole Platform.sample (fun _ => 0) twoFolders [] ['/'] (some 1) 50 ↔
      (∃ c, ['/'] = [c] ∧ c.toNat < 128) ∨ ∀ r, Candidate twoFolders (some 1) [] r →
        ¬ HasDelimiter [] ['/'] r.originalFilename :=
  lists_whole_iff Platform.sample (fun _ => 0) twoFolders [] ['/'] (some 1) 50 (by decide)

/-- A delimiter of two characters leaves `a-` for the key `a--b`, which ends with no whole
delimiter, and one beyond ASCII in a key makes the listing panic. -/
theorem long_delimiter_cut_short :
    let listing (key delimiter : Text) := listObjectsWithPrefix Platform.sample (fun _ => 0)
      (holding [key]).db [] delimiter none (some 1) 0 50
    ((listing "a--b".toList "--".toList).map fun l => (l.objects, l.commonPrefixes)) =
        some ([], ["a-".toList]) ∧
      ¬ Cut [] "--".toList "a--b".toList "a-".toList ∧
      listing "aéb".toList "é".toList = none := by
  have hfind : findText "--".toList "a--b".toList = some 1 := by decide
  exact ⟨by decide, short_cut_not_whole hfind (by decide), by decide⟩

end MyS3.Delimiters
