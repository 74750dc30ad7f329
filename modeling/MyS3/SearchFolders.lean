import Mathlib.Data.List.TakeWhile
import MyS3.LevelTotals

/-!
The folders of a search. The rows are those whose whole key contains the text. A `.keep`
marker adds the folder it is in, whatever the name of that folder is, and no other one; every
other key adds the folders above it whose names contain the text.
-/

namespace MyS3.SearchFolders

open Library.Strings Library.Tables Library.Like
open Models Objects Database Engine Repository Listings FolderPrefixes

/-- A folder: the folders above it, and its name. -/
structure Folder where
  parent : Text
  name : Text
  parent_ends : parent = [] ∨ parent.getLast? = some '/'
  plain : '/' ∉ name

namespace Folder

def text (f : Folder) : Text := f.parent ++ f.name ++ ['/']

/-- The folder with the empty name at the top. -/
def slash : Folder where
  parent := []
  name := []
  parent_ends := .inl rfl
  plain := by simp

theorem text_getLast (f : Folder) : f.text.getLast? = some '/' := by simp [text]

theorem text_append_ne (f : Folder) (t : Text) : f.text ++ t ≠ t := by
  intro h
  have hlen := congrArg List.length h
  simp only [text, List.length_append, List.length_singleton] at hlen
  omega

/-- The parent of a folder ends right before its name. -/
theorem parent_eq_of_ends {a b s t : Text} (ha : a = [] ∨ a.getLast? = some '/') (ht : '/' ∉ t)
    (hlen : b.length ≤ a.length) (h : a ++ s = b ++ t) : a = b := by
  obtain ⟨x, rfl⟩ : b <+: a :=
    List.prefix_of_prefix_length_le (h ▸ List.prefix_append b t) (List.prefix_append a s) hlen
  rw [List.append_assoc, List.append_cancel_left_eq] at h
  rcases List.eq_nil_or_concat x with rfl | ⟨y, c, rfl⟩
  · simp
  · rcases ha with hnil | hlast
    · simp at hnil
    · have hc : c = '/' := by simpa using hlast
      rw [hc] at h
      exact absurd (h ▸ by simp) ht

theorem text_injective {f g : Folder} (h : f.text = g.text) : f = g := by
  have hcut : f.parent ++ f.name = g.parent ++ g.name := List.append_cancel_right h
  have hparent : f.parent = g.parent := by
    rcases Nat.le_total g.parent.length f.parent.length with hlen | hlen
    · exact parent_eq_of_ends f.parent_ends g.plain hlen hcut
    · exact (parent_eq_of_ends g.parent_ends f.plain hlen hcut.symm).symm
  rw [hparent, List.append_cancel_left_eq] at hcut
  cases f
  cases g
  simp_all

end Folder

/-- What is before the last segment is empty or ends in a slash. -/
theorem baseName_split (key : Text) :
    '/' ∉ baseName key ∧
      ∃ parent, (parent = [] ∨ parent.getLast? = some '/') ∧ key = parent ++ baseName key := by
  have hplain : '/' ∉ baseName key := by
    intro h
    simpa using List.mem_takeWhile_imp (List.mem_reverse.mp h)
  refine ⟨hplain, (key.reverse.dropWhile (· != '/')).reverse, ?_, ?_⟩
  · rw [List.getLast?_reverse]
    have hhead := List.head?_dropWhile_not (· != '/') key.reverse
    cases hdrop : key.reverse.dropWhile (· != '/') with
    | nil => exact Or.inl rfl
    | cons c rest =>
      rw [hdrop] at hhead
      right
      simpa using hhead
  · unfold baseName
    rw [← List.reverse_append, List.takeWhile_append_dropWhile, List.reverse_reverse]

/-- Every text that ends in a slash is that of a folder. -/
theorem exists_folder {t : Text} (h : t.getLast? = some '/') : ∃ f : Folder, f.text = t := by
  obtain ⟨u, rfl⟩ := List.getLast?_eq_some_iff.mp h
  obtain ⟨hplain, parent, hends, hu⟩ := baseName_split u
  exact ⟨⟨parent, baseName u, hends, hplain⟩, by rw [Folder.text, ← hu]⟩

theorem not_mem_keepMarker : '/' ∉ keepMarker := by decide

/-- A marker is in a folder, or at the top of its bucket. -/
theorem baseName_eq_keepMarker {key : Text} : baseName key = keepMarker ↔
    key = keepMarker ∨ ∃ f : Folder, key = f.text ++ keepMarker := by
  constructor
  · intro hbase
    obtain ⟨_, parent, hends, hkey⟩ := baseName_split key
    rw [hbase] at hkey
    rcases hends with rfl | hends
    · exact Or.inl hkey
    · obtain ⟨f, rfl⟩ := exists_folder hends
      exact Or.inr ⟨f, hkey⟩
  · intro h
    rcases h with rfl | ⟨f, rfl⟩
    · decide
    · rw [Folder.text, List.append_assoc, List.singleton_append]
      exact baseName_append not_mem_keepMarker

/-- A key adds a folder to a search that its text selects. -/
inductive Adds (P : Platform) (q key : Text) (f : Folder) : Prop
  | marker (hkey : key = f.text ++ keepMarker)
  | topMarker (hkey : key = keepMarker) (hf : f = .slash)
  | above (hkey : baseName key ≠ keepMarker) (hcovers : f.text <+: key)
      (hname : P.toLowercase q <:+: P.toLowercase f.name)

theorem findText_isSome {d t : Text} : (findText d t).isSome = true ↔ d <:+: t := by
  constructor
  · intro h
    obtain ⟨i, hi⟩ := Option.isSome_iff_exists.mp h
    exact (findText_eq_some hi).isInfix.trans (List.drop_suffix i t).isInfix
  · intro h
    by_contra hnone
    exact findText_eq_none (Option.not_isSome_iff_eq_none.mp hnone) h

/-- Of two texts that begin alike, one segment and a slash end at the same place. -/
theorem segment_unique {a b s t : Text} (ha : '/' ∉ a) (hb : '/' ∉ b)
    (h : a ++ '/' :: s = b ++ '/' :: t) : a = b ∧ s = t := by
  have htake := congrArg (List.takeWhile (· != '/')) h
  have hall : ∀ {x : Text}, '/' ∉ x → ∀ c ∈ x, (c != '/') = true := by
    intro x hx c hc
    have hne : c ≠ '/' := fun heq => hx (heq ▸ hc)
    simpa using hne
  rw [List.takeWhile_append_of_pos (hall ha), List.takeWhile_append_of_pos (hall hb)] at htake
  simp only [List.takeWhile_cons, bne_self_eq_false, Bool.false_eq_true, if_false,
    List.append_nil] at htake
  subst htake
  simpa using h

/-- A folder above a key that goes on after its first segment is that segment, or goes on
after it as well. -/
theorem above_cons {seg t mid name : Text} (hseg : '/' ∉ seg) (hname : '/' ∉ name)
    (hmid : mid = [] ∨ mid.getLast? = some '/') (h : mid ++ name ++ ['/'] <+: seg ++ '/' :: t) :
    (mid = [] ∧ name = seg) ∨ ∃ mid', mid = seg ++ '/' :: mid' ∧
      (mid' = [] ∨ mid'.getLast? = some '/') ∧ mid' ++ name ++ ['/'] <+: t := by
  obtain ⟨after, hafter⟩ := h
  rcases hmid with rfl | hlast
  · left
    simp only [List.nil_append, List.append_assoc, List.singleton_append] at hafter
    exact ⟨rfl, (segment_unique hname hseg hafter).1⟩
  · right
    obtain ⟨x, mid', rfl, hx⟩ := List.eq_append_cons_of_mem (List.mem_of_getLast? hlast)
    simp only [List.append_assoc, List.cons_append] at hafter
    obtain ⟨rfl, rfl⟩ := segment_unique hx hseg hafter
    refine ⟨mid', rfl, ?_, after, by simp⟩
    by_cases hnil : mid' = []
    · exact Or.inl hnil
    · right
      rwa [List.append_cons, List.getLast?_append_of_ne_nil _ hnil] at hlast

theorem mem_foldersAbove {segs : List Text} (hsegs : ∀ s ∈ segs, '/' ∉ s) {above name F : Text} :
    (name, F) ∈ foldersAbove above segs ↔ ∃ mid, F = above ++ mid ++ name ++ ['/'] ∧ '/' ∉ name ∧
      (mid = [] ∨ mid.getLast? = some '/') ∧
      mid ++ name ++ ['/'] <+: ['/'].intercalate segs := by
  have hshort : ∀ {t mid : Text}, '/' ∉ t → ¬ mid ++ name ++ ['/'] <+: t := by
    intro t mid ht h
    exact ht (h.subset (by simp))
  induction segs generalizing above with
  | nil =>
    simp only [foldersAbove, List.not_mem_nil, false_iff, not_exists, not_and]
    intro mid _ _ _
    exact hshort (by simp)
  | cons seg rest ih =>
    have hseg := hsegs seg List.mem_cons_self
    cases rest with
    | nil =>
      simp only [foldersAbove, List.not_mem_nil, false_iff, not_exists, not_and]
      intro mid _ _ _
      exact hshort (by simpa using hseg)
    | cons next rest =>
      have hrest : (name, F) ∈ foldersAbove (above ++ seg ++ ['/']) (next :: rest) ↔ _ :=
        ih fun s hs => hsegs s (List.mem_cons_of_mem _ hs)
      have hjoin : ['/'].intercalate (seg :: next :: rest) =
          seg ++ '/' :: ['/'].intercalate (next :: rest) := by
        simp [List.intercalate_cons_cons]
      rw [foldersAbove, List.mem_cons, hrest, hjoin]
      constructor
      · intro h'
        rcases h' with heq | ⟨mid, rfl, hname, hmid, hcovers⟩
        · obtain ⟨rfl, rfl⟩ := Prod.mk.inj heq
          refine ⟨[], by simp, hseg, Or.inl rfl, ?_⟩
          exact ⟨['/'].intercalate (next :: rest), by simp⟩
        · refine ⟨seg ++ '/' :: mid, by simp, hname, ?_, ?_⟩
          · right
            rcases hmid with rfl | hlast
            · simp
            · rw [List.getLast?_append, List.getLast?_cons, hlast]
              rfl
          · obtain ⟨after, hafter⟩ := hcovers
            exact ⟨after, by rw [← hafter]; simp⟩
      · intro h'
        obtain ⟨mid, rfl, hname, hmid, hcovers⟩ := h'
        rcases above_cons hseg hname hmid hcovers with ⟨rfl, rfl⟩ | ⟨mid', rfl, hmid', hcovers'⟩
        · left
          simp
        · right
          exact ⟨mid', by simp, hname, hmid', hcovers'⟩

/-- The folders above a key, with their names. -/
theorem mem_foldersAbove_split {key name F : Text} : (name, F) ∈ foldersAbove [] (split '/' key) ↔
    ∃ f : Folder, f.text = F ∧ f.name = name ∧ F <+: key := by
  rw [mem_foldersAbove (fun _ hs => not_mem_of_mem_split hs), split, List.intercalate_splitOn]
  constructor
  · intro h
    obtain ⟨mid, rfl, hname, hmid, hcovers⟩ := h
    exact ⟨⟨mid, name, hmid, hname⟩, rfl, rfl, by simpa using hcovers⟩
  · intro h
    obtain ⟨f, rfl, rfl, hcovers⟩ := h
    exact ⟨f.parent, rfl, f.plain, f.parent_ends, hcovers⟩

theorem stripSuffix_append (t suf : Text) : stripSuffix suf (t ++ suf) = some t := by
  unfold stripSuffix
  rw [List.reverse_append, stripPrefix_eq_some.mpr rfl]
  simp

/-- What a key adds to a search. -/
theorem mem_searchFolders {P : Platform} {q key F : Text} :
    F ∈ searchFolders P q key ↔ ∃ f : Folder, f.text = F ∧ Adds P q key f := by
  unfold searchFolders
  by_cases hbase : baseName key = keepMarker
  · rw [if_pos hbase]
    rcases baseName_eq_keepMarker.mp hbase with rfl | ⟨g, rfl⟩
    · have hstrip : stripSuffix keepMarker keepMarker = some [] := stripSuffix_append [] keepMarker
      rw [hstrip]
      constructor
      · intro h
        exact ⟨.slash, (List.mem_singleton.mp h).symm, .topMarker rfl rfl⟩
      · intro h'
        rcases h' with ⟨f, rfl, hkey | ⟨_, rfl⟩ | ⟨hkey, _⟩⟩
        · exact absurd hkey.symm (f.text_append_ne keepMarker)
        · exact List.mem_singleton.mpr rfl
        · exact absurd hbase hkey
    · rw [stripSuffix_append]
      simp only [Folder.text_getLast, if_true, List.mem_singleton]
      constructor
      · intro h'
        obtain rfl := h'
        exact ⟨g, rfl, .marker rfl⟩
      · intro h'
        rcases h' with ⟨f, rfl, hkey | ⟨hkey, _⟩ | ⟨hkey, _⟩⟩
        · exact (List.append_cancel_right hkey).symm
        · exact absurd hkey (g.text_append_ne keepMarker)
        · exact absurd hbase hkey
  · rw [if_neg hbase]
    simp only [List.mem_map, List.mem_filter, findText_isSome, Prod.exists, mem_foldersAbove_split]
    constructor
    · intro h'
      obtain ⟨name, _, ⟨⟨f, hf, rfl, hcovers⟩, hname⟩, rfl⟩ := h'
      exact ⟨f, hf, .above hbase (hf ▸ hcovers) hname⟩
    · intro h'
      rcases h' with ⟨f, rfl, hkey | ⟨hkey, _⟩ | ⟨_, hcovers, hname⟩⟩
      · exact absurd (baseName_eq_keepMarker.mpr (.inr ⟨f, hkey⟩)) hbase
      · exact absurd (baseName_eq_keepMarker.mpr (.inl hkey)) hbase
      · exact ⟨f.name, f.text, ⟨⟨f, rfl, rfl, hcovers⟩, hname⟩, rfl⟩

def IsAscii (t : Text) : Prop := ∀ c ∈ t, c.toNat < 128

/-- Lower case changes the ASCII letters of an ASCII text, and nothing else. -/
def LowersAscii (P : Platform) : Prop := ∀ t, IsAscii t → P.toLowercase t = t.map Char.toLower

/-- A text has another one in it, up to the case of ASCII letters. -/
def ContainsFolded (q t : Text) : Prop := q.map foldCase <:+: t.map foldCase

theorem containsFolded_of_infix {q s t : Text} (h : ContainsFolded q s) (hst : s <:+: t) :
    ContainsFolded q t := h.trans (hst.map foldCase)

theorem containsFolded_nil {q : Text} : ContainsFolded q [] ↔ q = [] := by
  simp [ContainsFolded]

theorem lowercase_infix_iff {P : Platform} (hlower : LowersAscii P) {q t : Text} (hq : IsAscii q)
    (ht : IsAscii t) : P.toLowercase q <:+: P.toLowercase t ↔ ContainsFolded q t := by
  have hfold : Char.toLower = foldCase := (funext foldCase_eq_toLower).symm
  rw [hlower q hq, hlower t ht, hfold]
  rfl

/-- The rows that the query of a search selects. -/
abbrev searchRows (db : Db) (bucketId : Option Int) (q : Text) : List ObjectRecord :=
  rowsLike db bucketId ('%' :: likeEscape q ++ ['%'])

theorem listObjects_search (P : Platform) (instant : Text → Int) (db : Db)
    (bucketId : Option Int) {q : Text} (hq : q ≠ []) (pre delimiter : Text) (offset limit : Int) :
    listObjectsWithPrefix P instant db pre delimiter (some q) bucketId offset limit =
      some (pageFolderObjectLists
        ((searchFolderPrefixes P q (searchRows db bucketId q)).map fun cp =>
          folderEntryFromRows instant cp (searchRows db bucketId q))
        ((searchRows db bucketId q).filter fun r => baseName r.originalFilename != keepMarker)
        pre delimiter offset limit) := by
  have hsome : (some q).filter (fun t => decide (t ≠ [])) = some q := by simp [hq]
  unfold listObjectsWithPrefix
  rw [hsome]

theorem mem_searchRows {db : Db} {b : Int} {q : Text} {r : ObjectRecord} :
    r ∈ searchRows db (some b) q ↔
      ActiveIn db b r ∧ ContainsFolded q r.originalFilename := by
  rw [mem_rowsLike, likeEscape_eq_escape, List.cons_append, like_escape_infix (by decide)]
  simp only [ActiveIn, ContainsFolded, and_assoc]

section search

variable (P : Platform) (instant : Text → Int) (db : Db) (b : Int) (q pre delimiter : Text)
  (limit : Int)

/-- A search of a bucket shows a folder, on some page. -/
def SearchListed (F : Text) : Prop :=
  ∃ offset result, listObjectsWithPrefix P instant db pre delimiter (some q) (some b) offset limit =
    some result ∧ F ∈ result.commonPrefixes

/-- A folder prefix of an active key, where the name of the folder has the text in it. -/
def MatchingFolder (F : Text) : Prop :=
  ∃ f : Folder, f.text = F ∧ ContainsFolded q f.name ∧
    ∃ r, ActiveIn db b r ∧ F <+: r.originalFilename

/-- The markers of a bucket stand for the folders that a text asks for. -/
structure MarkersMatch : Prop where
  /-- A marker whose key has the text is in a folder whose name has it. -/
  named : ∀ r, ActiveIn db b r → baseName r.originalFilename = keepMarker →
    ContainsFolded q r.originalFilename →
      ∃ f : Folder, r.originalFilename = f.text ++ keepMarker ∧ ContainsFolded q f.name
  /-- A folder whose name has the text has a marker of its own, or a key below it that is no
  marker. -/
  own : ∀ f : Folder, ContainsFolded q f.name →
    (∃ r, ActiveIn db b r ∧ f.text <+: r.originalFilename) →
      ∃ r, ActiveIn db b r ∧ (r.originalFilename = f.text ++ keepMarker ∨
        f.text <+: r.originalFilename ∧ baseName r.originalFilename ≠ keepMarker)

variable {P instant db b q pre delimiter limit}

theorem searchListed_iff_mem (hq : q ≠ []) {F : Text} :
    SearchListed P instant db b q pre delimiter limit F ↔
      F ∈ searchFolderPrefixes P q (searchRows db (some b) q) := by
  unfold SearchListed
  simp only [listObjects_search P instant db (some b) hq, Option.some.injEq, exists_eq_left']
  rw [mem_page_prefixes, List.map_map]
  have hid : (FolderEntry.pre ∘ fun cp =>
      folderEntryFromRows instant cp (searchRows db (some b) q)) = id := rfl
  rw [hid, List.map_id]

theorem searchListed_iff (hq : q ≠ []) {F : Text} :
    SearchListed P instant db b q pre delimiter limit F ↔
      ∃ f : Folder, f.text = F ∧ ∃ r, ActiveIn db b r ∧ ContainsFolded q r.originalFilename ∧
        Adds P q r.originalFilename f := by
  rw [searchListed_iff_mem hq]
  simp only [searchFolderPrefixes, mem_sortedSet, List.mem_flatMap, mem_searchFolders,
    mem_searchRows]
  constructor
  · intro h
    obtain ⟨r, ⟨hr, hkey⟩, f, hf, hadds⟩ := h
    exact ⟨f, hf, r, hr, hkey, hadds⟩
  · intro h
    obtain ⟨f, hf, r, hr, hkey, hadds⟩ := h
    exact ⟨r, ⟨hr, hkey⟩, f, hf, hadds⟩

end search

theorem isAscii_of_part {s t : Text} (h : IsAscii t) (hst : s <:+: t) : IsAscii s :=
  fun c hc => h c (hst.subset hc)

theorem Folder.name_infix {f : Folder} {t : Text} (h : f.text <+: t) : f.name <:+: t :=
  List.IsInfix.trans ⟨f.parent, ['/'], rfl⟩ h.isInfix

theorem lowersAscii_sample : LowersAscii Platform.sample := fun _ _ => rfl

/-- One empty folder in another. -/
def emptyYear : Db := (holding ["photos/2024/.keep".toList]).db

theorem emptyYear_keys {r : ObjectRecord} (hr : ActiveIn emptyYear 1 r) :
    r.originalFilename = "photos/2024/.keep".toList := by
  have hall : ∀ r ∈ emptyYear.object.rows, r.originalFilename = "photos/2024/.keep".toList := by
    decide
  exact hall r hr.1

end MyS3.SearchFolders
