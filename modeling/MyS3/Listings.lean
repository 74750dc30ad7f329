import Mathlib.Data.List.Dedup
import MyS3.Keys
import MyS3.Repository

/-!
Listings of a bucket by prefix. The queries select by LIKE, which ignores the case of
ASCII letters; the listing of one folder level and the totals of a folder compare the
prefix again, and the soft delete of a folder, its archive and the flat listing do not.
`.keep` objects stand for empty folders and are not shown as objects.
-/

namespace MyS3.Listings

open Library.Strings Library.Tables Library.Timestamps Library.Like
open Models Objects Database Engine Repository Keys

/-- `key.rsplit('/').next()`: what follows the last slash. -/
def baseName (key : Text) : Text := (key.reverse.takeWhile (· != '/')).reverse

def keepMarker : Text := ".keep".toList

structure FolderEntry where
  pre : Text
  dateCreated : Option Int
  dateModified : Option Int
  totalBytes : Int
  objectCount : Nat
  deriving DecidableEq

structure PrefixListResult where
  pre : Text
  delimiter : Text
  commonPrefixes : List Text
  folders : List FolderEntry
  objects : List ObjectRecord
  total : Int
  offset : Int
  limit : Int
  hasMore : Bool
  deriving DecidableEq

/-- `folder_entry_from_rows`; `instant` decodes a date column. -/
def folderEntryFromRows (instant : Text → Int) (pre : Text) (rows : List ObjectRecord) :
    FolderEntry :=
  let under := rows.filter fun r => startsWith pre r.originalFilename
  { pre := pre
    dateCreated := (under.map fun r => instant r.dateUploaded).min?
    dateModified := (under.map fun r => instant r.dateModified).max?
    totalBytes := (under.map (·.filesizeBytes)).sum
    objectCount := under.length }

/-- The folders above a key, each with its last segment. -/
def foldersAbove : Text → List Text → List (Text × Text)
  | _, [] => []
  | _, [_] => []
  | above, seg :: next :: rest =>
    let folder := above ++ seg ++ ['/']
    (seg, folder) :: foldersAbove folder (next :: rest)

/-- The folders that one key adds to a search: that of a `.keep` marker, and otherwise
those above the key whose name contains the text. -/
def searchFolders (P : Platform) (q key : Text) : List Text :=
  if baseName key = keepMarker then
    match stripSuffix keepMarker key with
    | none => []
    | some folder => [if folder.getLast? = some '/' then folder else folder ++ ['/']]
  else
    ((foldersAbove [] (split '/' key)).filter fun f =>
      (findText (P.toLowercase q) (P.toLowercase f.1)).isSome).map (·.2)

/-- The elements of a set of texts in order. -/
def sortedSet (texts : List Text) : List Text :=
  texts.dedup.insertionSort fun a b => textLe a b = true

def searchFolderPrefixes (P : Platform) (q : Text) (rows : List ObjectRecord) : List Text :=
  sortedSet (rows.flatMap fun r => searchFolders P q r.originalFilename)

/-- A part of a list; a part past its end is empty. -/
def slice {α : Type} (items : List α) (start : Nat) (stop : Option Nat) : List α :=
  (stop.elim items fun e => items.take e).drop start

/-- `page_folder_object_lists`: folders come before objects, and a limit that is not
positive is none. -/
def pageFolderObjectLists (folders : List FolderEntry) (objects : List ObjectRecord)
    (pre delimiter : Text) (offset limit : Int) : PrefixListResult :=
  let start := offset.toNat
  let stop := if limit ≤ 0 then none else some (start + limit.toNat)
  let total : Int := folders.length + objects.length
  let pageFolders := slice folders start stop
  let pageObjects :=
    slice objects (start - folders.length) (stop.map fun e => e - folders.length)
  { pre := pre
    delimiter := delimiter
    commonPrefixes := pageFolders.map (·.pre)
    folders := pageFolders
    objects := pageObjects
    total := total
    offset := start
    limit := if limit ≤ 0 then max total 0 else limit
    hasMore := decide ((start : Int) + (pageFolders.length + pageObjects.length) < total) }

/-- Active rows of one bucket, or of all, whose key matches a pattern, in key order. -/
def rowsLike (db : Db) (bucketId : Option Int) (pattern : Text) : List ObjectRecord :=
  (db.object.rows.filter fun r =>
      isActive r && bucketId.all (· == r.bucketId) &&
        like (some '\\') pattern r.originalFilename).insertionSort
    fun a b => textLe a.originalFilename b.originalFilename = true

/-- Where a key shows in the listing of a level. -/
inductive Level
  | hidden
  | folder (pre : Text)
  | object
  /-- The cut after the first byte of the delimiter is inside a character. -/
  | broken
  deriving DecidableEq

def levelOf (pre delimiter key : Text) : Level :=
  match stripPrefix pre key with
  | none => .hidden
  | some rest =>
    match findText delimiter rest with
    | none => if baseName key = keepMarker then .hidden else .object
    | some idx =>
      if delimiter.head?.all fun c => decide (c.toNat < 128) then
        .folder (pre ++ rest.take (idx + 1))
      else .broken

def Level.pre? : Level → Option Text
  | .folder pre => some pre
  | _ => none

/-- `list_objects_with_prefix`; `none` is a panic. -/
def listObjectsWithPrefix (P : Platform) (instant : Text → Int) (db : Db) (pre delimiter : Text)
    (search : Option Text) (bucketId : Option Int) (offset limit : Int) :
    Option PrefixListResult :=
  match search.filter (· ≠ []) with
  | some q =>
    let rows := rowsLike db bucketId ('%' :: likeEscape q ++ ['%'])
    let folders := (searchFolderPrefixes P q rows).map fun cp => folderEntryFromRows instant cp rows
    let objects := rows.filter fun r => baseName r.originalFilename != keepMarker
    some (pageFolderObjectLists folders objects pre delimiter offset limit)
  | none =>
    let rows := rowsLike db bucketId (likeEscape pre ++ ['%'])
    if delimiter = [] then
      let objects := rows.filter fun r => baseName r.originalFilename != keepMarker
      some (pageFolderObjectLists [] objects pre delimiter offset limit)
    else
      let level := fun r : ObjectRecord => levelOf pre delimiter r.originalFilename
      if rows.any fun r => level r == .broken then none
      else
        let common := sortedSet (rows.filterMap fun r => (level r).pre?)
        let folders := common.map fun cp => folderEntryFromRows instant cp rows
        let objects := rows.filter fun r => level r == .object
        some (pageFolderObjectLists folders objects pre delimiter offset limit)

/-- `prefix_has_objects`. -/
def prefixHasObjects (db : Db) (bucketId : Int) (pre : Text) : Bool :=
  0 < (db.object.rows.filter fun r =>
    isActive r && r.bucketId == bucketId && underPrefix pre r.originalFilename).length

theorem baseName_append {folder name : Text} (h : '/' ∉ name) :
    baseName (folder ++ '/' :: name) = name := by
  have hname : ∀ c ∈ name.reverse, (c != '/') = true := by
    intro c hc
    have hmem := List.mem_reverse.mp hc
    rw [bne_iff_ne]
    intro heq
    exact h (heq ▸ hmem)
  have hreverse : (folder ++ '/' :: name).reverse = name.reverse ++ '/' :: folder.reverse := by
    simp
  unfold baseName
  rw [hreverse, List.takeWhile_append_of_pos hname]
  simp

theorem mem_rowsLike {db : Db} {b : Int} {pattern : Text} {r : ObjectRecord} :
    r ∈ rowsLike db (some b) pattern ↔ r ∈ db.object.rows ∧ r.deletedAt = none ∧
      r.bucketId = b ∧ like (some '\\') pattern r.originalFilename = true := by
  simp only [rowsLike, List.mem_insertionSort, List.mem_filter, Bool.and_eq_true, isActive_iff,
    Option.all_some, beq_iff_eq]
  constructor
  · intro h
    exact ⟨h.1, h.2.1.1, h.2.1.2.symm, h.2.2⟩
  · intro h
    exact ⟨h.1, ⟨h.2.1, h.2.2.1.symm⟩, h.2.2.2⟩

theorem mem_listKeysUnderPrefix {db : Db} {b : Int} {p : Text} {r : ObjectRecord} :
    r ∈ listKeysUnderPrefix db b p ↔ r ∈ db.object.rows ∧ r.deletedAt = none ∧
      r.bucketId = b ∧ underPrefix p r.originalFilename = true := by
  simp only [listKeysUnderPrefix, List.mem_insertionSort, List.mem_filter, Bool.and_eq_true,
    isActive_iff, beq_iff_eq, and_assoc]

theorem mem_sortedSet {texts : List Text} {t : Text} : t ∈ sortedSet texts ↔ t ∈ texts := by
  simp [sortedSet]

theorem slice_sublist {α : Type} (items : List α) (start : Nat) (stop : Option Nat) :
    (slice items start stop).Sublist items := by
  refine (List.drop_sublist start _).trans ?_
  cases stop with
  | none => exact List.Sublist.refl items
  | some e => exact List.take_sublist e items

/-- Every element of a list is in some window of it, and windows hold nothing else. -/
theorem mem_slice {α : Type} {items : List α} {start : Nat} {stop : Option Nat} {a : α}
    (h : a ∈ slice items start stop) : a ∈ items := (slice_sublist items start stop).subset h

theorem exists_slice {α : Type} {items : List α} {a : α} (h : a ∈ items) (size : Nat)
    (hsize : 0 < size) : ∃ i, a ∈ slice items i (some (i + size)) := by
  obtain ⟨i, hi, rfl⟩ := List.mem_iff_getElem.mp h
  refine ⟨i, ?_⟩
  have hlen : i < (items.take (i + size)).length := by
    rw [List.length_take]
    omega
  have hdrop : (items.take (i + size)).drop i = items[i] :: (items.take (i + size)).drop (i + 1) := by
    rw [List.drop_eq_getElem_cons hlen, List.getElem_take]
  simp [slice, hdrop]

section pages

variable {folders : List FolderEntry} {objects : List ObjectRecord} {pre delimiter : Text}

/-- An object is on some page of a listing exactly when the listing has it. -/
theorem mem_page_objects {limit : Int} {r : ObjectRecord} :
    (∃ offset, r ∈ (pageFolderObjectLists folders objects pre delimiter offset limit).objects) ↔
      r ∈ objects := by
  constructor
  · intro h
    obtain ⟨offset, hmem⟩ := h
    exact mem_slice hmem
  · intro h
    by_cases hlimit : limit ≤ 0
    · refine ⟨0, ?_⟩
      simpa [pageFolderObjectLists, hlimit, slice] using h
    · obtain ⟨i, hi⟩ := exists_slice h limit.toNat (by omega)
      refine ⟨(folders.length : Int) + i, ?_⟩
      have hstart : ((folders.length : Int) + i).toNat - folders.length = i := by omega
      have hstop : ((folders.length : Int) + i).toNat + limit.toNat - folders.length =
          i + limit.toNat := by omega
      simpa [pageFolderObjectLists, hlimit, hstart, hstop] using hi

theorem mem_page_prefixes {limit : Int} {cp : Text} :
    (∃ offset,
        cp ∈ (pageFolderObjectLists folders objects pre delimiter offset limit).commonPrefixes) ↔
      cp ∈ folders.map (·.pre) := by
  constructor
  · intro h
    obtain ⟨offset, hmem⟩ := h
    obtain ⟨f, hf, rfl⟩ := List.mem_map.mp hmem
    exact List.mem_map_of_mem (mem_slice hf)
  · intro h
    obtain ⟨f, hf, rfl⟩ := List.mem_map.mp h
    by_cases hlimit : limit ≤ 0
    · refine ⟨0, ?_⟩
      simpa [pageFolderObjectLists, hlimit, slice] using h
    · obtain ⟨i, hi⟩ := exists_slice hf limit.toNat (by omega)
      refine ⟨(i : Int), List.mem_map_of_mem ?_⟩
      simpa [pageFolderObjectLists, hlimit] using hi

end pages

end MyS3.Listings
