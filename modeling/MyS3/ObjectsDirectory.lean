import Mathlib.Data.List.Dedup
import MyS3.Blobs
import MyS3.Library.OsPaths

/-!
Reconcile over the files of a directory, whose names are those of the operating system. The
listing shows a name that is no text with the replacement character in place of what is none,
and such a name is the path of no file that the engine could unlink.
-/

namespace MyS3.ObjectsDirectory

open Library.Strings Library.Paths
open Library.OsPaths (OsChar OsText osText toText display toText_osText toText_isSome
  osText_display)
open Models Objects Database Engine Repository Http Reconcile Blobs

/-- Files by their places, which are lists of names. -/
abbrev Files := List OsText → Option Bytes

def place (root : Path) (filepath : Text) : List OsText :=
  (absolutePathFor root filepath).map osText

def objectsPlace (root : Path) : List OsText := (root ++ [objectsDir]).map osText

/-- `unlink` without an error; a file that is not there is none. -/
def unlinkFile (root : Path) (files : Files) (filepath : Text) : Files := fun q =>
  if q = place root filepath then none else files q

/-- The names that the objects directory lists. -/
structure ListsDirectory (root : Path) (files : Files) (names : List OsText) : Prop where
  nodup : names.Nodup
  mem : ∀ n, n ∈ names ↔
    Library.OsPaths.PlainName n ∧ (files (objectsPlace root ++ [n])).isSome = true

def inspectDirectory (db : Db) (names : List OsText) (files : Files) : IntegrityReport × Files :=
  let dbFiles := listDbObjectFiles db
  let disk := listDiskObjectFiles (names.map display)
  (report dbFiles disk (classify dbFiles disk).orphans disk.dedup.length false, files)

/-- `reconcile`, with the names of the first listing and of the one at the end. -/
def reconcileDirectory (db : Db) (root : Path) (names namesAfter : List OsText) (files : Files) :
    IntegrityReport × Files :=
  let dbFiles := listDbObjectFiles db
  let disk := listDiskObjectFiles (names.map display)
  let orphans := (classify dbFiles disk).orphans
  (report dbFiles disk orphans (listDiskObjectFiles (namesAfter.map display)).length true,
    orphans.foldl (unlinkFile root) files)

def isHidden (n : OsText) : Bool := startsWith ['.'] (display n)

/-- A filepath with or without the objects directory; its name has no slash, no dot in front
and no white space at its ends. -/
structure NamesObject (filepath name : Text) : Prop where
  form : filepath = objectsPrefix ++ name ∨ filepath = name
  slash : '/' ∉ name
  dot : name.head? ≠ some '.'
  blanks : trim name = name

/-- A file of the directory that is not hidden and that no row names. -/
structure IsOrphan (db : Db) (root : Path) (names : List OsText) (n : OsText) : Prop where
  listed : n ∈ names
  shown : isHidden n = false
  unnamed : ∀ r ∈ db.object.rows, place root r.filepath ≠ objectsPlace root ++ [n]

/-- The counters of a report add up, after so many files were removed. -/
structure AddsUp (r : IntegrityReport) (removed : Nat) : Prop where
  active : r.activeOk + r.missingActiveCount = r.dbActive
  recycled : r.recycleOk + r.missingRecycleCount = r.dbRecycled
  disk : r.diskFilesAfter + removed = r.diskFilesBefore

/-- The number of the listed files that are gone. -/
def removedCount (root : Path) (names : List OsText) (after : Files) : Nat :=
  (names.filter fun n => (after (objectsPlace root ++ [n])).isNone).length

/-- Reconcile removes the orphans and nothing else, which the dry run counts and a second run
finds none of. -/
structure RemovesOrphans (db : Db) (root : Path) (files : Files)
    (names namesAfter : List OsText) : Prop where
  gone : ∀ n, IsOrphan db root names n →
    (reconcileDirectory db root names namesAfter files).2 (objectsPlace root ++ [n]) = none
  kept : ∀ q, (∀ n, IsOrphan db root names n → q ≠ objectsPlace root ++ [n]) →
    (reconcileDirectory db root names namesAfter files).2 q = files q
  inspected : (inspectDirectory db names files).1.orphansRemovedCount =
    removedCount root names (reconcileDirectory db root names namesAfter files).2
  dry : (inspectDirectory db names files).2 = files
  again : ∀ listed listedAfter,
    ListsDirectory root (reconcileDirectory db root names namesAfter files).2 listed →
    (reconcileDirectory db root listed listedAfter
      (reconcileDirectory db root names namesAfter files).2).2 =
      (reconcileDirectory db root names namesAfter files).2
  inspectedAddsUp : AddsUp (inspectDirectory db names files).1 0
  reconciledAddsUp : AddsUp (reconcileDirectory db root names namesAfter files).1
    (removedCount root names (reconcileDirectory db root names namesAfter files).2)

theorem osText_injective : Function.Injective osText := by
  intro a b hab
  simpa only [toText_osText, Option.some.injEq] using congrArg toText hab

/-- On files whose names are text this is the reconcile of the node. -/
theorem reconcileDirectory_text (s : AppState) (names namesAfter : List OsText) (files : Files)
    (h : ∀ q : Path, files (q.map osText) = s.disk q) :
    (reconcileDirectory s.db s.config.storageRoot names namesAfter files).1 =
        (reconcile s (names.map display) (namesAfter.map display) fun _ => false).1 ∧
      ∀ q : Path, (reconcileDirectory s.db s.config.storageRoot names namesAfter files).2
        (q.map osText) =
          (reconcile s (names.map display) (namesAfter.map display) fun _ => false).2.disk q := by
  have hfold : ∀ (orphans : List Text) (files : Files) (disk : Disk),
      (∀ q : Path, files (q.map osText) = disk q) → ∀ q : Path,
      orphans.foldl (unlinkFile s.config.storageRoot) files (q.map osText) =
        unlinkAll s.config.storageRoot (fun _ => false) disk orphans q := by
    intro orphans
    induction orphans with
    | nil => exact fun _ _ hfiles q => hfiles q
    | cons rel rest ih =>
      intro files disk hfiles
      refine ih _ _ fun q => ?_
      unfold unlinkFile place unlink setFile
      simp only [Bool.false_eq_true, if_false, Function.update_apply,
        (List.map_injective_iff.mpr osText_injective).eq_iff, hfiles]
  refine ⟨?_, hfold _ _ _ h⟩
  unfold reconcileDirectory reconcile
  simp

/-- A character that is shown and is not the replacement character is in the name. -/
theorem mem_of_shown {n : OsText} {c : Char} (hc : c ≠ '\uFFFD') (h : c ∈ display n) :
    OsChar.char c ∈ n := by
  obtain ⟨x, hx, hshown⟩ := List.mem_map.mp h
  cases x with
  | char d => rwa [show c = d from hshown.symm]
  | invalid bytes => exact absurd hshown.symm hc

/-- A name that is shown as a text of other characters is this text. -/
theorem eq_osText_of_display {n : OsText} {t : Text} (ht : ∀ c ∈ t, c ≠ '\uFFFD')
    (h : display n = t) : n = osText t := by
  have htext : (toText n).isSome = true := by
    rw [toText_isSome]
    intro x hx
    cases x with
    | char c => exact ⟨c, rfl⟩
    | invalid bytes => exact absurd rfl (ht _ (h ▸ List.mem_map_of_mem hx))
  rw [← h, osText_display htext]

theorem plainName_display {n : OsText} (h : Library.OsPaths.PlainName n) :
    PlainName (display n) := by
  refine ⟨fun hslash => h.slash (mem_of_shown (by decide) hslash), ?_, ?_, ?_⟩
  · intro hnil
    exact h.nonempty (List.map_eq_nil_iff.mp hnil)
  · exact fun hdot => h.current (eq_osText_of_display (by simp) hdot)
  · exact fun hdots => h.parent (eq_osText_of_display (by simp) hdots)

/-- Where the engine looks for the file that is listed under a name. -/
theorem place_listed {n : OsText} (h : Library.OsPaths.PlainName n) (root : Path) :
    place root (objectsPrefix ++ display n) = objectsPlace root ++ [osText (display n)] := by
  unfold place objectsPlace
  rw [absolutePathFor_object (plainName_display h)]
  simp

/-- A row without a name names the directory itself. -/
theorem absolutePathFor_directory (root : Path) :
    absolutePathFor root objectsPrefix = root ++ [objectsDir] := by
  have hstart : startsWith (objectsDir ++ ['/']) objectsPrefix = true := by decide
  have hroot : startsWith ['/'] objectsPrefix = false := by decide
  have hsplit : split '/' objectsPrefix = [objectsDir, []] := by decide
  unfold absolutePathFor join
  rw [hstart, hroot, hsplit]
  simp only [Bool.true_or, if_true, Bool.false_eq_true, if_false, List.foldl_cons, List.foldl_nil]
  rw [enter_plain (show PlainName objectsDir by decide)]
  simp [enter]

theorem absolutePathFor_nil (root : Path) : absolutePathFor root [] = root ++ [objectsDir] := by
  have hstart : startsWith (objectsDir ++ ['/']) [] = false := by decide
  have hroot : startsWith ['/'] [] = false := by decide
  have hsplit : split '/' [] = [[]] := by decide
  unfold absolutePathFor join
  rw [hstart, hroot, hsplit]
  simp [enter]

section rows

variable {filepath name : Text}

theorem NamesObject.last (h : NamesObject filepath name) :
    ∀ c, name.getLast? = some c → isWhitespace c = false := by
  intro c hc
  rw [← h.blanks] at hc
  exact getLast_trim hc

/-- A row stands in the listing of the table under its name in the objects directory. -/
theorem NamesObject.normalized (h : NamesObject filepath name) :
    normalizeObjectRel filepath = objectsPrefix ++ name := by
  rcases h.form with rfl | rfl
  · exact normalizeObjectRel_object h.last
  · have hdot : trimDotSlash filepath = filepath := by
      cases filepath with
      | nil => rfl
      | cons c rest =>
        refine trimDotSlash_of_head ?_
        intro hc
        exact h.dot (by rw [hc]; rfl)
    have hstrip : stripPrefix objectsPrefix filepath = none := by
      rw [Option.eq_none_iff_forall_ne_some]
      intro rest hrest
      apply h.slash
      rw [← stripPrefix_eq_some.mp hrest]
      exact List.mem_append_left rest (by decide)
    unfold normalizeObjectRel
    simp only [h.blanks, hdot, hstrip, if_neg h.slash]

/-- The engine looks for the file of a row under its name in the objects directory. -/
theorem NamesObject.path (h : NamesObject filepath name) (root : Path) :
    absolutePathFor root filepath =
      if name = [] then root ++ [objectsDir] else root ++ [objectsDir, name] := by
  have hplain : name ≠ [] → PlainName name := by
    intro hne
    refine ⟨h.slash, hne, ?_, ?_⟩
    · exact fun hcurrent => h.dot (by rw [hcurrent]; rfl)
    · exact fun hparent => h.dot (by rw [hparent]; rfl)
  by_cases hnil : name = []
  · rw [if_pos hnil]
    rcases h.form with hform | hform
    · rw [hform, hnil, List.append_nil]
      exact absolutePathFor_directory root
    · rw [hform, hnil]
      exact absolutePathFor_nil root
  · rw [if_neg hnil]
    have hname := hplain hnil
    rcases h.form with rfl | rfl
    · exact absolutePathFor_object hname root
    · have hstart : startsWith (objectsDir ++ ['/']) filepath = false := by
        rw [Bool.eq_false_iff]
        intro hstart
        obtain ⟨rest, hrest⟩ := List.isPrefixOf_iff_prefix.mp hstart
        apply h.slash
        rw [← hrest]
        simp
      unfold absolutePathFor
      rw [hstart, decide_eq_false h.slash]
      simp only [Bool.or_self, Bool.false_eq_true, if_false]
      unfold join split
      have hroot : startsWith ['/'] filepath = false := by
        simpa using startsWith_slash_of_plain hname []
      rw [List.splitOn_eq_singleton h.slash, hroot]
      simp [enter_plain hname]

/-- A row names a file of the objects directory for the engine exactly when it does in the
listing of the table. -/
theorem NamesObject.place_iff (h : NamesObject filepath name) {t : Text} (ht : t ≠ [])
    (root : Path) : place root filepath = objectsPlace root ++ [osText t] ↔
      normalizeObjectRel filepath = objectsPrefix ++ t := by
  have hplace : objectsPlace root ++ [osText t] = (root ++ [objectsDir, t]).map osText := by
    simp [objectsPlace]
  rw [hplace, h.normalized, List.append_cancel_left_eq]
  unfold place
  rw [(List.map_injective_iff.mpr osText_injective).eq_iff, h.path]
  by_cases hnil : name = []
  · rw [if_pos hnil, hnil]
    refine iff_of_false (fun heq => ?_) (Ne.symm ht)
    have hlen := congrArg List.length heq
    simp at hlen
  · rw [if_neg hnil, List.append_cancel_left_eq]
    simp

end rows

/-- The paths under which the files of a directory are listed. -/
theorem mem_listed {names : List OsText} {path : Text} :
    path ∈ listDiskObjectFiles (names.map display) ↔
      ∃ n ∈ names, isHidden n = false ∧ objectsPrefix ++ display n = path := by
  rw [mem_listDiskObjectFiles]
  constructor
  · intro h
    obtain ⟨name, hname, hshown, hpath⟩ := h
    obtain ⟨n, hn, rfl⟩ := List.mem_map.mp hname
    exact ⟨n, hn, hshown, hpath⟩
  · intro h
    obtain ⟨n, hn, hshown, hpath⟩ := h
    exact ⟨display n, List.mem_map_of_mem hn, hshown, hpath⟩

/-- No call brings a file back. -/
theorem unlinkFiles_none {root : Path} {files : Files} {q : List OsText} (h : files q = none)
    (orphans : List Text) : orphans.foldl (unlinkFile root) files q = none := by
  induction orphans generalizing files with
  | nil => exact h
  | cons rel rest ih =>
    rw [List.foldl_cons]
    apply ih
    unfold unlinkFile
    split_ifs
    · rfl
    · exact h

theorem unlinkFiles_gone {root : Path} {orphans : List Text} {q : List OsText}
    (h : ∃ rel ∈ orphans, q = place root rel) (files : Files) :
    orphans.foldl (unlinkFile root) files q = none := by
  induction orphans generalizing files with
  | nil =>
    obtain ⟨_, hmem, _⟩ := h
    cases hmem
  | cons rel rest ih =>
    rw [List.foldl_cons]
    obtain ⟨r, hr, hq⟩ := h
    rcases List.mem_cons.mp hr with rfl | hr
    · exact unlinkFiles_none (if_pos hq) rest
    · exact ih ⟨r, hr, hq⟩ _

theorem unlinkFiles_other {root : Path} {orphans : List Text} {q : List OsText}
    (h : ∀ rel ∈ orphans, q ≠ place root rel) (files : Files) :
    orphans.foldl (unlinkFile root) files q = files q := by
  induction orphans generalizing files with
  | nil => rfl
  | cons rel rest ih =>
    rw [List.foldl_cons, ih fun r hr => h r (List.mem_cons_of_mem _ hr)]
    exact if_neg (h rel List.mem_cons_self)

/-- The files that reconcile takes for orphans. -/
def unlisted (db : Db) (n : OsText) : Bool :=
  !isHidden n && !(listDbObjectFiles db).any fun f => f.filepath == objectsPrefix ++ display n

theorem length_filter_split {α : Type*} (p q : α → Bool) (l : List α) :
    (l.filter fun a => q a && p a).length + (l.filter fun a => !q a && p a).length =
      (l.filter p).length := by
  have hsplit := List.length_eq_length_filter_add (l := l.filter p) q
  rw [List.filter_filter, List.filter_filter] at hsplit
  exact hsplit.symm

/-- Every row counts as found or as missing. -/
theorem report_rows (dbFiles : List DbObjectFile) (disk removed : List Text) (diskAfter : Nat)
    (repaired : Bool) :
    (report dbFiles disk removed diskAfter repaired).activeOk +
        (report dbFiles disk removed diskAfter repaired).missingActiveCount =
          (report dbFiles disk removed diskAfter repaired).dbActive ∧
      (report dbFiles disk removed diskAfter repaired).recycleOk +
        (report dbFiles disk removed diskAfter repaired).missingRecycleCount =
          (report dbFiles disk removed diskAfter repaired).dbRecycled := by
  have hactive := length_filter_split (fun f : DbObjectFile => !f.deleted)
    (fun f => disk.contains f.filepath) dbFiles
  have hrecycled := length_filter_split (fun f : DbObjectFile => f.deleted)
    (fun f => disk.contains f.filepath) dbFiles
  have hrows := List.length_eq_length_filter_add (l := dbFiles) fun f => !f.deleted
  simp only [Bool.not_not] at hrows
  simp only [report, classify, sortTexts, List.length_insertionSort, List.length_map]
  constructor
  · exact hactive
  · omega

section directory

variable {db : Db} {root : Path} {files : Files} {names namesAfter : List OsText}

theorem shown_nonempty (hnames : ListsDirectory root files names) {n : OsText} (hn : n ∈ names) :
    display n ≠ [] := (plainName_display ((hnames.mem n).mp hn).1).2.1

/-- A listed name that is text stands for its own file. -/
theorem place_text {n : OsText} (hnames : ListsDirectory root files names) (hn : n ∈ names)
    (htext : (toText n).isSome = true) :
    place root (objectsPrefix ++ display n) = objectsPlace root ++ [n] := by
  rw [place_listed ((hnames.mem n).mp hn).1, osText_display htext]

theorem isOrphan_iff (hrows : ∀ r ∈ db.object.rows, ∃ name, NamesObject r.filepath name)
    (hnames : ListsDirectory root files names) {n : OsText} (hn : n ∈ names)
    (htext : (toText n).isSome = true) : IsOrphan db root names n ↔ unlisted db n = true := by
  have hunnamed : (∀ r ∈ db.object.rows, place root r.filepath ≠ objectsPlace root ++ [n]) ↔
      ∀ r ∈ db.object.rows, normalizeObjectRel r.filepath ≠ objectsPrefix ++ display n := by
    refine forall₂_congr fun r hr => not_congr ?_
    obtain ⟨name, hname⟩ := hrows r hr
    rw [← hname.place_iff (shown_nonempty hnames hn) root, osText_display htext]
  have hlisted : unlisted db n = true ↔ isHidden n = false ∧
      ∀ r ∈ db.object.rows, normalizeObjectRel r.filepath ≠ objectsPrefix ++ display n := by
    simp [unlisted, listDbObjectFiles]
  rw [hlisted, ← hunnamed]
  exact ⟨fun h => ⟨h.shown, h.unnamed⟩, fun h => ⟨hn, h.1, h.2⟩⟩

/-- What reconcile unlinks are the paths of files that no row names. -/
theorem mem_unlinked {rel : Text} : rel ∈ (classify (listDbObjectFiles db)
      (listDiskObjectFiles (names.map display))).orphans ↔
    ∃ n ∈ names, unlisted db n = true ∧ objectsPrefix ++ display n = rel := by
  rw [mem_orphans, mem_listed]
  constructor
  · intro h
    obtain ⟨⟨n, hn, hshown, rfl⟩, hrows⟩ := h
    refine ⟨n, hn, ?_, rfl⟩
    unfold unlisted
    rw [hshown, Bool.not_false, Bool.true_and, Bool.not_eq_true', List.any_eq_false]
    intro f hf hpath
    exact hrows f hf (beq_iff_eq.mp hpath)
  · intro h
    obtain ⟨n, hn, hunlisted, rfl⟩ := h
    simp only [unlisted, Bool.and_eq_true, Bool.not_eq_true', List.any_eq_false, beq_iff_eq]
      at hunlisted
    exact ⟨⟨n, hn, hunlisted.1, rfl⟩, hunlisted.2⟩

/-- All that is shown of the directory is text. -/
def ShowsText (names : List OsText) : Prop :=
  ∀ n ∈ names, isHidden n = false → (toText n).isSome = true

theorem shown_of_unlisted {n : OsText} (h : unlisted db n = true) : isHidden n = false := by
  simp only [unlisted, Bool.and_eq_true, Bool.not_eq_true'] at h
  exact h.1

/-- A listed file is unlinked exactly when it is taken for an orphan. -/
theorem reconciled_none_iff (hnames : ListsDirectory root files names) (htext : ShowsText names)
    {n : OsText} (hn : n ∈ names) :
    (reconcileDirectory db root names namesAfter files).2 (objectsPlace root ++ [n]) = none ↔
      unlisted db n = true := by
  have hplace : ∀ m ∈ names, unlisted db m = true →
      place root (objectsPrefix ++ display m) = objectsPlace root ++ [m] := fun m hm hunlisted =>
    place_text hnames hm (htext m hm (shown_of_unlisted hunlisted))
  constructor
  · intro hnone
    by_contra hnot
    have hsome := ((hnames.mem n).mp hn).2
    have hother : ∀ rel ∈ (classify (listDbObjectFiles db)
        (listDiskObjectFiles (names.map display))).orphans,
        objectsPlace root ++ [n] ≠ place root rel := by
      intro rel hrel heq
      obtain ⟨m, hm, hunlisted, rfl⟩ := mem_unlinked.mp hrel
      rw [hplace m hm hunlisted, List.append_cancel_left_eq, List.cons.injEq] at heq
      exact hnot (heq.1 ▸ hunlisted)
    unfold reconcileDirectory at hnone
    simp only at hnone
    rw [← unlinkFiles_other hother files, hnone] at hsome
    cases hsome
  · intro hunlisted
    refine unlinkFiles_gone ⟨objectsPrefix ++ display n, ?_, (hplace n hn hunlisted).symm⟩ _
    exact mem_unlinked.mpr ⟨n, hn, hunlisted, rfl⟩

theorem reconciled_kept (hrows : ∀ r ∈ db.object.rows, ∃ name, NamesObject r.filepath name)
    (hnames : ListsDirectory root files names) (htext : ShowsText names) {q : List OsText}
    (h : ∀ n, IsOrphan db root names n → q ≠ objectsPlace root ++ [n]) :
    (reconcileDirectory db root names namesAfter files).2 q = files q := by
  refine unlinkFiles_other (fun rel hrel heq => ?_) files
  obtain ⟨n, hn, hunlisted, rfl⟩ := mem_unlinked.mp hrel
  have hn' := htext n hn (shown_of_unlisted hunlisted)
  rw [place_text hnames hn hn'] at heq
  exact h n ((isOrphan_iff hrows hnames hn hn').mpr hunlisted) heq

/-- Names that are text are listed once each. -/
theorem length_listed (hnodup : names.Nodup) (htext : ShowsText names) :
    (listDiskObjectFiles (names.map display)).Nodup ∧
      (listDiskObjectFiles (names.map display)).length =
        (names.filter fun n => !isHidden n).length := by
  have hlisted : (listDiskObjectFiles (names.map display)).Perm
      ((names.filter fun n => !isHidden n).map fun n => objectsPrefix ++ display n) := by
    unfold listDiskObjectFiles sortTexts
    refine (List.perm_insertionSort _ _).trans (List.Perm.of_eq ?_)
    rw [List.filter_map, List.map_map]
    rfl
  refine ⟨hlisted.nodup_iff.mpr ?_, by rw [hlisted.length_eq, List.length_map]⟩
  refine (hnodup.filter _).map_on ?_
  intro n hn m hm heq
  obtain ⟨hn, hshown⟩ := List.mem_filter.mp hn
  obtain ⟨hm, hshown'⟩ := List.mem_filter.mp hm
  rw [Bool.not_eq_true'] at hshown hshown'
  rw [← osText_display (htext n hn hshown), ← osText_display (htext m hm hshown'),
    List.append_cancel_left heq]

/-- The orphans of the listing are as many as the files that are unlinked. -/
theorem length_unlinked (hnames : ListsDirectory root files names) (htext : ShowsText names) :
    (classify (listDbObjectFiles db) (listDiskObjectFiles (names.map display))).orphans.length =
      removedCount root names (reconcileDirectory db root names namesAfter files).2 := by
  have hcount : removedCount root names (reconcileDirectory db root names namesAfter files).2 =
      (names.filter fun n => unlisted db n).length := by
    unfold removedCount
    congr 1
    refine List.filter_congr fun n hn => ?_
    rw [Bool.eq_iff_iff, Option.isNone_iff_eq_none]
    exact reconciled_none_iff hnames htext hn
  rw [hcount]
  unfold classify sortTexts
  simp only [List.length_insertionSort]
  unfold listDiskObjectFiles sortTexts
  rw [((List.perm_insertionSort _ _).filter _).length_eq, List.filter_map, List.filter_map,
    List.length_map, List.filter_map, List.length_map, List.filter_filter]
  congr 1
  refine List.filter_congr fun n _ => ?_
  unfold unlisted
  rw [Bool.and_comm]
  rfl

/-- What is not unlinked is listed again. -/
theorem length_listed_after {after : Files} (hnames : ListsDirectory root files names)
    (hafter : ListsDirectory root after namesAfter) (htext : ShowsText names)
    (hkept : ∀ n, (after (objectsPlace root ++ [n])).isSome = true →
      (files (objectsPlace root ++ [n])).isSome = true)
    (hhidden : ∀ n ∈ names, isHidden n = true →
      (after (objectsPlace root ++ [n])).isSome = true) :
    (listDiskObjectFiles (namesAfter.map display)).length + removedCount root names after =
      (listDiskObjectFiles (names.map display)).length := by
  have hsub : ∀ n ∈ namesAfter, n ∈ names := by
    intro n hn
    obtain ⟨hplain, hsome⟩ := (hafter.mem n).mp hn
    exact (hnames.mem n).mpr ⟨hplain, hkept n hsome⟩
  have hperm : namesAfter.Perm
      (names.filter fun n => (after (objectsPlace root ++ [n])).isSome) := by
    refine (List.perm_ext_iff_of_nodup hafter.nodup (hnames.nodup.filter _)).mpr fun n => ?_
    rw [List.mem_filter]
    constructor
    · exact fun hn => ⟨hsub n hn, ((hafter.mem n).mp hn).2⟩
    · exact fun hn => (hafter.mem n).mpr ⟨((hnames.mem n).mp hn.1).1, hn.2⟩
  rw [(length_listed hafter.nodup fun n hn => htext n (hsub n hn)).2,
    (length_listed hnames.nodup htext).2, (hperm.filter _).length_eq, List.filter_filter,
    ← length_filter_split (fun n => !isHidden n)
      (fun n => (after (objectsPlace root ++ [n])).isSome) names]
  congr 1
  · congr 1
    exact List.filter_congr fun n _ => Bool.and_comm _ _
  · unfold removedCount
    congr 1
    refine List.filter_congr fun n hn => ?_
    cases hshown : isHidden n with
    | false => simp
    | true => simp [hhidden n hn hshown]

/-- The engine looks only for files whose names are text. -/
theorem text_of_place {filepath : Text} {n : OsText}
    (h : place root filepath = objectsPlace root ++ [n]) : (toText n).isSome = true := by
  have hn : n ∈ place root filepath := by
    rw [h]
    simp
  obtain ⟨t, _, rfl⟩ := List.mem_map.mp hn
  rw [toText_osText]
  rfl

/-- A shown name that is no text is an orphan that stays. -/
theorem shows_text_of_gone (hnames : ListsDirectory root files names)
    (hgone : ∀ n, IsOrphan db root names n →
      (reconcileDirectory db root names namesAfter files).2 (objectsPlace root ++ [n]) = none) :
    ShowsText names := by
  intro n hn hshown
  by_contra htext
  have hnone := hgone n ⟨hn, hshown, fun r _ hplace => htext (text_of_place hplace)⟩
  have hkept : (reconcileDirectory db root names namesAfter files).2 (objectsPlace root ++ [n]) =
      files (objectsPlace root ++ [n]) :=
    unlinkFiles_other (fun rel _ hplace => htext (text_of_place hplace.symm)) files
  have hsome := ((hnames.mem n).mp hn).2
  rw [← hkept, hnone] at hsome
  cases hsome

theorem isSome_of_reconciled {q : List OsText}
    (h : ((reconcileDirectory db root names namesAfter files).2 q).isSome = true) :
    (files q).isSome = true := by
  by_contra hnone
  rw [Bool.not_eq_true, Option.isSome_eq_false_iff, Option.isNone_iff_eq_none] at hnone
  have hgone : (reconcileDirectory db root names namesAfter files).2 q = none :=
    unlinkFiles_none hnone _
  rw [hgone] at h
  cases h

theorem reconciled_again (hnames : ListsDirectory root files names) (htext : ShowsText names)
    {listed : List OsText} (listedAfter : List OsText)
    (hlisted : ListsDirectory root (reconcileDirectory db root names namesAfter files).2 listed) :
    (reconcileDirectory db root listed listedAfter
      (reconcileDirectory db root names namesAfter files).2).2 =
      (reconcileDirectory db root names namesAfter files).2 := by
  funext q
  refine unlinkFiles_other (fun rel hrel => ?_) _
  obtain ⟨n, hn, hunlisted, _⟩ := mem_unlinked.mp hrel
  obtain ⟨hplain, hsome⟩ := (hlisted.mem n).mp hn
  have hn := (hnames.mem n).mpr ⟨hplain, isSome_of_reconciled hsome⟩
  rw [(reconciled_none_iff hnames htext hn).mpr hunlisted] at hsome
  cases hsome

/-- Reconcile removes exactly the orphans of a directory, as the dry run counts them, and its
counters add up, when every name that it shows is text. -/
theorem reconcile_exact_iff (db : Db) (root : Path) (files : Files)
    (names namesAfter : List OsText)
    (hrows : ∀ r ∈ db.object.rows, ∃ name, NamesObject r.filepath name)
    (hnames : ListsDirectory root files names)
    (hafter : ListsDirectory root (reconcileDirectory db root names namesAfter files).2
      namesAfter) :
    RemovesOrphans db root files names namesAfter ↔ ShowsText names := by
  constructor
  · exact fun h => shows_text_of_gone hnames h.gone
  · intro htext
    have hkept : ∀ n, (∀ m, IsOrphan db root names m → n ≠ m) →
        (reconcileDirectory db root names namesAfter files).2 (objectsPlace root ++ [n]) =
          files (objectsPlace root ++ [n]) := by
      intro n hn
      refine reconciled_kept hrows hnames htext fun m hm heq => hn m hm ?_
      simpa using heq
    have hcount := length_listed_after hnames hafter htext
      (fun n hsome => isSome_of_reconciled hsome)
      (fun n hn hhidden => by
        rw [hkept n fun m hm heq => ?_]
        · exact ((hnames.mem n).mp hn).2
        · rw [heq, hm.shown] at hhidden
          cases hhidden)
    refine ⟨fun n hn => ?_, fun q hq => reconciled_kept hrows hnames htext hq,
      length_unlinked hnames htext, rfl,
      fun listed listedAfter hlisted => reconciled_again hnames htext listedAfter hlisted,
      ⟨(report_rows _ _ _ _ _).1, (report_rows _ _ _ _ _).2, rfl⟩,
      ⟨(report_rows _ _ _ _ _).1, (report_rows _ _ _ _ _).2, ?_⟩⟩
    · rw [reconciled_none_iff hnames htext hn.listed]
      exact (isOrphan_iff hrows hnames hn.listed (htext n hn.listed hn.shown)).mp hn
    · have hdedup : (listDiskObjectFiles (names.map display)).dedup =
          listDiskObjectFiles (names.map display) :=
        List.dedup_eq_self.mpr (length_listed hnames.nodup htext).1
      unfold reconcileDirectory report at hcount ⊢
      simp only [hdedup]
      exact hcount

end directory

/-- A file of the objects directory of a node under `.data`. -/
def dataFiles (names : List OsText) : Files := fun q =>
  if names.any fun n => q == objectsPlace [".data".toList] ++ [n] then some [] else none

theorem listsDirectory_data {names : List OsText} (hnodup : names.Nodup)
    (hplain : ∀ n ∈ names, Library.OsPaths.PlainName n) :
    ListsDirectory [".data".toList] (dataFiles names) names := by
  have hfile : ∀ n, (dataFiles names (objectsPlace [".data".toList] ++ [n])).isSome = true ↔
      n ∈ names := by
    intro n
    unfold dataFiles
    simp
  exact ⟨hnodup, fun n => ⟨fun hn => ⟨hplain n hn, (hfile n).mpr hn⟩, fun h => (hfile n).mp h.2⟩⟩

/-- A table with the row of `objects/a`. -/
def oneRow : Db :=
  ((insertObjectTx Db.migrated Instant.epoch ['a'] "objects/a".toList [] 0 .md5 [] 1).map
    (·.2)).getD Db.migrated

/-- The files `a`, `b` and `.c`, of which `b` is an orphan. -/
theorem reconcile_exact_iff_one :
    RemovesOrphans oneRow [".data".toList]
        (dataFiles [osText ['a'], osText ['b'], osText ['.', 'c']])
        [osText ['a'], osText ['b'], osText ['.', 'c']] [osText ['a'], osText ['.', 'c']] ↔
      ShowsText [osText ['a'], osText ['b'], osText ['.', 'c']] := by
  have hpaths : oneRow.object.rows.map (·.filepath) = ["objects/a".toList] := by decide
  have horphans : (classify (listDbObjectFiles oneRow) (listDiskObjectFiles
      ([osText ['a'], osText ['b'], osText ['.', 'c']].map display))).orphans =
        ["objects/b".toList] := by decide
  have hplace : place [".data".toList] "objects/b".toList =
      objectsPlace [".data".toList] ++ [osText ['b']] := by decide
  apply reconcile_exact_iff _ _ _ _ _ ?_ (listsDirectory_data (by decide) (by decide)) ?_
  · intro r hr
    have hpath : r.filepath = "objects/a".toList := by
      have hmem := List.mem_map_of_mem (f := fun r : ObjectRecord => r.filepath) hr
      rw [hpaths] at hmem
      exact List.mem_singleton.mp hmem
    exact ⟨['a'], .inl hpath, by decide, by decide, by decide⟩
  · have hafter : (reconcileDirectory oneRow [".data".toList]
        [osText ['a'], osText ['b'], osText ['.', 'c']] [osText ['a'], osText ['.', 'c']]
        (dataFiles [osText ['a'], osText ['b'], osText ['.', 'c']])).2 =
          dataFiles [osText ['a'], osText ['.', 'c']] := by
      funext q
      unfold reconcileDirectory
      simp only [horphans, List.foldl_cons, List.foldl_nil]
      unfold unlinkFile
      rw [hplace]
      by_cases hq : q = objectsPlace [".data".toList] ++ [osText ['b']]
      · rw [if_pos hq, hq]
        decide
      · have hother := beq_eq_false_iff_ne.mpr hq
        rw [if_neg hq]
        unfold dataFiles
        rw [List.any_cons, List.any_cons, hother, Bool.false_or]
        rfl
    rw [hafter]
    exact listsDirectory_data (by decide) (by decide)

/-- A file whose name is the byte 255 stays, and is counted as removed. -/
theorem reconcile_leaves_file :
    let names := [[OsChar.invalid [255]]]
    ListsDirectory [".data".toList] (dataFiles names) names ∧
      (reconcileDirectory Db.migrated [".data".toList] names names (dataFiles names)).2 =
        dataFiles names ∧
      (reconcileDirectory Db.migrated [".data".toList] names names
        (dataFiles names)).1.orphansRemovedCount = 1 ∧
      ¬ RemovesOrphans Db.migrated [".data".toList] (dataFiles names) names names := by
  have hnames : ListsDirectory [".data".toList] (dataFiles [[OsChar.invalid [255]]])
      [[OsChar.invalid [255]]] := listsDirectory_data (by decide) (by decide)
  have hstays : (reconcileDirectory Db.migrated [".data".toList] [[OsChar.invalid [255]]]
      [[OsChar.invalid [255]]] (dataFiles [[OsChar.invalid [255]]])).2 =
        dataFiles [[OsChar.invalid [255]]] := by
    have horphans : (classify (listDbObjectFiles Db.migrated) (listDiskObjectFiles
        ([[OsChar.invalid [255]]].map display))).orphans = ["objects/\uFFFD".toList] := by decide
    funext q
    unfold reconcileDirectory
    simp only [horphans, List.foldl_cons, List.foldl_nil]
    unfold unlinkFile
    by_cases hq : q = place [".data".toList] "objects/\uFFFD".toList
    · rw [if_pos hq, hq]
      decide
    · rw [if_neg hq]
  refine ⟨hnames, hstays, by decide, fun h => ?_⟩
  have htext := shows_text_of_gone hnames h.gone _ List.mem_cons_self (by decide)
  cases htext

end MyS3.ObjectsDirectory
