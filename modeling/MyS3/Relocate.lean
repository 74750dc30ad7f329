import MyS3.Library.FileCalls

/-!
The relocation of a storage root, `storage/relocate.rs`: a rename, and a copy with a removal
where the rename would cross a device. The copy lists each directory after it has made the
copy of it. A recursion without end is one that no amount of fuel is enough for.
-/

namespace MyS3.Relocate

open Library.Strings Library.OsPaths Library.FileTree Library.FileCalls

/-- `path.display()`. -/
def shown (path : OsPath) : Text := display (render path)

/-- The name of a directory of the storage root, as a relative path. -/
def objectsName : OsPath := [.name (osText "objects".toList)]

/-- `path.parent()`. -/
def parent (path : OsPath) : Option OsPath :=
  match path.getLast? with
  | none => none
  | some .root => none
  | some _ => some path.dropLast

/-- `dir_nonempty`. -/
def dirNonempty (path : OsPath) : Io Bool := do
  let there ← pathExists path
  if there = false then pure false
  else do
    let directory ← pathIsDir path
    if directory = false then Io.bail (shown path ++ " exists and is not a directory".toList)
    else do
      let names ← (readDir path).withContext ("read ".toList ++ shown path)
      let first ← nextEntry names
      pure first.isSome

def ensureStorageLayout (root : OsPath) : Io Unit :=
  (createDirAll (join root objectsName)).withContext
    ("create objects under ".toList ++ shown root)

def arrow (src dest : OsPath) : Text := shown src ++ " -> ".toList ++ shown dest

/-- The loop over the entries of a directory; `copyDir` copies a directory in it. -/
def copyEntries (copyDir : OsPath → OsPath → Io Unit) (src dest : OsPath) :
    List OsText → Io Unit
  | [] => do
    let _ ← nextEntry []
    pure ()
  | name :: rest => do
    let _ ← nextEntry (name :: rest)
    let source := join src [.name name]
    let target := join dest [.name name]
    let directory ← entryIsDir source
    if directory then copyDir source target
    else (copyFile source target).withContext ("copy file ".toList ++ arrow source target)
    copyEntries copyDir src dest rest

def copyDirRecursive : Nat → OsPath → OsPath → Io Unit
  | 0, _, _ => fun _ => none
  | fuel + 1, src, dest => do
    (createDirAll dest).withContext ("create ".toList ++ shown dest)
    let names ← (readDir src).withContext ("read ".toList ++ shown src)
    copyEntries (copyDirRecursive fuel) src dest names

/-- `is_exdev`. -/
def isExdev (e : Failure) : Bool := e.code == some 18 || e.code == some 17

/-- An empty directory at the destination is removed, so that a rename can replace it. -/
def clearDestination (dest : OsPath) : Io Unit := do
  let there ← pathExists dest
  if there then do
    let taken ← dirNonempty dest
    if taken then
      Io.bail ("destination ".toList ++ shown dest ++
        " already exists and is not empty".toList)
    else (removeDir dest).withContext ("remove empty destination ".toList ++ shown dest)
  else pure ()

def createParent (dest : OsPath) : Io Unit :=
  match parent dest with
  | some above => (createDirAll above).withContext ("create parent of ".toList ++ shown dest)
  | none => pure ()

def copyAndRemove (fuel : Nat) (src dest : OsPath) : Io Unit := do
  (copyDirRecursive fuel src dest).withContext ("copy ".toList ++ arrow src dest)
  ensureStorageLayout dest
  (removeDirAll src).withContext ("remove old storage root ".toList ++ shown src)

def renameOrCopy (fuel : Nat) (src dest : OsPath) : Io Unit := do
  match ← (rename src dest).attempt with
  | .ok () => ensureStorageLayout dest
  | .error e =>
    if isExdev e then copyAndRemove fuel src dest
    else Io.fail { e with message := some ("rename ".toList ++ arrow src dest) }

def relocateStorageRoot (fuel : Nat) (src dest : OsPath) : Io Unit :=
  if src = dest then pure ()
  else do
    let there ← pathExists src
    if there = false then
      Io.bail ("current storage root ".toList ++ shown src ++ " does not exist".toList)
    else do
      clearDestination dest
      createParent dest
      renameOrCopy fuel src dest

section Cwd

open Io

theorem keeps_dirNonempty {R : World → World → Prop} [Effect R] (path : OsPath) :
    Keeps R (dirNonempty path) := by
  refine ((keeps_query _).orElse false).bind fun there => ?_
  split_ifs
  · exact keeps_pure false
  · refine ((keeps_query _).orElse false).bind fun directory => ?_
    split_ifs
    · exact keeps_fail _
    · refine ((keeps_query _).withContext _).bind fun names => ?_
      exact (keeps_query _).bind fun first => keeps_pure _

theorem keepsCwd_dirNonempty (path : OsPath) : KeepsCwd (dirNonempty path) :=
  keeps_dirNonempty (R := SameCwd) path

theorem keepsCwd_ensureStorageLayout (root : OsPath) : KeepsCwd (ensureStorageLayout root) :=
  (keepsCwd_createDirAll _).withContext _

theorem keepsCwd_copyEntries {copyDir : OsPath → OsPath → Io Unit}
    (h : ∀ src dest, KeepsCwd (copyDir src dest)) (src dest : OsPath) (names : List OsText) :
    KeepsCwd (copyEntries copyDir src dest names) := by
  induction names with
  | nil => exact (keepsCwd_nextEntry []).bind fun _ => keepsCwd_pure ()
  | cons name rest ih =>
    refine (keepsCwd_nextEntry _).bind fun _ => (keepsCwd_entryIsDir _).bind fun directory => ?_
    split_ifs
    · exact (h _ _).bind fun _ => ih
    · exact ((keepsCwd_copyFile _ _).withContext _).bind fun _ => ih

theorem keepsCwd_copyDirRecursive (fuel : Nat) (src dest : OsPath) :
    KeepsCwd (copyDirRecursive fuel src dest) := by
  induction fuel generalizing src dest with
  | zero =>
    intro w r w' h
    cases h
  | succ fuel ih =>
    refine ((keepsCwd_createDirAll dest).withContext _).bind fun _ => ?_
    refine ((keepsCwd_readDir src).withContext _).bind fun names => ?_
    exact keepsCwd_copyEntries ih src dest names

theorem keepsCwd_createParent (dest : OsPath) : KeepsCwd (createParent dest) := by
  unfold createParent
  split
  · exact (keepsCwd_createDirAll _).withContext _
  · exact keepsCwd_pure ()

end Cwd

/-- Where a process is after a relocation: its working directory is lost, or not in the
storage root, or has moved with it and left no file behind. -/
inductive CwdAfter (w w' : World) (dir : Place) (src : OsPath) : Prop
  | lost : w'.cwd = none → CwdAfter w w' dir src
  | kept (s : Place) : w.place src = some s → ¬ s <+: dir → w'.cwd = some dir →
      CwdAfter w w' dir src
  | carried (s d : Place) : w.place src = some s → s <+: dir → d ≠ s →
      w'.cwd = some (moved s d dir) → (∀ q, s <+: q → content w'.tree q = none) →
      CwdAfter w w' dir src

theorem ensureStorageLayout_ok {root : OsPath} {w w' : World}
    (h : ensureStorageLayout root w = some (.ok (), w')) :
    w'.cwd = w.cwd ∧ ∀ q, content w'.tree q = content w.tree q := by
  obtain ⟨q, _, hcwd, htree⟩ := createDirAll_ok (Io.withContext_ok.mp h)
  refine ⟨hcwd, fun r => ?_⟩
  rw [htree, content_makeDirs]

/-- Clearing the destination may lose the working directory, but not move it. -/
theorem clearDestination_cwd {dest : OsPath} {w w' : World}
    (h : clearDestination dest w = some (.ok (), w')) : w'.cwd = w.cwd ∨ w'.cwd = none := by
  obtain ⟨there, w1, hthere, h⟩ := Io.bind_ok.mp h
  have h1 := keepsCwd_pathExists dest _ _ _ hthere
  cases there with
  | false =>
    rw [← (Io.pure_ok.mp h).2, h1]
    exact Or.inl rfl
  | true =>
    obtain ⟨taken, w2, htaken, h⟩ := Io.bind_ok.mp h
    have h2 := keepsCwd_dirNonempty dest _ _ _ htaken
    cases taken with
    | true => exact (Io.fail_ok.mp h).elim
    | false =>
      obtain ⟨q, _, hcwd⟩ := removeDir_ok (Io.withContext_ok.mp h)
      rw [hcwd, h2, h1]
      cases w.cwd with
      | none => exact Or.inl rfl
      | some dir =>
        rw [Option.filter_some]
        split_ifs
        · exact Or.inl rfl
        · exact Or.inr rfl

theorem place_of_cwd {w w' : World} {p : OsPath} {s : Place} (h : w'.place p = some s)
    (hcwd : w'.cwd = w.cwd) : w.place p = some s := by
  unfold World.place at h ⊢
  rwa [hcwd] at h

/-- A rename takes the working directory along when it is in the storage root. -/
theorem cwdAfter_rename {src dest : OsPath} {w w' : World} {dir : Place}
    (h : rename src dest w = some (.ok (), w')) (hcwd : w.cwd = some dir) :
    CwdAfter w w' dir src := by
  obtain ⟨s, d, hs, _, hinside, houtside, htree, hmoved⟩ := rename_ok h
  rw [hcwd, Option.map_some] at hmoved
  by_cases hunder : s <+: dir
  · refine .carried s d hs hunder (fun heq => hinside (heq ▸ List.prefix_rfl)) hmoved ?_
    intro q hq
    rw [htree]
    refine content_move_gone hq fun hd => ?_
    rcases List.prefix_or_prefix_of_prefix hq hd with hsd | hds
    · exact hinside hsd
    · exact houtside hds
  · refine .kept s hs hunder ?_
    rw [hmoved, moved, if_neg hunder]

theorem copyAndRemove_ok {fuel : Nat} {src dest : OsPath} {w w' : World}
    (h : copyAndRemove fuel src dest w = some (.ok (), w')) :
    ∃ s, w.place src = some s ∧ w'.cwd = w.cwd.filter fun dir => ¬ s <+: dir := by
  obtain ⟨_, w1, hcopy, h⟩ := Io.bind_ok.mp h
  obtain ⟨_, w2, hlayout, h⟩ := Io.bind_ok.mp h
  obtain ⟨s, hs, hremoved⟩ := removeDirAll_ok (Io.withContext_ok.mp h)
  have h1 := (keepsCwd_copyDirRecursive fuel src dest).withContext _ _ _ _ hcopy
  have h2 := keepsCwd_ensureStorageLayout dest _ _ _ hlayout
  exact ⟨s, place_of_cwd hs (h2.trans h1), by rw [hremoved, h2, h1]⟩

theorem cwdAfter_copyAndRemove {fuel : Nat} {src dest : OsPath} {w w' : World} {dir : Place}
    (h : copyAndRemove fuel src dest w = some (.ok (), w')) (hcwd : w.cwd = some dir) :
    CwdAfter w w' dir src := by
  obtain ⟨s, hs, hremoved⟩ := copyAndRemove_ok h
  rw [hcwd, Option.filter_some] at hremoved
  split_ifs at hremoved with hunder
  · exact .kept s hs (by simpa using hunder) hremoved
  · exact .lost hremoved

/-- An earlier part of a relocation that leaves the working directory alone. -/
theorem CwdAfter.of_start {w w1 w2 : World} {dir : Place} {src : OsPath}
    (h : CwdAfter w1 w2 dir src) (hcwd : w1.cwd = w.cwd) : CwdAfter w w2 dir src := by
  cases h with
  | lost hlost => exact .lost hlost
  | kept s hs hunder hkept => exact .kept s (place_of_cwd hs hcwd) hunder hkept
  | carried s d hs hunder hne hmoved hgone =>
    exact .carried s d (place_of_cwd hs hcwd) hunder hne hmoved hgone

/-- A later part of a relocation that leaves the working directory and the files alone. -/
theorem CwdAfter.extend {w w1 w2 : World} {dir : Place} {src : OsPath}
    (h : CwdAfter w w1 dir src) (hcwd : w2.cwd = w1.cwd)
    (hcontent : ∀ q, content w2.tree q = content w1.tree q) : CwdAfter w w2 dir src := by
  cases h with
  | lost hlost => exact .lost (hcwd.trans hlost)
  | kept s hs hunder hkept => exact .kept s hs hunder (hcwd.trans hkept)
  | carried s d hs hunder hne hmoved hgone =>
    refine .carried s d hs hunder hne (hcwd.trans hmoved) fun q hq => ?_
    rw [hcontent]
    exact hgone q hq

theorem renameOrCopy_ok {fuel : Nat} {src dest : OsPath} {w w' : World}
    (h : renameOrCopy fuel src dest w = some (.ok (), w')) :
    (w.cwd = none → w'.cwd = none) ∧ ∀ dir, w.cwd = some dir → CwdAfter w w' dir src := by
  obtain ⟨r, w1, hrename, h⟩ := Io.bind_attempt_ok.mp h
  cases r with
  | ok u =>
    obtain ⟨hcwd, hcontent⟩ := ensureStorageLayout_ok h
    refine ⟨fun hnone => ?_, fun dir hdir => (cwdAfter_rename hrename hdir).extend hcwd hcontent⟩
    obtain ⟨s, d, _, _, _, _, _, hmoved⟩ := rename_ok hrename
    rw [hcwd, hmoved, hnone, Option.map_none]
  | error e =>
    have hkept := rename_error hrename
    simp only at h
    split_ifs at h with hexdev
    · refine ⟨fun hnone => ?_, fun dir hdir => ?_⟩
      · obtain ⟨s, _, hremoved⟩ := copyAndRemove_ok h
        rw [hremoved, hkept, hnone, Option.filter_none]
      · exact (cwdAfter_copyAndRemove h (hkept.trans hdir)).of_start hkept
    · exact (Io.fail_ok.mp h).elim

theorem relocate_ok {fuel : Nat} {src dest : OsPath} {w w' : World} {dir : Place}
    (h : relocateStorageRoot fuel src dest w = some (.ok (), w')) (hne : src ≠ dest)
    (hcwd : w.cwd = some dir) : CwdAfter w w' dir src := by
  unfold relocateStorageRoot at h
  rw [if_neg hne] at h
  obtain ⟨there, w1, hthere, h⟩ := Io.bind_ok.mp h
  have h1 := keepsCwd_pathExists src _ _ _ hthere
  cases there with
  | false => exact (Io.fail_ok.mp h).elim
  | true =>
    obtain ⟨_, w2, hclear, h⟩ := Io.bind_ok.mp h
    obtain ⟨_, w3, hparent, h⟩ := Io.bind_ok.mp h
    have h3 := keepsCwd_createParent dest _ _ _ hparent
    obtain ⟨hlost, hmoved⟩ := renameOrCopy_ok h
    rcases clearDestination_cwd hclear with h2 | h2
    · have hstart : w3.cwd = w.cwd := (h3.trans h2).trans h1
      exact (hmoved dir (hstart.trans hcwd)).of_start hstart
    · exact .lost (hlost (h3.trans h2))

end MyS3.Relocate
