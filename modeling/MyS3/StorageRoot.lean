import MyS3.Http
import MyS3.Rbac
import MyS3.Relocate

/-!
The storage root of a node: `config.rs` finds it at the start, from the command line, the
environment and a file in the working directory, and `put_storage_settings` of
`server/settings_routes.rs` moves it and writes that file for the next start. The start
reads the file only where nothing else names a storage root, trims what it reads, and looks
in the working directory as it is then.
-/

namespace MyS3.StorageRoot

open Library.Strings Library.OsPaths Library.FileTree Library.FileCalls
open Database Http Rbac Relocate

structure CliOverrides where
  bindAddr : Option Text := none
  grpcBindAddr : Option Text := none
  storageRoot : Option Text := none

/-- `parse_cli_overrides`, from the arguments that are left; a flag at the very end has no
value and is skipped. -/
def parseCliFrom (out : CliOverrides) : List Text → CliOverrides
  | [] => out
  | arg :: rest =>
    if arg = "serve".toList then parseCliFrom out rest
    else if arg = "--bind".toList ∨ arg = "-b".toList then
      match rest with
      | v :: rest' => parseCliFrom { out with bindAddr := some v } rest'
      | [] => out
    else if arg = "--storage".toList ∨ arg = "--storage-root".toList then
      match rest with
      | v :: rest' => parseCliFrom { out with storageRoot := some v } rest'
      | [] => out
    else if arg = "--grpc-bind".toList then
      match rest with
      | v :: rest' => parseCliFrom { out with grpcBindAddr := some v } rest'
      | [] => out
    else
      match stripPrefix "--bind=".toList arg with
      | some v => parseCliFrom { out with bindAddr := some v } rest
      | none =>
      match stripPrefix "--storage=".toList arg with
      | some v => parseCliFrom { out with storageRoot := some v } rest
      | none =>
      match stripPrefix "--storage-root=".toList arg with
      | some v => parseCliFrom { out with storageRoot := some v } rest
      | none =>
      match stripPrefix "--grpc-bind=".toList arg with
      | some v => parseCliFrom { out with grpcBindAddr := some v } rest
      | none => parseCliFrom out rest

def parseCliOverrides (args : List Text) : CliOverrides := parseCliFrom {} args

/-- `.mys3`, in the working directory. -/
def overrideDir : OsPath := [.name (osText ".mys3".toList)]

def overrideFile : OsPath :=
  [.name (osText ".mys3".toList), .name (osText "storage_root".toList)]

/-- What a node is started with. -/
structure Launch where
  args : List Text
  /-- The variable `STORAGE_ROOT`; only a value that is text counts. -/
  storageRootVar : Option OsText
  cwd : Place
  cwd_plain : ∀ n ∈ cwd, PlainName n

/-- The storage root that the file names, in a working directory; a file that is not text
counts as none. -/
def readPersistedStorageRoot (tree : Tree OsText OsText) (cwd : Place) : Option OsPath :=
  match (content tree (resolve cwd overrideFile)).bind toText with
  | none => none
  | some raw => if trim raw = [] then none else some (components (osText (trim raw)))

/-- The storage root of `Config::from_env`. -/
def Launch.storageRoot (l : Launch) (tree : Tree OsText OsText) : OsPath :=
  (((parseCliOverrides l.args).storageRoot.map fun v => components (osText v)).or
    (((l.storageRootVar.bind toText).map fun v => components (osText v)).or
      (readPersistedStorageRoot tree l.cwd))).getD (components (osText ".data".toList))

/-- One component of a path that is pushed to a normalized one. -/
def pushComponent (out : OsPath) : Component → OsPath
  | .parent => if out.getLast? = some .root then out else out.dropLast
  | .current => out
  | .root => [.root]
  | .name n => out ++ [.name n]

def normalizePath (path : OsPath) : OsPath := path.foldl pushComponent []

def resolveStoragePath (input : Text) : Io OsPath :=
  if trim input = [] then Io.bail "storage path is required".toList
  else
    let path := components (osText (trim input))
    if isAbsolute path then pure (normalizePath path)
    else do
      let dir ← currentDir.withContext "resolve current directory".toList
      pure (normalizePath (join dir path))

def persistStorageRoot (path : OsPath) : Io Unit := do
  let absolute ← if isAbsolute path then pure (normalizePath path)
    else resolveStoragePath (shown path)
  (createDirAll overrideDir).withContext "create .mys3 directory".toList
  (writeFile overrideFile (osText (shown absolute ++ ['\n']))).withContext
    "write storage root override".toList

/-- `relocate::absolute_display`. -/
def absoluteDisplay (path : OsPath) : Io OsPath :=
  if isAbsolute path then pure path
  else do
    match ← currentDir.attempt with
    | .ok dir => pure (join dir path)
    | .error _ => pure path

structure PutStorageBody where
  path : Text
  mode : Text

inductive Answer
  /-- 202; the node ends and is started again. -/
  | accepted (absolutePath mode : Text)
  | noContent
  | failure (status : Status) (message : Option Text)
  deriving DecidableEq

/-- The node as far as its storage is concerned. -/
structure Node where
  storageRoot : OsPath
  db : Db
  poolOpen : Bool

/-- Database calls that fail: the check of the role, and the statistics, whose numbers are
not used. -/
structure Faults where
  owner : Bool := false
  stats : Bool := false

/-- The end of `put_storage_settings`. -/
def persisted (node : Node) (newPath : OsPath) (mode : Text) : Io (Answer × Node) := do
  match ← (persistStorageRoot newPath).attempt with
  | .error e => pure (.failure .internalServerError e.message, node)
  | .ok () => pure (.accepted (shown newPath) mode, node)

/-- The pool is closed before the move, and not opened again. -/
def moveAndPersist (fuel : Nat) (node : Node) (current newPath : OsPath) (mode : Text) :
    Io (Answer × Node) := do
  match ← (relocateStorageRoot fuel current newPath).attempt with
  | .error e => pure (.failure .internalServerError e.message, { node with poolOpen := false })
  | .ok () => persisted { node with poolOpen := false } newPath mode

/-- The part of `put_storage_settings` in the mode `move`. -/
def putMove (fuel : Nat) (node : Node) (current newPath : OsPath) (mode : Text) :
    Io (Answer × Node) := do
  match ← (dirNonempty newPath).attempt with
  | .ok true =>
    pure (.failure .conflict (some "destination already exists and is not empty".toList), node)
  | _ => moveAndPersist fuel node current newPath mode

def putFresh (node : Node) (newPath : OsPath) (mode : Text) : Io (Answer × Node) := do
  match ← (ensureStorageLayout newPath).attempt with
  | .error e => pure (.failure .internalServerError e.message, node)
  | .ok () => persisted node newPath mode

def putMode (fuel : Nat) (node : Node) (current newPath : OsPath) (mode : Text) :
    Io (Answer × Node) :=
  if mode = "move".toList then putMove fuel node current newPath mode
  else putFresh node newPath mode

/-- The part of `put_storage_settings` after the new path is resolved. -/
def changeStorage (fuel : Nat) (node : Node) (newPath : OsPath) (mode : Text)
    (faults : Faults) : Io (Answer × Node) := do
  let current ← absoluteDisplay node.storageRoot
  if newPath = current then pure (.noContent, node)
  else if faults.stats then pure (.failure .internalServerError none, node)
  else do
    let _ ← (dirNonempty (join node.storageRoot objectsName)).orElse false
    putMode fuel node current newPath mode

def putStorageSettings (fuel : Nat) (node : Node) (actor : Int) (body : PutStorageBody)
    (faults : Faults) : Io (Answer × Node) :=
  if faults.owner then pure (.failure .internalServerError none, node)
  else if accountIsOwner node.db actor = false then
    pure (.failure .forbidden (some "owner role required".toList), node)
  else if trim body.mode ≠ "move".toList ∧ trim body.mode ≠ "fresh".toList then
    pure (.failure .badRequest (some "mode must be move or fresh".toList), node)
  else do
    match ← (resolveStoragePath body.path).attempt with
    | .error e => pure (.failure .badRequest e.message, node)
    | .ok newPath => changeStorage fuel node newPath (trim body.mode) faults

/-- The place that a path in a request stands for. -/
def target (dir : Place) (input : Text) : Place := resolve dir (components (osText (trim input)))

theorem foldl_pushComponent (p : OsPath) (names : List OsText) :
    p.foldl pushComponent (absolutePath names) = absolutePath (p.foldl enter names) := by
  induction p generalizing names with
  | nil => rfl
  | cons c rest ih =>
    have hstep : pushComponent (absolutePath names) c = absolutePath (enter names c) := by
      cases c with
      | root => rfl
      | current => rfl
      | parent =>
        cases names using List.reverseRecOn with
        | nil => rfl
        | append_singleton above n =>
          have hlast : absolutePath (above ++ [n]) = absolutePath above ++ [.name n] := by
            simp [absolutePath]
          simp only [hlast, pushComponent, enter, List.getLast?_concat, List.dropLast_concat]
          rfl
      | name n => simp [pushComponent, absolutePath, enter]
    rw [List.foldl_cons, List.foldl_cons, hstep, ih]

theorem normalizePath_eq {p : OsPath} (h : isAbsolute p = true) :
    normalizePath p = absolutePath (resolve [] p) := by
  cases p with
  | nil => cases h
  | cons c rest =>
    obtain rfl : c = .root := by simpa [isAbsolute] using h
    exact foldl_pushComponent rest []

theorem normalizePath_absolutePath (names : List OsText) :
    normalizePath (absolutePath names) = absolutePath names := by
  rw [normalizePath_eq rfl, resolve_absolutePath]

theorem isAbsolute_join (base : List OsText) (p : OsPath) :
    isAbsolute (join (absolutePath base) p) = true := by
  unfold join
  split_ifs with h
  · exact h
  · rfl

theorem currentDir_ok {w w' : World} {dir : Place} {p : OsPath} (hcwd : w.cwd = some dir)
    (h : currentDir w = some (.ok p, w')) : p = absolutePath dir := by
  obtain ⟨hact, _⟩ := Io.query_ok h
  simp only [World.met, hcwd, Except.ok.injEq] at hact
  exact hact.symm

section Effects

variable {R : World → World → Prop} [Effect R]

theorem keeps_currentDir : Io.Keeps R currentDir := Io.keeps_query _

theorem keeps_resolveStoragePath (input : Text) : Io.Keeps R (resolveStoragePath input) := by
  unfold resolveStoragePath
  simp only
  split_ifs
  · exact Io.keeps_fail _
  · exact Io.keeps_pure _
  · exact (keeps_currentDir.withContext _).bind fun dir => Io.keeps_pure _

theorem keeps_absoluteDisplay (path : OsPath) : Io.Keeps R (absoluteDisplay path) := by
  unfold absoluteDisplay
  split_ifs
  · exact Io.keeps_pure _
  · refine keeps_currentDir.attempt.bind fun r => ?_
    cases r with
    | ok dir => exact Io.keeps_pure _
    | error e => exact Io.keeps_pure _

end Effects

theorem keepsCwd_resolveStoragePath (input : Text) : Io.KeepsCwd (resolveStoragePath input) :=
  keeps_resolveStoragePath (R := Io.SameCwd) input

theorem resolveStoragePath_ok {input : Text} {w w' : World} {dir : Place} {p : OsPath}
    (hcwd : w.cwd = some dir) (h : resolveStoragePath input w = some (.ok p, w')) :
    p = absolutePath (target dir input) := by
  unfold resolveStoragePath at h
  simp only at h
  split_ifs at h with hempty habsolute
  · exact (Io.fail_ok.mp h).elim
  · rw [← (Io.pure_ok.mp h).1, normalizePath_eq habsolute]
    unfold target
    rw [resolve_absolute habsolute dir]
  · obtain ⟨q, w1, hq, h⟩ := Io.bind_ok.mp h
    rw [currentDir_ok hcwd (Io.withContext_ok.mp hq)] at h
    rw [← (Io.pure_ok.mp h).1, normalizePath_eq (isAbsolute_join _ _), resolve_join]
    rfl

/-- The current storage root as an absolute path stands for the same place. -/
theorem absoluteDisplay_ok {root p : OsPath} {w w' : World} {dir : Place}
    (hcwd : w.cwd = some dir) (h : absoluteDisplay root w = some (.ok p, w')) :
    w'.cwd = some dir ∧ w'.place p = some (resolve dir root) ∧
      (isAbsolute root = true → p = root) := by
  unfold absoluteDisplay at h
  split_ifs at h with habsolute
  · obtain ⟨rfl, rfl⟩ := Io.pure_ok.mp h
    refine ⟨hcwd, ?_, fun _ => rfl⟩
    unfold World.place
    rw [if_pos habsolute, resolve_absolute habsolute dir]
  · obtain ⟨r, w1, hr, h⟩ := Io.bind_attempt_ok.mp h
    have hkept : w1.cwd = some dir := (keepsCwd_currentDir _ _ _ hr).trans hcwd
    cases r with
    | ok q =>
      obtain ⟨rfl, rfl⟩ := Io.pure_ok.mp h
      refine ⟨hkept, ?_, fun habs => absurd habs habsolute⟩
      unfold World.place
      rw [currentDir_ok hcwd hr, if_pos (isAbsolute_join _ _), resolve_join]
    | error e =>
      obtain ⟨rfl, rfl⟩ := Io.pure_ok.mp h
      refine ⟨hkept, ?_, fun habs => absurd habs habsolute⟩
      unfold World.place
      rw [if_neg habsolute, hkept, Option.map_some]

/-- The line for the next start is written in the working directory. -/
theorem persistStorageRoot_ok {names : List OsText} {w w' : World}
    (h : persistStorageRoot (absolutePath names) w = some (.ok (), w')) :
    ∃ dir, w.cwd = some dir ∧
      content w'.tree (resolve dir overrideFile) =
        some (osText (shown (absolutePath names) ++ ['\n'])) ∧
      ∀ q, q ≠ resolve dir overrideFile → content w'.tree q = content w.tree q := by
  obtain ⟨absolute, w1, habsolute, h⟩ := Io.bind_ok.mp h
  obtain ⟨rfl, rfl⟩ := Io.pure_ok.mp habsolute
  obtain ⟨_, w2, hdirs, h⟩ := Io.bind_ok.mp h
  obtain ⟨d, _, hcwd, htree⟩ := createDirAll_ok (Io.withContext_ok.mp hdirs)
  obtain ⟨q, hq, hne, _, hput⟩ := writeFile_ok (Io.withContext_ok.mp h)
  unfold World.place at hq
  rw [if_neg (by decide), hcwd] at hq
  obtain ⟨dir, hdir, rfl⟩ := Option.map_eq_some_iff.mp hq
  refine ⟨dir, hdir, ?_, fun r hr => ?_⟩
  · rw [hput, content_put hne, normalizePath_absolutePath]
  · rw [hput, content_put_other hr, htree, content_makeDirs]

theorem resolve_overrideFile (dir : Place) :
    resolve dir overrideFile =
      dir ++ [osText ".mys3".toList, osText "storage_root".toList] := by
  simp [resolve, overrideFile, enter]

/-- What the next start reads in a working directory. -/
abbrev lineAt (w : World) (dir : Place) : Option OsText := content w.tree (resolve dir overrideFile)

/-- The line that is written for a new storage root. -/
def lineFor (names : List OsText) : OsText := osText (shown (absolutePath names) ++ ['\n'])

theorem persist_of_accepted {node node' : Node} {p : OsPath} {mode t m : Text} {w w' : World}
    (h : persisted node p mode w = some (.ok (.accepted t m, node'), w')) :
    persistStorageRoot p w = some (.ok (), w') := by
  obtain ⟨r, w1, hr, h⟩ := Io.bind_attempt_ok.mp h
  cases r with
  | error e => simp [Io.pure_ok] at h
  | ok u =>
    obtain ⟨_, rfl⟩ := Io.pure_ok.mp h
    exact hr

theorem persisted_accepted {node node' : Node} {names : List OsText} {mode t m : Text}
    {w w' : World} {dir : Place}
    (h : persisted node (absolutePath names) mode w = some (.ok (.accepted t m, node'), w'))
    (hcwd : w.cwd = some dir) :
    lineAt w' dir = some (lineFor names) ∧
      ∀ q, q ≠ resolve dir overrideFile → content w'.tree q = content w.tree q := by
  obtain ⟨c, hc, hline, hothers⟩ := persistStorageRoot_ok (persist_of_accepted h)
  obtain rfl : dir = c := Option.some.inj (hcwd.symm.trans hc)
  exact ⟨hline, hothers⟩

/-- Without a working directory nothing is accepted. -/
theorem persisted_lost {node node' : Node} {names : List OsText} {mode t m : Text}
    {w w' : World}
    (h : persisted node (absolutePath names) mode w = some (.ok (.accepted t m, node'), w')) :
    w.cwd ≠ none := by
  obtain ⟨c, hc, _⟩ := persistStorageRoot_ok (persist_of_accepted h)
  rw [hc]
  simp

theorem putFresh_accepted {node node' : Node} {names : List OsText} {mode t m : Text}
    {w w' : World} {dir : Place}
    (h : putFresh node (absolutePath names) mode w = some (.ok (.accepted t m, node'), w'))
    (hcwd : w.cwd = some dir) : lineAt w' dir = some (lineFor names) := by
  obtain ⟨r, w1, hr, h⟩ := Io.bind_attempt_ok.mp h
  cases r with
  | error e => simp [Io.pure_ok] at h
  | ok u =>
    obtain ⟨hkept, _⟩ := ensureStorageLayout_ok hr
    exact (persisted_accepted h (hkept.trans hcwd)).1

/-- After a move the line is in the working directory, unless that has moved too. -/
theorem putMove_accepted {fuel : Nat} {node node' : Node} {current : OsPath}
    {names : List OsText} {mode t m : Text} {w w' : World} {dir s : Place}
    (h : putMove fuel node current (absolutePath names) mode w =
      some (.ok (.accepted t m, node'), w'))
    (hne : current ≠ absolutePath names) (hcwd : w.cwd = some dir)
    (hs : w.place current = some s) :
    (¬ s <+: dir ∧ lineAt w' dir = some (lineFor names)) ∨ (s <+: dir ∧ lineAt w' dir = none) := by
  obtain ⟨taken, w1, htaken, h⟩ := Io.bind_attempt_ok.mp h
  have h1 : w1.cwd = some dir := (keepsCwd_dirNonempty _ _ _ _ htaken).trans hcwd
  have hs1 : w1.place current = some s := place_of_cwd hs (h1.trans hcwd.symm).symm
  have hrest : moveAndPersist fuel node current (absolutePath names) mode w1 =
      some (.ok (.accepted t m, node'), w') := by
    cases taken with
    | error e => exact h
    | ok b =>
      cases b with
      | true => simp [Io.pure_ok] at h
      | false => exact h
  obtain ⟨r, w2, hr, h⟩ := Io.bind_attempt_ok.mp hrest
  cases r with
  | error e => simp [Io.pure_ok] at h
  | ok u =>
    cases relocate_ok hr hne h1 with
    | lost hlost => exact absurd hlost (persisted_lost h)
    | kept s' hs' hunder hkept =>
      obtain rfl : s = s' := Option.some.inj (hs1.symm.trans hs')
      exact Or.inl ⟨hunder, (persisted_accepted h hkept).1⟩
    | carried s' d hs' hunder hds hmoved hgone =>
      obtain rfl : s = s' := Option.some.inj (hs1.symm.trans hs')
      refine Or.inr ⟨hunder, ?_⟩
      obtain ⟨rest, rfl⟩ := hunder
      have hother := (persisted_accepted h hmoved).2
      unfold lineAt
      rw [hother, hgone _ (by rw [resolve_overrideFile, List.append_assoc]; exact ⟨_, rfl⟩)]
      rw [resolve_overrideFile, resolve_overrideFile, moved,
        if_pos (List.prefix_append _ _), List.drop_left]
      intro heq
      exact hds (List.append_cancel_right (List.append_cancel_right heq)).symm

/-- The working directory is in the storage root, and moves with it. -/
def movesCwd (dir : Place) (node : Node) (mode : Text) : Prop :=
  trim mode = "move".toList ∧ resolve dir node.storageRoot <+: dir

theorem putMode_accepted {fuel : Nat} {node node' : Node} {current : OsPath}
    {names : List OsText} {mode t m : Text} {w w' : World} {dir : Place}
    (h : putMode fuel node current (absolutePath names) (trim mode) w =
      some (.ok (.accepted t m, node'), w'))
    (hne : current ≠ absolutePath names) (hcwd : w.cwd = some dir)
    (hs : w.place current = some (resolve dir node.storageRoot)) :
    (¬ movesCwd dir node mode ∧ lineAt w' dir = some (lineFor names)) ∨
      (movesCwd dir node mode ∧ lineAt w' dir = none) := by
  unfold putMode at h
  unfold movesCwd
  split_ifs at h with hmove
  · rcases putMove_accepted h hne hcwd hs with ⟨hunder, hline⟩ | ⟨hunder, hline⟩
    · exact Or.inl ⟨fun hboth => hunder hboth.2, hline⟩
    · exact Or.inr ⟨⟨hmove, hunder⟩, hline⟩
  · exact Or.inl ⟨fun hboth => hmove hboth.1, putFresh_accepted h hcwd⟩

/-- What an accepted request leaves for a start in the same working directory. -/
theorem putStorageSettings_accepted {fuel : Nat} {node node' : Node} {actor : Int}
    {body : PutStorageBody} {faults : Faults} {t m : Text} {w w' : World} {dir : Place}
    (h : putStorageSettings fuel node actor body faults w =
      some (.ok (.accepted t m, node'), w')) (hcwd : w.cwd = some dir) :
    node.storageRoot ≠ absolutePath (target dir body.path) ∧
      ((¬ movesCwd dir node body.mode ∧ lineAt w' dir = some (lineFor (target dir body.path))) ∨
        (movesCwd dir node body.mode ∧ lineAt w' dir = none)) := by
  unfold putStorageSettings at h
  split_ifs at h with howner hrole hmode
  · simp [Io.pure_ok] at h
  · simp [Io.pure_ok] at h
  · simp [Io.pure_ok] at h
  obtain ⟨r, w1, hr, h⟩ := Io.bind_attempt_ok.mp h
  have h1 : w1.cwd = some dir := (keepsCwd_resolveStoragePath _ _ _ _ hr).trans hcwd
  cases r with
  | error e => simp [Io.pure_ok] at h
  | ok newPath =>
    obtain rfl := resolveStoragePath_ok hcwd hr
    obtain ⟨current, w2, hcurrent, h⟩ := Io.bind_ok.mp h
    obtain ⟨h2, hplace, habsolute⟩ := absoluteDisplay_ok h1 hcurrent
    split_ifs at h with hsame hstats
    · simp [Io.pure_ok] at h
    · simp [Io.pure_ok] at h
    · obtain ⟨_, w3, hobjects, h⟩ := Io.bind_ok.mp h
      have hkept := (keepsCwd_dirNonempty _).orElse false _ _ _ hobjects
      have hplace3 : w3.place current = some (resolve dir node.storageRoot) :=
        place_of_cwd hplace hkept.symm
      refine ⟨fun heq => hsame ?_, ?_⟩
      · rw [habsolute (by rw [heq]; rfl), heq]
      · exact putMode_accepted h (Ne.symm hsame) (hkept.trans h2) hplace3

/-- The names that a path in a request stands for are names of entries. -/
theorem plain_target (l : Launch) (input : Text) : ∀ n ∈ target l.cwd input, PlainName n :=
  plain_resolve l.cwd_plain fun _ hn => plain_of_components hn

/-- What the next start takes from the line that was written for a path. -/
theorem readPersistedStorageRoot_lineFor {tree : Tree OsText OsText} {cwd : Place}
    {names : List OsText} (hplain : ∀ n ∈ names, PlainName n)
    (h : content tree (resolve cwd overrideFile) = some (lineFor names)) :
    readPersistedStorageRoot tree cwd = some (absolutePath names) ↔
      (∀ n ∈ names, (toText n).isSome = true) ∧
        trim (shown (absolutePath names)) = shown (absolutePath names) := by
  have hline : components (osText (trim (shown (absolutePath names) ++ ['\n']))) =
      absolutePath names ↔ _ := components_trim_line hplain
  unfold lineFor at h
  unfold readPersistedStorageRoot
  rw [h, Option.bind_some, toText_osText]
  simp only
  split_ifs with hempty
  · -- No absolute path is written as an empty line.
    refine iff_of_false (by simp) fun hreads => ?_
    have heq := hline.mpr hreads
    rw [hempty] at heq
    cases heq
  · exact (Option.some_inj).trans hline

/-- Neither the command line nor the environment names a storage root. -/
def Unnamed (l : Launch) : Prop :=
  (parseCliOverrides l.args).storageRoot = none ∧ l.storageRootVar.bind toText = none

theorem storageRoot_of_unnamed {l : Launch} (h : Unnamed l) (tree : Tree OsText OsText) :
    l.storageRoot tree =
      (readPersistedStorageRoot tree l.cwd).getD (components (osText ".data".toList)) := by
  unfold Launch.storageRoot
  rw [h.1, h.2]
  rfl

/-- Where the storage root is named, no file has a say in it. -/
theorem storageRoot_of_named {l : Launch} (h : ¬ Unnamed l) (tree tree' : Tree OsText OsText) :
    l.storageRoot tree = l.storageRoot tree' := by
  unfold Launch.storageRoot
  cases hargs : (parseCliOverrides l.args).storageRoot with
  | some v => rfl
  | none =>
    cases henv : l.storageRootVar.bind toText with
    | some v => rfl
    | none => exact absurd ⟨hargs, henv⟩ h

theorem data_ne_absolutePath (names : List OsText) :
    components (osText ".data".toList) ≠ absolutePath names := by
  have hdata : components (osText ".data".toList) = [.name (osText ".data".toList)] := by decide
  rw [hdata]
  intro heq
  cases heq

/-- The next start can tell the new storage root from what was written for it. -/
structure Settles (l : Launch) (node : Node) (body : PutStorageBody) : Prop where
  unnamed : Unnamed l
  isText : ∀ n ∈ target l.cwd body.path, (toText n).isSome = true
  noSpace : trim (shown (absolutePath (target l.cwd body.path))) =
    shown (absolutePath (target l.cwd body.path))
  cwdStays : ¬ movesCwd l.cwd node body.mode

/-- After a request for a new storage root is accepted, a start with the same command line,
environment and working directory opens it exactly when nothing else names a storage root,
its text has no white space to be trimmed and nothing that is no text, and the move has not
taken the working directory along. -/
theorem next_start_opens_iff (l : Launch) (started : Tree OsText OsText) (fuel : Nat)
    (node node' : Node) (actor : Int) (body : PutStorageBody) (faults : Faults) (t m : Text)
    (w w' : World) (hnode : node.storageRoot = l.storageRoot started)
    (hcwd : w.cwd = some l.cwd)
    (h : putStorageSettings fuel node actor body faults w =
      some (.ok (.accepted t m, node'), w')) :
    l.storageRoot w'.tree = absolutePath (target l.cwd body.path) ↔ Settles l node body := by
  obtain ⟨hnew, hline⟩ := putStorageSettings_accepted h hcwd
  by_cases hunnamed : Unnamed l
  · rw [storageRoot_of_unnamed hunnamed]
    rcases hline with ⟨hstays, hline⟩ | ⟨hmoves, hline⟩
    · have hread := readPersistedStorageRoot_lineFor (plain_target l body.path) hline
      constructor
      · intro heq
        cases hfile : readPersistedStorageRoot w'.tree l.cwd with
        | none =>
          rw [hfile] at heq
          exact absurd heq (data_ne_absolutePath _)
        | some p =>
          rw [hfile, Option.getD_some] at heq
          obtain ⟨htext, hspace⟩ := hread.mp (by rw [hfile, heq])
          exact ⟨hunnamed, htext, hspace, hstays⟩
      · intro hsettles
        rw [hread.mpr ⟨hsettles.isText, hsettles.noSpace⟩, Option.getD_some]
    · refine iff_of_false ?_ fun hsettles => hsettles.cwdStays hmoves
      have hnone : readPersistedStorageRoot w'.tree l.cwd = none := by
        have hgone : content w'.tree (resolve l.cwd overrideFile) = none := hline
        unfold readPersistedStorageRoot
        rw [hgone, Option.bind_none]
      rw [hnone]
      exact data_ne_absolutePath _
  · refine iff_of_false ?_ fun hsettles => hunnamed hsettles.unnamed
    rw [storageRoot_of_named hunnamed w'.tree started, ← hnode]
    exact hnew


/-- A launch without arguments, in `/srv`. -/
def launched (root : Option Text) : Launch where
  args := []
  storageRootVar := root.map osText
  cwd := [osText "srv".toList]
  cwd_plain := by decide

/-- A node at its storage root, whose owner asks, with the disk of a first start. -/
def nodeAt (root : OsPath) : Node where
  storageRoot := root
  db := { Db.migrated with
    account := [⟨1, "a1".toList, "p1".toList, [], false, none⟩]
    accountRole := [⟨1, 1⟩] }
  poolOpen := true

def disk : World where
  tree := [([osText "srv".toList], .dir), ([osText "srv".toList, osText ".data".toList], .dir)]
  cwd := some [osText "srv".toList]
  faults := []

def asking (path mode : String) : PutStorageBody := ⟨path.toList, mode.toList⟩

/-- A new storage root beside the old one is opened. -/
theorem next_start_opens_fresh :
    ∃ node' w', putStorageSettings 1 (nodeAt ((launched none).storageRoot disk.tree)) 1
        (asking " data/../new" "fresh") {} disk =
        some (.ok (.accepted "/srv/new".toList "fresh".toList, node'), w') ∧
      (launched none).storageRoot w'.tree = components (osText "/srv/new".toList) := by
  obtain ⟨node', w', h⟩ : ∃ node' w',
      putStorageSettings 1 (nodeAt ((launched none).storageRoot disk.tree)) 1
        (asking " data/../new" "fresh") {} disk =
        some (.ok (.accepted "/srv/new".toList "fresh".toList, node'), w') := ⟨_, _, rfl⟩
  refine ⟨node', w', h, ?_⟩
  have hsettles : Settles (launched none) (nodeAt ((launched none).storageRoot disk.tree))
      (asking " data/../new" "fresh") :=
    ⟨⟨rfl, rfl⟩, by decide, by decide, fun hmoves => absurd hmoves.1 (by decide)⟩
  exact (next_start_opens_iff (launched none) disk.tree 1 _ node' 1 _ {} _ _ disk w' rfl rfl h).mpr
    hsettles

/-- A start does not open the storage root that was accepted where the environment names
another one, and where white space at the end of its path is trimmed. -/
theorem next_start_opens_other :
    (∃ node' w', putStorageSettings 1
        (nodeAt ((launched (some "/data".toList)).storageRoot disk.tree)) 1
        (asking "/new" "fresh") {} disk =
        some (.ok (.accepted "/new".toList "fresh".toList, node'), w') ∧
      (launched (some "/data".toList)).storageRoot w'.tree =
        components (osText "/data".toList)) ∧
    (∃ node' w', putStorageSettings 1 (nodeAt ((launched none).storageRoot disk.tree)) 1
        (asking "/new /" "fresh") {} disk =
        some (.ok (.accepted "/new ".toList "fresh".toList, node'), w') ∧
      (launched none).storageRoot w'.tree = components (osText "/new".toList)) := by
  refine ⟨⟨_, _, rfl, ?_⟩, ⟨_, _, rfl, ?_⟩⟩
  · rfl
  · rfl

end MyS3.StorageRoot
