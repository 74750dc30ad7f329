import MyS3.Library.FileEffects
import MyS3.StorageRoot

/-!
Requests for a new storage root that fail, in `put_storage_settings`. The database is closed
before the old root is moved and is not opened again; the file for the next start is written
in place, so that a write that is cut short leaves a part of the line.
-/

namespace MyS3.FailedMoves

open Library.Strings Library.OsPaths Library.FileTree Library.FileCalls
open Http Rbac Relocate StorageRoot

/-- The node works as before: the pool is open, the storage root holds the files that it held,
and the next start reads what it would have read. -/
structure NodeKept (node node' : Node) (w w' : World) : Prop where
  pool : node'.poolOpen = true
  files : ∀ s, w.place node.storageRoot = some s → ∀ q c, s <+: q →
    content w.tree q = some c → content w'.tree q = some c
  line : ∀ dir, w.cwd = some dir → lineAt w' dir = lineAt w dir

/-- A request is let through by the checks that come before any change, with the current
storage root, the new one, and the world after the checks. -/
structure Admitted (node : Node) (actor : Int) (body : PutStorageBody) (faults : Faults)
    (w : World) (current newPath : OsPath) (w1 : World) : Prop where
  asked : faults.owner = false
  owner : accountIsOwner node.db actor = true
  mode : trim body.mode = "move".toList ∨ trim body.mode = "fresh".toList
  counted : faults.stats = false
  other : newPath ≠ current
  looked : ∃ wa wb taken, resolveStoragePath body.path w = some (.ok newPath, wa) ∧
    absoluteDisplay node.storageRoot wa = some (.ok current, wb) ∧
    (dirNonempty (join node.storageRoot objectsName)).orElse false wb = some (.ok taken, w1)

/-- The move of the storage root is begun. -/
def GetsToMove (node : Node) (actor : Int) (body : PutStorageBody) (faults : Faults)
    (w : World) : Prop :=
  ∃ current newPath w1, Admitted node actor body faults w current newPath w1 ∧
    trim body.mode = "move".toList ∧ ∀ w2, dirNonempty newPath w1 ≠ some (.ok true, w2)

/-- A fresh root is made, and then the write of the line for the next start fails after its
first part. -/
structure CutAt (newPath : OsPath) (w1 : World) (dir : Place) (n : Nat) : Prop where
  cwd : w1.cwd = some dir
  reached : ∃ w2 w3 code, ensureStorageLayout newPath w1 = some (.ok (), w2) ∧
    createDirAll overrideDir w2 = some (.ok (), w3) ∧
    w3.faults.head? = some (some ⟨code, some n⟩) ∧
    isDir w3.tree (resolve dir overrideFile) = false

/-- The write is cut short, and what it leaves is not what the file held. -/
def CutShort (node : Node) (actor : Int) (body : PutStorageBody) (faults : Faults)
    (w : World) : Prop :=
  ∃ current newPath w1 dir n, Admitted node actor body faults w current newPath w1 ∧
    trim body.mode = "fresh".toList ∧ CutAt newPath w1 dir n ∧
    lineAt w dir ≠ some ((osText (shown newPath ++ ['\n'])).take n)

theorem keeps_ensureStorageLayout (root : OsPath) :
    Io.Keeps SameFiles (ensureStorageLayout root) :=
  (keeps_createDirAll _).withContext _

theorem resolveStoragePath_absolute {input : Text} {w w' : World} {p : OsPath}
    (h : resolveStoragePath input w = some (.ok p, w')) : ∃ names, p = absolutePath names := by
  unfold resolveStoragePath at h
  simp only at h
  split_ifs at h with hempty habsolute
  · exact (Io.fail_ok.mp h).elim
  · exact ⟨_, (Io.pure_ok.mp h).1.symm.trans (normalizePath_eq habsolute)⟩
  · obtain ⟨q, w1, hq, h⟩ := Io.bind_ok.mp h
    obtain ⟨hact, _⟩ := Io.query_ok (Io.withContext_ok.mp hq)
    have hdir : ∃ dir, q = absolutePath dir := by
      split at hact
      · exact ⟨_, (Except.ok.inj hact).symm⟩
      · cases hact
    obtain ⟨dir, rfl⟩ := hdir
    exact ⟨_, (Io.pure_ok.mp h).1.symm.trans (normalizePath_eq (isAbsolute_join _ _))⟩

theorem nodeKept_of_same {node : Node} {w w' : World} (hopen : node.poolOpen = true)
    (h : SameFiles w w') : NodeKept node node w w' :=
  ⟨hopen, fun _ _ q _ _ hc => (h q).trans hc, fun _ _ => h _⟩

section Run

variable {fuel : Nat} {node node' : Node} {actor : Int} {body : PutStorageBody}
  {faults : Faults} {w w' : World} {status : Status} {message : Option Text}

/-- A request that fails is refused before any change, or fails where the mode is looked at. -/
theorem failure_cases
    (h : putStorageSettings fuel node actor body faults w =
      some (.ok (.failure status message, node'), w')) :
    ((∀ current newPath w1, ¬ Admitted node actor body faults w current newPath w1) ∧
        node' = node ∧ SameFiles w w') ∨
      ∃ current newPath w1, Admitted node actor body faults w current newPath w1 ∧
        putMode fuel node current newPath (trim body.mode) w1 =
          some (.ok (.failure status message, node'), w') := by
  unfold putStorageSettings at h
  split_ifs at h with howner hrole hmode
  · obtain ⟨heq, rfl⟩ := Io.pure_ok.mp h
    refine Or.inl ⟨fun _ _ _ hadmitted => ?_, (congrArg Prod.snd heq).symm, fun _ => rfl⟩
    rw [hadmitted.asked] at howner
    cases howner
  · obtain ⟨heq, rfl⟩ := Io.pure_ok.mp h
    refine Or.inl ⟨fun _ _ _ hadmitted => ?_, (congrArg Prod.snd heq).symm, fun _ => rfl⟩
    rw [hadmitted.owner] at hrole
    cases hrole
  · obtain ⟨heq, rfl⟩ := Io.pure_ok.mp h
    refine Or.inl ⟨fun _ _ _ hadmitted => ?_, (congrArg Prod.snd heq).symm, fun _ => rfl⟩
    exact hadmitted.mode.elim hmode.1 hmode.2
  obtain ⟨r, wa, hr, h⟩ := Io.bind_attempt_ok.mp h
  have hsame : SameFiles w wa := keeps_resolveStoragePath _ _ _ _ hr
  cases r with
  | error e =>
    obtain ⟨heq, rfl⟩ := Io.pure_ok.mp h
    refine Or.inl ⟨fun _ _ _ hadmitted => ?_, (congrArg Prod.snd heq).symm, hsame⟩
    obtain ⟨_, _, _, hr', _⟩ := hadmitted.looked
    exact Io.not_ok_of_error hr hr'
  | ok newPath =>
    obtain ⟨current, wb, hcurrent, h⟩ := Io.bind_ok.mp h
    have hsame' : SameFiles w wb :=
      Effect.trans hsame (keeps_absoluteDisplay _ _ _ _ hcurrent)
    split_ifs at h with hnew hstats
    · simp [Io.pure_ok] at h
    · obtain ⟨heq, rfl⟩ := Io.pure_ok.mp h
      refine Or.inl ⟨fun _ _ _ hadmitted => ?_, (congrArg Prod.snd heq).symm, hsame'⟩
      rw [hadmitted.counted] at hstats
      cases hstats
    · obtain ⟨taken, w1, htaken, h⟩ := Io.bind_ok.mp h
      refine Or.inr ⟨current, newPath, w1, ?_, h⟩
      exact ⟨eq_false_of_ne_true howner, by simpa using hrole,
        (not_and_or.mp hmode).imp not_not.mp not_not.mp, eq_false_of_ne_true hstats, hnew,
        wa, wb, taken, hr, hcurrent, htaken⟩

theorem Admitted.same {current newPath : OsPath} {w1 : World}
    (h : Admitted node actor body faults w current newPath w1) :
    SameFiles w w1 ∧ w1.cwd = w.cwd := by
  obtain ⟨wa, wb, taken, hr, hcurrent, htaken⟩ := h.looked
  have hsame : Same w w1 := Effect.trans (keeps_resolveStoragePath _ _ _ _ hr)
    (Effect.trans (keeps_absoluteDisplay _ _ _ _ hcurrent)
      ((keeps_dirNonempty _).orElse false _ _ _ htaken))
  exact ⟨fun q => by rw [hsame.tree], hsame.cwd⟩

theorem Admitted.unique {current current' newPath newPath' : OsPath} {w1 w1' : World}
    (h : Admitted node actor body faults w current newPath w1)
    (h' : Admitted node actor body faults w current' newPath' w1') :
    current = current' ∧ newPath = newPath' ∧ w1 = w1' := by
  obtain ⟨wa, wb, taken, hr, hcurrent, htaken⟩ := h.looked
  obtain ⟨wa', wb', taken', hr', hcurrent', htaken'⟩ := h'.looked
  obtain ⟨rfl, rfl⟩ := Io.ok_unique hr hr'
  obtain ⟨rfl, rfl⟩ := Io.ok_unique hcurrent hcurrent'
  obtain ⟨_, rfl⟩ := Io.ok_unique htaken htaken'
  exact ⟨rfl, rfl, rfl⟩

/-- After the pool is closed, no failure opens it again. -/
theorem moveAndPersist_closed {current newPath : OsPath} {mode : Text} {w1 : World}
    (h : moveAndPersist fuel node current newPath mode w1 =
      some (.ok (.failure status message, node'), w')) : node'.poolOpen = false := by
  obtain ⟨r, w2, _, h⟩ := Io.bind_attempt_ok.mp h
  cases r with
  | error e =>
    rw [← (Prod.mk.inj (Io.pure_ok.mp h).1).2]
  | ok u =>
    obtain ⟨r, w3, _, h⟩ := Io.bind_attempt_ok.mp h
    cases r with
    | error e =>
      rw [← (Prod.mk.inj (Io.pure_ok.mp h).1).2]
    | ok u => simp [Io.pure_ok] at h

/-- In the mode `move` a failure leaves the pool open exactly where the destination is seen to
be in use. -/
theorem putMove_failure {current newPath : OsPath} {mode : Text} {w1 : World}
    (h : putMove fuel node current newPath mode w1 =
      some (.ok (.failure status message, node'), w')) :
    (∃ w2, dirNonempty newPath w1 = some (.ok true, w2) ∧ node' = node ∧ SameFiles w1 w') ∨
      ((∀ w2, dirNonempty newPath w1 ≠ some (.ok true, w2)) ∧ node'.poolOpen = false) := by
  obtain ⟨r, w2, hr, h⟩ := Io.bind_attempt_ok.mp h
  have hother : r ≠ .ok true → (∀ w3, dirNonempty newPath w1 ≠ some (.ok true, w3)) := by
    intro hne w3 heq
    exact hne (Io.run_unique hr heq).1
  cases r with
  | error e => exact Or.inr ⟨hother (by simp), moveAndPersist_closed h⟩
  | ok taken =>
    cases taken with
    | false => exact Or.inr ⟨hother (by simp), moveAndPersist_closed h⟩
    | true =>
      obtain ⟨heq, rfl⟩ := Io.pure_ok.mp h
      exact Or.inl ⟨w2, hr, (Prod.mk.inj heq).2.symm, keeps_dirNonempty _ _ _ _ hr⟩

theorem CutAt.unique {newPath : OsPath} {w1 : World} {dir dir' : Place} {n n' : Nat}
    (h : CutAt newPath w1 dir n) (h' : CutAt newPath w1 dir' n') : dir = dir' ∧ n = n' := by
  obtain ⟨w2, w3, code, hlayout, hdirs, hfault, _⟩ := h.reached
  obtain ⟨w2', w3', code', hlayout', hdirs', hfault', _⟩ := h'.reached
  obtain ⟨_, rfl⟩ := Io.ok_unique hlayout hlayout'
  obtain ⟨_, rfl⟩ := Io.ok_unique hdirs hdirs'
  simp only [hfault, Option.some.injEq, Fault.mk.injEq] at hfault'
  exact ⟨Option.some.inj (h.cwd.symm.trans h'.cwd), hfault'.2⟩

theorem place_override {w : World} {dir : Place} (h : w.cwd = some dir) (p : OsPath)
    (hp : isAbsolute p = false) : w.place p = some (resolve dir p) := by
  unfold World.place
  rw [if_neg (by simp [hp]), h, Option.map_some]

theorem dropLast_overrideFile (dir : Place) :
    (resolve dir overrideFile).dropLast = resolve dir overrideDir := by
  rw [resolve_overrideFile]
  simp [resolve, overrideDir, enter]

theorem persistStorageRoot_absolute (names : List OsText) :
    persistStorageRoot (absolutePath names) =
      (createDirAll overrideDir).withContext "create .mys3 directory".toList >>= fun _ =>
        (writeFile overrideFile (lineFor names)).withContext
          "write storage root override".toList := by
  unfold persistStorageRoot
  rw [normalizePath_absolutePath]
  rfl

/-- The write of the line fails in the directory that was made for it. -/
theorem persistStorageRoot_failure {names : List OsText} {w1 w2 w3 : World} {e : Failure}
    (hlayout : ensureStorageLayout (absolutePath names) w1 = some (.ok (), w2))
    (h2 : SameFiles w1 w2) (hcwd2 : w2.cwd = w1.cwd)
    (h : persistStorageRoot (absolutePath names) w2 = some (.error e, w3)) :
    (SameFiles w1 w3 ∧ ∀ dir n, ¬ CutAt (absolutePath names) w1 dir n) ∨
      ∃ dir n, CutAt (absolutePath names) w1 dir n ∧
        lineAt w3 dir = some ((lineFor names).take n) ∧
        ∀ q, q ≠ resolve dir overrideFile → content w3.tree q = content w1.tree q := by
  rw [persistStorageRoot_absolute] at h
  rcases Io.bind_cases h with ⟨_, hdirs, _⟩ | ⟨u, wd, hdirs, hwrite⟩
  · obtain ⟨e', hdirs⟩ := Io.withContext_error hdirs
    refine Or.inl ⟨Effect.trans h2 (keeps_createDirAll _ _ _ _ hdirs), fun dir n hcut => ?_⟩
    obtain ⟨_, _, _, hok, hok', _⟩ := hcut.reached
    obtain ⟨_, rfl⟩ := Io.ok_unique hlayout hok
    exact Io.not_ok_of_error hdirs hok'
  · have hdirs := Io.withContext_ok.mp hdirs
    obtain ⟨e', hwrite⟩ := Io.withContext_error hwrite
    have hd : SameFiles w1 wd := Effect.trans h2 (keeps_createDirAll _ _ _ _ hdirs)
    have hcwd : wd.cwd = w1.cwd := (keepsCwd_createDirAll _ _ _ _ hdirs).trans hcwd2
    by_cases hcut : ∃ dir n, CutAt (absolutePath names) w1 dir n
    · obtain ⟨dir, n, hcut⟩ := hcut
      refine Or.inr ⟨dir, n, hcut, ?_⟩
      obtain ⟨_, _, code, hok, hok', hfault, hfile⟩ := hcut.reached
      obtain ⟨_, rfl⟩ := Io.ok_unique hlayout hok
      obtain ⟨_, rfl⟩ := Io.ok_unique hdirs hok'
      have hplace : wd.place overrideFile = some (resolve dir overrideFile) :=
        place_override (hcwd.trans hcut.cwd) _ rfl
      have habove : isDir wd.tree (resolve dir overrideFile).dropLast = true := by
        rw [dropLast_overrideFile]
        exact createDirAll_isDir hdirs (place_override (hcwd2.trans hcut.cwd) _ rfl)
      obtain ⟨e'', w4, hwrite', htree⟩ := writeFile_cut (c := lineFor names) hfault hplace
        hfile habove
      obtain ⟨_, rfl⟩ := Io.run_unique hwrite hwrite'
      refine ⟨?_, fun q hq => ?_⟩
      · unfold lineAt
        rw [htree, content_put (by rw [resolve_overrideFile]; simp)]
      · rw [htree, content_put_other hq, hd q]
    · refine Or.inl ⟨?_, fun dir n h => hcut ⟨dir, n, h⟩⟩
      rcases writeFile_error hwrite with hsame | ⟨code, n, q, hfault, hq, hfile, _⟩
      · exact Effect.trans hd hsame
      · -- The place is the one in the working directory, so the write was cut short.
        unfold World.place at hq
        rw [if_neg (by decide)] at hq
        obtain ⟨dir, hdir, rfl⟩ := Option.map_eq_some_iff.mp hq
        exact absurd ⟨dir, n, hcwd ▸ hdir, w2, wd, code, hlayout, hdirs, hfault, hfile⟩ hcut

/-- In the mode `fresh` a failure has changed no file, unless the last write was cut short. -/
theorem putFresh_failure {names : List OsText} {mode : Text} {w1 : World}
    (h : putFresh node (absolutePath names) mode w1 =
      some (.ok (.failure status message, node'), w')) :
    node' = node ∧
      ((SameFiles w1 w' ∧ ∀ dir n, ¬ CutAt (absolutePath names) w1 dir n) ∨
        ∃ dir n, CutAt (absolutePath names) w1 dir n ∧
          lineAt w' dir = some ((lineFor names).take n) ∧
          ∀ q, q ≠ resolve dir overrideFile → content w'.tree q = content w1.tree q) := by
  obtain ⟨r, w2, hlayout, h⟩ := Io.bind_attempt_ok.mp h
  have h2 : SameFiles w1 w2 := keeps_ensureStorageLayout _ _ _ _ hlayout
  have hcwd2 : w2.cwd = w1.cwd := keepsCwd_ensureStorageLayout _ _ _ _ hlayout
  cases r with
  | error e =>
    obtain ⟨heq, rfl⟩ := Io.pure_ok.mp h
    refine ⟨(Prod.mk.inj heq).2.symm, Or.inl ⟨h2, fun dir n hcut => ?_⟩⟩
    obtain ⟨_, _, _, hok, _⟩ := hcut.reached
    exact Io.not_ok_of_error hlayout hok
  | ok u =>
    obtain ⟨r, w3, hpersist, h⟩ := Io.bind_attempt_ok.mp h
    cases r with
    | ok u => simp [Io.pure_ok] at h
    | error e =>
      obtain ⟨heq, rfl⟩ := Io.pure_ok.mp h
      refine ⟨(Prod.mk.inj heq).2.symm, ?_⟩
      exact persistStorageRoot_failure hlayout h2 hcwd2 hpersist

theorem fresh_ne_move : "fresh".toList ≠ "move".toList := by decide

theorem nodeKept_fresh_iff {current newPath : OsPath} {w1 : World}
    (hopen : node.poolOpen = true)
    (hadmitted : Admitted node actor body faults w current newPath w1)
    (hmode : trim body.mode = "fresh".toList)
    (h : putFresh node newPath (trim body.mode) w1 =
      some (.ok (.failure status message, node'), w')) :
    NodeKept node node' w w' ↔ ¬ CutShort node actor body faults w := by
  obtain ⟨hsame, hcwd⟩ := hadmitted.same
  obtain ⟨_, _, _, hresolve, _⟩ := hadmitted.looked
  obtain ⟨names, rfl⟩ := resolveStoragePath_absolute hresolve
  obtain ⟨rfl, hrun⟩ := putFresh_failure h
  rcases hrun with ⟨hfiles, hnone⟩ | ⟨dir, n, hcut, hline, hothers⟩
  · refine iff_of_true (nodeKept_of_same hopen (Effect.trans hsame hfiles)) ?_
    intro h'
    obtain ⟨current', newPath', w1', dir, n, hadmitted', _, hcut, _⟩ := h'
    obtain ⟨rfl, rfl, rfl⟩ := hadmitted.unique hadmitted'
    exact hnone dir n hcut
  · have hdir : w.cwd = some dir := hcwd ▸ hcut.cwd
    constructor
    · intro hkept h'
      obtain ⟨current', newPath', w1', dir', n', hadmitted', _, hcut', hdiffers⟩ := h'
      obtain ⟨rfl, rfl, rfl⟩ := hadmitted.unique hadmitted'
      obtain ⟨rfl, rfl⟩ := hcut.unique hcut'
      exact hdiffers ((hkept.line dir hdir).symm.trans hline)
    · intro hwhole
      have hheld : lineAt w dir = some ((lineFor names).take n) := by
        by_contra hdiffers
        exact hwhole ⟨current, _, w1, dir, n, hadmitted, hmode, hcut, hdiffers⟩
      refine nodeKept_of_same hopen fun q => ?_
      by_cases hq : q = resolve dir overrideFile
      · rw [hq]
        exact hline.trans hheld.symm
      · rw [hothers q hq, hsame q]

end Run

/-- A request for a new storage root that fails leaves the node as it was exactly when it does
not get to the move of the old root and does not leave a part of the line for the next
start. -/
theorem failed_change_keeps_node_iff (fuel : Nat) (node node' : Node) (actor : Int)
    (body : PutStorageBody) (faults : Faults) (w w' : World) (status : Status)
    (message : Option Text) (hopen : node.poolOpen = true)
    (h : putStorageSettings fuel node actor body faults w =
      some (.ok (.failure status message, node'), w')) :
    NodeKept node node' w w' ↔
      ¬ GetsToMove node actor body faults w ∧ ¬ CutShort node actor body faults w := by
  rcases failure_cases h with ⟨hrefused, rfl, hsame⟩ | ⟨current, newPath, w1, hadmitted, hrun⟩
  · refine iff_of_true (nodeKept_of_same hopen hsame) ⟨?_, ?_⟩
    · intro h'
      obtain ⟨current, newPath, w1, hadmitted, _⟩ := h'
      exact hrefused current newPath w1 hadmitted
    · intro h'
      obtain ⟨current, newPath, w1, _, _, hadmitted, _⟩ := h'
      exact hrefused current newPath w1 hadmitted
  · unfold putMode at hrun
    split_ifs at hrun with hmode
    · have hwhole : ¬ CutShort node actor body faults w := by
        intro h'
        obtain ⟨_, _, _, _, _, _, hfresh, _⟩ := h'
        exact fresh_ne_move (hfresh.symm.trans hmode)
      rcases putMove_failure hrun with ⟨w2, hused, rfl, hfiles⟩ | ⟨hunused, hclosed⟩
      · refine iff_of_true (nodeKept_of_same hopen (Effect.trans hadmitted.same.1 hfiles))
          ⟨?_, hwhole⟩
        intro h'
        obtain ⟨current', newPath', w1', hadmitted', _, hunused⟩ := h'
        obtain ⟨rfl, rfl, rfl⟩ := hadmitted.unique hadmitted'
        exact hunused w2 hused
      · refine iff_of_false (fun hkept => ?_) fun hboth =>
          hboth.1 ⟨current, newPath, w1, hadmitted, hmode, hunused⟩
        rw [hkept.pool] at hclosed
        cases hclosed
    · have hfresh := hadmitted.mode.resolve_left hmode
      rw [nodeKept_fresh_iff hopen hadmitted hfresh hrun, iff_and_self]
      intro _ h'
      obtain ⟨_, _, _, _, hmove, _⟩ := h'
      exact hmode hmove

/-- A node at `/srv/.data`. -/
def running : Node := nodeAt ((launched none).storageRoot disk.tree)

/-- A move onto a directory in use is refused with the pool still open. -/
theorem failed_change_keeps_node_iff_conflict :
    ∃ node' w', putStorageSettings 1 running 1 (asking "/srv" "move") {} disk =
        some (.ok (.failure .conflict (some "destination already exists and is not empty".toList),
          node'), w') ∧
      (NodeKept running node' disk w' ↔
        ¬ GetsToMove running 1 (asking "/srv" "move") {} disk ∧
          ¬ CutShort running 1 (asking "/srv" "move") {} disk) := by
  obtain ⟨node', w', h⟩ : ∃ node' w',
      putStorageSettings 1 running 1 (asking "/srv" "move") {} disk =
        some (.ok (.failure .conflict (some "destination already exists and is not empty".toList),
          node'), w') := ⟨_, _, rfl⟩
  exact ⟨node', w', h, failed_change_keeps_node_iff 1 running node' 1 (asking "/srv" "move") {}
    disk w' _ _ rfl h⟩

/-- A move into the storage root itself fails with the pool closed. -/
theorem failed_move_closes_pool :
    running.poolOpen = true ∧
      ∃ node' w', putStorageSettings 1 running 1 (asking ".data/new" "move") {} disk =
          some (.ok (.failure .internalServerError
            (some "rename /srv/.data -> /srv/.data/new".toList), node'), w') ∧
        node'.poolOpen = false ∧ ¬ NodeKept running node' disk w' := by
  refine ⟨rfl, _, _, rfl, rfl, fun hkept => ?_⟩
  cases hkept.pool

end MyS3.FailedMoves
