import MyS3.FailedMoves
import MyS3.FolderPrefixes
import MyS3.ReadRoutes

/-!
The download of a folder as an archive, `server/folder_archive.rs` and the handler
`folder_archive`. The archive is written to a file below `tmp` in the storage root; only after
the finished file has been opened is it put into the guard that removes it.
-/

namespace MyS3.FolderArchive

open Library.Strings Library.OsPaths Library.FileTree Library.FileCalls
open Models Database Repository Http Keys Rbac SessionAuth Listings Relocate ReadRoutes
open S3Routes Requests FailedMoves FolderPrefixes

/-- What the archive crates are asked to do with a file. -/
inductive WriteStep
  | create
  | startFile (name : Text)
  | copy (data : OsText)
  | append (name : Text) (entry : Entry OsText)
  | push (name : Text) (data : OsText)
  | finish
  | gzip
  | flush

/-- The archive crates: the state of a writer, and what the file holds after a step. -/
structure Crates (σ : Type) where
  fresh : σ
  step : σ → WriteStep → Except Int (σ × OsText)
  /-- The text of an error that has none of the program's own. -/
  describe : Failure → Text

def archiveExtension : ArchiveFormat → Text
  | .zip => "zip".toList
  | .tarGz => "tar.gz".toList
  | .sevenZ => "7z".toList

def archiveContentType : ArchiveFormat → Text
  | .zip => "application/zip".toList
  | .tarGz => "application/gzip".toList
  | .sevenZ => "application/x-7z-compressed".toList

def folderDownloadBasename (pre : Text) : Text :=
  let name := baseName (trimEndMatches (· == '/') pre)
  if name = [] then "folder".toList else name

section Writers

variable {σ : Type} (C : Crates σ)

/-- `err.to_string()`. -/
def Crates.text (e : Failure) : Text := e.message.getD (C.describe e)

/-- An error of the 7z crate as one of the program's own. -/
def Crates.named {α : Type} (m : Io α) (what : Text) : Io α := fun w =>
  match m w with
  | some (.error e, w') => some (.error { message := some (what ++ ": ".toList ++ C.text e) }, w')
  | r => r

def Crates.write (out : OsPath) (state : σ) (step : WriteStep) : Io σ :=
  writeOpen out (C.step state step)

/-- The content of an open file; a directory cannot be read. -/
def readOpen (entry : Entry OsText) : Io OsText :=
  match entry with
  | .file data => pure data
  | .dir => Io.fail { code := some isADirectory }

def Crates.zipEntries (out : OsPath) (state : σ) : List (Text × OsPath) → Io σ
  | [] => pure state
  | (name, abs) :: rest => do
    let started ← (C.write out state (.startFile name)).withContext
      ("zip start_file ".toList ++ name)
    let src ← (openFile abs).withContext ("open ".toList ++ shown abs)
    let copied ← (readOpen src >>= fun data => C.write out started (.copy data)).withContext
      ("zip copy ".toList ++ name)
    Crates.zipEntries out copied rest

def Crates.writeZip (out : OsPath) (entries : List (Text × OsPath)) : Io Unit := do
  (createFile out).withContext ("create ".toList ++ shown out)
  let state ← C.zipEntries out C.fresh entries
  let _ ← (C.write out state .finish).withContext "zip finish".toList
  pure ()

def Crates.tarEntries (out : OsPath) (state : σ) : List (Text × OsPath) → Io σ
  | [] => pure state
  | (name, abs) :: rest => do
    let appended ← (openFile abs >>= fun src => C.write out state (.append name src)).withContext
      ("tar append ".toList ++ name)
    Crates.tarEntries out appended rest

def Crates.writeTarGz (out : OsPath) (entries : List (Text × OsPath)) : Io Unit := do
  (createFile out).withContext ("create ".toList ++ shown out)
  let state ← C.tarEntries out C.fresh entries
  let finished ← (C.write out state .finish).withContext "tar finish".toList
  let zipped ← (C.write out finished .gzip).withContext "gzip finish".toList
  let _ ← C.write out zipped .flush
  pure ()

def Crates.sevenZEntries (out : OsPath) (state : σ) : List (Text × OsPath) → Io σ
  | [] => pure state
  | (name, abs) :: rest => do
    let reader ← (openFile abs).withContext ("open ".toList ++ shown abs)
    let pushed ← C.named (readOpen reader >>= fun data => C.write out state (.push name data))
      ("7z entry ".toList ++ name)
    Crates.sevenZEntries out pushed rest

def Crates.write7z (out : OsPath) (entries : List (Text × OsPath)) : Io Unit := do
  let created ← C.named (createFile out >>= fun _ => C.write out C.fresh .create)
    "7z create".toList
  let state ← C.sevenZEntries out created entries
  let _ ← C.named (C.write out state .finish) "7z finish".toList
  pure ()

def Crates.writeArchive (format : ArchiveFormat) (out : OsPath) (entries : List (Text × OsPath)) :
    Io Unit :=
  match format with
  | .zip => C.writeZip out entries
  | .tarGz => C.writeTarGz out entries
  | .sevenZ => C.write7z out entries

end Writers

/-- The path of a file or a directory that is given by its names. -/
def osPath (p : Library.Paths.Path) : OsPath := absolutePath (p.map osText)

def ensureTmpdir (storageRoot : OsPath) : Io OsPath := do
  let dir := join storageRoot [.name (osText "tmp".toList)]
  (createDirAll dir).withContext ("create ".toList ++ shown dir)
  pure dir

/-- The name of the file; the process id and the random id before it are in `unique`. -/
def archiveName (unique : Text) (format : ArchiveFormat) : OsText :=
  osText ("archive-".toList ++ unique ++ '.' :: archiveExtension format)

structure FolderArchiveQuery where
  bucket : Option Text
  pre : Text
  format : Text

/-- The queries of a request that fail. -/
structure QueryFaults where
  bucket : Bool := false
  permission : Bool := false
  listing : Bool := false

/-- What an archive is asked for: the format, the folder and the entries. -/
structure Chosen where
  format : ArchiveFormat
  pre : Text
  entries : List (Text × OsPath)

/-- The part of `folder_archive` that comes before the archive is built. -/
def chosenEntries (s : AppState) (accountId : Int) (q : FolderArchiveQuery)
    (faults : QueryFaults) : Except Response Chosen :=
  match normalizeFolderPrefix q.pre with
  | .error msg => badRequest msg
  | .ok pre =>
    match ArchiveFormat.parse q.format with
    | .error msg => badRequest msg
    | .ok format =>
      if faults.bucket then .error databaseError
      else do
        let (bucketId, _) ← resolveBucketId s q.bucket
        if faults.permission then .error databaseError
        else do
          requireBucketPerm s accountId bucketId .read
          if faults.listing then .error databaseError
          else do
            let entries := filterArchiveEntries s.config.storageRoot pre
              (listKeysUnderPrefix s.db bucketId pre)
            if entries = [] then failWith .badRequest "folder is empty"
            else return ⟨format, pre, entries.map fun e => (e.1, osPath e.2)⟩

inductive ArchiveAnswer
  | failure (response : Response)
  | archive (contentType : Text) (contentLength : Nat) (disposition : Text)

/-- `Content-Disposition` of a download. -/
def disposition (pre : Text) (format : ArchiveFormat) : Text :=
  let base := (folderDownloadBasename pre).map fun c =>
    if c = '"' ∨ c = '\\' ∨ c = '/' then '_' else c
  "attachment; filename=\"".toList ++ base ++ '.' :: archiveExtension format ++ ['"']

def fileLen (file : Entry OsText) : Io Nat :=
  Io.query fun _ =>
    match file with
    | .file data => .ok data.length
    | .dir => .ok 0

section Handler

variable {σ : Type} (C : Crates σ)

def Crates.buildArchive (storageRoot : OsPath) (unique : Text) (format : ArchiveFormat)
    (entries : List (Text × OsPath)) : Io OsPath :=
  if entries.isEmpty then Io.bail "folder is empty".toList
  else do
    let tmpdir ← ensureTmpdir storageRoot
    let outPath := join tmpdir [.name (archiveName unique format)]
    C.writeArchive format outPath entries
    pure outPath

def Crates.serverError (e : Failure) : ArchiveAnswer :=
  .failure (.failure .internalServerError (.message (C.text e)))

/-- The file is opened and put into the guard; a failure after that removes it. -/
def Crates.openArchive (outPath : OsPath) (pre : Text) (format : ArchiveFormat) :
    Io ArchiveAnswer := do
  match ← ((openFile outPath).withContext ("open archive ".toList ++ shown outPath)).attempt with
  | .error e => pure (C.serverError e)
  | .ok file =>
    match ← (fileLen file).attempt with
    | .error e => do
      let _ ← (removeFile outPath).attempt
      pure (C.serverError e)
    | .ok len =>
      pure (.archive (archiveContentType format) len
        (headerValue (disposition pre format) "attachment".toList))

def Crates.sendArchive (storageRoot : OsPath) (unique : Text) (chosen : Chosen) :
    Io ArchiveAnswer := do
  match ← (C.buildArchive storageRoot unique chosen.format chosen.entries).attempt with
  | .error e =>
    let status :=
      if (findText "folder is empty".toList (C.text e)).isSome then .badRequest
      else .internalServerError
    pure (.failure (.failure status (.message (C.text e))))
  | .ok outPath => C.openArchive outPath chosen.pre chosen.format

def Crates.folderArchive (s : AppState) (accountId : Int) (q : FolderArchiveQuery)
    (faults : QueryFaults) (unique : Text) : Io ArchiveAnswer :=
  match chosenEntries s accountId q faults with
  | .error response => pure (.failure response)
  | .ok chosen => C.sendArchive (osPath s.config.storageRoot) unique chosen

end Handler

def tmpPlace (s : AppState) : Place := s.config.storageRoot.map osText ++ [osText "tmp".toList]

/-- The place of the file of an archive. -/
def outPlace (s : AppState) (unique : Text) (format : ArchiveFormat) : Place :=
  tmpPlace s ++ [archiveName unique format]

/-- There is a new file below `tmp`. -/
def Leaves (tmp : Place) (w w' : World) : Prop :=
  ∃ q, tmp <+: q ∧ content w.tree q = none ∧ (content w'.tree q).isSome = true

section Effects

variable {σ : Type} {C : Crates σ} {out : OsPath} {R : World → World → Prop}

theorem keeps_named {α : Type} {m : Io α} (h : Io.Keeps R m) (what : Text) :
    Io.Keeps R (C.named m what) := by
  intro w r w' hrun
  unfold Crates.named at hrun
  split at hrun
  · rename_i hm
    simp only [Option.some.injEq, Prod.mk.injEq] at hrun
    rw [← hrun.2]
    exact h _ _ _ hm
  · exact h _ _ _ hrun

variable [Effect R]

theorem keeps_readOpen (entry : Entry OsText) : Io.Keeps R (readOpen entry) := by
  cases entry with
  | file data => exact Io.keeps_pure data
  | dir => exact Io.keeps_fail _

theorem keeps_zipEntries (hwrite : ∀ state step, Io.Keeps R (C.write out state step))
    (entries : List (Text × OsPath)) (state : σ) : Io.Keeps R (C.zipEntries out state entries) := by
  induction entries generalizing state with
  | nil => exact Io.keeps_pure state
  | cons entry rest ih =>
    refine ((hwrite state _).withContext _).bind fun started => ?_
    refine ((Io.keeps_query _).withContext _).bind fun src => ?_
    refine (((keeps_readOpen src).bind fun data => hwrite started _).withContext _).bind ?_
    exact fun copied => ih copied

theorem keeps_tarEntries (hwrite : ∀ state step, Io.Keeps R (C.write out state step))
    (entries : List (Text × OsPath)) (state : σ) : Io.Keeps R (C.tarEntries out state entries) := by
  induction entries generalizing state with
  | nil => exact Io.keeps_pure state
  | cons entry rest ih =>
    refine (((Io.keeps_query _).bind fun src => hwrite state _).withContext _).bind ?_
    exact fun appended => ih appended

theorem keeps_sevenZEntries (hwrite : ∀ state step, Io.Keeps R (C.write out state step))
    (entries : List (Text × OsPath)) (state : σ) :
    Io.Keeps R (C.sevenZEntries out state entries) := by
  induction entries generalizing state with
  | nil => exact Io.keeps_pure state
  | cons entry rest ih =>
    refine ((Io.keeps_query _).withContext _).bind fun reader => ?_
    refine (keeps_named ((keeps_readOpen reader).bind fun data => hwrite state _) _).bind ?_
    exact fun pushed => ih pushed

end Effects

section Runs

variable {σ : Type} {C : Crates σ} {out : OsPath} {w w' : World} {r : Except Failure Unit}

theorem named_cases {α : Type} {m : Io α} {what : Text} {r : Except Failure α}
    (h : C.named m what w = some (r, w')) :
    ∃ r', m w = some (r', w') ∧ ∀ a, r = .ok a → r' = .ok a := by
  unfold Crates.named at h
  split at h
  · rename_i e w1 hm
    simp only [Option.some.injEq, Prod.mk.injEq] at h
    obtain ⟨rfl, rfl⟩ := h
    exact ⟨_, hm, fun a ha => by cases ha⟩
  · exact ⟨r, h, fun _ ha => ha⟩

/-- A writer fails to create its file, or has created it and does nothing but write to it. -/
theorem writeArchive_cases {format : ArchiveFormat} {entries : List (Text × OsPath)}
    (h : C.writeArchive format out entries w = some (r, w')) :
    (∃ e e', createFile out w = some (.error e, w') ∧ r = .error e') ∨
      ∃ w1, createFile out w = some (.ok (), w1) ∧ ∀ (R : World → World → Prop) [Effect R],
        (∀ state step, Io.Keeps R (C.write out state step)) → R w1 w' := by
  cases format with
  | zip =>
    rcases Io.bind_cases h with ⟨e, he, heq⟩ | ⟨_, w1, hcreate, h⟩
    · obtain ⟨e', he'⟩ := Io.withContext_error he
      exact Or.inl ⟨e', e, he', heq⟩
    · refine Or.inr ⟨w1, Io.withContext_ok.mp hcreate, fun R _ hwrite => ?_⟩
      exact ((keeps_zipEntries hwrite entries C.fresh).bind fun state =>
        ((hwrite state _).withContext _).bind fun _ => Io.keeps_pure ()) _ _ _ h
  | tarGz =>
    rcases Io.bind_cases h with ⟨e, he, heq⟩ | ⟨_, w1, hcreate, h⟩
    · obtain ⟨e', he'⟩ := Io.withContext_error he
      exact Or.inl ⟨e', e, he', heq⟩
    · refine Or.inr ⟨w1, Io.withContext_ok.mp hcreate, fun R _ hwrite => ?_⟩
      exact ((keeps_tarEntries hwrite entries C.fresh).bind fun state =>
        ((hwrite state _).withContext _).bind fun finished =>
          ((hwrite finished _).withContext _).bind fun zipped =>
            (hwrite zipped _).bind fun _ => Io.keeps_pure ()) _ _ _ h
  | sevenZ =>
    -- The file is created in the first step of the crate.
    have hcreate : ∀ {r1 : Except Failure σ} {w1},
        (createFile out >>= fun _ => C.write out C.fresh .create) w = some (r1, w1) →
        (∃ e, createFile out w = some (.error e, w1) ∧ r1 = .error e) ∨
          ∃ w2, createFile out w = some (.ok (), w2) ∧ ∀ (R : World → World → Prop) [Effect R],
            (∀ state step, Io.Keeps R (C.write out state step)) → R w2 w1 := by
      intro r1 w1 hrun
      rcases Io.bind_cases hrun with hfailed | ⟨_, w2, hok, hstep⟩
      · exact Or.inl hfailed
      · exact Or.inr ⟨w2, hok, fun R _ hwrite => hwrite _ _ _ _ _ hstep⟩
    rcases Io.bind_cases h with ⟨e, he, heq⟩ | ⟨created, w1, hmade, h⟩
    · obtain ⟨r1, hr1, _⟩ := named_cases he
      rcases hcreate hr1 with ⟨e', he', _⟩ | hopened
      · exact Or.inl ⟨e', e, he', heq⟩
      · exact Or.inr hopened
    · obtain ⟨r1, hr1, hok⟩ := named_cases hmade
      rcases hcreate hr1 with ⟨e', _, heq⟩ | ⟨w2, hopened, heffect⟩
      · rw [hok created rfl] at heq
        cases heq
      · refine Or.inr ⟨w2, hopened, fun R _ hwrite => Effect.trans (heffect R hwrite) ?_⟩
        exact ((keeps_sevenZEntries hwrite entries created).bind fun state =>
          (keeps_named (hwrite state _) _).bind fun _ => Io.keeps_pure ()) _ _ _ h

end Runs

/-- The archive file is created: the directory is made, then the file. -/
def Created (s : AppState) (accountId : Int) (q : FolderArchiveQuery) (faults : QueryFaults)
    (unique : Text) (w : World) : Prop :=
  ∃ chosen w1 w2, chosenEntries s accountId q faults = .ok chosen ∧
    createDirAll (absolutePath (tmpPlace s)) w = some (.ok (), w1) ∧
    createFile (absolutePath (outPlace s unique chosen.format)) w1 = some (.ok (), w2)

/-- The archive is built and put into the guard, and the query for its length fails after
that; the guard can remove the file. -/
def Removed {σ : Type} (C : Crates σ) (s : AppState) (accountId : Int) (q : FolderArchiveQuery)
    (faults : QueryFaults) (unique : Text) (w : World) : Prop :=
  ∃ chosen outPath w1 file w2 e w3 w4, chosenEntries s accountId q faults = .ok chosen ∧
    C.buildArchive (osPath s.config.storageRoot) unique chosen.format chosen.entries w =
      some (.ok outPath, w1) ∧
    openFile outPath w1 = some (.ok file, w2) ∧ fileLen file w2 = some (.error e, w3) ∧
    removeFile outPath w3 = some (.ok (), w4)

/-- There is a file at a place, and no other file is changed. -/
structure Filled (out : Place) (w w' : World) : Prop where
  there : (content w'.tree out).isSome = true
  other : ∀ q, q ≠ out → content w'.tree q = content w.tree q

theorem Filled.of_same {out : Place} {w w1 w' : World} (h : Filled out w w1) (hsame : Same w1 w') :
    Filled out w w' := ⟨by rw [hsame.tree]; exact h.there, fun q hq => by
      rw [hsame.tree]; exact h.other q hq⟩

theorem not_leaves_of_same {tmp : Place} {w w' : World} (h : SameFiles w w') :
    ¬ Leaves tmp w w' := by
  intro h'
  obtain ⟨q, _, hnone, hsome⟩ := h'
  rw [h q, hnone] at hsome
  cases hsome

section Archive

variable {σ : Type} {C : Crates σ} {s : AppState} {accountId : Int} {q : FolderArchiveQuery}
  {faults : QueryFaults} {unique : Text} {w w' : World} {chosen : Chosen}

theorem Filled.leaves {format : ArchiveFormat} (h : Filled (outPlace s unique format) w w')
    (hfresh : content w.tree (outPlace s unique format) = none) : Leaves (tmpPlace s) w w' :=
  ⟨_, List.prefix_append _ _, hfresh, h.there⟩

theorem chosen_nonempty (h : chosenEntries s accountId q faults = .ok chosen) :
    chosen.entries.isEmpty = false := by
  unfold chosenEntries at h
  split at h
  · cases h
  split at h
  · cases h
  by_cases hbucket : faults.bucket = true
  · rw [if_pos hbucket] at h
    cases h
  rw [if_neg hbucket] at h
  obtain ⟨⟨bucketId, name⟩, _, h⟩ := bind_eq_ok.mp h
  by_cases hperm : faults.permission = true
  · simp only [if_pos hperm] at h
    cases h
  simp only [if_neg hperm] at h
  obtain ⟨_, _, h⟩ := bind_eq_ok.mp h
  split_ifs at h with hlisting hempty
  · cases h
  · rw [← Except.ok.inj h]
    simpa [List.isEmpty_iff] using hempty

theorem writes_out (format : ArchiveFormat) (state : σ) (step : WriteStep) :
    Io.Keeps (Writes (outPlace s unique format))
      (C.write (absolutePath (outPlace s unique format)) state step) := by
  intro w r w' h
  refine writeOpen_writes h fun q hq => ?_
  rw [place_absolutePath] at hq
  exact (Option.some.inj hq).symm

/-- The build of an archive fails before it has made a file, or it has made one, that is
there whatever comes after. -/
theorem buildArchive_cases {format : ArchiveFormat} {entries : List (Text × OsPath)}
    {r : Except Failure OsPath} (hentries : entries.isEmpty = false)
    (h : C.buildArchive (osPath s.config.storageRoot) unique format entries w = some (r, w')) :
    (SameFiles w w' ∧ (∃ e, r = .error e) ∧
      ∀ w1 w2, createDirAll (absolutePath (tmpPlace s)) w = some (.ok (), w1) →
        createFile (absolutePath (outPlace s unique format)) w1 ≠ some (.ok (), w2)) ∨
    (∃ w1 w2, createDirAll (absolutePath (tmpPlace s)) w = some (.ok (), w1) ∧
      createFile (absolutePath (outPlace s unique format)) w1 = some (.ok (), w2) ∧
      Filled (outPlace s unique format) w w' ∧
      ∀ outPath, r = .ok outPath → outPath = absolutePath (outPlace s unique format)) := by
  unfold Crates.buildArchive at h
  rw [if_neg (by simp [hentries])] at h
  have htmp : join (osPath s.config.storageRoot) [.name (osText "tmp".toList)] =
      absolutePath (tmpPlace s) := join_absolutePath _ _
  rcases Io.bind_cases h with ⟨e, he, rfl⟩ | ⟨tmpdir, w1, hdir, h⟩
  · unfold ensureTmpdir at he
    rcases Io.bind_cases he with ⟨e', he', _⟩ | ⟨_, w1, _, hpure⟩
    · obtain ⟨e'', he''⟩ := Io.withContext_error he'
      rw [htmp] at he''
      refine Or.inl ⟨keeps_createDirAll _ _ _ _ he'', ⟨e, rfl⟩, fun w1 w2 hok => ?_⟩
      exact absurd hok (Io.not_ok_of_error he'')
    · cases hpure
  unfold ensureTmpdir at hdir
  obtain ⟨_, w1', hmade, hpure⟩ := Io.bind_ok.mp hdir
  obtain ⟨rfl, rfl⟩ := Io.pure_ok.mp hpure
  rw [htmp, join_absolutePath] at h
  rw [htmp] at hmade
  have hmade := Io.withContext_ok.mp hmade
  have hsame : SameFiles w w1' := keeps_createDirAll _ _ _ _ hmade
  have hcases : ∀ {r1 : Except Failure Unit} {w2}, C.writeArchive format
      (absolutePath (outPlace s unique format)) entries w1' = some (r1, w2) →
      (SameFiles w w2 ∧ ∃ e e', createFile (absolutePath (outPlace s unique format)) w1' =
        some (.error e, w2) ∧ r1 = .error e') ∨
      ∃ w3, createFile (absolutePath (outPlace s unique format)) w1' = some (.ok (), w3) ∧
        Filled (outPlace s unique format) w w2 := by
    intro r1 w2 hrun
    rcases writeArchive_cases hrun with ⟨e, e', he, heq⟩ | ⟨w3, hcreate, heffect⟩
    · refine Or.inl ⟨fun q => ?_, e, e', he, heq⟩
      rw [(createFile_error he).tree, hsame q]
    · obtain ⟨hwrites, hnew⟩ := createFile_ok hcreate (place_absolutePath _ _)
      have hkept := heffect (KeepsFile (outPlace s unique format)) fun state step =>
        keepsFile_writeOpen _ _ _
      have hwritten := heffect (Writes (outPlace s unique format)) (writes_out format)
      refine Or.inr ⟨w3, hcreate, hkept (by rw [hnew]; rfl), fun q hq => ?_⟩
      rw [content_eq_of_get (hwritten.other q hq), content_eq_of_get (hwrites.other q hq), hsame q]
  rcases Io.bind_cases h with ⟨e, he, rfl⟩ | ⟨_, w2, hwritten, h⟩
  · rcases hcases he with ⟨hfiles, e', _, hfailed, _⟩ | ⟨w3, hcreate, hfilled⟩
    · refine Or.inl ⟨hfiles, ⟨e, rfl⟩, fun w1 w2 hok hcreate => ?_⟩
      obtain ⟨_, rfl⟩ := Io.ok_unique hmade hok
      exact Io.not_ok_of_error hfailed hcreate
    · exact Or.inr ⟨w1', w3, hmade, hcreate, hfilled, fun _ hok => by cases hok⟩
  · obtain ⟨rfl, rfl⟩ := Io.pure_run.mp h
    rcases hcases hwritten with ⟨_, _, _, _, heq⟩ | ⟨w3, hcreate, hfilled⟩
    · cases heq
    · exact Or.inr ⟨w1', w3, hmade, hcreate, hfilled, fun _ hok => (Except.ok.inj hok).symm⟩

/-- What `openArchive` leaves when it fails: the file is there, or it was opened, its length
was not found out and the guard has removed it. -/
theorem openArchive_cases {outPath : OsPath} {pre : Text} {format : ArchiveFormat} {w1 : World}
    {response : Response}
    (h : C.openArchive outPath pre format w1 = some (.ok (.failure response), w')) :
    (Same w1 w' ∧ ∀ file w2 e w3 w4, openFile outPath w1 = some (.ok file, w2) →
        fileLen file w2 = some (.error e, w3) → removeFile outPath w3 ≠ some (.ok (), w4)) ∨
      ∃ file w2 e w3, openFile outPath w1 = some (.ok file, w2) ∧ Same w1 w3 ∧
        fileLen file w2 = some (.error e, w3) ∧ removeFile outPath w3 = some (.ok (), w') := by
  obtain ⟨r, w2, hopen, h⟩ := Io.bind_attempt_ok.mp h
  have hsame : Same w1 w2 := (Io.keeps_query _).withContext _ _ _ _ hopen
  cases r with
  | error e =>
    obtain ⟨_, rfl⟩ := Io.pure_ok.mp h
    obtain ⟨e', hfailed⟩ := Io.withContext_error hopen
    refine Or.inl ⟨hsame, fun file w3 _ _ _ hok _ _ => ?_⟩
    exact Io.not_ok_of_error hfailed hok
  | ok file =>
    have hopened := Io.withContext_ok.mp hopen
    obtain ⟨r, w3, hlen, h⟩ := Io.bind_attempt_ok.mp h
    have hsame' : Same w1 w3 := Effect.trans hsame (Io.keeps_query _ _ _ _ hlen)
    cases r with
    | ok len => simp [Io.pure_ok] at h
    | error e =>
      obtain ⟨r, w4, hremove, h⟩ := Io.bind_attempt_ok.mp h
      obtain ⟨_, rfl⟩ := Io.pure_ok.mp h
      cases r with
      | ok u => exact Or.inr ⟨file, w2, e, w3, hopened, hsame', hlen, hremove⟩
      | error e' =>
        refine Or.inl ⟨Effect.trans hsame' (removeFile_error hremove), ?_⟩
        intro file' w2' _ w3' _ hopened' hlen' hremove'
        obtain ⟨rfl, rfl⟩ := Io.ok_unique hopened hopened'
        obtain ⟨_, rfl⟩ := Io.run_unique hlen hlen'
        exact Io.not_ok_of_error hremove hremove'

theorem not_leaves_of_removed {format : ArchiveFormat} {w1 w3 : World}
    (hfilled : Filled (outPlace s unique format) w w1) (hsame : Same w1 w3)
    (hremove : removeFile (absolutePath (outPlace s unique format)) w3 = some (.ok (), w')) :
    ¬ Leaves (tmpPlace s) w w' := by
  obtain ⟨hwrites, hgone⟩ := removeFile_ok hremove (place_absolutePath _ _)
  intro h
  obtain ⟨place, _, hnone, hsome⟩ := h
  by_cases heq : place = outPlace s unique format
  · rw [heq, hgone] at hsome
    cases hsome
  · rw [content_eq_of_get (hwrites.other place heq), hsame.tree, hfilled.other place heq,
      hnone] at hsome
    cases hsome

end Archive

/-- A download that fails leaves no file below `tmp` exactly when it has not come to create the
archive file, or when the finished file was opened, its length was not found out and the
guard could remove it. The random id in the name of the file is new. -/
theorem failed_archive_leaves_no_file_iff {σ : Type} (C : Crates σ) (s : AppState)
    (accountId : Int) (q : FolderArchiveQuery) (faults : QueryFaults) (unique : Text)
    (w w' : World) (response : Response)
    (hfresh : ∀ format, content w.tree (outPlace s unique format) = none)
    (h : C.folderArchive s accountId q faults unique w = some (.ok (.failure response), w')) :
    ¬ Leaves (tmpPlace s) w w' ↔
      ¬ Created s accountId q faults unique w ∨ Removed C s accountId q faults unique w := by
  unfold Crates.folderArchive at h
  cases hchosen : chosenEntries s accountId q faults with
  | error answer =>
    rw [hchosen] at h
    obtain ⟨_, rfl⟩ := Io.pure_ok.mp h
    refine iff_of_true (not_leaves_of_same fun _ => rfl) (Or.inl ?_)
    intro h'
    obtain ⟨chosen, _, _, hok, _⟩ := h'
    rw [hchosen] at hok
    cases hok
  | ok chosen =>
    rw [hchosen] at h
    have hone : ∀ chosen', chosenEntries s accountId q faults = .ok chosen' → chosen' = chosen :=
      fun chosen' hok => Except.ok.inj (hok.symm.trans hchosen)
    obtain ⟨r, w1, hbuild, h⟩ := Io.bind_attempt_ok.mp h
    rcases buildArchive_cases (chosen_nonempty hchosen) hbuild with
      ⟨hsame, ⟨e, rfl⟩, hnone⟩ | ⟨wa, wb, hdir, hcreate, hfilled, hpath⟩
    · obtain ⟨_, rfl⟩ := Io.pure_ok.mp h
      refine iff_of_true (not_leaves_of_same hsame) (Or.inl ?_)
      intro h'
      obtain ⟨chosen', wa, wb, hok, hdir, hcreate⟩ := h'
      obtain rfl := hone chosen' hok
      exact hnone wa wb hdir hcreate
    have hcreated : Created s accountId q faults unique w :=
      ⟨chosen, wa, wb, hchosen, hdir, hcreate⟩
    cases r with
    | error e =>
      obtain ⟨_, rfl⟩ := Io.pure_ok.mp h
      refine iff_of_false (fun hclean => hclean (hfilled.leaves (hfresh _))) ?_
      intro h'
      rcases h' with hnot | ⟨chosen', _, _, _, _, _, _, _, hok, hbuilt, _⟩
      · exact hnot hcreated
      · obtain rfl := hone chosen' hok
        exact Io.not_ok_of_error hbuild hbuilt
    | ok outPath =>
      obtain rfl := hpath outPath rfl
      rcases openArchive_cases h with ⟨hsame, hkept⟩ | ⟨file, w2, e, w3, hopen, hsame, hlen, hgone⟩
      · refine iff_of_false (fun hclean => hclean ((hfilled.of_same hsame).leaves (hfresh _))) ?_
        intro h'
        rcases h' with hnot | ⟨chosen', _, _, _, _, _, _, _, hok, hbuilt, hopen, hlen, hgone⟩
        · exact hnot hcreated
        · obtain rfl := hone chosen' hok
          obtain ⟨rfl, rfl⟩ := Io.ok_unique hbuild hbuilt
          exact hkept _ _ _ _ _ hopen hlen hgone
      · exact iff_of_true (not_leaves_of_removed hfilled hsame hgone)
          (Or.inr ⟨chosen, _, w1, file, w2, e, w3, w', hchosen, hbuild, hopen, hlen, hgone⟩)

/-- A node with one object in the folder `photos`, and an account with the Owner role. -/
def onePhoto : AppState :=
  { holding ["photos/a".toList] with
    db := { (holding ["photos/a".toList]).db with accountRole := [⟨1, 1⟩] } }

def photosAs7z : FolderArchiveQuery := ⟨none, "photos".toList, "7z".toList⟩

/-- Writers that are only asked to create a file, which writes nothing. -/
def emptyFiles : Crates Unit where
  fresh := ()
  step _ _ := .ok ((), [])
  describe _ := "No such file or directory (os error 2)".toList

/-- A storage root without blobs; with a file in the place of `tmp`. -/
def withoutBlobs : World where
  tree := [([osText ".data".toList], .dir)]
  cwd := some []
  faults := []

def withoutTmp : World :=
  { withoutBlobs with
    tree := ([osText ".data".toList, osText "tmp".toList], .file []) :: withoutBlobs.tree }

/-- Where the directory cannot be made, nothing is left. -/
theorem failed_archive_leaves_no_file_iff_tmp :
    ∃ w', emptyFiles.folderArchive onePhoto 1 photosAs7z {} "1-u".toList withoutTmp =
        some (.ok (.failure (.failure .internalServerError (.message "create /.data/tmp".toList))),
          w') ∧
      (¬ Leaves (tmpPlace onePhoto) withoutTmp w' ↔
        ¬ Created onePhoto 1 photosAs7z {} "1-u".toList withoutTmp ∨
          Removed emptyFiles onePhoto 1 photosAs7z {} "1-u".toList withoutTmp) := by
  obtain ⟨w', h⟩ : ∃ w', emptyFiles.folderArchive onePhoto 1 photosAs7z {} "1-u".toList
      withoutTmp = some (.ok (.failure (.failure .internalServerError
        (.message "create /.data/tmp".toList))), w') := ⟨_, rfl⟩
  refine ⟨w', h, failed_archive_leaves_no_file_iff emptyFiles onePhoto 1 photosAs7z {}
    "1-u".toList withoutTmp w' _ (fun format => ?_) h⟩
  cases format with
  | zip => rfl
  | tarGz => rfl
  | sevenZ => rfl

/-- The blob of the object is missing, and the file that was begun stays below `tmp`. -/
theorem failed_archive_leaves_file :
    (∀ format, content withoutBlobs.tree (outPlace onePhoto "1-u".toList format) = none) ∧
      ∃ w', emptyFiles.folderArchive onePhoto 1 photosAs7z {} "1-u".toList withoutBlobs =
          some (.ok (.failure (.failure .internalServerError (.message
            "open /.data/objects/00000000-0000-4000-8000-000000000000.bin".toList))), w') ∧
        Leaves (tmpPlace onePhoto) withoutBlobs w' := by
  refine ⟨fun format => ?_, _, rfl, outPlace onePhoto "1-u".toList .sevenZ,
    List.prefix_append _ _, rfl, rfl⟩
  cases format with
  | zip => rfl
  | tarGz => rfl
  | sevenZ => rfl

end MyS3.FolderArchive
