import MyS3.Library.Paths
import MyS3.Models

/-!
The blob store of `storage/engine.rs`. A disk maps resolved paths to file
contents. `putChunks` creates (and truncates) its target file first and then
copies the stream into it, so a stream or a write that fails leaves what was
written so far, and only a failed ETag check removes the file.
-/

namespace MyS3.Engine

open Library.Strings Library.Paths Models

/-- Functions of libraries and of the standard library that the code calls: the
ETag digests in hex, Unicode lower case, which never produces a slash, the MIME
type of a file name, and the RFC 3339 text of a stored date column. -/
structure Platform where
  digest : EtagType → Bytes → Text
  toLowercase : Text → Text
  mimeFromPath : Text → Text
  columnToRfc3339 : Text → Text
  lowercase_slash : ∀ t, '/' ∉ t → '/' ∉ toLowercase t

theorem toLower_ne_slash {c : Char} (h : c ≠ '/') : c.toLower ≠ '/' := by
  unfold Char.toLower
  split
  · rename_i hc
    intro heq
    have hn := congrArg (fun c : Char => c.val.toNat) heq
    have h1 := UInt32.le_iff_toNat_le.mp hc.1
    have h2 := UInt32.le_iff_toNat_le.mp hc.2
    simp only [UInt32.toNat_add] at hn
    simp at h1 h2 hn
    omega
  · exact h

/-- A platform that reads digests from a table. -/
def Platform.tabulated (digests : List ((EtagType × Bytes) × Text)) : Platform where
  digest e data := (digests.lookup (e, data)).getD []
  toLowercase t := t.map Char.toLower
  mimeFromPath _ := "application/octet-stream".toList
  columnToRfc3339 t := t
  lowercase_slash t ht h := by
    obtain ⟨c, hc, heq⟩ := List.mem_map.mp h
    exact toLower_ne_slash (fun hs => ht (hs ▸ hc)) heq

/-- The md5 digests of the empty text, of `a` and of `b`. -/
def Platform.sample : Platform :=
  .tabulated [((.md5, []), "d41d8cd98f00b204e9800998ecf8427e".toList),
    ((.md5, [97]), "0cc175b9c0f1b6a831c399e269772661".toList),
    ((.md5, [98]), "92eb5ffee6ae2fec3ad71c777531578f".toList)]

abbrev Disk := Path → Option Bytes

/-- The text of a random UUID: 36 characters, none of them a slash or a dot. -/
structure Uuid where
  text : Text
  length_eq : text.length = 36
  chars : ∀ c ∈ text, c ≠ '/' ∧ c ≠ '.'
  deriving DecidableEq

theorem digitChar_plain (n : Nat) : Nat.digitChar n ≠ '/' ∧ Nat.digitChar n ≠ '.' := by
  by_cases hn : n < 16
  · revert n
    decide
  · have hstar : Nat.digitChar n = '*' := by
      unfold Nat.digitChar
      repeat' rw [if_neg (by omega)]
    rw [hstar]
    decide

/-- A version 4 UUID that ends in a given digit. -/
def Uuid.numbered (n : Nat) : Uuid where
  text := "00000000-0000-4000-8000-00000000000".toList ++ [Nat.digitChar n]
  length_eq := by simp
  chars := by
    have hfixed : ∀ c ∈ "00000000-0000-4000-8000-00000000000".toList, c ≠ '/' ∧ c ≠ '.' := by
      simp
    intro c hc
    rcases List.mem_append.mp hc with hc | hc
    · exact hfixed c hc
    · rw [List.mem_singleton.mp hc]
      exact digitChar_plain n

def objectsDir : Text := "objects".toList

def absolutePathFor (root : Path) (filepath : Text) : Path :=
  if startsWith (objectsDir ++ ['/']) filepath || decide ('/' ∈ filepath) then join root filepath
  else join (root ++ [objectsDir]) filepath

def relativeFilepath (uuid : Uuid) (ext : Text) : Text :=
  objectsDir ++ '/' :: (uuid.text ++ '.' :: ext)

/-- The last segment of a path text that names an entry. -/
def fileName (t : Text) : Option Text :=
  ((split '/' t).filter fun s => s ≠ [] && s ≠ ['.']).getLast?.filter (· ≠ ['.', '.'])

/-- What follows the last dot of a name, unless the dot is its first character. -/
def extension (name : Text) : Option Text :=
  (rsplitOnce '.' name).bind fun parts => if parts.1 = [] then none else some parts.2

def extensionFromFilename (P : Platform) (filename : Text) : Text :=
  P.toLowercase ((((fileName filename).bind extension).filter (· ≠ [])).getD "bin".toList)

structure StoredObject where
  filepath : Text
  fileFormat : Text
  filesizeBytes : Int
  etag : Text
  etagType : EtagType
  deriving DecidableEq

/-- Where a blob is written: a fresh name, or a filepath that the caller forces. -/
inductive Target
  | fresh (uuid : Uuid)
  | forced (filepath : Text)

def Target.filepath (P : Platform) (originalFilename : Text) : Target → Text
  | .fresh uuid => relativeFilepath uuid (extensionFromFilename P originalFilename)
  | .forced filepath => filepath

/-- File system calls that fail. `write` names the chunk whose write fails and
how many of its bytes reach the file. -/
structure IoFaults where
  createDir : Bool := false
  createFile : Bool := false
  write : Option (Nat × Nat) := none
  flush : Bool := false
  unlink : Bool := false
  deriving DecidableEq

inductive EngineError
  | createDir
  | createFile
  | stream
  | write
  | flush
  | etagMismatch (expected got : Text)
  deriving DecidableEq

/-- Copy a stream into the file; `none` in the stream is a stream error. -/
def writeChunks : List (Option Bytes) → Option (Nat × Nat) → Bytes → Bytes × Option EngineError
  | [], _, written => (written, none)
  | none :: _, _, written => (written, some .stream)
  | some chunk :: _, some (0, n), written => (written ++ chunk.take n, some .write)
  | some chunk :: rest, some (i + 1, n), written =>
    writeChunks rest (some (i, n)) (written ++ chunk)
  | some chunk :: rest, none, written => writeChunks rest none (written ++ chunk)

/-- All bytes of a stream that has no error item. -/
def content (stream : List (Option Bytes)) : Bytes := (stream.filterMap id).flatten

def setFile (disk : Disk) (path : Path) (data : Option Bytes) : Disk :=
  Function.update disk path data

def putChunks (P : Platform) (root : Path) (disk : Disk) (stream : List (Option Bytes))
    (originalFilename : Text) (etagType : EtagType) (expectedEtag : Option Text)
    (target : Target) (io : IoFaults) : Except EngineError StoredObject × Disk :=
  let filepath := target.filepath P originalFilename
  let path := absolutePathFor root filepath
  if io.createDir then (.error .createDir, disk)
  else if io.createFile then (.error .createFile, disk)
  else
    let (data, failed) := writeChunks stream io.write []
    let written := setFile disk path (some data)
    match failed with
    | some err => (.error err, written)
    | none =>
      if io.flush then (.error .flush, written)
      else
        let etag := P.digest etagType data
        match expectedEtag.filter (· ≠ etag) with
        | some expected =>
          (.error (.etagMismatch expected etag),
            if io.unlink then written else setFile written path none)
        | none =>
          (.ok { filepath := filepath, fileFormat := extensionFromFilename P originalFilename
                 filesizeBytes := data.length, etag := etag, etagType := etagType }, written)

/-- Remove a blob if it exists; the error is what the caller may ignore. -/
def unlink (root : Path) (disk : Disk) (filepath : Text) (fails : Bool) : Disk :=
  if fails then disk else setFile disk (absolutePathFor root filepath) none

def openRead (root : Path) (disk : Disk) (filepath : Text) : Option Bytes :=
  disk (absolutePathFor root filepath)

@[simp] theorem setFile_same (disk : Disk) (path : Path) (data : Option Bytes) :
    setFile disk path data path = data := by
  simp [setFile]

theorem setFile_other {disk : Disk} {path q : Path} (data : Option Bytes) (h : q ≠ path) :
    setFile disk path data q = disk q := by
  simp [setFile, h]

@[simp] theorem setFile_setFile (disk : Disk) (path : Path) (a b : Option Bytes) :
    setFile (setFile disk path a) path b = setFile disk path b := by
  simp [setFile]

theorem setFile_eq_self {disk : Disk} {path : Path} {data : Option Bytes} :
    setFile disk path data = disk ↔ disk path = data := by
  constructor
  · intro h
    rw [← h, setFile_same]
  · intro h
    rw [setFile, ← h, Function.update_eq_self]

/-- A copy that does not fail writes the whole stream. -/
theorem writeChunks_ok {stream : List (Option Bytes)} {fault : Option (Nat × Nat)}
    {written data : Bytes} (h : writeChunks stream fault written = (data, none)) :
    data = written ++ content stream := by
  induction stream generalizing fault written with
  | nil =>
    simp only [writeChunks, Prod.mk.injEq, and_true] at h
    simp [content, ← h]
  | cons item rest ih =>
    cases item with
    | none => simp [writeChunks] at h
    | some chunk =>
      rcases fault with _ | ⟨_ | i, n⟩
      · rw [ih h]
        simp [content]
      · simp [writeChunks] at h
      · rw [ih h]
        simp [content]

theorem writeChunks_error {stream : List (Option Bytes)} {fault : Option (Nat × Nat)}
    {written data : Bytes} {err : EngineError}
    (h : writeChunks stream fault written = (data, some err)) :
    err = .stream ∨ err = .write := by
  induction stream generalizing fault written with
  | nil => simp [writeChunks] at h
  | cons item rest ih =>
    cases item with
    | none =>
      simp only [writeChunks, Prod.mk.injEq, Option.some.injEq] at h
      exact Or.inl h.2.symm
    | some chunk =>
      rcases fault with _ | ⟨_ | i, n⟩
      · exact ih h
      · simp only [writeChunks, Prod.mk.injEq, Option.some.injEq] at h
        exact Or.inr h.2.symm
      · exact ih h

/-- Without an error item and a write fault the copy succeeds. -/
theorem writeChunks_of_complete {chunks : List Bytes} (written : Bytes) :
    writeChunks (chunks.map some) none written = (written ++ chunks.flatten, none) := by
  induction chunks generalizing written with
  | nil => simp [writeChunks]
  | cons chunk rest ih => simp [writeChunks, ih]

theorem uuid_name_plain (uuid : Uuid) {ext : Text} (hext : '/' ∉ ext) :
    PlainName (uuid.text ++ '.' :: ext) := by
  have hlen := uuid.length_eq
  refine ⟨?_, by simp, ?_, ?_⟩
  · simp only [List.mem_append, List.mem_cons, not_or]
    exact ⟨fun h => (uuid.chars _ h).1 rfl, by decide, hext⟩
  · intro h
    have := congrArg List.length h
    simp only [List.length_append, List.length_cons, List.length_nil] at this
    omega
  · intro h
    have := congrArg List.length h
    simp only [List.length_append, List.length_cons, List.length_nil] at this
    omega

theorem not_mem_rsplitOnce {c d : Char} {t a b : Text} (h : rsplitOnce d t = some (a, b))
    (hc : c ∉ t) : c ∉ b := by
  unfold rsplitOnce at h
  by_cases hd : d ∈ t
  · rw [if_pos hd] at h
    simp only [Option.some.injEq, Prod.mk.injEq] at h
    rw [← h.2, List.mem_reverse]
    intro hmem
    exact hc (List.mem_reverse.mp ((List.takeWhile_sublist _).mem hmem))
  · rw [if_neg hd] at h
    cases h

theorem fileName_slash {t name : Text} (h : fileName t = some name) : '/' ∉ name := by
  unfold fileName at h
  rw [Option.filter_eq_some_iff] at h
  exact not_mem_of_mem_split (List.mem_of_mem_filter (List.mem_of_getLast? h.1))

theorem extension_slash (P : Platform) (filename : Text) :
    '/' ∉ extensionFromFilename P filename := by
  unfold extensionFromFilename
  apply P.lowercase_slash
  cases h : ((fileName filename).bind extension).filter (· ≠ []) with
  | none => decide
  | some ext =>
    rw [Option.filter_eq_some_iff] at h
    obtain ⟨name, hname, hext⟩ := Option.bind_eq_some_iff.mp h.1
    obtain ⟨parts, hparts, hsome⟩ := Option.bind_eq_some_iff.mp hext
    by_cases hp : parts.1 = []
    · simp [hp] at hsome
    · simp only [hp, if_false, Option.some.injEq] at hsome
      rw [Option.getD_some, ← hsome]
      exact not_mem_rsplitOnce (a := parts.1) (b := parts.2) hparts (fileName_slash hname)

/-- A fresh blob is a plain entry of the objects directory. -/
theorem absolutePathFor_fresh (P : Platform) (root : Path) (uuid : Uuid) (filename : Text) :
    absolutePathFor root ((Target.fresh uuid).filepath P filename) =
      root ++ [objectsDir, uuid.text ++ '.' :: extensionFromFilename P filename] := by
  have hslash : '/' ∈ relativeFilepath uuid (extensionFromFilename P filename) := by
    simp [relativeFilepath]
  simp only [Target.filepath, absolutePathFor, hslash, decide_true, Bool.or_true, if_true]
  exact join_plain (by decide) (uuid_name_plain uuid (extension_slash P filename)) root

/-- A write that meets no fault and has the expected ETag. -/
theorem putChunks_clean {P : Platform} (root : Path) (disk : Disk) {chunks : List Bytes}
    (filename filepath : Text) {etag : Text} {etagType : EtagType}
    (hdigest : P.digest etagType chunks.flatten = etag) :
    ∃ stored, putChunks P root disk (chunks.map some) filename etagType (some etag)
        (.forced filepath) {} =
      (.ok stored, setFile disk (absolutePathFor root filepath) (some chunks.flatten)) ∧
      stored.filepath = filepath ∧ stored.filesizeBytes = chunks.flatten.length ∧
      stored.etag = etag := by
  have hfilter : (some etag).filter (fun e => decide (e ≠ P.digest etagType chunks.flatten)) =
      none := by
    simp [hdigest]
  unfold putChunks
  simp only [Bool.false_eq_true, if_false, writeChunks_of_complete, List.nil_append,
    Target.filepath, hfilter]
  exact ⟨_, rfl, rfl, rfl, hdigest⟩

section Exits

variable {P : Platform} {root : Path} {disk disk' : Disk} {stream : List (Option Bytes)}
  {filename : Text} {etagType : EtagType} {expected : Option Text} {target : Target} {io : IoFaults}

/-- The copy into the created file comes to its end, with some bytes and perhaps an error. -/
structure CopyEnd (stream : List (Option Bytes)) (io : IoFaults) (data : Bytes)
    (failed : Option EngineError) : Prop where
  createDir : io.createDir = false
  createFile : io.createFile = false
  copy : writeChunks stream io.write [] = (data, failed)

/-- How a write ends: one case for each exit of `putChunks`. -/
inductive PutEnd (P : Platform) (disk : Disk) (path : Path) (stream : List (Option Bytes))
    (etagType : EtagType) (expected : Option Text) (io : IoFaults) (stored : StoredObject) :
    Except EngineError StoredObject → Disk → Prop
  | noDir (h : io.createDir = true) :
      PutEnd P disk path stream etagType expected io stored (.error .createDir) disk
  | noFile (h : io.createFile = true) :
      PutEnd P disk path stream etagType expected io stored (.error .createFile) disk
  | brokenOff {data : Bytes} {err : EngineError} (h : CopyEnd stream io data (some err)) :
      PutEnd P disk path stream etagType expected io stored (.error err)
        (setFile disk path (some data))
  | notFlushed (h : CopyEnd stream io (content stream) none) (hflush : io.flush = true) :
      PutEnd P disk path stream etagType expected io stored (.error .flush)
        (setFile disk path (some (content stream)))
  | rejected {e : Text} (h : CopyEnd stream io (content stream) none) (hflush : io.flush = false)
      (hexpected : expected = some e) (hne : e ≠ P.digest etagType (content stream)) :
      PutEnd P disk path stream etagType expected io stored
        (.error (.etagMismatch e (P.digest etagType (content stream))))
        (setFile disk path (if io.unlink then some (content stream) else none))
  | stored (h : CopyEnd stream io (content stream) none) (hflush : io.flush = false)
      (hexpected : ∀ e, expected = some e → e = P.digest etagType (content stream)) :
      PutEnd P disk path stream etagType expected io stored (.ok stored)
        (setFile disk path (some (content stream)))

theorem putChunks_ends {res : Except EngineError StoredObject}
    (h : putChunks P root disk stream filename etagType expected target io = (res, disk')) :
    PutEnd P disk (absolutePathFor root (target.filepath P filename)) stream etagType expected io
      { filepath := target.filepath P filename
        fileFormat := extensionFromFilename P filename
        filesizeBytes := (content stream).length
        etag := P.digest etagType (content stream), etagType := etagType } res disk' := by
  unfold putChunks at h
  simp only at h
  by_cases hdir : io.createDir = true
  · rw [if_pos hdir] at h
    obtain ⟨rfl, rfl⟩ := Prod.mk.inj h
    exact .noDir hdir
  by_cases hfile : io.createFile = true
  · rw [if_neg hdir, if_pos hfile] at h
    obtain ⟨rfl, rfl⟩ := Prod.mk.inj h
    exact .noFile hfile
  rw [if_neg hdir, if_neg hfile] at h
  rcases hw : writeChunks stream io.write [] with ⟨data, failed⟩
  rw [hw] at h
  have hcopied : CopyEnd stream io data failed :=
    ⟨eq_false_of_ne_true hdir, eq_false_of_ne_true hfile, hw⟩
  cases failed with
  | some err =>
    obtain ⟨rfl, rfl⟩ := Prod.mk.inj h
    exact .brokenOff hcopied
  | none =>
    have hdata : data = content stream := by simpa using writeChunks_ok hw
    subst hdata
    by_cases hflush : io.flush = true
    · simp only [if_pos hflush] at h
      obtain ⟨rfl, rfl⟩ := Prod.mk.inj h
      exact .notFlushed hcopied hflush
    simp only [if_neg hflush] at h
    have hflushed := eq_false_of_ne_true hflush
    cases hexp : expected.filter (· ≠ P.digest etagType (content stream)) with
    | none =>
      rw [hexp] at h
      obtain ⟨rfl, rfl⟩ := Prod.mk.inj h
      refine .stored hcopied hflushed ?_
      intro e h'
      obtain rfl := h'
      simpa using hexp
    | some e =>
      rw [hexp] at h
      obtain ⟨rfl, rfl⟩ := Prod.mk.inj h
      rw [setFile_setFile, ← apply_ite (setFile disk _)]
      rw [Option.filter_eq_some_iff] at hexp
      exact .rejected hcopied hflushed hexp.1 (by simpa using hexp.2)

/-- What a successful write leaves behind. -/
theorem putChunks_ok {stored : StoredObject}
    (h : putChunks P root disk stream filename etagType expected target io = (.ok stored, disk')) :
    stored = { filepath := target.filepath P filename
               fileFormat := extensionFromFilename P filename
               filesizeBytes := (content stream).length
               etag := P.digest etagType (content stream), etagType := etagType } ∧
      disk' = setFile disk (absolutePathFor root (target.filepath P filename))
        (some (content stream)) ∧
      ∀ e, expected = some e → e = P.digest etagType (content stream) := by
  cases putChunks_ends h with
  | stored _ _ hexpected => exact ⟨rfl, rfl, hexpected⟩

/-- How a failed write leaves the disk: untouched when the file could not be
created, with a partial file when the copy broke off, and otherwise with the
rejected file removed, unless the removal fails too. -/
theorem putChunks_error {err : EngineError}
    (h : putChunks P root disk stream filename etagType expected target io = (.error err, disk')) :
    ((err = .createDir ∨ err = .createFile) ∧ disk' = disk) ∨
      ((err = .stream ∨ err = .write ∨ err = .flush) ∧
        disk' = setFile disk (absolutePathFor root (target.filepath P filename))
          (some (writeChunks stream io.write []).1)) ∨
      (∃ e, expected = some e ∧ e ≠ P.digest etagType (content stream) ∧
        err = .etagMismatch e (P.digest etagType (content stream)) ∧
        disk' = setFile disk (absolutePathFor root (target.filepath P filename))
          (if io.unlink then some (content stream) else none)) := by
  cases putChunks_ends h with
  | noDir _ => exact Or.inl ⟨Or.inl rfl, rfl⟩
  | noFile _ => exact Or.inl ⟨Or.inr rfl, rfl⟩
  | brokenOff hcopied =>
    refine Or.inr (Or.inl ⟨?_, by rw [hcopied.copy]⟩)
    rcases writeChunks_error hcopied.copy with hs | hs
    · exact Or.inl hs
    · exact Or.inr (Or.inl hs)
  | notFlushed hcopied _ =>
    exact Or.inr (Or.inl ⟨Or.inr (Or.inr rfl), by rw [hcopied.copy]⟩)
  | rejected _ _ hexpected hne => exact Or.inr (Or.inr ⟨_, hexpected, hne, rfl, rfl⟩)

/-- The copy into a created file breaks off: the body or a call on the file fails. -/
def CopyBreaks (body : List (Option Bytes)) (io : IoFaults) : Prop :=
  none ∈ body ∨ (∃ i n, io.write = some (i, n) ∧ i < body.length) ∨ io.flush = true

theorem writeChunks_fails_iff {body : List (Option Bytes)} {fault : Option (Nat × Nat)}
    (written : Bytes) : (writeChunks body fault written).2 ≠ none ↔
      none ∈ body ∨ ∃ i n, fault = some (i, n) ∧ i < body.length := by
  induction body generalizing fault written with
  | nil => simp [writeChunks]
  | cons item rest ih =>
    cases item with
    | none => simp [writeChunks]
    | some chunk =>
      rcases fault with _ | ⟨_ | i, n⟩
      · rw [writeChunks, ih]
        simp
      · simp [writeChunks]
      · rw [writeChunks, ih]
        simp

theorem CopyEnd.fails_iff {data : Bytes} {failed : Option EngineError}
    (h : CopyEnd stream io data failed) : failed ≠ none ↔
      none ∈ stream ∨ ∃ i n, io.write = some (i, n) ∧ i < stream.length := by
  rw [← writeChunks_fails_iff [], h.copy]

/-- A write that cannot create its file does nothing. -/
theorem putChunks_not_created (P : Platform) (root : Path) (disk : Disk)
    (stream : List (Option Bytes)) (filename : Text) (etagType : EtagType)
    (expected : Option Text) (target : Target)
    (h : io.createDir = true ∨ io.createFile = true) :
    ∃ err, putChunks P root disk stream filename etagType expected target io =
      (.error err, disk) := by
  unfold putChunks
  by_cases hdir : io.createDir = true
  · exact ⟨.createDir, if_pos hdir⟩
  · exact ⟨.createFile, (if_neg hdir).trans (if_pos (h.resolve_left hdir))⟩

/-- A created file stays behind when the copy into it breaks off. -/
theorem putChunks_error_of_created {err : EngineError}
    (h : putChunks P root disk stream filename etagType none target io = (.error err, disk'))
    (hdir : io.createDir = false) (hfile : io.createFile = false) :
    CopyBreaks stream io ∧
      disk' (absolutePathFor root (target.filepath P filename)) ≠ none := by
  cases putChunks_ends h with
  | noDir hfails =>
    rw [hdir] at hfails
    cases hfails
  | noFile hfails =>
    rw [hfile] at hfails
    cases hfails
  | brokenOff hcopied =>
    refine ⟨?_, by simp⟩
    rcases hcopied.fails_iff.mp (by simp) with hs | hs
    · exact Or.inl hs
    · exact Or.inr (Or.inl hs)
  | notFlushed _ hflush => exact ⟨Or.inr (Or.inr hflush), by simp⟩
  | rejected _ _ hexpected _ => cases hexpected

theorem putChunks_ok_copy {stored : StoredObject}
    (h : putChunks P root disk stream filename etagType expected target io = (.ok stored, disk')) :
    ¬ CopyBreaks stream io := by
  cases putChunks_ends h with
  | stored hcopied hflush _ =>
    have hcopy := mt hcopied.fails_iff.mpr (by simp)
    intro h'
    rcases h' with hs | hs | hs
    · exact hcopy (Or.inl hs)
    · exact hcopy (Or.inr hs)
    · simp [hflush] at hs

end Exits

/-- Writing a blob touches no other file. -/
theorem putChunks_other (P : Platform) (root : Path) (disk : Disk)
    (stream : List (Option Bytes)) (filename : Text) (etagType : EtagType)
    (expected : Option Text) (target : Target) (io : IoFaults) {q : Path}
    (hq : q ≠ absolutePathFor root (target.filepath P filename)) :
    (putChunks P root disk stream filename etagType expected target io).2 q = disk q := by
  rcases h : putChunks P root disk stream filename etagType expected target io with ⟨res, disk'⟩
  cases res with
  | ok stored =>
    rw [(putChunks_ok h).2.1]
    exact setFile_other _ hq
  | error err =>
    rcases putChunks_error h with ⟨_, rfl⟩ | ⟨_, rfl⟩ | ⟨e, _, _, _, rfl⟩
    · rfl
    · exact setFile_other _ hq
    · exact setFile_other _ hq

theorem unlink_other (root : Path) (disk : Disk) (filepath : Text) (fails : Bool) {q : Path}
    (hq : q ≠ absolutePathFor root filepath) : unlink root disk filepath fails q = disk q := by
  unfold unlink
  split_ifs
  · rfl
  · exact setFile_other _ hq

end MyS3.Engine
