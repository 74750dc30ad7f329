import MyS3.ArchiveEntries
import MyS3.StoreRefinement

/-!
The upload of a folder, and its archive. The browser makes one job for each folder below the
picked one, for its marker, and one for each file, and runs them one after another; each of them
may be cancelled, refused or lost. Meanwhile others use the node, but not this folder. Whatever
was acknowledged is what the archive of the folder has afterwards, under the same relative names
and with the same bytes; the markers are left out.
-/

namespace MyS3.FolderUploads

open Library.Strings Library.Tables Library.Paths Library.Runs Library.VersionedStore
open Models Objects Database Engine Repository Http S3Routes Keys Listings UploadRuns ReadRoutes
open Blobs BlobRuns FolderPrefixes ArchiveEntries StoreRefinement

/-- A file that is picked, or that a picked folder has. -/
structure PickedFile where
  webkitRelativePath : Text
  name : Text
  data : Bytes

/-- An upload of the queue; a marker is an empty file. -/
structure UploadJob where
  key : Text
  data : Bytes
  deriving DecidableEq

def relativeUploadPath (file : PickedFile) : Text :=
  let rel := if file.webkitRelativePath ≠ [] then file.webkitRelativePath else file.name
  trimStartMatches (· == '/') (rel.map fun c => if c = '\\' then '/' else c)

/-- A path that names a file. -/
def namesFile (rel : Text) : Bool := rel ≠ [] && rel.getLast? ≠ some '/'

def isDots (part : Text) : Bool := part = ['.'] || part = ['.', '.']

/-- The folders that the parts of a path go through, one below the other. -/
def growDirs (acc : Text) : List Text → List Text
  | [] => []
  | part :: rest =>
    if part = [] || isDots part then growDirs acc rest
    else (acc ++ part ++ ['/']) :: growDirs (acc ++ part ++ ['/']) rest

def dirPrefixes (files : List PickedFile) : List Text :=
  (files.map relativeUploadPath).flatMap fun rel =>
    if namesFile rel then growDirs [] (split '/' rel).dropLast else []

/-- The code units that the default order of a sort compares. -/
def utf16 (t : Text) : List Nat :=
  t.flatMap fun c =>
    if c.toNat < 0x10000 then [c.toNat]
    else [0xd800 + (c.toNat - 0x10000) / 0x400, 0xdc00 + (c.toNat - 0x10000) % 0x400]

def markerJobs (files : List PickedFile) (pre : Text) : List UploadJob :=
  (((dirPrefixes files).dedup).insertionSort fun a b => utf16 a ≤ utf16 b).map fun dir =>
    ⟨pre ++ dir ++ ".keep".toList, []⟩

def fileJobs (files : List PickedFile) (pre : Text) : List UploadJob :=
  files.filterMap fun file =>
    let rel := relativeUploadPath file
    if !namesFile rel || (split '/' rel).any isDots then none else some ⟨pre ++ rel, file.data⟩

/-- The jobs in the order in which they are queued: the markers first. -/
def enqueueUploads (files : List PickedFile) (pre : Text) : List UploadJob :=
  markerJobs files pre ++ fileJobs files pre

/-- The places of a folder that its archive has. -/
def archivedPlaces (b : Int) (folder : Text) : Set Place :=
  {k | k.1 = b ∧ folder <+: k.2 ∧ baseName k.2 ≠ keepMarker}

/-- An operation that leaves some places alone, whatever it answers. -/
def LeavesAlone (P : Platform) (n : Node) (R : Set Place) (op : Op) : Prop :=
  ∀ c, Means P n.app op c → Misses (view n.app) R c

/-- The request of a job, to a bucket. -/
structure Requests (b : Int) (job : UploadJob) (p : Put) : Prop where
  key : normalizeObjectKey job.key = .ok p.key
  bucket : p.bucketId = some b

/-- The jobs of a folder one after another, with those that were acknowledged, while others use
the node. -/
inductive Uploading (P : Platform) (b : Int) (R : Set Place) :
    Node → List UploadJob → List (Text × Bytes) → Node → Prop
  | done (n : Node) : Uploading P b R n [] [] n
  | other {n t m : Node} {jobs : List UploadJob} {ups : List (Text × Bytes)} (op : Op)
      (hlegal : Legal P n op) (halone : LeavesAlone P n R op) (hstep : step P n op = some t)
      (hrest : Uploading P b R t jobs ups m) : Uploading P b R n jobs ups m
  /-- A job that is cancelled, or that does not reach the route of the upload. -/
  | skipped {n m : Node} {jobs : List UploadJob} {ups : List (Text × Bytes)} (job : UploadJob)
      (hrest : Uploading P b R n jobs ups m) : Uploading P b R n (job :: jobs) ups m
  | refused {n t m : Node} {jobs : List UploadJob} {ups : List (Text × Bytes)} (job : UploadJob)
      (p : Put) (hrequest : Requests b job p) (hlegal : Legal P n (.put p))
      (hfailed : (p.run P n.app).1.isFailure = true) (hstep : step P n (.put p) = some t)
      (hrest : Uploading P b R t jobs ups m) : Uploading P b R n (job :: jobs) ups m
  | stored {n t m : Node} {jobs : List UploadJob} {ups : List (Text × Bytes)} (job : UploadJob)
      (p : Put) (hrequest : Requests b job p) (hbody : content p.body = job.data)
      (hlegal : Legal P n (.put p)) (hstored : (p.run P n.app).1.isFailure = false)
      (hstep : step P n (.put p) = some t) (hrest : Uploading P b R t jobs ups m) :
      Uploading P b R n (job :: jobs) ((p.key, job.data) :: ups) m

/-- The places of a set, in a bucket, hold what was uploaded there. -/
def Has (b : Int) (R : Set Place) (n : Node) (ups : List (Text × Bytes)) : Prop :=
  ∀ key, (b, key) ∈ R → ∀ v, Reads (view n.app) (b, key) v ↔
    ∃ data, (key, data) ∈ ups ∧ v = some data

variable {P : Platform} {b : Int} {R : Set Place} {n t m : Node} {ups : List (Text × Bytes)}

theorem has_other {op : Op} (hlower : LowerKeepsEnd P) (h : Has b R n ups) (hintact : Intact P n)
    (hlegal : Legal P n op) (halone : LeavesAlone P n R op) (hstep : step P n op = some t) :
    Has b R t ups := by
  obtain ⟨c, hmeans, henabled, hview⟩ := refines_step hlower hintact hlegal
  cases hstep
  intro key hkey v
  rw [hview, reads_misses henabled (halone c hmeans) hkey]
  exact h key hkey v

/-- The bucket of a request is found. -/
theorem means_put {p : Put} {job : UploadJob} {c : Change Int Place (Option Bytes)}
    (hrequest : Requests b job p) (hmeans : Means P n.app (.put p) c) :
    if (p.run P n.app).1.isFailure then c = .keep ∨ c = .recycle {(b, p.key)}
    else c = .add n.app.db.object.nextId (b, p.key) (some (content p.body)) := by
  obtain ⟨bucket, hbucket, hmeans⟩ := hmeans
  have hfound : bucket = some b := by
    rw [← hbucket, hrequest.bucket]
    rfl
  split_ifs at hmeans ⊢
  · rcases hmeans with hkeep | ⟨id, hid, hrecycle⟩
    · exact Or.inl hkeep
    · cases Option.some.inj (hid.symm.trans hfound)
      exact Or.inr hrecycle
  · obtain ⟨id, hid, hadd⟩ := hmeans
    cases Option.some.inj (hid.symm.trans hfound)
    exact hadd

/-- A refused upload takes nothing away, when its key was not uploaded before. -/
theorem has_refused {p : Put} {job : UploadJob} (hlower : LowerKeepsEnd P) (h : Has b R n ups)
    (hintact : Intact P n) (hrequest : Requests b job p) (hlegal : Legal P n (.put p))
    (hfailed : (p.run P n.app).1.isFailure = true) (hstep : step P n (.put p) = some t)
    (hnew : (b, p.key) ∈ R → ∀ data, (p.key, data) ∉ ups) : Has b R t ups := by
  obtain ⟨c, hmeans, henabled, hview⟩ := refines_step hlower hintact hlegal
  have hchange := means_put hrequest hmeans
  rw [if_pos hfailed] at hchange
  cases hstep
  intro key hkey v
  rw [hview]
  rcases hchange with rfl | rfl
  · exact h key hkey v
  · rw [reads_recycle, h key hkey v]
    constructor
    · exact fun hreads => hreads.1
    · intro hup
      obtain ⟨data, hdata, _⟩ := hup
      refine ⟨⟨data, hdata, by assumption⟩, fun hmem => ?_⟩
      cases hmem
      exact hnew hkey data hdata

/-- An acknowledged upload of a new key adds it. -/
theorem has_stored {p : Put} {job : UploadJob} (hlower : LowerKeepsEnd P) (h : Has b R n ups)
    (hintact : Intact P n) (hrequest : Requests b job p) (hbody : content p.body = job.data)
    (hlegal : Legal P n (.put p)) (hstored : (p.run P n.app).1.isFailure = false)
    (hstep : step P n (.put p) = some t)
    (hnew : (b, p.key) ∈ R → ∀ data, (p.key, data) ∉ ups) :
    Has b R t (ups ++ [(p.key, job.data)]) := by
  obtain ⟨c, hmeans, henabled, hview⟩ := refines_step hlower hintact hlegal
  have hchange := means_put hrequest hmeans
  rw [if_neg (by rw [hstored]; exact Bool.false_ne_true), hbody] at hchange
  obtain rfl := hchange
  cases hstep
  intro key hkey v
  rw [hview, reads_add henabled, h key hkey v]
  simp only [List.mem_append, List.mem_singleton]
  constructor
  · intro hreads
    rcases hreads with ⟨hplace, hv⟩ | ⟨_, data, hdata, hv⟩
    · exact ⟨job.data, Or.inr (by rw [(Prod.mk.inj hplace).2]), hv⟩
    · exact ⟨data, Or.inl hdata, hv⟩
  · intro hup
    obtain ⟨data, hold | hadded, hv⟩ := hup
    · refine Or.inr ⟨fun heq => ?_, data, hold, hv⟩
      rw [(Prod.mk.inj heq).2] at hkey hold
      exact hnew hkey data hold
    · obtain ⟨rfl, rfl⟩ := Prod.mk.inj hadded
      exact Or.inl ⟨rfl, hv⟩

/-- No two jobs have one key, but for markers. -/
def Distinct (jobs : List UploadJob) : Prop :=
  jobs.Pairwise fun j j' => ∀ key, normalizeObjectKey j.key = .ok key →
    normalizeObjectKey j'.key = .ok key → baseName key = keepMarker

/-- The keys of a job are not among those that were uploaded. -/
def Fresh (b : Int) (R : Set Place) (ups : List (Text × Bytes)) (job : UploadJob) : Prop :=
  ∀ key, normalizeObjectKey job.key = .ok key → (b, key) ∈ R → ∀ data, (key, data) ∉ ups

theorem fresh_cons {jobs : List UploadJob} {job : UploadJob} {key : Text} {data : Bytes}
    (hR : ∀ k ∈ R, baseName k.2 ≠ keepMarker) (hkey : normalizeObjectKey job.key = .ok key)
    (hdistinct : Distinct (job :: jobs)) (hfresh : ∀ j ∈ job :: jobs, Fresh b R ups j) :
    ∀ j ∈ jobs, Fresh b R (ups ++ [(key, data)]) j := by
  intro j hj key' hkey' hmem data' hup
  rcases List.mem_append.mp hup with hold | hnew
  · exact hfresh j (List.mem_cons_of_mem _ hj) key' hkey' hmem data' hold
  · obtain ⟨rfl, _⟩ := Prod.mk.inj (List.mem_singleton.mp hnew)
    exact hR _ hmem ((List.pairwise_cons.mp hdistinct).1 j hj key' hkey hkey')

/-- After the jobs the places hold what was uploaded before and what was acknowledged. -/
theorem uploading_has {jobs : List UploadJob} (hlower : LowerKeepsEnd P)
    (hR : ∀ k ∈ R, baseName k.2 ≠ keepMarker) (h : Uploading P b R n jobs ups m) :
    ∀ {before : List (Text × Bytes)}, Has b R n before → Intact P n → Distinct jobs →
      (∀ job ∈ jobs, Fresh b R before job) → Has b R m (before ++ ups) := by
  induction h with
  | done n =>
    intro before hhas _ _ _
    rwa [List.append_nil]
  | other op hlegal halone hstep _ ih =>
    intro before hhas hintact hdistinct hfresh
    exact ih (has_other hlower hhas hintact hlegal halone hstep)
      (intact_step hlower hintact hlegal hstep) hdistinct hfresh
  | skipped job _ ih =>
    intro before hhas hintact hdistinct hfresh
    exact ih hhas hintact hdistinct.of_cons fun j hj => hfresh j (List.mem_cons_of_mem _ hj)
  | refused job p hrequest hlegal hfailed hstep _ ih =>
    intro before hhas hintact hdistinct hfresh
    have hnew := hfresh job List.mem_cons_self p.key hrequest.key
    exact ih (has_refused hlower hhas hintact hrequest hlegal hfailed hstep hnew)
      (intact_step hlower hintact hlegal hstep) hdistinct.of_cons
      fun j hj => hfresh j (List.mem_cons_of_mem _ hj)
  | stored job p hrequest hbody hlegal hstored hstep _ ih =>
    intro before hhas hintact hdistinct hfresh
    have hnew := hfresh job List.mem_cons_self p.key hrequest.key
    have hhas' := has_stored hlower hhas hintact hrequest hbody hlegal hstored hstep hnew
    have hall := ih hhas' (intact_step hlower hintact hlegal hstep) hdistinct.of_cons
      (fresh_cons hR hrequest.key hdistinct hfresh)
    rwa [List.append_assoc] at hall

/-- Each acknowledged upload is one of the jobs. -/
theorem uploading_jobs {jobs : List UploadJob} (h : Uploading P b R n jobs ups m) :
    ∀ up ∈ ups, ∃ job ∈ jobs, normalizeObjectKey job.key = .ok up.1 ∧ job.data = up.2 := by
  induction h with
  | done n => exact fun up hup => by cases hup
  | other op _ _ _ _ ih => exact ih
  | skipped job _ ih =>
    intro up hup
    obtain ⟨j, hj, hrest⟩ := ih up hup
    exact ⟨j, List.mem_cons_of_mem _ hj, hrest⟩
  | refused job p _ _ _ _ _ ih =>
    intro up hup
    obtain ⟨j, hj, hrest⟩ := ih up hup
    exact ⟨j, List.mem_cons_of_mem _ hj, hrest⟩
  | stored job p hrequest _ _ _ _ _ ih =>
    intro up hup
    rcases List.mem_cons.mp hup with rfl | hup
    · exact ⟨job, List.mem_cons_self, hrequest.key, rfl⟩
    · obtain ⟨j, hj, hrest⟩ := ih up hup
      exact ⟨j, List.mem_cons_of_mem _ hj, hrest⟩

theorem uploading_length {jobs : List UploadJob} (h : Uploading P b R n jobs ups m) :
    ups.length ≤ jobs.length := by
  induction h with
  | done n => exact le_refl _
  | other op _ _ _ _ ih => exact ih
  | skipped job _ ih => exact ih.trans (Nat.le_succ _)
  | refused job p _ _ _ _ _ ih => exact ih.trans (Nat.le_succ _)
  | stored job p _ _ _ _ _ _ ih => exact Nat.succ_le_succ ih

/-- When there are as many acknowledgements as jobs, each job has been acknowledged. -/
theorem uploading_all {jobs : List UploadJob} (h : Uploading P b R n jobs ups m)
    (hall : ups.length = jobs.length) :
    ∀ job ∈ jobs, ∃ key, normalizeObjectKey job.key = .ok key ∧ (key, job.data) ∈ ups := by
  induction h with
  | done n => exact fun job hjob => by cases hjob
  | other op _ _ _ _ ih => exact ih hall
  | skipped job hrest ih =>
    have hle := uploading_length hrest
    rw [List.length_cons] at hall
    omega
  | refused job p _ _ _ _ hrest ih =>
    have hle := uploading_length hrest
    rw [List.length_cons] at hall
    omega
  | stored job p hrequest _ _ _ _ _ ih =>
    intro j hj
    rcases List.mem_cons.mp hj with rfl | hj
    · exact ⟨p.key, hrequest.key, List.mem_cons_self⟩
    · obtain ⟨key, hkey, hmem⟩ := ih (Nat.succ.inj hall) j hj
      exact ⟨key, hkey, List.mem_cons_of_mem _ hmem⟩

/-- The name of a marker is there after some of the characters before it are trimmed. -/
theorem trimStart_marker {q : Char → Bool} (hdot : q '.' = false) (x : Text) :
    trimStartMatches q (x ++ '/' :: keepMarker) = keepMarker ∨
      ∃ y, trimStartMatches q (x ++ '/' :: keepMarker) = y ++ '/' :: keepMarker := by
  have hkeep : trimStartMatches q keepMarker = keepMarker := by
    refine trimStartMatches_eq_self fun c hc => ?_
    rw [← Option.some.inj hc]
    exact hdot
  induction x with
  | nil =>
    by_cases hslash : q '/' = true
    · left
      rw [List.nil_append, trimStartMatches, List.dropWhile_cons_of_pos hslash]
      exact hkeep
    · right
      refine ⟨[], ?_⟩
      rw [List.nil_append, trimStartMatches, List.dropWhile_cons_of_neg hslash]
  | cons c x ih =>
    by_cases hc : q c = true
    · rw [List.cons_append, trimStartMatches, List.dropWhile_cons_of_pos hc]
      exact ih
    · right
      refine ⟨c :: x, ?_⟩
      rw [List.cons_append, trimStartMatches, List.dropWhile_cons_of_neg hc]

/-- A key that ends in a marker is a marker after it is normalized. -/
theorem baseName_marker {x key : Text}
    (h : normalizeObjectKey (x ++ '/' :: keepMarker) = .ok key) : baseName key = keepMarker := by
  have hend : ∀ y : Text, trimEndMatches isWhitespace (y ++ keepMarker) = y ++ keepMarker := by
    intro y
    refine trimEndMatches_eq_self fun c hc => ?_
    rw [List.getLast?_append_of_ne_nil _ (by decide)] at hc
    rw [← Option.some.inj hc]
    decide
  have hkey : key = trimStartMatches (· == '/') (trim (x ++ '/' :: keepMarker)) := by
    unfold normalizeObjectKey at h
    simp only at h
    split_ifs at h
    exact (Except.ok.inj h).symm
  have hslash := trimStart_marker (q := (· == '/')) (by decide)
  rw [hkey, trim]
  rcases trimStart_marker (q := isWhitespace) (by decide) x with htrim | ⟨y, htrim⟩
  · rw [htrim, ← List.nil_append keepMarker, hend]
    decide
  · rw [htrim, ← List.singleton_append, ← List.append_assoc, hend, List.append_assoc,
      List.singleton_append]
    rcases hslash y with hrest | ⟨z, hrest⟩
    · rw [hrest]
      decide
    · rw [hrest]
      exact baseName_append (by decide)

theorem mem_growDirs {acc dir : Text} {parts : List Text} (h : dir ∈ growDirs acc parts) :
    ∃ x, dir = x ++ ['/'] := by
  induction parts generalizing acc with
  | nil => cases h
  | cons part rest ih =>
    unfold growDirs at h
    split_ifs at h
    · exact ih h
    · rcases List.mem_cons.mp h with rfl | h
      · exact ⟨_, rfl⟩
      · exact ih h

/-- The job of a marker. -/
theorem mem_markerJobs {files : List PickedFile} {pre : Text} {job : UploadJob}
    (h : job ∈ markerJobs files pre) : ∃ x, job.key = x ++ '/' :: keepMarker := by
  obtain ⟨dir, hdir, rfl⟩ := List.mem_map.mp h
  rw [List.mem_insertionSort, List.mem_dedup] at hdir
  obtain ⟨rel, _, hdir⟩ := List.mem_flatMap.mp hdir
  have hgrown : dir ∈ growDirs [] (split '/' rel).dropLast := by
    split_ifs at hdir
    · exact hdir
    · cases hdir
  obtain ⟨x, rfl⟩ := mem_growDirs hgrown
  refine ⟨pre ++ x, ?_⟩
  simp only [List.append_assoc, List.singleton_append]
  rfl

/-- A file that has a job. -/
def Sent (file : PickedFile) : Prop :=
  namesFile (relativeUploadPath file) = true ∧
    (split '/' (relativeUploadPath file)).any isDots = false

theorem mem_fileJobs {files : List PickedFile} {pre : Text} {job : UploadJob} :
    job ∈ fileJobs files pre ↔
      ∃ file ∈ files, Sent file ∧ job = ⟨pre ++ relativeUploadPath file, file.data⟩ := by
  unfold fileJobs
  rw [List.mem_filterMap]
  refine exists_congr fun file => and_congr_right fun _ => ?_
  unfold Sent
  simp only
  split_ifs with hskip
  · simp only [false_iff]
    intro h
    rw [h.1.1, h.1.2] at hskip
    cases hskip
  · simp only [Bool.not_eq_true, Bool.or_eq_false_iff, Bool.not_eq_false'] at hskip
    simp [hskip.1, hskip.2, eq_comm]

/-- An acknowledged upload that is no marker is of a picked file. -/
theorem file_of_upload {files : List PickedFile} {pre : Text}
    (h : Uploading P b R n (enqueueUploads files pre) ups m) {up : Text × Bytes} (hup : up ∈ ups)
    (hbase : baseName up.1 ≠ keepMarker) :
    ∃ file ∈ files, Sent file ∧
      normalizeObjectKey (pre ++ relativeUploadPath file) = .ok up.1 ∧ file.data = up.2 := by
  obtain ⟨job, hjob, hkey, hdata⟩ := uploading_jobs h up hup
  rcases List.mem_append.mp hjob with hmarker | hfile
  · obtain ⟨x, hx⟩ := mem_markerJobs hmarker
    rw [hx] at hkey
    exact absurd (baseName_marker hkey) hbase
  · obtain ⟨file, hmem, hsent, rfl⟩ := mem_fileJobs.mp hfile
    exact ⟨file, hmem, hsent, hkey, hdata⟩

/-- A folder that has markers only. -/
def NoFiles (db : Db) (b : Int) (folder : Text) : Prop :=
  ∀ r, ActiveIn db b r → folder <+: r.originalFilename → baseName r.originalFilename = keepMarker

theorem has_nothing {folder : Text} (h : NoFiles n.app.db b folder) :
    Has b (archivedPlaces b folder) n [] := by
  intro key hkey v
  constructor
  · intro hreads
    obtain ⟨r, hget, _⟩ := reads_iff.mp hreads
    obtain ⟨hr, rfl, hbucket, hactive⟩ := getObjectByFilenameInBucket_eq_some.mp hget
    exact absurd (h r ⟨hr, hactive, hbucket⟩ hkey.2.1) hkey.2.2
  · intro hup
    obtain ⟨data, hdata, _⟩ := hup
    cases hdata

/-- What the archive of a folder has under a name, where its places hold the uploads. -/
theorem archived_iff {folder : Text} (hslash : ∃ f, folder = f ++ ['/'])
    (h : Has b (archivedPlaces b folder) m ups)
    (hvalid : ∀ up ∈ ups, ∃ raw, normalizeObjectKey raw = .ok up.1) (name : Text) (data : Bytes) :
    (∃ path, (name, path) ∈ filterArchiveEntries m.app.config.storageRoot folder
        (listKeysUnderPrefix m.app.db b folder) ∧ m.app.disk path = some data) ↔
      (folder ++ name, data) ∈ ups ∧ baseName (folder ++ name) ≠ keepMarker ∧ '\x00' ∉ name := by
  have hplace : baseName (folder ++ name) ≠ keepMarker →
      (b, folder ++ name) ∈ archivedPlaces b folder :=
    fun hbase => ⟨rfl, List.prefix_append _ _, hbase⟩
  constructor
  · intro harchived
    obtain ⟨path, hentry, hdata⟩ := harchived
    obtain ⟨r, ⟨hr, hactive, hbucket⟩, hname, rfl⟩ := mem_entries.mp hentry
    obtain ⟨hkey, hbase, _, hplain, _⟩ := archiveEntry_eq_some.mp hname
    rw [← hkey] at hbase
    have hreads : Reads (view m.app) (b, folder ++ name) (some data) :=
      reads_iff.mpr ⟨r, getObjectByFilenameInBucket_eq_some.mpr
        ⟨hr, hkey.symm, hbucket, hactive⟩, hdata⟩
    obtain ⟨data', hup, heq⟩ := (h _ (hplace hbase) _).mp hreads
    cases heq
    exact ⟨hup, hbase, hplain⟩
  · intro huploaded
    obtain ⟨hup, hbase, hplain⟩ := huploaded
    obtain ⟨r, hget, hdata⟩ := reads_iff.mp ((h _ (hplace hbase) _).mpr ⟨data, hup, rfl⟩)
    obtain ⟨hr, hkey, hbucket, hactive⟩ := getObjectByFilenameInBucket_eq_some.mp hget
    obtain ⟨raw, hraw⟩ := hvalid _ hup
    obtain ⟨f, rfl⟩ := hslash
    have hsegments := validSegments_iff.mp (validSegments_rest (normalizeObjectKey_valid hraw).2)
    have hne : name ≠ [] := by
      intro hnil
      exact (hsegments [] (by simp [hnil, split])).1 rfl
    refine ⟨_, mem_entries.mpr ⟨r, ⟨hr, hactive, hbucket⟩, ?_, rfl⟩, hdata⟩
    exact archiveEntry_eq_some.mpr
      ⟨hkey.symm, hkey ▸ hbase, hne, hplain, fun seg hseg => (hsegments seg hseg).2⟩

/-- A picked folder with one file. -/
def photos : List PickedFile := [⟨"photos\\a".toList, ['a'], [97]⟩]

def request (i : Nat) (key : Text) (body : List (Option Bytes)) : Put :=
  { upload i with key := key, body := body, bucketId := some 1 }

def markerRequest : Put := request 1 "photos/.keep".toList []

def fileRequest : Put := request 2 "photos/a".toList [some [97]]

/-- While the folder is uploaded, the bucket gets another type of ETag. -/
def meanwhile : Op := .setEtagType 1 .sha256

theorem jobs_photos : enqueueUploads photos [] =
    [⟨"photos/.keep".toList, []⟩, ⟨"photos/a".toList, [97]⟩] := by decide

theorem uploading_photos :
    Uploading platform 1 (archivedPlaces 1 "photos/".toList) node (enqueueUploads photos [])
      [("photos/.keep".toList, []), ("photos/a".toList, [97])]
      (after [.put markerRequest, meanwhile, .put fileRequest]) := by
  have hkeys : normalizeObjectKey "photos/.keep".toList = .ok "photos/.keep".toList ∧
      normalizeObjectKey "photos/a".toList = .ok "photos/a".toList := by decide
  rw [jobs_photos]
  refine .stored _ markerRequest ⟨hkeys.1, rfl⟩ rfl ⟨⟨_, hkeys.1⟩, fun r hr => by cases hr⟩ rfl rfl ?_
  refine .other meanwhile trivial (fun c hc => ?_) rfl ?_
  · cases hc
    trivial
  · refine .stored _ fileRequest ⟨hkeys.2, rfl⟩ rfl ⟨⟨_, hkeys.2⟩, fun r hr => ?_⟩ rfl rfl (.done _)
    rw [List.mem_singleton.mp hr]
    decide

end MyS3.FolderUploads
