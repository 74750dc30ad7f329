import MyS3.Keys
import MyS3.Reconcile

/-!
Blobs of object rows. A row that the upload routes made names its blob by a UUID and the
extension of a normalized key, so its filepath ends in no white space and reconcile reads
it as it stands: a file that no row names is the blob of none.
-/

namespace MyS3.Blobs

open Library.Strings Library.Paths
open Models Objects Database Engine Http Keys UploadRuns Reconcile

def EndsPlain (t : Text) : Prop := ∃ c, t.getLast? = some c ∧ isWhitespace c = false

/-- Lower case turns no last character into white space. -/
def LowerKeepsEnd (P : Platform) : Prop := ∀ t, EndsPlain t → EndsPlain (P.toLowercase t)

/-- A filepath that the engine makes up for a key that a route normalized. -/
def StoredName (P : Platform) (filepath : Text) : Prop :=
  ∃ uuid raw key, normalizeObjectKey raw = .ok key ∧
    filepath = (Target.fresh uuid).filepath P key

def blobOf (s : AppState) (r : ObjectRecord) : Option Bytes :=
  openRead s.config.storageRoot s.disk r.filepath

/-- The blob of a row is there, with the recorded length and ETag. -/
def HasBlob (P : Platform) (s : AppState) (r : ObjectRecord) : Prop :=
  ∃ data, blobOf s r = some data ∧ (data.length : Int) = r.filesizeBytes ∧
    P.digest r.etagType data = r.etag

theorem hasBlob_congr {P : Platform} {s s' : AppState} {r r' : ObjectRecord}
    (h : HasBlob P s r) (hfile : r'.filepath = r.filepath)
    (hsize : r'.filesizeBytes = r.filesizeBytes) (htype : r'.etagType = r.etagType)
    (hetag : r'.etag = r.etag) (hdisk : blobOf s' r = blobOf s r) : HasBlob P s' r' := by
  obtain ⟨data, hdata, hlen, hdigest⟩ := h
  refine ⟨data, ?_, by rw [hsize]; exact hlen, by rw [htype, hetag]; exact hdigest⟩
  unfold blobOf at hdata hdisk ⊢
  rw [hfile, hdisk]
  exact hdata

theorem StoredName.isBlobName {P : Platform} {f : Text} (h : StoredName P f) :
    IsBlobName P f := by
  obtain ⟨uuid, _, key, _, rfl⟩ := h
  exact ⟨uuid, key, rfl⟩

theorem endsPlain_append {a b : Text} (hb : b ≠ []) : EndsPlain (a ++ b) ↔ EndsPlain b := by
  unfold EndsPlain
  rw [List.getLast?_append_of_ne_nil _ hb]

theorem endsPlain_trim {t : Text} (h : trim t ≠ []) : EndsPlain (trim t) := by
  refine ⟨(trim t).getLast h, List.getLast?_eq_some_getLast h, ?_⟩
  have hc := List.getLast?_eq_some_getLast h
  unfold trim trimEndMatches at hc
  rw [List.getLast?_reverse] at hc
  have hhead := List.head?_dropWhile_not isWhitespace
    (trimStartMatches isWhitespace t).reverse
  rw [hc] at hhead
  exact hhead

/-- A normalized key ends in no white space. -/
theorem endsPlain_key {raw key : Text} (h : normalizeObjectKey raw = .ok key) :
    EndsPlain key := by
  unfold normalizeObjectKey at h
  simp only at h
  split_ifs at h with hempty hvalid
  cases h
  have hsplit := List.takeWhile_append_dropWhile (p := (· == '/')) (l := trim raw)
  have hne : trim raw ≠ [] := by
    intro hnil
    rw [hnil] at hempty
    exact hempty rfl
  have htrim := endsPlain_trim hne
  rw [← hsplit] at htrim
  exact (endsPlain_append hempty).mp htrim

theorem intercalate_last (sep : Text) {last : Text} {l : List Text} (h : l.getLast? = some last) :
    last <:+ sep.intercalate l := by
  induction l with
  | nil => cases h
  | cons a rest ih =>
    cases rest with
    | nil =>
      simp only [List.getLast?_singleton, Option.some.injEq] at h
      rw [h, List.intercalate_singleton]
    | cons b rest =>
      rw [List.intercalate_cons_cons]
      rw [List.getLast?_cons_cons] at h
      exact List.suffix_append_of_suffix (ih h)

/-- The last segment of a text is an end of it. -/
theorem last_split {c : Char} {t last : Text} (h : (split c t).getLast? = some last) :
    last <:+ t := by
  have hlast := intercalate_last [c] h
  rwa [split, List.intercalate_splitOn] at hlast

theorem endsPlain_of_suffix {t u : Text} (h : EndsPlain t) (hu : u <:+ t) (hne : u ≠ []) :
    EndsPlain u := by
  obtain ⟨before, rfl⟩ := hu
  exact (endsPlain_append hne).mp h

/-- The file name of a normalized key is its last segment. -/
theorem fileName_key {raw key : Text} (h : normalizeObjectKey raw = .ok key) :
    ∃ name, fileName key = some name ∧ EndsPlain name := by
  obtain ⟨_, hvalid⟩ := normalizeObjectKey_valid h
  have hvalid : ∀ s ∈ split '/' key, s ≠ [] ∧ s ≠ ['.'] ∧ s ≠ ['.', '.'] := by
    simpa [validSegments, and_assoc] using hvalid
  have hne : split '/' key ≠ [] := List.splitOn_ne_nil _ _
  have hlast := List.getLast?_eq_some_getLast hne
  obtain ⟨hnonempty, hdot, hdots⟩ := hvalid _ (List.getLast_mem hne)
  refine ⟨(split '/' key).getLast hne, ?_, ?_⟩
  · have hall : (split '/' key).filter (fun s => s ≠ [] && s ≠ ['.']) = split '/' key := by
      rw [List.filter_eq_self]
      intro s hs
      obtain ⟨hs1, hs2, _⟩ := hvalid s hs
      simp [hs1, hs2]
    unfold fileName
    rw [hall, hlast, Option.filter_some, if_pos (by simpa using hdots)]
  · exact endsPlain_of_suffix (endsPlain_key h) (last_split hlast) hnonempty

theorem extension_suffix {name ext : Text} (h : extension name = some ext) : ext <:+ name := by
  obtain ⟨parts, hparts, hsome⟩ := Option.bind_eq_some_iff.mp h
  split_ifs at hsome
  rw [← Option.some.inj hsome]
  unfold rsplitOnce at hparts
  split_ifs at hparts with hfound
  rw [← Option.some.inj hparts]
  refine ⟨(name.reverse.dropWhile (· != '.')).reverse, ?_⟩
  rw [← List.reverse_append, List.takeWhile_append_dropWhile, List.reverse_reverse]

/-- The extension of an upload ends in no white space. -/
theorem endsPlain_extension {P : Platform} (hlower : LowerKeepsEnd P) {raw key : Text}
    (h : normalizeObjectKey raw = .ok key) : EndsPlain (extensionFromFilename P key) := by
  obtain ⟨name, hname, hend⟩ := fileName_key h
  unfold extensionFromFilename
  apply hlower
  rw [hname, Option.bind_some]
  cases hext : (extension name).filter (· ≠ []) with
  | none => exact ⟨'n', rfl, by decide⟩
  | some ext =>
    rw [Option.filter_eq_some_iff] at hext
    exact endsPlain_of_suffix hend (extension_suffix hext.1) (by simpa using hext.2)

theorem trimDotSlash_of_head {c : Char} {t : Text} (h : c ≠ '.') :
    trimDotSlash (c :: t) = c :: t := by
  unfold trimDotSlash
  split
  · rename_i heq
    exact absurd (List.cons.inj heq).1 h
  · rfl

/-- Reconcile reads a filepath under the objects directory as it stands, if it does not end in
white space. -/
theorem normalizeObjectRel_object {rest : Text}
    (h : ∀ c, rest.getLast? = some c → isWhitespace c = false) :
    normalizeObjectRel (objectsPrefix ++ rest) = objectsPrefix ++ rest := by
  have hform : objectsPrefix ++ rest = 'o' :: ("bjects/".toList ++ rest) := rfl
  have htrim : trim (objectsPrefix ++ rest) = objectsPrefix ++ rest := by
    apply trim_eq_self
    · intro c hc
      rw [hform] at hc
      rw [← Option.some.inj hc]
      decide
    · intro c hc
      rw [List.getLast?_append] at hc
      cases hlast : rest.getLast? with
      | none =>
        rw [hlast] at hc
        rw [← Option.some.inj hc]
        decide
      | some d =>
        rw [hlast] at hc
        rw [← Option.some.inj hc]
        exact h d hlast
  unfold normalizeObjectRel
  simp only [htrim]
  rw [hform, trimDotSlash_of_head (by decide)]
  have hstrip : stripPrefix objectsPrefix ('o' :: ("bjects/".toList ++ rest)) = some rest :=
    stripPrefix_eq_some.mpr rfl
  rw [hstrip]
  rfl

/-- Reconcile reads the filepath of an upload as it stands. -/
theorem normalizeObjectRel_stored {P : Platform} (hlower : LowerKeepsEnd P) {f : Text}
    (h : StoredName P f) : normalizeObjectRel f = f := by
  obtain ⟨uuid, raw, key, hkey, rfl⟩ := h
  obtain ⟨d, hd, hplain⟩ := endsPlain_extension hlower hkey
  simp only [Target.filepath]
  have hform : ∃ rest, relativeFilepath uuid (extensionFromFilename P key) =
      objectsPrefix ++ rest ∧ rest.getLast? = some d := by
    refine ⟨uuid.text ++ '.' :: extensionFromFilename P key, by simp [relativeFilepath]; rfl, ?_⟩
    rw [List.getLast?_append_of_ne_nil _ (List.cons_ne_nil _ _), List.getLast?_cons, hd]
    rfl
  obtain ⟨rest, hrest, hlast⟩ := hform
  rw [hrest]
  apply normalizeObjectRel_object
  intro c hc
  rw [hlast] at hc
  rw [← Option.some.inj hc]
  exact hplain

theorem objectsPrefix_append (t : Text) : objectsPrefix ++ t = objectsDir ++ '/' :: t := by
  rw [show objectsPrefix = objectsDir ++ ['/'] by decide, List.append_assoc, List.singleton_append]

/-- Where reconcile finds a file of the objects directory. -/
theorem absolutePathFor_object {name : Text} (hname : PlainName name) (root : Path) :
    absolutePathFor root (objectsPrefix ++ name) = root ++ [objectsDir, name] := by
  have hslash : '/' ∈ objectsDir ++ '/' :: name := by simp
  rw [objectsPrefix_append]
  simp only [absolutePathFor, hslash, decide_true, Bool.or_true, if_true]
  exact join_plain (by decide) hname root

/-- A plain file of the objects directory that is not the one a filepath names. -/
theorem orphan_path_ne {P : Platform} {root : Path} {f name : Text} (h : IsBlobName P f)
    (hname : PlainName name) (hne : objectsPrefix ++ name ≠ f) :
    absolutePathFor root f ≠ absolutePathFor root (objectsPrefix ++ name) := by
  obtain ⟨uuid, key, rfl⟩ := h
  rw [absolutePathFor_object hname, absolutePathFor_fresh]
  intro heq
  apply hne
  have hcons := List.append_cancel_left heq
  simp only [List.cons.injEq, and_true, true_and] at hcons
  rw [← hcons, objectsPrefix_append]
  rfl

/-- The orphans of a listing are files of the objects directory. -/
theorem orphan_listed {s : AppState} {names : List Text} (hnames : ListsObjects s names)
    {dbFiles : List DbObjectFile} {rel : Text}
    (h : rel ∈ (classify dbFiles (listDiskObjectFiles names)).orphans) :
    (∃ name, PlainName name ∧ rel = objectsPrefix ++ name) ∧
      (s.disk (absolutePathFor s.config.storageRoot rel)).isSome = true := by
  obtain ⟨name, hname, _, rfl⟩ := mem_listDiskObjectFiles.mp (mem_orphans.mp h).1
  obtain ⟨hplain, hdisk⟩ := (hnames.2 name).mp hname
  refine ⟨⟨name, hplain, rfl⟩, ?_⟩
  rw [absolutePathFor_object hplain]
  exact hdisk

/-- The only blob of the node. -/
theorem listsObjects_single {P : Platform} {s : AppState} (uuid : Uuid) (key : Text)
    (data : Bytes)
    (hdisk : s.disk = setFile (fun _ => none) (absolutePathFor s.config.storageRoot
      ((Target.fresh uuid).filepath P key)) (some data)) :
    ListsObjects s [uuid.text ++ '.' :: extensionFromFilename P key] := by
  refine ⟨List.nodup_singleton _, fun name => ?_⟩
  rw [List.mem_singleton, hdisk, absolutePathFor_fresh]
  constructor
  · intro hname
    subst hname
    exact ⟨uuid_name_plain uuid (extension_slash P key), by rw [setFile_same]; rfl⟩
  · intro h
    by_contra hne
    rw [setFile_other _ (by simpa using hne)] at h
    cases h.2

/-- A row that was listed names no orphan. -/
theorem orphan_unnamed {P : Platform} (hlower : LowerKeepsEnd P) {dbFiles : List DbObjectFile}
    {disk : List Text} {rel : Text} (h : rel ∈ (classify dbFiles disk).orphans)
    {r : ObjectRecord} (hstored : StoredName P r.filepath)
    (hlisted : ∃ f ∈ dbFiles, f.filepath = normalizeObjectRel r.filepath) : r.filepath ≠ rel := by
  intro heq
  obtain ⟨f, hf, hpath⟩ := hlisted
  apply (mem_orphans.mp h).2 f hf
  rw [hpath, normalizeObjectRel_stored hlower hstored, heq]

theorem toLower_plain {c : Char} (h : isWhitespace c = false) :
    isWhitespace c.toLower = false := by
  unfold Char.toLower
  split
  · rename_i hc
    have h1 := UInt32.le_iff_toNat_le.mp hc.1
    have h2 := UInt32.le_iff_toNat_le.mp hc.2
    simp only [isWhitespace, Char.toNat, UInt32.toNat_add]
    simp at h1 h2 ⊢
    omega
  · exact h

theorem lowerKeepsEnd_tabulated (digests : List ((EtagType × Bytes) × Text)) :
    LowerKeepsEnd (Platform.tabulated digests) := by
  intro t ht
  obtain ⟨c, hc, hplain⟩ := ht
  refine ⟨c.toLower, ?_, toLower_plain hplain⟩
  rw [show (Platform.tabulated digests).toLowercase t = t.map Char.toLower from rfl,
    List.getLast?_map, hc]
  rfl

theorem lowerKeepsEnd_sample : LowerKeepsEnd Platform.sample := lowerKeepsEnd_tabulated _

end MyS3.Blobs
