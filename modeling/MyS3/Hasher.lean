import MyS3.GrpcClient
import MyS3.Library.Encodings
import MyS3.Library.StreamHashes

/-!
The streaming hasher of `storage/hasher.rs` and the loops of `storage/engine.rs` and
`cluster/grpc_client.rs` that feed it: a put of chunks, a put of a reader, the hash of a blob,
and the payloads of a replication. Seven ETag types share six hashers; a hasher of the wrong
kind would panic. However the bytes are cut, all of them come to the ETag of the whole.
-/

namespace MyS3.Hasher

open Library.Strings Library.Paths Library.Encodings Library.StreamHashes
open Models Engine GrpcServer GrpcClient

/-- What a BLAKE3 hasher puts out: its hash, and the first bytes of its extended output. -/
structure Blake3Output where
  hash : Bytes
  fill : Nat → Bytes

/-- The hash functions of the libraries. -/
structure HashLibraries where
  md5 : StreamHash Bytes
  sha256 : StreamHash Bytes
  sha512 : StreamHash Bytes
  blake2_128 : StreamHash Bytes
  blake2_256 : StreamHash Bytes
  blake3 : StreamHash Blake3Output

inductive HasherInner (L : HashLibraries)
  | md5 (h : L.md5.State)
  | sha256 (h : L.sha256.State)
  | sha512 (h : L.sha512.State)
  | blake2_128 (h : L.blake2_128.State)
  | blake2_256 (h : L.blake2_256.State)
  | blake3 (h : L.blake3.State)

structure StreamingHasher (L : HashLibraries) where
  etagType : EtagType
  inner : HasherInner L

namespace StreamingHasher

variable (L : HashLibraries)

def new (etagType : EtagType) : StreamingHasher L where
  etagType := etagType
  inner :=
    match etagType with
    | .md5 => .md5 L.md5.new
    | .sha256 => .sha256 L.sha256.new
    | .sha512 => .sha512 L.sha512.new
    | .blake2_128 => .blake2_128 L.blake2_128.new
    | .blake2_256 => .blake2_256 L.blake2_256.new
    | .blake3_128 | .blake3_256 => .blake3 L.blake3.new

variable {L}

def update (s : StreamingHasher L) (data : Bytes) : StreamingHasher L :=
  { s with
    inner :=
      match s.inner with
      | .md5 h => .md5 (L.md5.update h data)
      | .sha256 h => .sha256 (L.sha256.update h data)
      | .sha512 h => .sha512 (L.sha512.update h data)
      | .blake2_128 h => .blake2_128 (L.blake2_128.update h data)
      | .blake2_256 h => .blake2_256 (L.blake2_256.update h data)
      | .blake3 h => .blake3 (L.blake3.update h data) }

/-- `none` is the panic of a hasher that does not belong to the type. -/
def finalize (s : StreamingHasher L) : Option Text :=
  match s.etagType, s.inner with
  | .md5, .md5 h => some (hexEncode (L.md5.finalize h))
  | .sha256, .sha256 h => some (hexEncode (L.sha256.finalize h))
  | .sha512, .sha512 h => some (hexEncode (L.sha512.finalize h))
  | .blake2_128, .blake2_128 h => some (hexEncode (L.blake2_128.finalize h))
  | .blake2_256, .blake2_256 h => some (hexEncode (L.blake2_256.finalize h))
  | .blake3_128, .blake3 h => some (hexEncode ((L.blake3.finalize h).fill 16))
  | .blake3_256, .blake3 h => some (hexEncode (L.blake3.finalize h).hash)
  | _, _ => none

end StreamingHasher

def digestHex (L : HashLibraries) (etagType : EtagType) (data : Bytes) : Option Text :=
  ((StreamingHasher.new L etagType).update data).finalize

/-- A hasher of a type, of the kind that belongs to it, after some input. -/
inductive Fed (L : HashLibraries) : EtagType → StreamingHasher L → Bytes → Prop
  | md5 {s data} (h : L.md5.Fed s data) : Fed L .md5 ⟨.md5, .md5 s⟩ data
  | sha256 {s data} (h : L.sha256.Fed s data) : Fed L .sha256 ⟨.sha256, .sha256 s⟩ data
  | sha512 {s data} (h : L.sha512.Fed s data) : Fed L .sha512 ⟨.sha512, .sha512 s⟩ data
  | blake2_128 {s data} (h : L.blake2_128.Fed s data) :
      Fed L .blake2_128 ⟨.blake2_128, .blake2_128 s⟩ data
  | blake2_256 {s data} (h : L.blake2_256.Fed s data) :
      Fed L .blake2_256 ⟨.blake2_256, .blake2_256 s⟩ data
  | blake3_128 {s data} (h : L.blake3.Fed s data) : Fed L .blake3_128 ⟨.blake3_128, .blake3 s⟩ data
  | blake3_256 {s data} (h : L.blake3.Fed s data) : Fed L .blake3_256 ⟨.blake3_256, .blake3 s⟩ data

section fed

variable {L : HashLibraries} {e : EtagType} {s : StreamingHasher L} {data : Bytes}

theorem fed_new (L : HashLibraries) (e : EtagType) : Fed L e (.new L e) [] := by
  cases e with
  | md5 => exact .md5 L.md5.fed_new
  | sha256 => exact .sha256 L.sha256.fed_new
  | sha512 => exact .sha512 L.sha512.fed_new
  | blake2_128 => exact .blake2_128 L.blake2_128.fed_new
  | blake2_256 => exact .blake2_256 L.blake2_256.fed_new
  | blake3_128 => exact .blake3_128 L.blake3.fed_new
  | blake3_256 => exact .blake3_256 L.blake3.fed_new

theorem Fed.update (h : Fed L e s data) (part : Bytes) :
    Fed L e (s.update part) (data ++ part) := by
  cases h with
  | md5 h => exact .md5 (h.update part)
  | sha256 h => exact .sha256 (h.update part)
  | sha512 h => exact .sha512 (h.update part)
  | blake2_128 h => exact .blake2_128 (h.update part)
  | blake2_256 h => exact .blake2_256 (h.update part)
  | blake3_128 h => exact .blake3_128 (h.update part)
  | blake3_256 h => exact .blake3_256 (h.update part)

/-- The ETag of an input. -/
def etagOf (L : HashLibraries) (e : EtagType) (data : Bytes) : Text :=
  hexEncode <| match e with
    | .md5 => L.md5.hash data
    | .sha256 => L.sha256.hash data
    | .sha512 => L.sha512.hash data
    | .blake2_128 => L.blake2_128.hash data
    | .blake2_256 => L.blake2_256.hash data
    | .blake3_128 => (L.blake3.hash data).fill 16
    | .blake3_256 => (L.blake3.hash data).hash

/-- A hasher that was made for its type does not panic. -/
theorem Fed.finalize (h : Fed L e s data) : s.finalize = some (etagOf L e data) := by
  cases h with
  | md5 h => exact congrArg (some ∘ hexEncode) h.finalize
  | sha256 h => exact congrArg (some ∘ hexEncode) h.finalize
  | sha512 h => exact congrArg (some ∘ hexEncode) h.finalize
  | blake2_128 h => exact congrArg (some ∘ hexEncode) h.finalize
  | blake2_256 h => exact congrArg (some ∘ hexEncode) h.finalize
  | blake3_128 h => exact congrArg (fun out => some (hexEncode (out.fill 16))) h.finalize
  | blake3_256 h => exact congrArg (fun out => some (hexEncode out.hash)) h.finalize

theorem digestHex_eq (L : HashLibraries) (e : EtagType) (data : Bytes) :
    digestHex L e data = some (etagOf L e data) :=
  ((fed_new L e).update data).finalize

end fed

/-- A put while it copies: the file, the hasher and the count of the bytes so far. -/
structure Progress (L : HashLibraries) where
  written : Bytes
  hasher : StreamingHasher L
  total : Int

def Progress.start (L : HashLibraries) (e : EtagType) : Progress L := ⟨[], .new L e, 0⟩

def Progress.add {L : HashLibraries} (p : Progress L) (chunk : Bytes) : Progress L :=
  ⟨p.written ++ chunk, p.hasher.update chunk, p.total + chunk.length⟩

/-- The loop of a put over the items of its stream; `none` in the stream is an error. -/
def copyChunks {L : HashLibraries} :
    List (Option Bytes) → Option (Nat × Nat) → Progress L → Progress L × Option EngineError
  | [], _, p => (p, none)
  | none :: _, _, p => (p, some .stream)
  | some chunk :: _, some (0, n), p =>
    ({ p with written := p.written ++ chunk.take n }, some .write)
  | some chunk :: rest, some (i + 1, n), p => copyChunks rest (some (i, n)) (p.add chunk)
  | some chunk :: rest, none, p => copyChunks rest none (p.add chunk)

/-- The end of a put, once its loop is over. -/
def finishPut {L : HashLibraries} (P : Platform) (root : Path) (disk : Disk) (filename : Text)
    (e : EtagType) (expectedEtag : Option Text) (target : Target) (io : IoFaults)
    (copied : Progress L × Option EngineError) :
    Option (Except EngineError StoredObject × Disk) :=
  let filepath := target.filepath P filename
  let path := absolutePathFor root filepath
  let written := setFile disk path (some copied.1.written)
  match copied.2 with
  | some err => some (.error err, written)
  | none =>
    if io.flush then some (.error .flush, written)
    else
      copied.1.hasher.finalize.map fun etag =>
        match expectedEtag.filter (· ≠ etag) with
        | some expected =>
          (.error (.etagMismatch expected etag),
            if io.unlink then written else setFile written path none)
        | none =>
          (.ok { filepath := filepath, fileFormat := extensionFromFilename P filename
                 filesizeBytes := copied.1.total, etag := etag, etagType := e }, written)

/-- `put_chunks` with the hasher that it feeds; `none` is a panic. -/
def putChunksHashing (L : HashLibraries) (P : Platform) (root : Path) (disk : Disk)
    (stream : List (Option Bytes)) (filename : Text) (e : EtagType) (expectedEtag : Option Text)
    (target : Target) (io : IoFaults) : Option (Except EngineError StoredObject × Disk) :=
  if io.createDir then some (.error .createDir, disk)
  else if io.createFile then some (.error .createFile, disk)
  else
    finishPut P root disk filename e expectedEtag target io
      (copyChunks stream io.write (.start L e))

/-- The reads of a loop that ends with the first read of nothing; `none` is a read error. -/
def untilEnd (reads : List (Option Bytes)) : List (Option Bytes) :=
  reads.takeWhile (· ≠ some [])

def putStream (L : HashLibraries) (P : Platform) (root : Path) (disk : Disk)
    (reads : List (Option Bytes)) (filename : Text) (e : EtagType) (uuid : Uuid) (io : IoFaults) :
    Option (Except EngineError StoredObject × Disk) :=
  if io.createDir then some (.error .createDir, disk)
  else if io.createFile then some (.error .createFile, disk)
  else
    finishPut P root disk filename e none (.fresh uuid) io
      (copyChunks (untilEnd reads) io.write (.start L e))

/-- The size of the buffers that files and readers are read into. -/
def bufferSize : Nat := 64 * 1024

/-- What the reads of some bytes return, before the one that returns nothing: each at least
a byte, and at most a buffer. -/
structure Reading (data : Bytes) where
  reads : List Bytes
  nonempty : ∀ r ∈ reads, r ≠ []
  fits : ∀ r ∈ reads, r.length ≤ bufferSize
  whole : reads.flatten = data

def Reading.results {data : Bytes} (r : Reading data) : List (Option Bytes) :=
  r.reads.map some ++ [some []]

/-- The loop of `hash_filepath`; `none` is a read error. -/
def hashReads {L : HashLibraries} :
    List (Option Bytes) → StreamingHasher L → Option (StreamingHasher L)
  | [], s => some s
  | none :: _, _ => none
  | some chunk :: rest, s => hashReads rest (s.update chunk)

/-- `hash_filepath`; `none` is a file that cannot be opened or read. -/
def hashFilepath (L : HashLibraries) (reading : (data : Bytes) → Reading data) (root : Path)
    (disk : Disk) (filepath : Text) (e : EtagType) : Option Text :=
  (openRead root disk filepath).bind fun data =>
    (hashReads (untilEnd (reading data).results) (.new L e)).bind (·.finalize)

/-- The payloads that `replicate_put` sends of a file. -/
def payloadsOf (reading : (data : Bytes) → Reading data) (data : Bytes) : List Bytes :=
  (reading data).reads

theorem mem_chunksOf {α : Type} {n fuel : Nat} (hn : 0 < n) {l c : List α}
    (h : c ∈ chunksOf n fuel l) : c ≠ [] ∧ c.length ≤ n := by
  induction fuel generalizing l with
  | zero => simp [chunksOf] at h
  | succ fuel ih =>
    cases l with
    | nil => simp [chunksOf] at h
    | cons a rest =>
      rw [chunksOf, List.mem_cons] at h
      · rcases h with rfl | h
        · refine ⟨?_, List.length_take_le _ _⟩
          simp only [ne_eq, List.take_eq_nil_iff, reduceCtorEq, or_false]
          omega
        · exact ih h
      · simp

/-- Reads that fill the buffer until the end. -/
def fullReads (data : Bytes) : Reading data where
  reads := filePayloads (some data)
  nonempty _ h := (mem_chunksOf (by decide) h).1
  fits _ h := (mem_chunksOf (by decide) h).2
  whole := flatten_filePayloads (some data)

/-- The payloads that `GrpcClient` sends are those of full reads. -/
theorem payloadsOf_fullReads (data : Bytes) :
    payloadsOf fullReads data = filePayloads (some data) := rfl

/-- A put has copied some bytes. -/
structure Copied (L : HashLibraries) (e : EtagType) (p : Progress L) (data : Bytes) : Prop where
  written : p.written = data
  hasher : Fed L e p.hasher data
  total : p.total = data.length

section puts

variable {L : HashLibraries} {e : EtagType}

theorem copied_start (L : HashLibraries) (e : EtagType) : Copied L e (.start L e) [] :=
  ⟨rfl, fed_new L e, rfl⟩

theorem Copied.add {p : Progress L} {data : Bytes} (h : Copied L e p data) (chunk : Bytes) :
    Copied L e (p.add chunk) (data ++ chunk) where
  written := congrArg (· ++ chunk) h.written
  hasher := h.hasher.update chunk
  total := by
    have htotal := h.total
    simp only [Progress.add, List.length_append]
    omega

/-- The loop writes what the loop without a hasher writes, and ends as it does. -/
theorem copyChunks_eq (stream : List (Option Bytes)) (fault : Option (Nat × Nat))
    {p : Progress L} {data : Bytes} (h : Copied L e p data) :
    ((copyChunks stream fault p).1.written, (copyChunks stream fault p).2) =
        writeChunks stream fault data ∧
      ((copyChunks stream fault p).2 = none →
        Copied L e (copyChunks stream fault p).1 (copyChunks stream fault p).1.written) := by
  induction stream generalizing fault p data with
  | nil =>
    refine ⟨Prod.ext h.written rfl, fun _ => ?_⟩
    change Copied L e p p.written
    rw [h.written]
    exact h
  | cons item rest ih =>
    cases item with
    | none => exact ⟨Prod.ext h.written rfl, fun hnone => by cases hnone⟩
    | some chunk =>
      rcases fault with _ | ⟨_ | i, n⟩
      · exact ih none (h.add chunk)
      · exact ⟨Prod.ext (congrArg (· ++ chunk.take n) h.written) rfl, fun hnone => by cases hnone⟩
      · exact ih (some (i, n)) (h.add chunk)

/-- The platform whose digests are those of the hashers. -/
def hashingPlatform (L : HashLibraries) (P : Platform) : Platform := { P with digest := etagOf L }

/-- The put that feeds a hasher is the put that hashes the whole content at its end. -/
theorem putChunksHashing_eq (P : Platform) (root : Path) (disk : Disk)
    (stream : List (Option Bytes)) (filename : Text) (expectedEtag : Option Text)
    (target : Target) (io : IoFaults) :
    putChunksHashing L P root disk stream filename e expectedEtag target io =
      some (putChunks (hashingPlatform L P) root disk stream filename e expectedEtag target
        io) := by
  obtain ⟨hloop, hcopied⟩ := copyChunks_eq stream io.write (copied_start L e)
  unfold putChunksHashing putChunks
  by_cases hdir : io.createDir = true
  · rw [if_pos hdir, if_pos hdir]
  by_cases hfile : io.createFile = true
  · rw [if_neg hdir, if_neg hdir, if_pos hfile, if_pos hfile]
  rw [if_neg hdir, if_neg hdir, if_neg hfile, if_neg hfile]
  simp only [← hloop]
  rcases hcopy : copyChunks stream io.write (.start L e) with ⟨p, failed⟩
  rw [hcopy] at hcopied
  unfold finishPut
  cases failed with
  | some err => rfl
  | none =>
    have hdone := hcopied rfl
    have htotal : p.total = p.written.length := hdone.total
    simp only [hdone.hasher.finalize, htotal, Option.map_some]
    by_cases hflush : io.flush = true
    · rw [if_pos hflush, if_pos hflush]
      rfl
    · rw [if_neg hflush, if_neg hflush]
      rfl

/-- A put of a reader is the put of its reads. -/
theorem putStream_eq (P : Platform) (root : Path) (disk : Disk) (reads : List (Option Bytes))
    (filename : Text) (uuid : Uuid) (io : IoFaults) :
    putStream L P root disk reads filename e uuid io =
      putChunksHashing L P root disk (untilEnd reads) filename e none (.fresh uuid) io := rfl

theorem untilEnd_results {data : Bytes} (r : Reading data) :
    untilEnd r.results = r.reads.map some := by
  have hkeep : ∀ item ∈ r.reads.map some, (item ≠ some []) := by
    intro item hitem
    obtain ⟨read, hread, rfl⟩ := List.mem_map.mp hitem
    exact fun heq => r.nonempty read hread (Option.some.inj heq)
  unfold untilEnd Reading.results
  rw [List.takeWhile_append_of_pos (by simpa using hkeep)]
  simp

theorem hashReads_fed {s : StreamingHasher L} {data : Bytes} (h : Fed L e s data)
    (reads : List Bytes) :
    (hashReads (reads.map some) s).bind (·.finalize) =
      some (etagOf L e (data ++ reads.flatten)) := by
  induction reads generalizing s data with
  | nil =>
    rw [List.flatten_nil, List.append_nil]
    exact h.finalize
  | cons read rest ih =>
    have hrest := ih (h.update read)
    rw [List.append_assoc] at hrest
    exact hrest

/-- The hash of a blob does not depend on how it is read. -/
theorem hashFilepath_eq (reading : (data : Bytes) → Reading data) {root : Path} {disk : Disk}
    {filepath : Text} {data : Bytes} (h : openRead root disk filepath = some data) :
    hashFilepath L reading root disk filepath e = some (etagOf L e data) := by
  unfold hashFilepath
  rw [h, Option.bind_some, untilEnd_results, hashReads_fed (fed_new L e), List.nil_append,
    (reading data).whole]

/-- A put of chunks without failures, whose expected ETag is the right one if there is one. -/
theorem putChunksHashing_clean (P : Platform) (root : Path) (disk : Disk) (chunks : List Bytes)
    (filename : Text) {expectedEtag : Option Text} (target : Target)
    (h : ∀ etag, expectedEtag = some etag → etag = etagOf L e chunks.flatten) :
    putChunksHashing L P root disk (chunks.map some) filename e expectedEtag target {} =
      some (.ok { filepath := target.filepath P filename
                  fileFormat := extensionFromFilename P filename
                  filesizeBytes := chunks.flatten.length
                  etag := etagOf L e chunks.flatten, etagType := e },
        setFile disk (absolutePathFor root (target.filepath P filename)) (some chunks.flatten)) := by
  have hexpected :
      expectedEtag.filter (fun etag => etag ≠ etagOf L e chunks.flatten) = none := by
    cases expectedEtag with
    | none => rfl
    | some etag => simp [h etag rfl]
  rw [putChunksHashing_eq]
  unfold putChunks
  simp only [Bool.false_eq_true, if_false, writeChunks_of_complete, List.nil_append]
  change some (match expectedEtag.filter (fun etag => etag ≠ etagOf L e chunks.flatten) with
    | some expected => _
    | none => _) = _
  rw [hexpected]
  rfl

end puts

/-- The ETag of a byte string and what a put of it stores. -/
def storedAs (P : Platform) (L : HashLibraries) (e : EtagType) (filename : Text) (target : Target)
    (data : Bytes) : StoredObject where
  filepath := target.filepath P filename
  fileFormat := extensionFromFilename P filename
  filesizeBytes := data.length
  etag := etagOf L e data
  etagType := e

/-- For every byte string and ETag type, however the bytes are cut into chunks or reads: a put
of chunks and a put of a reader write the bytes, report their length and the ETag that the
hash of the whole string and the hash of the blob have, and a receiver that is fed the
payloads of a replication accepts the ETag of the sender. -/
theorem etag_of_any_chunks (L : HashLibraries) (P : Platform) (root : Path) (disk : Disk)
    (e : EtagType) (data : Bytes) (filename : Text) :
    digestHex L e data = some (etagOf L e data) ∧
    (∀ (chunks : List Bytes) (target : Target), chunks.flatten = data →
      putChunksHashing L P root disk (chunks.map some) filename e none target {} =
        some (.ok (storedAs P L e filename target data),
          setFile disk (absolutePathFor root (target.filepath P filename)) (some data))) ∧
    (∀ (reading : Reading data) (uuid : Uuid),
      putStream L P root disk reading.results filename e uuid {} =
        some (.ok (storedAs P L e filename (.fresh uuid) data),
          setFile disk (absolutePathFor root ((Target.fresh uuid).filepath P filename))
            (some data))) ∧
    (∀ (reading : (data : Bytes) → Reading data) (filepath : Text),
      hashFilepath L reading root (setFile disk (absolutePathFor root filepath) (some data))
        filepath e = some (etagOf L e data)) ∧
    ∀ (reading : (data : Bytes) → Reading data) (m : ObjectMetadata),
      m.etag = etagOf L e data → m.etagType = e.display →
      ∃ chunks, collectChunks (some (.metadata m) ::
            (payloadsOf reading data).map fun payload => some (.payload payload)) =
          some (some m, chunks) ∧
        putChunksHashing L P root disk (chunks.map some) m.originalFilename m.hashType
            (some m.etag) (.forced m.filepathUuid) {} =
          some (.ok (storedAs P L e m.originalFilename (.forced m.filepathUuid) data),
            setFile disk (absolutePathFor root m.filepathUuid) (some data)) := by
  refine ⟨digestHex_eq L e data, ?_, ?_, ?_, ?_⟩
  · intro chunks target h'
    obtain rfl := h'
    exact putChunksHashing_clean P root disk chunks filename target fun _ h => by cases h
  · intro reading uuid
    rw [putStream_eq, untilEnd_results, putChunksHashing_clean P root disk reading.reads filename
      (.fresh uuid) (fun _ h => by cases h), reading.whole]
    rfl
  · intro reading filepath
    exact hashFilepath_eq reading (setFile_same _ _ _)
  · intro reading m hetag htype
    have hwhole : (payloadsOf reading data).flatten = data := (reading data).whole
    have hhash : m.hashType = e := by
      unfold ObjectMetadata.hashType
      rw [htype, EtagType.fromStr_display, Option.getD_some]
    refine ⟨payloadsOf reading data, collectChunks_payloads m _, ?_⟩
    rw [hhash, putChunksHashing_clean P root disk (payloadsOf reading data) m.originalFilename
      (.forced m.filepathUuid), hwhole]
    · rfl
    · intro etag h
      rw [hwhole, ← hetag, Option.some.inj h]

/-- Libraries whose md5 is known for one text. -/
def sampleLibraries : HashLibraries where
  md5 := buffering fun data =>
    if data = [97] then
      [12, 193, 117, 185, 192, 241, 182, 168, 49, 195, 153, 226, 105, 119, 38, 97]
    else []
  sha256 := buffering fun _ => []
  sha512 := buffering fun _ => []
  blake2_128 := buffering fun _ => []
  blake2_256 := buffering fun _ => []
  blake3 := buffering fun _ => ⟨[], fun _ => []⟩

theorem etag_of_any_chunks_a :
    digestHex sampleLibraries .md5 [97] = some "0cc175b9c0f1b6a831c399e269772661".toList ∧
      putChunksHashing sampleLibraries Platform.sample [] (fun _ => none)
          ([[], [97], []].map some) "a".toList .md5 none (.forced "objects/a".toList) {} =
        some (.ok (storedAs Platform.sample sampleLibraries .md5 "a".toList
            (.forced "objects/a".toList) [97]),
          setFile (fun _ => none) (absolutePathFor [] "objects/a".toList) (some [97])) :=
  ⟨by decide, (etag_of_any_chunks sampleLibraries Platform.sample [] (fun _ => none) .md5 [97]
    "a".toList).2.1 [[], [97], []] (.forced "objects/a".toList) rfl⟩

end MyS3.Hasher
