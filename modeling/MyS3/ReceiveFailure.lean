import MyS3.GrpcServer

/-!
What a failed replication leaves at the receiver. No object row changes, but the
file that the metadata names is truncated before the check, so the blob of a row
that resolves to that file survives only if the failure leaves the same bytes.
-/

namespace MyS3.ReceiveFailure

open Library.Strings Library.Tables Library.Paths
open Models Objects Database Engine Repository Outbox Rbac Http S3Routes GrpcServer

/-- The part of the payload that reaches the file before a write fails. -/
def written (chunks : List Bytes) : Option (Nat × Nat) → Bytes
  | none => chunks.flatten
  | some (i, n) => (chunks.take i).flatten ++ ((chunks[i]?).getD []).take n

/-- A write fails on one of the chunks, or the flush does. -/
def copyBreaks (chunks : List Bytes) (io : IoFaults) : Bool :=
  (io.write.any fun w => decide (w.1 < chunks.length)) || io.flush

/-- What a failed call leaves in a file that it created: the written part of the
payload, no file when the ETag is wrong, and the payload when a later step fails. -/
def leftover (P : Platform) (m : ObjectMetadata) (chunks : List Bytes) (io : IoFaults) :
    Option Bytes :=
  if copyBreaks chunks io then some (written chunks io.write)
  else if P.digest m.hashType chunks.flatten = m.etag then some chunks.flatten
  else if io.unlink then some chunks.flatten
  else none

theorem writeChunks_payload (chunks : List Bytes) (fault : Option (Nat × Nat)) (done : Bytes) :
    writeChunks (chunks.map some) fault done = (done ++ written chunks fault,
      if fault.any fun w => decide (w.1 < chunks.length) then some .write else none) := by
  induction chunks generalizing fault done with
  | nil =>
    rcases fault with _ | ⟨i, n⟩
    · simp [writeChunks, written]
    · simp [writeChunks, written]
  | cons chunk rest ih =>
    rcases fault with _ | ⟨_ | i, n⟩
    · rw [List.map_cons, writeChunks, ih]
      simp [written]
    · simp [writeChunks, written]
    · rw [List.map_cons, writeChunks, ih]
      simp [written]

/-- A write that does not fail covers the payload. -/
theorem written_of_complete {chunks : List Bytes} {fault : Option (Nat × Nat)}
    (h : (fault.any fun w => decide (w.1 < chunks.length)) = false) :
    written chunks fault = chunks.flatten := by
  rcases fault with _ | ⟨i, n⟩
  · rfl
  · simp only [Option.any_some, decide_eq_false_iff_not, not_lt] at h
    simp [written, List.take_of_length_le h, List.getElem?_eq_none h]

/-- The disk after a received payload, whatever the outcome. -/
theorem putChunks_received_disk (P : Platform) (root : Path) (disk : Disk) (m : ObjectMetadata)
    (chunks : List Bytes) (io : IoFaults) (hdir : io.createDir = false)
    (hfile : io.createFile = false) :
    (putChunks P root disk (chunks.map some) m.originalFilename m.hashType (some m.etag)
        (.forced m.filepathUuid) io).2 =
      setFile disk (absolutePathFor root m.filepathUuid) (leftover P m chunks io) := by
  unfold putChunks leftover copyBreaks
  simp only [hdir, hfile, Bool.false_eq_true, if_false, writeChunks_payload, Target.filepath,
    List.nil_append]
  by_cases hwrite : (io.write.any fun w => decide (w.1 < chunks.length)) = true
  · simp [hwrite]
  rw [Bool.not_eq_true] at hwrite
  by_cases hflush : io.flush = true
  · simp [hwrite, hflush]
  rw [Bool.not_eq_true] at hflush
  simp only [hwrite, hflush, Bool.false_eq_true, if_false, Bool.or_self,
    written_of_complete hwrite]
  by_cases hdigest : P.digest m.hashType chunks.flatten = m.etag
  · have hfilter : (some m.etag).filter (fun e => decide (e ≠ P.digest m.hashType chunks.flatten)) =
        none := by
      simp [hdigest]
    rw [if_pos hdigest, hfilter]
  · have hfilter : (some m.etag).filter (fun e => decide (e ≠ P.digest m.hashType chunks.flatten)) =
        some m.etag := by
      simp [Ne.symm hdigest]
    rw [if_neg hdigest, hfilter]
    by_cases hunlink : io.unlink = true
    · simp [hunlink]
    · simp [hunlink]

/-- The disk that a call leaves is the one that writing the payload left. -/
theorem replicateObject_disk {P : Platform} {s : AppState} {now : Instant}
    {stream : List (Option ObjectChunk)} {faults : ReceiveFaults} {m : ObjectMetadata}
    {chunks : List Bytes} (hcollect : collectChunks stream = some (some m, chunks)) :
    (replicateObject P s now stream faults).2.disk =
      (putChunks P s.config.storageRoot s.disk (chunks.map some) m.originalFilename m.hashType
        (some m.etag) (.forced m.filepathUuid) faults.io).2 := by
  unfold replicateObject
  simp only [hcollect]
  split
  · rename_i hput
    rw [hput]
  · rename_i hput
    rw [hput]
    split
    · rfl
    · split <;> rfl

/-- A failed call keeps the object table. -/
theorem replicateObject_error_object {P : Platform} {s s' : AppState} {now : Instant}
    {stream : List (Option ObjectChunk)} {faults : ReceiveFaults} {status : GrpcStatus}
    (h : replicateObject P s now stream faults = (.error status, s')) :
    s'.db.object = s.db.object := by
  unfold replicateObject at h
  split at h
  · rw [← (Prod.mk.inj h).2]
  · rw [← (Prod.mk.inj h).2]
  rename_i m chunks _
  split at h
  · rw [← (Prod.mk.inj h).2]
  have hframe := (ensureBucket_frame s.db m.bucket faults.bucket).1
  split at h
  · rename_i db hbucket
    rw [hbucket] at hframe
    rw [← (Prod.mk.inj h).2]
    exact hframe
  · rename_i bucketId db hbucket
    rw [hbucket] at hframe
    split at h
    · rw [← (Prod.mk.inj h).2]
      exact hframe
    · simp at h

/-- A call that creates no file leaves the disk alone. -/
theorem replicateObject_not_created {P : Platform} {s : AppState} {now : Instant}
    {stream : List (Option ObjectChunk)} {faults : ReceiveFaults}
    (h : ∀ m chunks, collectChunks stream = some (some m, chunks) →
      faults.io.createDir = true ∨ faults.io.createFile = true) :
    (replicateObject P s now stream faults).2.disk = s.disk := by
  rcases hcollect : collectChunks stream with _ | ⟨_ | m, chunks⟩
  · simp [replicateObject, hcollect]
  · simp [replicateObject, hcollect]
  · rw [replicateObject_disk hcollect]
    obtain ⟨err, hput⟩ := putChunks_not_created P s.config.storageRoot s.disk
      (chunks.map some) m.originalFilename m.hashType (some m.etag) (.forced m.filepathUuid)
      (h m chunks hcollect)
    rw [hput]

/-- No file is created, or every stored blob in the target file already is what the
failure leaves there. -/
def BlobsSurvive (P : Platform) (s : AppState) (stream : List (Option ObjectChunk))
    (faults : ReceiveFaults) : Prop :=
  ∀ m chunks, collectChunks stream = some (some m, chunks) →
    faults.io.createDir = false → faults.io.createFile = false →
    ∀ g ∈ s.db.object.rows, targetFile s g.filepath = targetFile s m.filepathUuid →
      s.disk (targetFile s g.filepath) = leftover P m chunks faults.io

/-- The stream of one payload. -/
def received (m : ObjectMetadata) (payload : Bytes) : List (Option ObjectChunk) :=
  [some (.metadata m), some (.payload payload)]

/-- The metadata of the object `k` whose content is the byte of `a`. -/
def sampleMetadata : ObjectMetadata where
  originalFilename := ['k']
  filepathUuid := relativeFilepath (Uuid.numbered 1) "bin".toList
  fileFormat := "bin".toList
  filesizeBytes := 1
  etagType := "md5".toList
  etag := "0cc175b9c0f1b6a831c399e269772661".toList
  dateUploaded := []
  dateModified := []
  bucketName := "storage".toList

/-- A receiver that holds the object of the sample metadata. -/
def holdsSample : AppState :=
  (replicateObject Platform.sample (AppState.migrated "node-2".toList) Instant.epoch
    (received sampleMetadata [97]) {}).2

end MyS3.ReceiveFailure
