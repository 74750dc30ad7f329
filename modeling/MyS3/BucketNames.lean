import MyS3.GrpcServer

/-!
Bucket names. A new name is trimmed and checked, and the receiver of a replicated
object trims the name it is sent; as a bucket has no other way to its name, the
names in a database are trimmed and not empty, and survive the transfer.
-/

namespace MyS3.BucketNames

open Library.Strings Library.Tables
open Models Objects Database Engine Repository Rbac Http GrpcServer

/-- `validate_bucket_name`; the length is in bytes of UTF-8. -/
def validateBucketName (name : Text) : Except Text Text :=
  let name := trim name
  if name = [] ∨ 128 < (name.map Char.utf8Size).sum then .error "invalid bucket name".toList
  else if name.all fun c => c.isAlphanum || c == '-' || c == '_' || c == '.' then .ok name
  else .error "bucket name may only contain alphanumeric, -, _, .".toList

def NameTrimmed (name : Text) : Prop := trim name = name ∧ name ≠ []

def NamesTrimmed (db : Db) : Prop := ∀ b ∈ db.bucket.rows, NameTrimmed b.name

theorem validateBucketName_trimmed {raw name : Text} (h : validateBucketName raw = .ok name) :
    NameTrimmed name := by
  unfold validateBucketName at h
  simp only at h
  split_ifs at h with hempty
  rw [← Except.ok.inj h]
  exact ⟨trim_trim raw, fun hnil => hempty (Or.inl hnil)⟩

theorem bucket_trimmed (m : ObjectMetadata) : NameTrimmed m.bucket := by
  unfold ObjectMetadata.bucket
  split_ifs with h
  · exact ⟨by decide, by decide⟩
  · exact ⟨trim_trim m.bucketName, h⟩

/-- A trimmed name reaches the receiver as it is. -/
theorem bucket_of_trimmed {m : ObjectMetadata} (h : NameTrimmed m.bucketName) :
    m.bucket = m.bucketName := by
  unfold ObjectMetadata.bucket
  rw [h.1, if_neg h.2]

theorem namesTrimmed_migrated : NamesTrimmed Db.migrated := by
  intro b hb
  rw [List.mem_singleton.mp hb]
  exact ⟨by decide, by decide⟩

theorem namesTrimmed_insertBucket {db db' : Db} {name : Text} {ownerAccountId : Option Int}
    {replicateToAll : Bool} {etagType : EtagType}
    (h : db.insertBucket name ownerAccountId replicateToAll etagType = some db')
    (hdb : NamesTrimmed db) (hname : NameTrimmed name) : NamesTrimmed db' := by
  intro b hb
  rw [(Db.insertBucket_eq h).2.2.2] at hb
  rcases List.mem_append.mp hb with hb | hb
  · exact hdb b hb
  · rw [List.mem_singleton.mp hb]
    exact hname

theorem namesTrimmed_ensureBucket {db : Db} {name : Text} (faults : EnsureFaults)
    (hdb : NamesTrimmed db) (hname : NameTrimmed name) :
    NamesTrimmed (ensureBucket db name faults).2 := by
  unfold ensureBucket
  split
  · exact hdb
  split
  · exact hdb
  split
  · exact hdb
  split
  · exact hdb
  · rename_i inserted hins
    have htrimmed := namesTrimmed_insertBucket hins hdb hname
    split
    · exact htrimmed
    · unfold NamesTrimmed
      rw [grantOwnerRole_bucket]
      exact htrimmed

/-- The service keeps the names trimmed, whatever it is sent. -/
theorem namesTrimmed_replicateObject (P : Platform) (s : AppState) (now : Instant)
    (stream : List (Option ObjectChunk)) (faults : ReceiveFaults) (hdb : NamesTrimmed s.db) :
    NamesTrimmed (replicateObject P s now stream faults).2.db := by
  unfold replicateObject
  split
  · exact hdb
  · exact hdb
  rename_i m chunks _
  split
  · exact hdb
  have hensure := namesTrimmed_ensureBucket faults.bucket hdb (bucket_trimmed m)
  split
  · rename_i db hbucket
    rwa [hbucket] at hensure
  · rename_i bucketId db hbucket
    rw [hbucket] at hensure
    split
    · exact hensure
    · rename_i db' hins
      unfold query at hins
      split at hins
      · cases hins
      · unfold NamesTrimmed
        rw [insertObjectIdempotent_bucket hins]
        exact hensure

theorem namesTrimmed_createBucket {db db' : Db} {raw name : Text} {owner : Int}
    {etagType : EtagType} (h : createBucket db name owner etagType = some db')
    (hdb : NamesTrimmed db) (hname : validateBucketName raw = .ok name) : NamesTrimmed db' := by
  obtain ⟨inserted, hins, rfl⟩ := Option.map_eq_some_iff.mp h
  have htrimmed := namesTrimmed_insertBucket hins hdb (validateBucketName_trimmed hname)
  unfold NamesTrimmed
  rw [grantOwnerRole_bucket]
  exact htrimmed

end MyS3.BucketNames
