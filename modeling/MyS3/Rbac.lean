import Mathlib.Data.List.Sort
import MyS3.Database

/-!
Sessions, permissions and buckets of `db/rbac.rs`. Permissions of an account on
a bucket are full for the owner of the bucket and for the Owner role, and
otherwise the union over the roles of the account.
-/

namespace MyS3.Rbac

open Library.Strings Library.Tables
open Models Objects Database

def getAccountById (db : Db) (id : Int) : Option AccountRecord :=
  db.account.find? fun a => a.id == id

/-- `SELECT … WHERE is_owner = 1 ORDER BY id ASC LIMIT 1`. -/
def getOwnerRole (db : Db) : Option RoleRecord :=
  ((db.role.filter RoleRecord.isOwner).insertionSort fun a b => a.id ≤ b.id).head?

def upsertRolePermission (db : Db) (roleId bucketId : Int) (perms : CrudPerms) : Db :=
  { db with
    roleBucketPermission :=
      (db.roleBucketPermission.filter fun p => !(p.roleId == roleId && p.bucketId == bucketId)) ++
        [⟨roleId, bucketId, perms⟩] }

def getBucketById (db : Db) (id : Int) : Option BucketRecord := db.bucket.byId id

def getBucketByName (db : Db) (name : Text) : Option BucketRecord := db.bucket.byName name

def accountOwnsBucket (db : Db) (accountId bucketId : Int) : Bool :=
  ((getBucketById db bucketId).bind (·.ownerAccountId)) == some accountId

def accountIsOwner (db : Db) (accountId : Int) : Bool :=
  db.accountRole.any fun ar =>
    ar.accountId == accountId && db.role.any fun r => r.id == ar.roleId && r.isOwner

def effectivePerms (db : Db) (accountId bucketId : Int) : CrudPerms :=
  if accountOwnsBucket db accountId bucketId then .full
  else if accountIsOwner db accountId then .full
  else
    ((db.roleBucketPermission.filter fun p =>
        p.bucketId == bucketId &&
          db.accountRole.any fun ar => ar.accountId == accountId && ar.roleId == p.roleId).map
      (·.perms)).foldl CrudPerms.or .none

def checkPerm (db : Db) (accountId bucketId : Int) (action : CrudAction) : Bool :=
  (effectivePerms db accountId bucketId).allows action

def deleteSession (db : Db) (token : Text) : Db :=
  { db with session := db.session.filter fun s => !(s.token == token) }

/-- An expired session, or one of a disabled account, is deleted on use. -/
def resolveSession (db : Db) (now : Instant) (token : Text) : Option AccountRecord × Db :=
  match db.session.find? fun s => s.token == token with
  | none => (none, db)
  | some s =>
    if s.expiresUtc < now.nanos then (none, deleteSession db token)
    else
      match getAccountById db s.accountId with
      | none => (none, db)
      | some account => if account.isDisabled then (none, deleteSession db token) else (some account, db)

/-- Database calls of `ensure_bucket` that fail. -/
structure EnsureFaults where
  select : Bool := false
  insert : Bool := false
  grant : Bool := false
  deriving DecidableEq

def grantOwnerRole (db : Db) (bucketId : Int) : Db :=
  match getOwnerRole db with
  | none => db
  | some owner => upsertRolePermission db owner.id bucketId .full

/-- `ensure_bucket`; `none` is an error, and a failed grant leaves the new bucket. -/
def ensureBucket (db : Db) (name : Text) (faults : EnsureFaults) : Option Int × Db :=
  if faults.select then (none, db)
  else
    match getBucketByName db name with
    | some b => (some b.id, db)
    | none =>
      if faults.insert then (none, db)
      else
        match db.insertBucket name none true .md5 with
        | none => (none, db)
        | some db' =>
          if faults.grant then (none, db') else (some db.bucket.nextId, grantOwnerRole db' db.bucket.nextId)

/-- `create_bucket`; `none` is a violation of UNIQUE(name). -/
def createBucket (db : Db) (name : Text) (ownerAccountId : Int) (etagType : EtagType) :
    Option Db :=
  (db.insertBucket name (some ownerAccountId) true etagType).map fun db' =>
    grantOwnerRole db' db.bucket.nextId

inductive RenameBucketError
  | notFound
  | defaultBucket
  | reservedName
  | query
  deriving DecidableEq

/-- `rename_bucket`; a name that is taken is a query error. -/
def renameBucket (db : Db) (id : Int) (newName : Text) : Except RenameBucketError Db :=
  match getBucketById db id with
  | none => .error .notFound
  | some b =>
    if b.name = "storage".toList then .error .defaultBucket
    else if newName = "storage".toList then .error .reservedName
    else if newName = b.name then .ok db
    else
      match db.renameBucketRow id newName with
      | none => .error .query
      | some db' => .ok db'

/-- Object ids of a bucket, active and recycled. -/
def listObjectIdsInBucket (db : Db) (bucketId : Int) : List Int :=
  ((db.object.rows.filter fun r => r.bucketId == bucketId).map (·.id)).insertionSort (· ≤ ·)

/-- Database calls of `delete_bucket` that fail. -/
structure DeleteBucketFaults where
  select : Bool := false
  count : Bool := false
  delete : Bool := false
  deriving DecidableEq

inductive DeleteBucketError
  | notFound
  | defaultBucket
  | containsObjects
  | query
  deriving DecidableEq

/-- `delete_bucket`; a share link that refers to the bucket is a query error. -/
def deleteBucket (db : Db) (id : Int) (faults : DeleteBucketFaults) :
    Except DeleteBucketError Db :=
  if faults.select then .error .query
  else
    match getBucketById db id with
    | none => .error .notFound
    | some b =>
      if b.name = "storage".toList then .error .defaultBucket
      else if faults.count then .error .query
      else if 0 < (db.object.rows.filter fun r => r.bucketId == id).length then
        .error .containsObjects
      else if faults.delete then .error .query
      else
        match db.deleteBucketRow id with
        | none => .error .query
        | some db' => .ok db'

theorem accountOwnsBucket_iff {db : Db} {accountId bucketId : Int} :
    accountOwnsBucket db accountId bucketId = true ↔
      ∃ b ∈ db.bucket.rows, b.id = bucketId ∧ b.ownerAccountId = some accountId := by
  unfold accountOwnsBucket
  rw [beq_iff_eq, Option.bind_eq_some_iff]
  constructor
  · intro h
    obtain ⟨b, hb, howner⟩ := h
    obtain ⟨hmem, hid⟩ := BucketTable.byId_eq_some.mp hb
    exact ⟨b, hmem, hid, howner⟩
  · intro h
    obtain ⟨b, hmem, hid, howner⟩ := h
    exact ⟨b, BucketTable.byId_eq_some.mpr ⟨hmem, hid⟩, howner⟩

/-- The union of permissions, at one action. -/
theorem foldl_or_allows (perms : List CrudPerms) (init : CrudPerms) (action : CrudAction) :
    (perms.foldl CrudPerms.or init).allows action =
      (init.allows action || perms.any (·.allows action)) := by
  induction perms generalizing init with
  | nil => simp
  | cons p rest ih =>
    have hor : (init.or p).allows action = (init.allows action || p.allows action) := by
      cases action <;> rfl
    rw [List.foldl_cons, ih, hor, List.any_cons, Bool.or_assoc]

/-- An action is allowed to the owner of the bucket, to the Owner role, and by the roles. -/
theorem checkPerm_iff {db : Db} {accountId bucketId : Int} {action : CrudAction} :
    checkPerm db accountId bucketId action = true ↔
      accountOwnsBucket db accountId bucketId = true ∨ accountIsOwner db accountId = true ∨
        ∃ p ∈ db.roleBucketPermission, p.bucketId = bucketId ∧ p.perms.allows action = true ∧
          ∃ ar ∈ db.accountRole, ar.accountId = accountId ∧ ar.roleId = p.roleId := by
  have hfull : CrudPerms.full.allows action = true := by cases action <;> rfl
  have hnone : CrudPerms.none.allows action = false := by cases action <;> rfl
  unfold checkPerm effectivePerms
  split_ifs with howns howner
  · simp [hfull, howns]
  · simp [hfull, howner]
  · rw [foldl_or_allows, hnone]
    simp only [howns, howner, Bool.false_eq_true, false_or, Bool.false_or, List.any_map,
      List.any_eq_true, List.mem_filter, Bool.and_eq_true, beq_iff_eq, Function.comp]
    constructor
    · intro h
      obtain ⟨p, ⟨hp, hb, ar, har, ha, hrole⟩, hallows⟩ := h
      exact ⟨p, hp, hb, hallows, ar, har, ha, hrole⟩
    · intro h
      obtain ⟨p, hp, hb, hallows, ar, har, ha, hrole⟩ := h
      exact ⟨p, ⟨hp, hb, ar, har, ha, hrole⟩, hallows⟩

theorem mem_listObjectIdsInBucket {db : Db} {bucketId id : Int} :
    id ∈ listObjectIdsInBucket db bucketId ↔
      ∃ r ∈ db.object.rows, r.bucketId = bucketId ∧ r.id = id := by
  simp [listObjectIdsInBucket, and_assoc]

@[simp] theorem grantOwnerRole_object (db : Db) (bucketId : Int) :
    (grantOwnerRole db bucketId).object = db.object := by
  unfold grantOwnerRole
  split <;> rfl

@[simp] theorem grantOwnerRole_bucket (db : Db) (bucketId : Int) :
    (grantOwnerRole db bucketId).bucket = db.bucket := by
  unfold grantOwnerRole
  split <;> rfl

@[simp] theorem grantOwnerRole_peer (db : Db) (bucketId : Int) :
    (grantOwnerRole db bucketId).clusterPeer = db.clusterPeer := by
  unfold grantOwnerRole
  split <;> rfl

@[simp] theorem grantOwnerRole_outbox (db : Db) (bucketId : Int) :
    (grantOwnerRole db bucketId).replicationOutbox = db.replicationOutbox := by
  unfold grantOwnerRole
  split <;> rfl

/-- Ensuring a bucket touches no object, peer or outbox row and keeps every bucket. -/
theorem ensureBucket_frame (db : Db) (name : Text) (faults : EnsureFaults) :
    (ensureBucket db name faults).2.object = db.object ∧
      (ensureBucket db name faults).2.clusterPeer = db.clusterPeer ∧
      (ensureBucket db name faults).2.replicationOutbox = db.replicationOutbox ∧
      db.bucket.rows <+: (ensureBucket db name faults).2.bucket.rows := by
  unfold ensureBucket
  by_cases hselect : faults.select = true
  · simp [hselect]
  rw [if_neg hselect]
  cases hname : getBucketByName db name with
  | some b => simp
  | none =>
    simp only
    by_cases hins : faults.insert = true
    · simp [hins]
    rw [if_neg hins]
    cases hdb : db.insertBucket name none true .md5 with
    | none => simp
    | some db' =>
      obtain ⟨hobj, hpeer, hout, hrows⟩ := Db.insertBucket_eq hdb
      simp only
      split_ifs
      · simp [hobj, hpeer, hout, hrows]
      · simp [hobj, hpeer, hout, hrows]

/-- The bucket that `ensure_bucket` returns has the name that was asked for. -/
theorem ensureBucket_some {db db' : Db} {name : Text} {faults : EnsureFaults} {id : Int}
    (h : ensureBucket db name faults = (some id, db')) :
    ∃ b ∈ db'.bucket.rows, b.id = id ∧ b.name = name := by
  unfold ensureBucket at h
  by_cases hselect : faults.select = true
  · simp [hselect] at h
  rw [if_neg hselect] at h
  cases hname : getBucketByName db name with
  | some b =>
    obtain ⟨hb, hbname⟩ := BucketTable.byName_eq_some.mp hname
    rw [hname] at h
    simp only [Prod.mk.injEq, Option.some.injEq] at h
    rw [← h.2]
    exact ⟨b, hb, h.1, hbname⟩
  | none =>
    rw [hname] at h
    simp only at h
    by_cases hins : faults.insert = true
    · simp [hins] at h
    rw [if_neg hins] at h
    cases hdb : db.insertBucket name none true .md5 with
    | none => simp [hdb] at h
    | some inserted =>
      rw [hdb] at h
      simp only at h
      by_cases hgrant : faults.grant = true
      · simp [hgrant] at h
      rw [if_neg hgrant] at h
      simp only [Prod.mk.injEq, Option.some.injEq] at h
      obtain ⟨_, _, _, hrows⟩ := Db.insertBucket_eq hdb
      refine ⟨BucketTable.newBucket db.bucket.nextId name none true .md5, ?_, h.1, rfl⟩
      rw [← h.2, grantOwnerRole_bucket, hrows]
      exact List.mem_append_right _ (List.mem_singleton.mpr rfl)

/-- Without a failing call the bucket is found or created. -/
theorem ensureBucket_clean (db : Db) (name : Text) :
    ∃ id db', ensureBucket db name {} = (some id, db') := by
  unfold ensureBucket
  simp only [Bool.false_eq_true, if_false]
  cases hname : getBucketByName db name with
  | some b => exact ⟨_, _, rfl⟩
  | none =>
    have hsome := Db.insertBucket_isSome none true .md5 hname
    obtain ⟨inserted, hins⟩ := Option.isSome_iff_exists.mp hsome
    simp only [hins]
    exact ⟨_, _, rfl⟩

end MyS3.Rbac
