import MyS3.Bootstrap
import MyS3.BucketNames
import MyS3.LastOwner
import MyS3.ReplicationEdits
import MyS3.Revocation

/-!
Who owns a bucket. Bootstrap gives every bucket to the first account; after it, handlers
and the receiver of replicated objects take turns, statement by statement. A new or
transferred bucket has an owner that exists, as the foreign key sees to it. Two statements
leave a bucket without one: the receiver's insert of a bucket that it does not have, and
the deletion of an account that owns one.
-/

namespace MyS3.BucketOwners

open Library.Strings Library.Interleaving Library.Runs Library.Tables
open Models Database Rbac Accounts Http SettingsRoutes BucketNames PeerManager ReplicationEdits
open Revocation

/-- What a handler answers, and what `ensure_bucket` returns. -/
inductive Answer
  | created (bucket : BucketRecord)
  | updated (bucket : BucketRecord)
  | noContent
  | ensured (id : Int)
  | failure (status : Status) (message : Option Text)
  deriving DecidableEq

/-- The statement that a task executes next. -/
inductive Stage
  | createRequireOwner (actor : Int) (name : Text)
  | createInsert (actor : Int) (name : Text)
  | createOwnerRole (id : Int)
  | createGrant (roleId id : Int)
  | createReload (id : Int)
  | createAssign (bucket : BucketRecord)
  | patchOwns (actor id : Int) (name : Option Text) (ownerAccountId : Option Int)
  | patchGet (id : Int) (name : Option Text) (ownerAccountId : Option Int)
  | renameGet (id : Int) (newName : Text) (ownerAccountId : Option Int)
  | renameUpdate (id : Int) (newName : Text) (ownerAccountId : Option Int)
  | renameReload (id : Int) (ownerAccountId : Option Int)
  | ownerGetBucket (id newOwnerId : Int)
  | ownerGetAccount (id newOwnerId : Int)
  | ownerUpdate (id newOwnerId : Int)
  | ownerReload (id : Int)
  | deleteCreatedBy (actor id : Int)
  | deleteAccount (id : Int)
  | ensureGet (name : Text)
  | ensureInsert (name : Text)
  | ensureOwnerRole (id : Int)
  | ensureGrant (roleId id : Int)
  | answered (answer : Answer)
  | dropped
  deriving DecidableEq

/-- The end of a request with an error of its own. -/
def refuse (status : Status) (message : String) : Stage :=
  .answered (.failure status (some message.toList))

/-- The end of a request after a library error. -/
def failed : Stage := .answered (.failure .internalServerError none)

def createBucket (actor : Int) (name : Text) : Stage := .createRequireOwner actor name

def patchBucket (actor id : Int) (name : Option Text) (ownerAccountId : Option Int) : Stage :=
  if name = none ∧ ownerAccountId = none then refuse .badRequest "no fields to update"
  else .patchOwns actor id name ownerAccountId

def deleteAccount (actor id : Int) : Stage :=
  if id = actor then refuse .badRequest "cannot delete your own account"
  else .deleteCreatedBy actor id

/-- The part of `patch_bucket` after the name. -/
def afterRename (id : Int) (b : BucketRecord) : Option Int → Stage
  | none => .answered (.updated b)
  | some newOwnerId => .ownerGetBucket id newOwnerId

def Stage.isOver : Stage → Bool
  | .answered _ => true
  | .dropped => true
  | _ => false

theorem assignBucketNode_keeps {db db' : Db} {bucketId : Int} {peerId : Text}
    {allocatedBytes : Int} {quotaMode : QuotaMode}
    (h : assignBucketNode db bucketId peerId allocatedBytes quotaMode = .ok db') :
    KeepsAccess db db' ∧ ∀ b ∈ db'.bucket.rows, ∃ b₀ ∈ db.bucket.rows,
      b.ownerAccountId = b₀.ownerAccountId := by
  unfold assignBucketNode at h
  split_ifs at h
  rw [← Except.ok.inj h]
  refine ⟨⟨rfl, rfl, rfl⟩, fun b hb => ?_⟩
  rcases mem_updateRows.mp hb with ⟨hb, _⟩ | ⟨b₀, hb₀, _, rfl⟩
  · exact ⟨b, hb, rfl⟩
  · exact ⟨b₀, hb₀, rfl⟩

/-- The new bucket is assigned to the node itself. -/
def assignOwnNode (nodeId : Text) (s : Registry) (bucketId : Int) : Except EditError Registry :=
  match h : assignBucketNode s.db bucketId nodeId defaultNodeAllocatedBytes .soft with
  | .error e => .error e
  | .ok db => .ok (s.withDb db (assignBucketNode_keeps h).1.1 (assignBucketNode_keeps h).1.2.1)

/-- `INSERT INTO bucket`; a bucket with an owner needs the account. -/
def insertBucket (s : Registry) (name : Text) (ownerAccountId : Option Int)
    (etagType : EtagType) : Option Registry :=
  onBuckets s (s.db.insertBucket name ownerAccountId true etagType) fun _ h =>
    (insertBucket_keeps h).1

theorem keepsAccess_rename (s : Registry) (id : Int) (newName : Text) :
    ∀ db ∈ s.db.renameBucketRow id newName, KeepsAccess s.db db :=
  fun _ h => (renameBucketRow_keeps h).1

def renameBucketRow (s : Registry) (id : Int) (newName : Text) : Option Registry :=
  onBuckets s (s.db.renameBucketRow id newName) (keepsAccess_rename s id newName)

/-- The settings of the node that the handlers read. -/
structure Settings where
  nodeId : Text
  defaultEtagType : EtagType

/-- The next statement of a task, as long as the database answers. -/
def call (settings : Settings) (s : Registry) : Stage → Registry × Stage
  | .createRequireOwner actor name =>
    if accountIsOwner s.db actor = false then (s, refuse .forbidden "owner role required")
    else
      match validateBucketName name with
      | .error message => (s, .answered (.failure .badRequest (some message)))
      | .ok name => (s, .createInsert actor name)
  | .createInsert actor name =>
    if (getBucketByName s.db name).isSome then (s, refuse .conflict "bucket already exists")
    else if accountExists s.db actor = false then (s, failed)
    else
      match insertBucket s name (some actor) settings.defaultEtagType with
      | none => (s, failed)
      | some s' => (s', .createOwnerRole s.db.bucket.nextId)
  | .createOwnerRole id =>
    match getOwnerRole s.db with
    | none => (s, .createReload id)
    | some owner => (s, .createGrant owner.id id)
  | .createGrant roleId id =>
    match s.upsertRolePermission roleId id .full with
    | none => (s, failed)
    | some s' => (s', .createReload id)
  | .createReload id =>
    match getBucketById s.db id with
    | none => (s, refuse .internalServerError "bucket missing after insert")
    | some b => (s, .createAssign b)
  | .createAssign b =>
    match assignOwnNode settings.nodeId s b.id with
    | .error e => (s, .answered (.failure .internalServerError e.message))
    | .ok s' => (s', .answered (.created b))
  | .patchOwns actor id name ownerAccountId =>
    if accountOwnsBucket s.db actor id = false then
      (s, refuse .forbidden "only the bucket owner can rename or transfer this bucket")
    else (s, .patchGet id name ownerAccountId)
  | .patchGet id name ownerAccountId =>
    match getBucketById s.db id with
    | none => (s, refuse .notFound "bucket not found")
    | some b =>
      match name with
      | none => (s, afterRename id b ownerAccountId)
      | some raw =>
        match validateBucketName raw with
        | .error message => (s, .answered (.failure .badRequest (some message)))
        | .ok name => (s, .renameGet id name ownerAccountId)
  | .renameGet id newName ownerAccountId =>
    match getBucketById s.db id with
    | none => (s, refuse .notFound "bucket not found")
    | some b =>
      if b.name = "storage".toList then
        (s, refuse .conflict "cannot rename default storage bucket")
      else if newName = "storage".toList then
        (s, refuse .conflict "cannot use reserved bucket name storage")
      else if newName = b.name then (s, afterRename id b ownerAccountId)
      else (s, .renameUpdate id newName ownerAccountId)
  | .renameUpdate id newName ownerAccountId =>
    if (getBucketById s.db id).isNone then (s, refuse .notFound "bucket not found")
    else
      match renameBucketRow s id newName with
      | none => (s, refuse .conflict "bucket already exists")
      | some s' => (s', .renameReload id ownerAccountId)
  | .renameReload id ownerAccountId =>
    match getBucketById s.db id with
    | none => (s, refuse .internalServerError "bucket missing after rename")
    | some b => (s, afterRename id b ownerAccountId)
  | .ownerGetBucket id newOwnerId =>
    if (getBucketById s.db id).isNone then (s, refuse .notFound "bucket not found")
    else (s, .ownerGetAccount id newOwnerId)
  | .ownerGetAccount id newOwnerId =>
    match getAccountById s.db newOwnerId with
    | none => (s, refuse .notFound "account not found")
    | some account =>
      if account.isDisabled then
        (s, refuse .conflict "cannot transfer ownership to a disabled account")
      else (s, .ownerUpdate id newOwnerId)
  | .ownerUpdate id newOwnerId =>
    if (getBucketById s.db id).isNone then (s, .ownerReload id)
    else
      match s.updateBucketOwner id newOwnerId with
      | none => (s, failed)
      | some s' => (s', .ownerReload id)
  | .ownerReload id =>
    match getBucketById s.db id with
    | none => (s, refuse .internalServerError "bucket missing after ownership transfer")
    | some b => (s, .answered (.updated b))
  | .deleteCreatedBy actor id =>
    if accountCreatedBy s.db id actor = false then
      (s, refuse .forbidden "only the creator of an account can delete it")
    else (s, .deleteAccount id)
  | .deleteAccount id =>
    match s.deleteAccount id with
    | none => (s, failed)
    | some (true, s') => (s', .answered .noContent)
    | some (false, s') => (s', refuse .notFound "account not found")
  | .ensureGet name =>
    match getBucketByName s.db name with
    | some b => (s, .answered (.ensured b.id))
    | none => (s, .ensureInsert name)
  | .ensureInsert name =>
    match insertBucket s name none .md5 with
    | none => (s, failed)
    | some s' => (s', .ensureOwnerRole s.db.bucket.nextId)
  | .ensureOwnerRole id =>
    match getOwnerRole s.db with
    | none => (s, .answered (.ensured id))
    | some owner => (s, .ensureGrant owner.id id)
  | .ensureGrant roleId id =>
    match s.upsertRolePermission roleId id .full with
    | none => (s, failed)
    | some s' => (s', .answered (.ensured id))
  | .answered answer => (s, .answered answer)
  | .dropped => (s, .dropped)

/-- One statement, or its failure; `none` when the task is over. -/
def serve (settings : Settings) (fails : Bool) (s : Registry) (t : Stage) :
    Option (Registry × Stage) :=
  if t.isOver then none
  else if fails then some (s, failed)
  else some (call settings s t)

/-- The writes that set or clear the owner of a bucket. Of the handlers only those above
and the bootstrap execute them. -/
def setsOwner : Write → Bool
  | .deleteAccount _ => true
  | .insertBucket _ _ _ _ => true
  | .updateBucketOwner _ _ => true
  | .claimUnownedBuckets _ => true
  | _ => false

abbrev State := Pool Registry Stage

inductive Action
  | createBucket (actor : Int) (name : Text)
  | patchBucket (actor id : Int) (name : Option Text) (ownerAccountId : Option Int)
  | deleteAccount (actor id : Int)
  | ensureBucket (name : Text)
  | advance (i : Nat) (fails : Bool)
  /-- The client goes away. -/
  | drop (i : Nat)
  /-- A write of another handler. -/
  | write (w : Write)

/-- A handler starts for an account that is signed in. -/
def begin (s : State) (actor : Int) (t : Stage) : Option State :=
  if isAuthenticated s.shared.db actor then some (s.spawn t) else none

def step (settings : Settings) (s : State) : Action → Option State
  | .createBucket actor name => begin s actor (createBucket actor name)
  | .patchBucket actor id name ownerAccountId =>
    begin s actor (patchBucket actor id name ownerAccountId)
  | .deleteAccount actor id => begin s actor (deleteAccount actor id)
  | .ensureBucket name => some (s.spawn (.ensureGet name))
  | .advance i fails => s.turn (serve settings fails) i
  | .drop i => (s.tasks[i]?).map fun _ => s.replace i s.shared .dropped
  | .write w => if setsOwner w then none else (w.run s.shared).map fun r => { s with shared := r }

/-- Every bucket has an owner that exists. -/
def AllOwned (db : Db) : Prop :=
  ∀ b ∈ db.bucket.rows, ∃ a ∈ db.account, b.ownerAccountId = some a.id

/-- Accounts stay, and a bucket has an owner that a bucket had before. -/
structure SameOwners (db db' : Db) : Prop where
  account : ∀ a ∈ db.account, ∃ a' ∈ db'.account, a'.id = a.id
  bucket : ∀ b ∈ db'.bucket.rows, ∃ b₀ ∈ db.bucket.rows, b.ownerAccountId = b₀.ownerAccountId

theorem SameOwners.refl (db : Db) : SameOwners db db :=
  ⟨fun a ha => ⟨a, ha, rfl⟩, fun b hb => ⟨b, hb, rfl⟩⟩

theorem SameOwners.allOwned {db db' : Db} (h : SameOwners db db') (howned : AllOwned db) :
    AllOwned db' := by
  intro b hb
  obtain ⟨b₀, hb₀, heq⟩ := h.bucket b hb
  obtain ⟨a, ha, howner⟩ := howned b₀ hb₀
  obtain ⟨a', ha', hid⟩ := h.account a ha
  exact ⟨a', ha', by rw [heq, howner, hid]⟩

/-- A change of other tables. -/
theorem sameOwners_of_eq {db db' : Db} (haccount : db'.account = db.account)
    (hbucket : db'.bucket = db.bucket) : SameOwners db db' := by
  refine ⟨fun a ha => ⟨a, ?_, rfl⟩, fun b hb => ⟨b, ?_, rfl⟩⟩
  · rw [haccount]
    exact ha
  · rwa [hbucket] at hb

theorem sameOwners_updateAccount {s s' : Registry} {id : Int}
    {f : AccountRecord → AccountRecord} {hid : ∀ a, (f a).id = a.id}
    (h : s.updateAccount id f hid = some s') : SameOwners s.db s'.db := by
  rw [(Registry.updateAccount_eq h).1]
  exact ⟨fun _ ha => exists_updateRows (·.id) _ hid ha, fun b hb => ⟨b, hb, rfl⟩⟩

theorem sameOwners_upsert {s s' : Registry} {roleId bucketId : Int} {perms : CrudPerms}
    (h : s.upsertRolePermission roleId bucketId perms = some s') : SameOwners s.db s'.db := by
  unfold Registry.upsertRolePermission at h
  split_ifs at h
  rw [← Option.some.inj h]
  exact sameOwners_of_eq rfl rfl

theorem sameOwners_rename {s s' : Registry} {id : Int} {newName : Text}
    (h : renameBucketRow s id newName = some s') : SameOwners s.db s'.db := by
  obtain ⟨hkeeps, _, hrows⟩ := renameBucketRow_keeps (onBuckets_eq h).1
  refine ⟨fun a ha => ⟨a, hkeeps.1 ▸ ha, rfl⟩, fun b hb => ?_⟩
  rw [hrows] at hb
  rcases mem_updateRows.mp hb with ⟨hb, _⟩ | ⟨b₀, hb₀, _, rfl⟩
  · exact ⟨b, hb, rfl⟩
  · exact ⟨b₀, hb₀, rfl⟩

theorem sameOwners_assign {nodeId : Text} {s s' : Registry} {bucketId : Int}
    (h : assignOwnNode nodeId s bucketId = .ok s') : SameOwners s.db s'.db := by
  unfold assignOwnNode at h
  split at h
  · cases h
  · rename_i db hassign
    obtain ⟨hkeeps, hrows⟩ := assignBucketNode_keeps hassign
    rw [← Except.ok.inj h]
    exact ⟨fun a ha => ⟨a, hkeeps.1.symm ▸ ha, rfl⟩, hrows⟩

/-- The other handlers leave the owners alone. -/
theorem sameOwners_write {s s' : Registry} {w : Write} (hw : setsOwner w = false)
    (h : w.run s = some s') : SameOwners s.db s'.db := by
  cases w with
  | insertAccount usernameHex passwordHash displayName createdBy =>
    rw [Registry.insertAccount_eq h]
    exact ⟨fun a ha => ⟨a, List.mem_append_left _ ha, rfl⟩, fun b hb => ⟨b, hb, rfl⟩⟩
  | setAccountDisabled id disabled =>
    have hupdate : s.updateAccount id (fun x => { x with isDisabled := disabled })
        (fun _ => rfl) = some s' := h
    exact sameOwners_updateAccount hupdate
  | updateAccountDisplayName id displayName =>
    have hupdate : s.updateAccount id (fun x => { x with displayName := displayName })
        (fun _ => rfl) = some s' := h
    exact sameOwners_updateAccount hupdate
  | setAccountPassword id passwordHash =>
    have hupdate : s.updateAccount id (fun x => { x with passwordHash := passwordHash })
        (fun _ => rfl) = some s' := h
    exact sameOwners_updateAccount hupdate
  | deleteAccount id => cases hw
  | createRole name position =>
    simp only [Write.run, Registry.createRole] at h
    split_ifs at h
    rw [← Option.some.inj h]
    exact sameOwners_of_eq rfl rfl
  | updateRole id name position =>
    have hupdate := toOption_eq_some h
    unfold Registry.updateRole at hupdate
    split at hupdate
    · cases hupdate
    · simp only at hupdate
      split_ifs at hupdate
      rw [← Except.ok.inj hupdate]
      exact sameOwners_of_eq rfl rfl
  | deleteRole id =>
    have hdelete := toOption_eq_some h
    unfold Registry.deleteRole at hdelete
    split at hdelete
    · cases hdelete
    · split_ifs at hdelete
      rw [← Except.ok.inj hdelete]
      exact sameOwners_of_eq rfl rfl
  | setAccountRoles accountId roleIds =>
    rw [(Registry.setAccountRoles_eq h).1]
    exact sameOwners_of_eq rfl rfl
  | assignRole accountId roleId =>
    simp only [Write.run, Registry.assignRole] at h
    split_ifs at h
    · rw [← Option.some.inj h]
      exact SameOwners.refl _
    · rw [← Option.some.inj h]
      exact sameOwners_of_eq rfl rfl
  | upsertRolePermission roleId bucketId perms => exact sameOwners_upsert h
  | replaceRolePermissions roleId perms =>
    rw [Registry.replaceRolePermissions_eq h]
    exact sameOwners_of_eq rfl rfl
  | insertBucket name owner all etagType => cases hw
  | renameBucket id name => exact sameOwners_rename h
  | deleteBucket id =>
    obtain ⟨hkeeps, _, hrows⟩ := deleteBucketRow_keeps (onBuckets_eq h).1
    exact ⟨fun a ha => ⟨a, hkeeps.1.symm ▸ ha, rfl⟩, fun b hb => ⟨b, hrows hb, rfl⟩⟩
  | updateBucketOwner id newOwnerId => cases hw
  | claimUnownedBuckets accountId => cases hw
  | createSession token accountId expiresUtc =>
    rw [Registry.createSession_eq h]
    exact sameOwners_of_eq rfl rfl
  | deleteSession token =>
    rw [← Option.some.inj h]
    exact sameOwners_of_eq rfl rfl
  | deleteSessionsForAccount accountId =>
    rw [← Option.some.inj h]
    exact sameOwners_of_eq rfl rfl

theorem allOwned_insertBucket {s s' : Registry} {name : Text} {owner : Option Int}
    {etagType : EtagType} (h : insertBucket s name owner etagType = some s')
    (howned : AllOwned s.db) :
    AllOwned s'.db ↔ ∃ a ∈ s.db.account, owner = some a.id := by
  obtain ⟨hkeeps, _, hrows⟩ := insertBucket_keeps (onBuckets_eq h).1
  unfold AllOwned
  rw [hkeeps.1, hrows]
  constructor
  · intro hall
    exact hall _ (List.mem_append_right _ (List.mem_singleton.mpr rfl))
  · intro howner b hb
    rcases List.mem_append.mp hb with hb | hb
    · exact howned b hb
    · rw [List.mem_singleton.mp hb]
      exact howner

theorem allOwned_updateBucketOwner {s s' : Registry} {id newOwnerId : Int}
    (h : s.updateBucketOwner id newOwnerId = some s') (howned : AllOwned s.db) :
    AllOwned s'.db := by
  unfold Registry.updateBucketOwner at h
  split_ifs at h with hexists
  rw [← Option.some.inj h]
  intro b hb
  rcases mem_updateRows.mp hb with ⟨hb, _⟩ | ⟨b₀, _, _, rfl⟩
  · exact howned b hb
  · obtain ⟨a, ha, hid⟩ := accountExists_iff.mp hexists
    exact ⟨a, ha, by rw [hid]; rfl⟩

/-- Nobody loses a bucket when the account owns none. -/
theorem allOwned_deleteAccount {s s' : Registry} {id : Int}
    (h : s.deleteAccount id = some (true, s')) (howned : AllOwned s.db) :
    AllOwned s'.db ↔ ∀ b ∈ s.db.bucket.rows, b.ownerAccountId ≠ some id := by
  unfold Registry.deleteAccount at h
  split_ifs at h
  · cases h
  · rw [← (Prod.mk.inj (Option.some.inj h)).2]
    constructor
    · intro hall b hb hid
      obtain ⟨a, _, howner⟩ := hall (Registry.setOwner none b)
        (mem_updateRows.mpr (Or.inr ⟨b, hb, by simpa using hid, rfl⟩))
      cases howner
    · intro hnone b hb
      rcases mem_updateRows.mp hb with ⟨hb, _⟩ | ⟨b₀, hb₀, hid, rfl⟩
      · obtain ⟨a, ha, howner⟩ := howned b hb
        refine ⟨Registry.forgetCreator id a, List.mem_map_of_mem (List.mem_filter.mpr ⟨ha, ?_⟩),
          howner⟩
        have hne : a.id ≠ id := fun heq => hnone b hb (by rw [howner, heq])
        simpa using hne
      · exact absurd (by simpa using hid) (hnone b₀ hb₀)

/-- What the next statement of a task must not do: insert a replicated bucket, or delete an
account that owns a bucket. A bucket with the name, or a share link of the account, stops
it as well. -/
def KeepsOwner (s : Registry) : Stage → Prop
  | .ensureInsert name => (getBucketByName s.db name).isSome = true
  | .deleteAccount id =>
    (∀ b ∈ s.db.bucket.rows, b.ownerAccountId ≠ some id) ∨
      (∃ l ∈ s.db.shareLink, l.createdByAccountId = id) ∨
        ∃ u ∈ s.db.shareLinkUser, u.accountId = id
  | _ => True

theorem insertBucket_isSome {s : Registry} {name : Text} {owner : Option Int}
    {etagType : EtagType} (h : insertBucket s name owner etagType = none) :
    (getBucketByName s.db name).isSome = true := by
  by_contra hnone
  have hsome := Db.insertBucket_isSome owner true etagType
    (Option.not_isSome_iff_eq_none.mp hnone : s.db.bucket.byName name = none)
  unfold insertBucket onBuckets at h
  rw [Option.pmap_eq_none_iff.mp h] at hsome
  cases hsome

theorem free_of_insertBucket {s s' : Registry} {name : Text} {owner : Option Int}
    {etagType : EtagType} (h : insertBucket s name owner etagType = some s') :
    getBucketByName s.db name = none := by
  have hdb := (onBuckets_eq h).1
  unfold Db.insertBucket at hdb
  split at hdb
  · cases hdb
  · rename_i t ht
    exact BucketTable.insert_isSome.mp (by rw [ht]; rfl)

/-- A task that is left alone for some statements. -/
def alone (settings : Settings) : Nat → Registry → Stage → Registry × Stage
  | 0, s, t => (s, t)
  | n + 1, s, t => alone settings n (call settings s t).1 (call settings s t).2

/-- The statements of `delete_account`, one after the other. -/
theorem deleteAccount_alone (settings : Settings) (s : Registry) (actor id : Int) :
    (alone settings 2 s (deleteAccount actor id)).1 =
      (SettingsRoutes.deleteAccount s actor id).2 := by
  unfold deleteAccount SettingsRoutes.deleteAccount
  split_ifs with hself hcreator
  · rfl
  · have hrefused : call settings s (.deleteCreatedBy actor id) =
        (s, refuse .forbidden "only the creator of an account can delete it") := by
      simp only [call, hcreator, if_true]
    simp only [alone, hrefused]
    rfl
  · have hallowed : call settings s (.deleteCreatedBy actor id) = (s, .deleteAccount id) := by
      simp only [call, hcreator]
      rfl
    simp only [alone, hallowed]
    simp only [call]
    cases hdelete : s.deleteAccount id with
    | none => rfl
    | some result =>
      obtain ⟨deleted, s'⟩ := result
      cases deleted with
      | true => rfl
      | false => rfl

theorem ensureOwnerRole_alone (settings : Settings) (s : Registry) (id : Int)
    (hbucket : (getBucketById s.db id).isSome = true) :
    (alone settings 2 s (.ensureOwnerRole id)).1.db = grantOwnerRole s.db id ∧
      (alone settings 2 s (.ensureOwnerRole id)).2 = .answered (.ensured id) := by
  unfold grantOwnerRole
  cases hrole : getOwnerRole s.db with
  | none =>
    simp only [alone, call, hrole]
    exact ⟨trivial, trivial⟩
  | some owner =>
    have hexists : roleExists s.db owner.id = true :=
      List.any_eq_true.mpr ⟨owner, (getOwnerRole_eq_some hrole).1, beq_self_eq_true _⟩
    have hgrant : s.upsertRolePermission owner.id id .full =
        some (s.withDb (upsertRolePermission s.db owner.id id .full) rfl rfl) := by
      unfold Registry.upsertRolePermission
      rw [hexists, Option.isNone_eq_false_iff.mpr hbucket]
      rfl
    simp only [alone, call, hrole, hgrant]
    exact ⟨rfl, trivial⟩

/-- The statements of `ensure_bucket`, one after the other. -/
theorem ensureBucket_alone (settings : Settings) (s : Registry) (name : Text) :
    ∃ id, (alone settings 4 s (.ensureGet name)).2 = .answered (.ensured id) ∧
      ensureBucket s.db name {} = (some id, (alone settings 4 s (.ensureGet name)).1.db) := by
  cases hname : getBucketByName s.db name with
  | some b =>
    refine ⟨b.id, ?_, ?_⟩
    · simp only [alone, call, hname]
    · simp only [alone, call, hname, ensureBucket]
      rfl
  | none =>
    cases hinsert : insertBucket s name none .md5 with
    | none =>
      have htaken := insertBucket_isSome hinsert
      rw [hname] at htaken
      cases htaken
    | some s' =>
      have hdb := (onBuckets_eq hinsert).1
      obtain ⟨_, _, hrows⟩ := insertBucket_keeps hdb
      have hbucket : (getBucketById s'.db s.db.bucket.nextId).isSome = true := by
        have hnew : getBucketById s'.db s.db.bucket.nextId =
            some (BucketTable.newBucket s.db.bucket.nextId name none true .md5) := by
          refine BucketTable.byId_eq_some.mpr ⟨?_, rfl⟩
          rw [hrows]
          exact List.mem_append_right _ (List.mem_singleton.mpr rfl)
        rw [hnew]
        rfl
      obtain ⟨hgranted, hended⟩ := ensureOwnerRole_alone settings s' _ hbucket
      have hsteps : alone settings 4 s (.ensureGet name) =
          alone settings 2 s' (.ensureOwnerRole s.db.bucket.nextId) := by
        have hmissing : call settings s (.ensureGet name) = (s, .ensureInsert name) := by
          simp only [call, hname]
        have hinserted : call settings s (.ensureInsert name) =
            (s', .ensureOwnerRole s.db.bucket.nextId) := by
          simp only [call, hinsert]
        simp only [alone, hmissing, hinserted]
      refine ⟨s.db.bucket.nextId, by rw [hsteps, hended], ?_⟩
      rw [hsteps, hgranted]
      unfold ensureBucket
      simp only [hname, hdb, Bool.false_eq_true, if_false]

theorem createInsert_owned {s : Registry} {actor : Int} {name : Text} (settings : Settings)
    (howned : AllOwned s.db) :
    AllOwned (call settings s (.createInsert actor name)).1.db := by
  unfold call
  simp only
  split_ifs with _ hexists
  · exact howned
  · exact howned
  · split
    · exact howned
    · rename_i s' hinsert
      obtain ⟨a, ha, hid⟩ := accountExists_iff.mp (Bool.not_eq_false _ ▸ hexists)
      exact (allOwned_insertBucket hinsert howned).mpr ⟨a, ha, by rw [hid]⟩

theorem ensureInsert_owned_iff {s : Registry} {name : Text} (settings : Settings)
    (howned : AllOwned s.db) :
    AllOwned (call settings s (.ensureInsert name)).1.db ↔
      KeepsOwner s (.ensureInsert name) := by
  unfold call
  simp only
  split
  · rename_i hinsert
    exact ⟨fun _ => insertBucket_isSome hinsert, fun _ => howned⟩
  · rename_i s' hinsert
    constructor
    · intro hall
      obtain ⟨a, _, hnone⟩ := (allOwned_insertBucket hinsert howned).mp hall
      cases hnone
    · intro htaken
      rw [KeepsOwner, free_of_insertBucket hinsert] at htaken
      cases htaken

theorem deleteAccount_owned_iff {s : Registry} {id : Int} (settings : Settings)
    (howned : AllOwned s.db) :
    AllOwned (call settings s (.deleteAccount id)).1.db ↔
      KeepsOwner s (.deleteAccount id) := by
  have hlinks : s.deleteAccount id = none ↔ accountExists s.db id = true ∧
      ((∃ l ∈ s.db.shareLink, l.createdByAccountId = id) ∨
        ∃ u ∈ s.db.shareLinkUser, u.accountId = id) := by
    unfold Registry.deleteAccount
    split_ifs with hexists hrefs
    · simp [hexists]
    · simpa [hexists] using hrefs
    · simp only [Bool.or_eq_true, List.any_eq_true, beq_iff_eq, not_or, not_exists,
        not_and] at hrefs
      refine iff_of_false (by simp) ?_
      intro h
      rcases h with ⟨_, ⟨l, hl, hlid⟩ | ⟨u, hu, huid⟩⟩
      · exact hrefs.1 l hl hlid
      · exact hrefs.2 u hu huid
  unfold call
  simp only
  split
  · rename_i hrefused
    exact ⟨fun _ => Or.inr (hlinks.mp hrefused).2, fun _ => howned⟩
  · rename_i s' hdeleted
    rw [allOwned_deleteAccount hdeleted howned, KeepsOwner]
    constructor
    · exact Or.inl
    · intro h
      rcases h with hnone | hrefs
      · exact hnone
      · intro b hb hid
        obtain ⟨a, ha, howner⟩ := howned b hb
        have hexists : accountExists s.db id = true :=
          accountExists_iff.mpr ⟨a, ha, Option.some.inj (howner.symm.trans hid)⟩
        rw [hlinks.mpr ⟨hexists, hrefs⟩] at hdeleted
        cases hdeleted
  · rename_i s' hmissing
    have hgone : accountExists s.db id = false ∧ s' = s := by
      unfold Registry.deleteAccount at hmissing
      split_ifs at hmissing with hexists
      · exact ⟨hexists, (Prod.mk.inj (Option.some.inj hmissing)).2.symm⟩
      · cases hmissing
    rw [hgone.2]
    refine ⟨fun _ => Or.inl fun b hb hid => ?_, fun _ => howned⟩
    obtain ⟨a, ha, howner⟩ := howned b hb
    have hexists : accountExists s.db id = true :=
      accountExists_iff.mpr ⟨a, ha, Option.some.inj (howner.symm.trans hid)⟩
    rw [hgone.1] at hexists
    cases hexists

/-- The statements that may write. -/
def Stage.writes : Stage → Bool
  | .createInsert _ _ => true
  | .createGrant _ _ => true
  | .createAssign _ => true
  | .renameUpdate _ _ _ => true
  | .ownerUpdate _ _ => true
  | .deleteAccount _ => true
  | .ensureInsert _ => true
  | .ensureGrant _ _ => true
  | _ => false

theorem call_reads (settings : Settings) (s : Registry) {t : Stage} (h : t.writes = false) :
    (call settings s t).1 = s := by
  cases t
  all_goals first
    | exact Bool.noConfusion h
    | unfold call
      simp only
      repeat' split
      all_goals rfl

/-- A statement of a task keeps an owner for every bucket, exactly if it is none of those
that take one away. -/
theorem call_owned_iff (settings : Settings) {s : Registry} {t : Stage}
    (howned : AllOwned s.db) : AllOwned (call settings s t).1.db ↔ KeepsOwner s t := by
  cases t with
  | ensureInsert name => exact ensureInsert_owned_iff settings howned
  | deleteAccount id => exact deleteAccount_owned_iff settings howned
  | createInsert actor name => exact iff_of_true (createInsert_owned settings howned) trivial
  | createGrant roleId id =>
    refine iff_of_true ?_ trivial
    unfold call
    simp only
    split
    · exact howned
    · rename_i hgrant
      exact (sameOwners_upsert hgrant).allOwned howned
  | ensureGrant roleId id =>
    refine iff_of_true ?_ trivial
    unfold call
    simp only
    split
    · exact howned
    · rename_i hgrant
      exact (sameOwners_upsert hgrant).allOwned howned
  | createAssign b =>
    refine iff_of_true ?_ trivial
    unfold call
    simp only
    split
    · exact howned
    · rename_i hassign
      exact (sameOwners_assign hassign).allOwned howned
  | renameUpdate id newName ownerAccountId =>
    refine iff_of_true ?_ trivial
    unfold call
    simp only
    split_ifs
    · exact howned
    · split
      · exact howned
      · rename_i hrename
        exact (sameOwners_rename hrename).allOwned howned
  | ownerUpdate id newOwnerId =>
    refine iff_of_true ?_ trivial
    unfold call
    simp only
    split_ifs
    · exact howned
    · split
      · exact howned
      · rename_i hupdate
        exact allOwned_updateBucketOwner hupdate howned
  | _ =>
    refine iff_of_true ?_ trivial
    rw [call_reads settings s rfl]
    exact howned

/-- A step does nothing that takes away an owner. -/
def LeavesOwners (s : State) : Action → Prop
  | .advance i false => ∀ t, s.tasks[i]? = some t → KeepsOwner s.shared t
  | _ => True

/-- Where every bucket has an owner, a step leaves one without exactly if it inserts a
replicated bucket or deletes the account of an owner. -/
theorem owned_step_iff (settings : Settings) {s s' : State} {a : Action}
    (howned : AllOwned s.shared.db) (hstep : step settings s a = some s') :
    AllOwned s'.shared.db ↔ LeavesOwners s a := by
  have hbegin : ∀ (actor : Int) (t : Stage), begin s actor t = some s' →
      AllOwned s'.shared.db := by
    intro actor t h
    unfold begin at h
    split_ifs at h
    rw [← Option.some.inj h]
    exact howned
  cases a with
  | createBucket actor name => exact iff_of_true (hbegin _ _ hstep) trivial
  | patchBucket actor id name ownerAccountId => exact iff_of_true (hbegin _ _ hstep) trivial
  | deleteAccount actor id => exact iff_of_true (hbegin _ _ hstep) trivial
  | ensureBucket name =>
    rw [← Option.some.inj hstep]
    exact iff_of_true howned trivial
  | drop i =>
    obtain ⟨t, _, rfl⟩ := Option.map_eq_some_iff.mp hstep
    exact iff_of_true howned trivial
  | write w =>
    unfold step at hstep
    simp only at hstep
    split_ifs at hstep with hw
    obtain ⟨r, hrun, rfl⟩ := Option.map_eq_some_iff.mp hstep
    have hsame := sameOwners_write (Bool.not_eq_true _ ▸ hw) hrun
    exact iff_of_true (hsame.allOwned howned) trivial
  | advance i fails =>
    obtain ⟨t, r, u, hi, hserve, rfl⟩ := Pool.turn_eq_some.mp hstep
    unfold serve at hserve
    split_ifs at hserve with _ hfails
    · obtain ⟨rfl, rfl⟩ := Prod.mk.inj (Option.some.inj hserve)
      subst hfails
      exact iff_of_true howned trivial
    · have hcall := call_owned_iff settings (t := t) howned
      rw [Option.some.inj hserve] at hcall
      have hfalse : fails = false := Bool.not_eq_true _ ▸ hfails
      subst hfalse
      refine hcall.trans ⟨fun hkeeps v hv => ?_, fun h => h t hi⟩
      rw [hi] at hv
      rw [← Option.some.inj hv]
      exact hkeeps

/-! ### Bootstrap -/

/-- An owner that is set exists: the foreign key of `owner_account_id`. -/
def OwnersExist (db : Db) : Prop :=
  ∀ b ∈ db.bucket.rows, ∀ id, b.ownerAccountId = some id → ∃ a ∈ db.account, a.id = id

/-- The request has claimed the buckets without an owner. -/
def hasClaimed : Bootstrap.Stage → Bool
  | .createSession _ => true
  | .answered (.created _ _) => true
  | _ => false

/-- What holds of the buckets while requests bootstrap the node. -/
structure Claims (s : Registry) (t : Bootstrap.Task) : Prop where
  knows : Bootstrap.Knows s.db t.stage
  owned : hasClaimed t.stage = true → AllOwned s.db

theorem hasClaimed_false {stage : Bootstrap.Stage} (h : stage.hasAccount = false) :
    hasClaimed stage = false := by
  cases stage with
  | answered answer =>
    cases answer with
    | created accountId token => cases h
    | conflict message => rfl
    | failed message => rfl
  | createSession accountId => cases h
  | _ => rfl

theorem ownersExist_grows {db db' : Db} (h : Bootstrap.Grows db db')
    (hbucket : db'.bucket = db.bucket) : OwnersExist db → OwnersExist db' := by
  intro hrefs b hb id hid
  rw [hbucket] at hb
  obtain ⟨a, ha, haid⟩ := hrefs b hb id hid
  exact ⟨a, h.account ha, haid⟩

theorem allOwned_grows {db db' : Db} (h : Bootstrap.Grows db db')
    (hbucket : db'.bucket = db.bucket) : AllOwned db → AllOwned db' := by
  intro howned b hb
  rw [hbucket] at hb
  obtain ⟨a, ha, howner⟩ := howned b hb
  exact ⟨a, h.account ha, howner⟩

theorem AllOwned.ownersExist {db : Db} (h : AllOwned db) : OwnersExist db := by
  intro b hb id hid
  obtain ⟨a, ha, howner⟩ := h b hb
  exact ⟨a, ha, Option.some.inj (howner.symm.trans hid)⟩

/-- A call of bootstrap leaves the buckets alone, or claims those without an owner. -/
theorem bucket_of_move {s s' : Registry} {t u : Bootstrap.Task} (h : Bootstrap.Move s t s' u) :
    (s'.db.bucket = s.db.bucket ∧ (hasClaimed u.stage = true → hasClaimed t.stage = true)) ∨
      ∃ accountId, t.stage = .claimUnownedBuckets accountId ∧
        s' = s.claimUnownedBuckets accountId := by
  cases h with
  | ended stage haccount =>
    refine Or.inl ⟨rfl, fun hu => ?_⟩
    rw [show (t.goOn stage).stage = stage from rfl, hasClaimed_false haccount] at hu
    cases hu
  | insertAccount hstage hinsert =>
    rw [Registry.insertAccount_eq hinsert]
    exact Or.inl ⟨rfl, fun hu => by cases hu⟩
  | getAccountById hstage _ => exact Or.inl ⟨rfl, fun hu => by cases hu⟩
  | getOwnerRole hstage _ => exact Or.inl ⟨rfl, fun hu => by cases hu⟩
  | assignRole hstage hassign =>
    refine Or.inl ⟨?_, fun hu => by cases hu⟩
    unfold Registry.assignRole at hassign
    split_ifs at hassign
    · rw [← Option.some.inj hassign]
    · rw [← Option.some.inj hassign]
      rfl
  | claimUnownedBuckets hstage => exact Or.inr ⟨_, hstage, rfl⟩
  | createSession hstage hsession =>
    rw [Registry.createSession_eq hsession]
    exact Or.inl ⟨rfl, fun _ => by rw [hstage]; rfl⟩

theorem allOwned_claim {s : Registry} {accountId : Int} (hrefs : OwnersExist s.db)
    (haccount : Enabled s.db accountId) : AllOwned (s.claimUnownedBuckets accountId).db := by
  intro b hb
  rcases mem_updateRows.mp hb with ⟨hb, hset⟩ | ⟨b₀, _, _, rfl⟩
  · obtain ⟨id, hid⟩ := Option.isSome_iff_exists.mp
      (show b.ownerAccountId.isSome = true by simpa [Option.isNone_eq_false_iff] using hset)
    obtain ⟨a, ha, haid⟩ := hrefs b hb id hid
    exact ⟨a, ha, by rw [hid, haid]⟩
  · obtain ⟨a, ha, haid, _⟩ := haccount
    exact ⟨a, ha, by rw [haid]; rfl⟩

abbrev Claimed : Bootstrap.State → Prop :=
  Coherent (fun r : Registry => OwnersExist r.db) Claims fun _ _ => True

theorem claimed_step (p q : Bootstrap.State) (a : Bootstrap.Action) (h : Claimed p)
    (hstep : Bootstrap.step p a = some q) : Claimed q := by
  cases a with
  | begin draw =>
    rw [← Option.some.inj hstep]
    exact h.spawn ⟨trivial, fun hclaimed => by cases hclaimed⟩ fun _ _ => trivial
  | drop i =>
    obtain ⟨t, hi, rfl⟩ := Option.map_eq_some_iff.mp hstep
    exact h.replace (fun _ _ _ => trivial) hi h.shared
      ⟨trivial, fun hclaimed => by cases hclaimed⟩ fun _ _ _ hv => ⟨hv, trivial⟩
  | advance i now fails =>
    obtain ⟨t, r, u, hi, hserve, rfl⟩ := Pool.turn_eq_some.mp hstep
    have hmove := Bootstrap.move_of_authBootstrap hserve
    have ht := h.tasks t (List.mem_of_getElem? hi)
    obtain ⟨hgrows, hknows⟩ := Bootstrap.knows_of_move hmove ht.knows
    rcases bucket_of_move hmove with ⟨hbucket, hkept⟩ | ⟨accountId, hstage, rfl⟩
    · exact h.replace (fun _ _ _ => trivial) hi (ownersExist_grows hgrows hbucket h.shared)
        ⟨hknows, fun hu => allOwned_grows hgrows hbucket (ht.owned (hkept hu))⟩
        fun v _ _ hv => ⟨⟨hgrows.knows hv.knows,
          fun hclaimed => allOwned_grows hgrows hbucket (hv.owned hclaimed)⟩, trivial⟩
    · have haccount : Bootstrap.Knows p.shared.db t.stage := ht.knows
      rw [hstage] at haccount
      have hall := allOwned_claim h.shared haccount.1
      exact h.replace (fun _ _ _ => trivial) hi hall.ownersExist ⟨hknows, fun _ => hall⟩
        fun v _ _ hv => ⟨⟨hgrows.knows hv.knows, fun _ => hall⟩, trivial⟩

/-- A bootstrap that answered 201 leaves no bucket without an owner. -/
theorem allOwned_bootstrap (r : Registry) (hrefs : OwnersExist r.db) {p : Bootstrap.State}
    {t : Bootstrap.Task} {accountId : Int} {token : Text}
    (hboot : Run Bootstrap.step anyAction ⟨r, []⟩ p) (ht : t ∈ p.tasks)
    (hcreated : t.stage = .answered (.created accountId token)) : AllOwned p.shared.db := by
  have hclaimed : Claimed p := hboot.invariant
    (fun s a t hs _ hstep => claimed_step s t a hs hstep) (coherent_nil hrefs)
  exact (hclaimed.tasks t ht).owned (by rw [hcreated]; rfl)

/-- After a bootstrap that answered 201, in a run that neither creates a bucket for a
replicated object nor deletes an account that owns one, every bucket has an owner that
exists, and the check of rename, transfer and deletion lets that account through. -/
theorem every_bucket_owned (settings : Settings) (r : Registry) (hrefs : OwnersExist r.db)
    {p : Bootstrap.State} {t : Bootstrap.Task} {accountId : Int} {token : Text} {s : State}
    (hboot : Run Bootstrap.step anyAction ⟨r, []⟩ p) (ht : t ∈ p.tasks)
    (hcreated : t.stage = .answered (.created accountId token))
    (h : Run (step settings) LeavesOwners ⟨p.shared, []⟩ s) :
    ∀ b ∈ s.shared.db.bucket.rows, ∃ a ∈ s.shared.db.account,
      b.ownerAccountId = some a.id ∧ accountOwnsBucket s.shared.db a.id b.id = true := by
  have howned : AllOwned s.shared.db := h.invariant
    (fun s a t hs hok hstep => (owned_step_iff settings hs hstep).mpr hok)
    (allOwned_bootstrap r hrefs hboot ht hcreated)
  intro b hb
  obtain ⟨a, ha, howner⟩ := howned b hb
  exact ⟨a, ha, howner, accountOwnsBucket_iff.mpr ⟨b, hb, rfl, howner⟩⟩

/-- A check that is enough for the condition. -/
def leavesOwners (s : State) : Action → Bool
  | .advance i false =>
    (s.tasks[i]?).all fun t =>
      match t with
      | .ensureInsert _ => false
      | .deleteAccount id => s.shared.db.bucket.rows.all (·.ownerAccountId != some id)
      | _ => true
  | _ => true

theorem leavesOwners_sound {s : State} {a : Action} (h : leavesOwners s a = true) :
    LeavesOwners s a := by
  cases a with
  | advance i fails =>
    cases fails with
    | true => trivial
    | false =>
      intro t hi
      simp only [leavesOwners, hi, Option.all_some] at h
      cases t with
      | ensureInsert name => cases h
      | deleteAccount id => exact Or.inl (by simpa using h)
      | _ => trivial
  | _ => trivial

/-- A node that has started and knows itself as a peer. -/
def startedNode : Registry :=
  Registry.migrated.withDb (startNode Db.migrated sampleCluster) rfl rfl

def sampleSettings : Settings := ⟨sampleCluster.nodeId, .md5⟩

def turns (i n : Nat) : List Action := List.replicate n (.advance i false)

/-- The first account creates a bucket and a second account, and hands the bucket over. -/
def handingOver : List Action :=
  .createBucket 1 "photos".toList :: turns 0 6 ++
    .write (.insertAccount "a2".toList "p2".toList [] (some 1)) ::
      .patchBucket 1 2 none (some 2) :: turns 1 6

/-- The second account hands the bucket back before it is deleted. -/
def handingBack : List Action :=
  .patchBucket 2 2 none (some 1) :: turns 2 6 ++ .deleteAccount 1 2 :: turns 3 2

/-- The first account deletes the second one, which owns the bucket. -/
def deletingOwner : List Action := .deleteAccount 1 2 :: turns 2 2

/-- An object of an unknown bucket arrives. -/
def ensuring : List Action := .ensureBucket "photos".toList :: turns 0 4

def owners (s : State) : List (Text × Option Int) :=
  s.shared.db.bucket.rows.map fun b => (b.name, b.ownerAccountId)

/-- A bucket changes hands and comes back before the account is deleted. -/
theorem every_bucket_owned_handover :
    ∃ p s, exec Bootstrap.step ⟨startedNode, []⟩ LastOwner.bootActions = some p ∧
      execIf (step sampleSettings) leavesOwners ⟨p.shared, []⟩ (handingOver ++ handingBack) =
        some s ∧
      owners s = [("storage".toList, some 1), ("photos".toList, some 1)] ∧
      s.shared.db.account.map (·.id) = [1] ∧
      ∀ b ∈ s.shared.db.bucket.rows, ∃ a ∈ s.shared.db.account,
        b.ownerAccountId = some a.id ∧ accountOwnsBucket s.shared.db a.id b.id = true := by
  refine ⟨_, _, rfl, rfl, rfl, rfl, ?_⟩
  refine every_bucket_owned sampleSettings startedNode ?_
    (run_of_exec (show exec Bootstrap.step _ LastOwner.bootActions = some _ from rfl))
    List.mem_cons_self rfl (run_of_execIf leavesOwners (fun _ _ _ => leavesOwners_sound)
      (show execIf (step sampleSettings) _ _ (handingOver ++ handingBack) = some _ from rfl))
  intro b hb id hid
  rw [List.mem_singleton.mp hb] at hid
  cases hid

/-- A replicated object creates a bucket that nobody owns, and the deletion of an account
leaves its bucket to nobody. -/
theorem bucket_can_lose_owner :
    ∃ p, exec Bootstrap.step ⟨startedNode, []⟩ LastOwner.bootActions = some p ∧
      (∃ t ∈ p.tasks, t.stage = .answered (.created 1 "t1".toList)) ∧
      (∃ s, Run (step sampleSettings) anyAction ⟨p.shared, []⟩ s ∧
        s.tasks = [.answered (.ensured 2)] ∧
        owners s = [("storage".toList, some 1), ("photos".toList, none)] ∧
        ¬ AllOwned s.shared.db) ∧
      ∃ s, Run (step sampleSettings) anyAction ⟨p.shared, []⟩ s ∧
        s.tasks.getLast? = some (.answered .noContent) ∧
        owners s = [("storage".toList, some 1), ("photos".toList, none)] ∧
        ¬ AllOwned s.shared.db := by
  have hnobody : ∀ s : State, (∃ b ∈ s.shared.db.bucket.rows, b.ownerAccountId = none) →
      ¬ AllOwned s.shared.db := by
    intro s h howned
    obtain ⟨b, hb, hnone⟩ := h
    obtain ⟨a, _, howner⟩ := howned b hb
    rw [hnone] at howner
    cases howner
  refine ⟨_, rfl, ⟨_, List.mem_cons_self, rfl⟩, ⟨_, run_of_exec
    (show exec (step sampleSettings) _ ensuring = some _ from rfl), rfl, rfl, hnobody _ ?_⟩,
    _, run_of_exec (show exec (step sampleSettings) _ (handingOver ++ deletingOwner) = some _
      from rfl), rfl, rfl, hnobody _ ?_⟩
  · exact ⟨_, List.mem_cons_of_mem _ List.mem_cons_self, rfl⟩
  · exact ⟨_, List.mem_cons_of_mem _ List.mem_cons_self, rfl⟩

end MyS3.BucketOwners
