import MyS3.AccessTokens
import MyS3.ReadRoutes
import MyS3.S3Map
import MyS3.SettingsRoutes

/-!
Access that is taken away. A session is looked up for every request and the permissions
are computed anew, so what an account has lost its sessions cannot read. A personal
token carries its grant with it: it opens its one object until it expires, whoever minted
it. In a run every write on the tables of access is a step of its own, in any order, and
`create_media_link` mints its token after its checks.
-/

namespace MyS3.Revocation

open Library.Strings Library.Tables Library.Runs Library.Timestamps
open Models Objects Database Engine Rbac Accounts Http SessionAuth MediaAccess AccessTokens
open Shares ContentRoutes ReadRoutes SettingsRoutes
open S3Map (oneUpload)

/-- The account is enabled and has Read on the bucket. -/
def CanRead (db : Db) (a b : Int) : Prop := Enabled db a ∧ checkPerm db a b .read = true

/-- A statement or a transaction that writes a table of access. A session that is looked up
may be deleted, which is `deleteSession` as well. -/
inductive Write
  | insertAccount (usernameHex passwordHash displayName : Text) (createdBy : Option Int)
  | setAccountDisabled (id : Int) (disabled : Bool)
  | updateAccountDisplayName (id : Int) (displayName : Text)
  | setAccountPassword (id : Int) (passwordHash : Text)
  | deleteAccount (id : Int)
  | createRole (name : Text) (position : Int)
  | updateRole (id : Int) (name : Option Text) (position : Option Int)
  | deleteRole (id : Int)
  | setAccountRoles (accountId : Int) (roleIds : List Int)
  | assignRole (accountId roleId : Int)
  | upsertRolePermission (roleId bucketId : Int) (perms : CrudPerms)
  | replaceRolePermissions (roleId : Int) (perms : List (Int × CrudPerms))
  | insertBucket (name : Text) (owner : Option Int) (replicateToAll : Bool) (etagType : EtagType)
  | renameBucket (id : Int) (name : Text)
  | deleteBucket (id : Int)
  | updateBucketOwner (id newOwnerId : Int)
  | claimUnownedBuckets (accountId : Int)
  | createSession (token : Text) (accountId expiresUtc : Int)
  | deleteSession (token : Text)
  | deleteSessionsForAccount (accountId : Int)

/-- The accounts and roles stay while the buckets change. -/
def KeepsAccess (db db' : Db) : Prop :=
  db'.account = db.account ∧ db'.role = db.role ∧ db'.accountRole = db.accountRole

theorem insertBucket_keeps {db db' : Db} {name : Text} {owner : Option Int} {all : Bool}
    {etagType : EtagType} (h : db.insertBucket name owner all etagType = some db') :
    KeepsAccess db db' ∧ db'.roleBucketPermission = db.roleBucketPermission ∧
      db'.bucket.rows =
        db.bucket.rows ++ [BucketTable.newBucket db.bucket.nextId name owner all etagType] := by
  unfold Db.insertBucket at h
  split at h
  · cases h
  · rename_i t ht
    rw [← Option.some.inj h]
    exact ⟨⟨rfl, rfl, rfl⟩, rfl, BucketTable.insert_rows ht⟩

theorem renameBucketRow_keeps {db db' : Db} {id : Int} {name : Text}
    (h : db.renameBucketRow id name = some db') :
    KeepsAccess db db' ∧ db'.roleBucketPermission = db.roleBucketPermission ∧
      db'.bucket.rows =
        updateRows (fun b => b.id == id) (BucketTable.setName name) db.bucket.rows := by
  unfold Db.renameBucketRow at h
  split at h
  · cases h
  · rename_i t ht
    rw [← Option.some.inj h]
    exact ⟨⟨rfl, rfl, rfl⟩, rfl, BucketTable.rename_rows ht⟩

theorem deleteBucketRow_keeps {db db' : Db} {id : Int} (h : db.deleteBucketRow id = some db') :
    KeepsAccess db db' ∧ db'.roleBucketPermission ⊆ db.roleBucketPermission ∧
      db'.bucket.rows ⊆ db.bucket.rows := by
  unfold Db.deleteBucketRow at h
  split at h
  · rw [← Option.some.inj h]
    exact ⟨⟨rfl, rfl, rfl⟩, fun _ hp => List.mem_of_mem_filter hp,
      fun _ hb => List.mem_of_mem_filter hb⟩
  · cases h

/-- A write of the bucket table, which leaves the accounts and roles alone. -/
def onBuckets (s : Registry) (db : Option Db) (h : ∀ t ∈ db, KeepsAccess s.db t) :
    Option Registry :=
  db.pmap (fun t ht => s.withDb t ht.1 ht.2.1) h

namespace Write

def run (s : Registry) : Write → Option Registry
  | .insertAccount usernameHex passwordHash displayName createdBy =>
    s.insertAccount usernameHex passwordHash displayName createdBy
  | .setAccountDisabled id disabled => s.setAccountDisabled id disabled
  | .updateAccountDisplayName id displayName => s.updateAccountDisplayName id displayName
  | .setAccountPassword id passwordHash => s.setAccountPassword id passwordHash
  | .deleteAccount id => (s.deleteAccount id).map (·.2)
  | .createRole name position => s.createRole name position
  | .updateRole id name position => (s.updateRole id name position).toOption
  | .deleteRole id => (s.deleteRole id).toOption
  | .setAccountRoles accountId roleIds => s.setAccountRoles accountId roleIds
  | .assignRole accountId roleId => s.assignRole accountId roleId
  | .upsertRolePermission roleId bucketId perms => s.upsertRolePermission roleId bucketId perms
  | .replaceRolePermissions roleId perms => s.replaceRolePermissions roleId perms
  | .insertBucket name owner all etagType =>
    onBuckets s (s.db.insertBucket name owner all etagType) fun _ h => (insertBucket_keeps h).1
  | .renameBucket id name =>
    onBuckets s (s.db.renameBucketRow id name) fun _ h => (renameBucketRow_keeps h).1
  | .deleteBucket id => onBuckets s (s.db.deleteBucketRow id) fun _ h => (deleteBucketRow_keeps h).1
  | .updateBucketOwner id newOwnerId => s.updateBucketOwner id newOwnerId
  | .claimUnownedBuckets accountId => some (s.claimUnownedBuckets accountId)
  | .createSession token accountId expiresUtc => s.createSession token accountId expiresUtc
  | .deleteSession token => some (s.withDb (Rbac.deleteSession s.db token) rfl rfl)
  | .deleteSessionsForAccount accountId => some (s.deleteSessionsForAccount accountId)

/-- The writes that give an account a bucket, a role, or itself back, and those that let a
role read the bucket. -/
def Grants (s : Registry) (a b : Int) : Write → Prop
  | .setAccountDisabled id disabled => id = a ∧ disabled = false
  | .setAccountRoles accountId _ => accountId = a
  | .assignRole accountId _ => accountId = a
  | .upsertRolePermission _ bucketId perms => bucketId = b ∧ perms.canRead = true
  | .replaceRolePermissions _ perms => ∃ p ∈ perms, p.1 = b ∧ p.2.canRead = true
  | .insertBucket _ owner _ _ => owner = some a ∧ s.db.bucket.nextId = b
  | .updateBucketOwner id newOwnerId => id = b ∧ newOwnerId = a
  | .claimUnownedBuckets accountId => accountId = a
  | _ => False

end Write

/-- What the account may read of the bucket afterwards it could read before. -/
structure Narrows (db db' : Db) (a b : Int) : Prop where
  enabled : Enabled db' a → Enabled db a
  owned : ∀ c ∈ db'.bucket.rows, c.id = b → c.ownerAccountId = some a →
    ∃ c' ∈ db.bucket.rows, c'.id = b ∧ c'.ownerAccountId = some a
  roles : ∀ ar ∈ db'.accountRole, ar.accountId = a → ar ∈ db.accountRole
  ownerRole : ∀ r ∈ db'.role, r.isOwner = true → ∃ r' ∈ db.role, r'.id = r.id ∧ r'.isOwner = true
  perms : ∀ p ∈ db'.roleBucketPermission, p.bucketId = b → p.perms.canRead = true →
    p ∈ db.roleBucketPermission

theorem Narrows.canRead {db db' : Db} {a b : Int} (h : Narrows db db' a b)
    (hread : CanRead db' a b) : CanRead db a b := by
  refine ⟨h.enabled hread.1, checkPerm_iff.mpr ?_⟩
  rcases checkPerm_iff.mp hread.2 with howns | howner | ⟨p, hp, hpb, hallows, ar, har, haid, hrole⟩
  · obtain ⟨c, hc, hid, howner⟩ := accountOwnsBucket_iff.mp howns
    exact Or.inl (accountOwnsBucket_iff.mpr (h.owned c hc hid howner))
  · obtain ⟨ar, har, haid, r, hr, hrid, howner⟩ := accountIsOwner_iff.mp howner
    obtain ⟨r', hr', hid, howner'⟩ := h.ownerRole r hr howner
    exact Or.inr (Or.inl (accountIsOwner_iff.mpr
      ⟨ar, h.roles ar har haid, haid, r', hr', hid.trans hrid, howner'⟩))
  · exact Or.inr (Or.inr ⟨p, h.perms p hp hpb hallows, hpb, hallows, ar, h.roles ar har haid,
      haid, hrole⟩)

theorem Narrows.refl (db : Db) (a b : Int) : Narrows db db a b where
  enabled h := h
  owned c hc hid howner := ⟨c, hc, hid, howner⟩
  roles _ h _ := h
  ownerRole r hr howner := ⟨r, hr, rfl, howner⟩
  perms _ h _ _ := h

theorem narrows_of_keeps {db db' : Db} {a b : Int} (h : KeepsAccess db db')
    (howned : ∀ c ∈ db'.bucket.rows, c.id = b → c.ownerAccountId = some a →
      ∃ c' ∈ db.bucket.rows, c'.id = b ∧ c'.ownerAccountId = some a)
    (hperms : ∀ p ∈ db'.roleBucketPermission, p.bucketId = b → p.perms.canRead = true →
      p ∈ db.roleBucketPermission) : Narrows db db' a b := by
  obtain ⟨haccount, hrole, haccountRole⟩ := h
  refine ⟨?_, howned, ?_, ?_, hperms⟩
  · unfold Enabled
    rw [haccount]
    exact fun h => h
  · rw [haccountRole]
    exact fun _ har _ => har
  · rw [hrole]
    exact fun r hr howner => ⟨r, hr, rfl, howner⟩

theorem narrows_insertAccount {s s' : Registry} {usernameHex passwordHash displayName : Text}
    {createdBy : Option Int}
    (h : s.insertAccount usernameHex passwordHash displayName createdBy = some s') :
    s.nextAccountId ≤ s'.nextAccountId ∧
      ∀ a b, a < s.nextAccountId → Narrows s.db s'.db a b := by
  unfold Registry.insertAccount at h
  split_ifs at h
  rw [← Option.some.inj h]
  refine ⟨Int.le_add_one (le_refl _), fun a b hused => ?_⟩
  refine { Narrows.refl s.db a b with enabled := ?_ }
  intro h'
  obtain ⟨x, hx, hxid, hen⟩ := h'
  rcases List.mem_append.mp hx with hx | hx
  · exact ⟨x, hx, hxid, hen⟩
  · rw [List.mem_singleton.mp hx] at hxid
    exact absurd hxid (ne_of_gt hused)

/-- An update of one account enables no other, and this one only if it says so. -/
theorem narrows_updateAccount {s s' : Registry} {id a b : Int} {f : AccountRecord → AccountRecord}
    {hid : ∀ x, (f x).id = x.id} (h : s.updateAccount id f hid = some s')
    (hon : ∀ x, x.id = id → id = a → (f x).isDisabled = false → x.isDisabled = false) :
    Narrows s.db s'.db a b := by
  rw [(Registry.updateAccount_eq h).1]
  refine { Narrows.refl s.db a b with enabled := ?_ }
  intro h'
  obtain ⟨x, hx, hxid, hen⟩ := h'
  rcases mem_updateRows.mp hx with ⟨hx, _⟩ | ⟨y, hy, htarget, rfl⟩
  · exact ⟨x, hx, hxid, hen⟩
  · have hyid : y.id = id := by simpa using htarget
    rw [hid] at hxid
    exact ⟨y, hy, hxid, hon y hyid (hyid.symm.trans hxid) hen⟩

theorem narrows_updateOwners (db : Db) (p : BucketRecord → Bool) (owner : Option Int) {a b : Int}
    (h : ∀ c, p c = true → c.id = b → owner ≠ some a) :
    Narrows db (Registry.updateOwners db p owner) a b := by
  refine narrows_of_keeps ⟨rfl, rfl, rfl⟩ ?_ fun _ hp _ _ => hp
  intro c hc hid howner
  rcases mem_updateRows.mp hc with ⟨hc, _⟩ | ⟨c', hc', hpc, rfl⟩
  · exact ⟨c, hc, hid, howner⟩
  · exact absurd howner (h c' hpc hid)

theorem narrows_deleteAccount {s s' : Registry} {id : Int} {deleted : Bool}
    (h : s.deleteAccount id = some (deleted, s')) :
    s.nextAccountId ≤ s'.nextAccountId ∧ ∀ a b, Narrows s.db s'.db a b := by
  unfold Registry.deleteAccount at h
  split_ifs at h
  · rw [← (Prod.mk.inj (Option.some.inj h)).2]
    exact ⟨le_refl _, Narrows.refl s.db⟩
  · rw [← (Prod.mk.inj (Option.some.inj h)).2]
    refine ⟨le_refl _, fun a b => ?_⟩
    have howners :
        Narrows s.db (Registry.updateOwners s.db (·.ownerAccountId == some id) none) a b :=
      narrows_updateOwners s.db _ none fun _ _ _ => by simp
    refine { howners with enabled := ?_, roles := ?_ }
    · intro h'
      obtain ⟨x, hx, hxid, hen⟩ := h'
      obtain ⟨y, hy, rfl⟩ := List.mem_map.mp hx
      exact ⟨y, List.mem_of_mem_filter hy, hxid, hen⟩
    · exact fun ar har _ => List.mem_of_mem_filter har

theorem narrows_createRole {s s' : Registry} {name : Text} {position : Int}
    (h : s.createRole name position = some s') :
    s.nextAccountId ≤ s'.nextAccountId ∧ ∀ a b, Narrows s.db s'.db a b := by
  unfold Registry.createRole at h
  split_ifs at h
  rw [← Option.some.inj h]
  refine ⟨le_refl _, fun a b => ?_⟩
  refine { Narrows.refl s.db a b with ownerRole := ?_ }
  intro r hr howner
  rcases List.mem_append.mp hr with hr | hr
  · exact ⟨r, hr, rfl, howner⟩
  · rw [List.mem_singleton.mp hr] at howner
    cases howner

theorem narrows_updateRole {s s' : Registry} {id : Int} {name : Option Text}
    {position : Option Int} (h : s.updateRole id name position = .ok s') :
    s.nextAccountId ≤ s'.nextAccountId ∧ ∀ a b, Narrows s.db s'.db a b := by
  unfold Registry.updateRole at h
  split at h
  · cases h
  · simp only at h
    split_ifs at h
    rw [← Except.ok.inj h]
    refine ⟨le_refl _, fun a b => ?_⟩
    refine { Narrows.refl s.db a b with ownerRole := ?_ }
    intro r hr howner
    rcases mem_updateRows.mp hr with ⟨hr, _⟩ | ⟨r', hr', _, rfl⟩
    · exact ⟨r, hr, rfl, howner⟩
    · exact ⟨r', hr', rfl, howner⟩

theorem narrows_deleteRole {s s' : Registry} {id : Int} (h : s.deleteRole id = .ok s') :
    s.nextAccountId ≤ s'.nextAccountId ∧ ∀ a b, Narrows s.db s'.db a b := by
  unfold Registry.deleteRole at h
  split at h
  · cases h
  · split_ifs at h
    rw [← Except.ok.inj h]
    refine ⟨le_refl _, fun a b => ?_⟩
    refine { Narrows.refl s.db a b with roles := ?_, ownerRole := ?_, perms := ?_ }
    · exact fun ar har _ => List.mem_of_mem_filter har
    · exact fun r hr howner => ⟨r, List.mem_of_mem_filter hr, rfl, howner⟩
    · exact fun p hp _ _ => List.mem_of_mem_filter hp

theorem onBuckets_eq {s s' : Registry} {db : Option Db} {h : ∀ t ∈ db, KeepsAccess s.db t}
    (hrun : onBuckets s db h = some s') : db = some s'.db ∧ s'.nextAccountId = s.nextAccountId := by
  unfold onBuckets at hrun
  obtain ⟨t, ht, hdb, rfl⟩ := Option.pmap_eq_some_iff.mp hrun
  exact ⟨hdb, rfl⟩

theorem toOption_eq_some {ε α : Type} {x : Except ε α} {y : α} (h : x.toOption = some y) :
    x = .ok y := by
  cases x with
  | error e => cases h
  | ok z => rw [Option.some.inj h]

/-- Roles are taken away, or assigned to another account. -/
theorem narrows_roles {db : Db} {kept added : List AccountRole} {a b : Int}
    (hkept : kept ⊆ db.accountRole) (hadded : ∀ ar ∈ added, ar.accountId ≠ a) :
    Narrows db { db with accountRole := kept ++ added } a b := by
  refine { Narrows.refl db a b with roles := ?_ }
  intro ar har haid
  rcases List.mem_append.mp har with har | har
  · exact hkept har
  · exact absurd haid (hadded ar har)

/-- Permissions are taken away, or do not let a role read the bucket. -/
theorem narrows_perms {db : Db} {kept added : List RoleBucketPermission} {a b : Int}
    (hkept : kept ⊆ db.roleBucketPermission)
    (hadded : ∀ p ∈ added, ¬ (p.bucketId = b ∧ p.perms.canRead = true)) :
    Narrows db { db with roleBucketPermission := kept ++ added } a b := by
  refine { Narrows.refl db a b with perms := ?_ }
  intro p hp hpb hread
  rcases List.mem_append.mp hp with hp | hp
  · exact hkept hp
  · exact absurd ⟨hpb, hread⟩ (hadded p hp)

/-- What a write can do: it gives out no account id a second time, and where it grants nothing
it narrows what an account may read. -/
theorem run_spec {s s' : Registry} {w : Write} (h : w.run s = some s') :
    s.nextAccountId ≤ s'.nextAccountId ∧
      ∀ a b, a < s.nextAccountId → ¬ w.Grants s a b → Narrows s.db s'.db a b := by
  cases w with
  | insertAccount usernameHex passwordHash displayName createdBy =>
    obtain ⟨hnext, hnarrows⟩ := narrows_insertAccount h
    exact ⟨hnext, fun a b hused _ => hnarrows a b hused⟩
  | setAccountDisabled id disabled =>
    have hupdate : s.updateAccount id (fun x => { x with isDisabled := disabled })
        (fun _ => rfl) = some s' := h
    refine ⟨(Registry.updateAccount_eq hupdate).2.ge, fun a b _ hgrants => ?_⟩
    exact narrows_updateAccount hupdate fun x _ hid hon => absurd ⟨hid, hon⟩ hgrants
  | updateAccountDisplayName id displayName =>
    have hupdate : s.updateAccount id (fun x => { x with displayName := displayName })
        (fun _ => rfl) = some s' := h
    refine ⟨(Registry.updateAccount_eq hupdate).2.ge, fun a b _ _ => ?_⟩
    exact narrows_updateAccount hupdate fun x _ _ hon => hon
  | setAccountPassword id passwordHash =>
    have hupdate : s.updateAccount id (fun x => { x with passwordHash := passwordHash })
        (fun _ => rfl) = some s' := h
    refine ⟨(Registry.updateAccount_eq hupdate).2.ge, fun a b _ _ => ?_⟩
    exact narrows_updateAccount hupdate fun x _ _ hon => hon
  | deleteAccount id =>
    obtain ⟨⟨deleted, t⟩, hdelete, rfl⟩ := Option.map_eq_some_iff.mp h
    obtain ⟨hnext, hnarrows⟩ := narrows_deleteAccount hdelete
    exact ⟨hnext, fun a b _ _ => hnarrows a b⟩
  | createRole name position =>
    obtain ⟨hnext, hnarrows⟩ := narrows_createRole h
    exact ⟨hnext, fun a b _ _ => hnarrows a b⟩
  | updateRole id name position =>
    obtain ⟨hnext, hnarrows⟩ := narrows_updateRole (toOption_eq_some h)
    exact ⟨hnext, fun a b _ _ => hnarrows a b⟩
  | deleteRole id =>
    obtain ⟨hnext, hnarrows⟩ := narrows_deleteRole (toOption_eq_some h)
    exact ⟨hnext, fun a b _ _ => hnarrows a b⟩
  | setAccountRoles accountId roleIds =>
    have hdb := (Registry.setAccountRoles_eq h).1
    obtain ⟨_, _, rfl⟩ := Option.map_eq_some_iff.mp h
    refine ⟨le_refl _, fun a b _ hgrants => ?_⟩
    rw [hdb]
    refine narrows_roles (fun _ har => List.mem_of_mem_filter har) fun ar har => ?_
    obtain ⟨roleId, _, rfl⟩ := List.mem_map.mp har
    exact hgrants
  | assignRole accountId roleId =>
    simp only [Write.run, Registry.assignRole] at h
    split_ifs at h
    · rw [← Option.some.inj h]
      exact ⟨le_refl _, fun a b _ _ => Narrows.refl s.db a b⟩
    · rw [← Option.some.inj h]
      refine ⟨le_refl _, fun a b _ hgrants => narrows_roles (fun _ har => har) fun ar har => ?_⟩
      rw [List.mem_singleton.mp har]
      exact hgrants
  | upsertRolePermission roleId bucketId perms =>
    simp only [Write.run, Registry.upsertRolePermission] at h
    split_ifs at h
    rw [← Option.some.inj h]
    refine ⟨le_refl _, fun a b _ hgrants => ?_⟩
    refine narrows_perms (fun _ hp => List.mem_of_mem_filter hp) fun p hp => ?_
    rw [List.mem_singleton.mp hp]
    exact hgrants
  | replaceRolePermissions roleId perms =>
    have hdb := Registry.replaceRolePermissions_eq h
    obtain ⟨_, _, rfl⟩ := Option.map_eq_some_iff.mp h
    refine ⟨le_refl _, fun a b _ hgrants => ?_⟩
    rw [hdb]
    refine narrows_perms (fun _ hp => List.mem_of_mem_filter hp) fun p hp hreads => ?_
    obtain ⟨entry, hentry, rfl⟩ := List.mem_map.mp hp
    exact hgrants ⟨entry, hentry, hreads⟩
  | insertBucket name owner all etagType =>
    obtain ⟨hdb, hnext⟩ := onBuckets_eq h
    obtain ⟨hkeeps, hperms, hrows⟩ := insertBucket_keeps hdb
    refine ⟨hnext.ge, fun a b _ hgrants => narrows_of_keeps hkeeps ?_ fun p hp _ _ => hperms ▸ hp⟩
    intro c hc hid howner
    rw [hrows] at hc
    rcases List.mem_append.mp hc with hc | hc
    · exact ⟨c, hc, hid, howner⟩
    · rw [List.mem_singleton.mp hc] at hid howner
      exact absurd ⟨howner, hid⟩ hgrants
  | renameBucket id name =>
    obtain ⟨hdb, hnext⟩ := onBuckets_eq h
    obtain ⟨hkeeps, hperms, hrows⟩ := renameBucketRow_keeps hdb
    refine ⟨hnext.ge, fun a b _ _ => narrows_of_keeps hkeeps ?_ fun p hp _ _ => hperms ▸ hp⟩
    intro c hc hid howner
    rw [hrows] at hc
    rcases mem_updateRows.mp hc with ⟨hc, _⟩ | ⟨c', hc', _, rfl⟩
    · exact ⟨c, hc, hid, howner⟩
    · exact ⟨c', hc', hid, howner⟩
  | deleteBucket id =>
    obtain ⟨hdb, hnext⟩ := onBuckets_eq h
    obtain ⟨hkeeps, hperms, hrows⟩ := deleteBucketRow_keeps hdb
    exact ⟨hnext.ge, fun a b _ _ => narrows_of_keeps hkeeps
      (fun c hc hid howner => ⟨c, hrows hc, hid, howner⟩) fun p hp _ _ => hperms hp⟩
  | updateBucketOwner id newOwnerId =>
    simp only [Write.run, Registry.updateBucketOwner] at h
    split_ifs at h
    rw [← Option.some.inj h]
    refine ⟨le_refl _, fun a b _ hgrants => narrows_updateOwners s.db _ _ fun c hc hid howner => ?_⟩
    exact hgrants ⟨(beq_iff_eq.mp hc).symm.trans hid, Option.some.inj howner⟩
  | claimUnownedBuckets accountId =>
    rw [← Option.some.inj h]
    exact ⟨le_refl _, fun a b _ hgrants => narrows_updateOwners s.db _ _ fun _ _ _ howner =>
      hgrants (Option.some.inj howner)⟩
  | createSession token accountId expiresUtc =>
    simp only [Write.run, Registry.createSession] at h
    split_ifs at h
    rw [← Option.some.inj h]
    exact ⟨le_refl _, fun a b _ _ => { Narrows.refl s.db a b with }⟩
  | deleteSession token =>
    rw [← Option.some.inj h]
    exact ⟨le_refl _, fun a b _ _ => { Narrows.refl s.db a b with }⟩
  | deleteSessionsForAccount accountId =>
    rw [← Option.some.inj h]
    exact ⟨le_refl _, fun a b _ _ => { Narrows.refl s.db a b with }⟩

/-- A personal token: what it opens, and when it was minted. -/
structure Minted where
  target : LinkTarget
  issuedAt : Instant
  deriving DecidableEq

def Minted.token (M : MediaCodec) (config : Config) (m : Minted) : Text :=
  (mintPersonalToken M config m.issuedAt m.target.accountId m.target.bucketId m.target.key).1

/-- The second in which the token expires, a day after it was minted. -/
def Minted.expires (m : Minted) : Int := m.issuedAt.nanos / nanosPerSec + personalTtlSecs

/-- The node, the link requests that have passed their checks, and the tokens. -/
structure State where
  config : Config
  disk : Disk
  registry : Registry
  pending : List LinkTarget
  minted : List Minted

def State.app (s : State) : AppState := ⟨s.config, s.registry.db, s.disk⟩

/-- The columns of a bucket that access depends on. -/
def bucketKey (b : BucketRecord) : Int × Text × Option Int := (b.id, b.name, b.ownerAccountId)

inductive Action
  | write (w : Write)
  /-- Everything else becomes as it is in another state: objects, shares, peers, the disk. -/
  | content (t : AppState)
  | requestLink (now : Instant) (headers : Headers) (rawKey : Text) (bucket : Option Text)
  | mintLink (i : Nat) (now : Instant)

def withContent (s : Registry) (db : Db) : Registry :=
  s.withDb { db with
    account := s.db.account
    role := s.db.role
    accountRole := s.db.accountRole
    roleBucketPermission := s.db.roleBucketPermission
    session := s.db.session } rfl rfl

def step (s : State) : Action → Option State
  | .write w => (w.run s.registry).map fun registry => { s with registry := registry }
  | .content t =>
    if t.db.bucket.rows.map bucketKey = s.registry.db.bucket.rows.map bucketKey then
      some { s with disk := t.disk, registry := withContent s.registry t.db }
    else none
  | .requestLink now headers rawKey bucket =>
    match authAccount s.app now headers with
    | (.error _, _) => none
    | (.ok account, app) =>
      match personalLinkTarget app now account.id rawKey bucket with
      | .ok (some target) => some { s with pending := s.pending ++ [target] }
      | _ => none
  | .mintLink i now =>
    s.pending[i]?.map fun target =>
      { s with pending := s.pending.eraseIdx i, minted := s.minted ++ [⟨target, now⟩] }

/-- A write that could give the account its access back does not. -/
def NoGrant (a b : Int) (s : State) (act : Action) : Prop :=
  ∀ w, act = .write w → w.Grants s.registry a b →
    ∀ t, step s act = some t → ¬ CanRead t.registry.db a b

/-- A session of an account that is let through is left as it is. -/
theorem authAccount_ok {s t : AppState} {now : Instant} {headers : Headers}
    {account : AccountRecord} (h : authAccount s now headers = (.ok account, t)) :
    t = s ∧ Enabled s.db account.id := by
  unfold authAccount at h
  split at h
  · cases h
  · split at h
    · rename_i db hres
      obtain ⟨hauth, hdb⟩ := isAuthenticated_of_resolveSession hres
      obtain ⟨haccount, ht⟩ := Prod.mk.inj h
      rw [← Except.ok.inj haccount, ← ht, hdb]
      exact ⟨rfl, enabled_of_authenticated hauth⟩
    · cases (Prod.mk.inj h).1

theorem personalLinkTarget_ok {s : AppState} {now : Instant} {accountId : Int} {rawKey : Text}
    {bucket : Option Text} {target : LinkTarget}
    (h : personalLinkTarget s now accountId rawKey bucket = .ok (some target)) :
    target.accountId = accountId ∧ checkPerm s.db accountId target.bucketId .read = true := by
  obtain ⟨id, hid, hkey⟩ := bind_eq_ok.mp h
  obtain ⟨key, _, htarget⟩ := bind_eq_ok.mp hkey
  split_ifs at htarget
  · cases htarget
  · cases htarget
  · rw [← Option.some.inj (Except.ok.inj htarget)]
    exact ⟨rfl, readableBucket_ok hid⟩

theorem narrows_content {s : Registry} {db : Db} {a b : Int}
    (h : db.bucket.rows.map bucketKey = s.db.bucket.rows.map bucketKey) :
    Narrows s.db (withContent s db).db a b := by
  refine narrows_of_keeps ⟨rfl, rfl, rfl⟩ ?_ fun _ hp _ _ => hp
  intro c hc hid howner
  have hmem : bucketKey c ∈ s.db.bucket.rows.map bucketKey := h ▸ List.mem_map_of_mem hc
  obtain ⟨c', hc', heq⟩ := List.mem_map.mp hmem
  simp only [bucketKey, Prod.mk.injEq] at heq
  exact ⟨c', hc', heq.1.trans hid, heq.2.2.trans howner⟩

theorem nextAccountId_step {s t : State} {act : Action} (h : step s act = some t) :
    s.registry.nextAccountId ≤ t.registry.nextAccountId := by
  cases act with
  | write w =>
    obtain ⟨registry, hrun, rfl⟩ := Option.map_eq_some_iff.mp h
    exact (run_spec hrun).1
  | content u =>
    simp only [step] at h
    split_ifs at h
    rw [← Option.some.inj h]
    exact le_refl _
  | requestLink now headers rawKey bucket =>
    simp only [step] at h
    split at h
    · cases h
    · split at h
      · rw [← Option.some.inj h]
      · cases h
  | mintLink i now =>
    obtain ⟨target, _, rfl⟩ := Option.map_eq_some_iff.mp h
    exact le_refl _

/-- Since a state in which the account could not read the bucket: it still cannot, and what
links of its own there are had passed their checks by then. -/
structure LostSince (s₀ : State) (a b : Int) (s : State) : Prop where
  used : a < s.registry.nextAccountId
  lost : ¬ CanRead s.registry.db a b
  pending : ∀ target ∈ s.pending, target.accountId = a → target.bucketId = b →
    target ∈ s₀.pending
  minted : ∀ m ∈ s.minted, m.target.accountId = a → m.target.bucketId = b →
    m ∈ s₀.minted ∨ m.target ∈ s₀.pending

theorem lostSince_step (s₀ : State) (a b : Int) (s : State) (act : Action) (t : State)
    (h : LostSince s₀ a b s) (hok : NoGrant a b s act) (hstep : step s act = some t) :
    LostSince s₀ a b t := by
  have hused : a < t.registry.nextAccountId := lt_of_lt_of_le h.used (nextAccountId_step hstep)
  cases act with
  | write w =>
    have hlost : ¬ CanRead t.registry.db a b := by
      by_cases hgrants : w.Grants s.registry a b
      · exact hok w rfl hgrants t hstep
      · obtain ⟨registry, hrun, rfl⟩ := Option.map_eq_some_iff.mp hstep
        exact fun hread => h.lost (((run_spec hrun).2 a b h.used hgrants).canRead hread)
    obtain ⟨registry, _, rfl⟩ := Option.map_eq_some_iff.mp hstep
    exact ⟨hused, hlost, h.pending, h.minted⟩
  | content u =>
    simp only [step] at hstep
    split_ifs at hstep with hkeys
    rw [← Option.some.inj hstep] at hused ⊢
    exact ⟨hused, fun hread => h.lost ((narrows_content hkeys).canRead hread), h.pending, h.minted⟩
  | requestLink now headers rawKey bucket =>
    simp only [step] at hstep
    split at hstep
    · cases hstep
    · rename_i account app hauth
      obtain ⟨rfl, hon⟩ := authAccount_ok hauth
      split at hstep
      · rename_i target htarget
        obtain ⟨hid, hperm⟩ := personalLinkTarget_ok htarget
        rw [← Option.some.inj hstep]
        refine ⟨h.used, h.lost, ?_, h.minted⟩
        intro other hmem ha hb
        rcases List.mem_append.mp hmem with hmem | hmem
        · exact h.pending other hmem ha hb
        · -- The request passed its check just now, so the account can read the bucket.
          rw [List.mem_singleton.mp hmem] at ha hb
          rw [hid] at ha
          rw [ha] at hon hperm
          rw [hb] at hperm
          exact absurd ⟨hon, hperm⟩ h.lost
      · cases hstep
  | mintLink i now =>
    obtain ⟨target, htarget, rfl⟩ := Option.map_eq_some_iff.mp hstep
    have hmem := List.mem_of_getElem? htarget
    refine ⟨h.used, h.lost, ?_, ?_⟩
    · exact fun other hother => h.pending other (List.mem_of_mem_eraseIdx hother)
    · intro m hm ha hb
      rcases List.mem_append.mp hm with hm | hm
      · exact h.minted m hm ha hb
      · rw [List.mem_singleton.mp hm] at ha hb ⊢
        exact Or.inr (h.pending target hmem ha hb)

theorem lostSince_of_run {r s t : State} {a b : Int} (hrs : Run step anyAction r s)
    (haccount : accountExists r.registry.db a = true) (hlost : ¬ CanRead s.registry.db a b)
    (hst : Run step (NoGrant a b) s t) : LostSince s a b t := by
  obtain ⟨x, hx, rfl⟩ := accountExists_iff.mp haccount
  have hused : x.id < s.registry.nextAccountId :=
    hrs.invariant (fun u _ v hu _ hstep => lt_of_lt_of_le hu (nextAccountId_step hstep))
      (r.registry.account_lt x hx)
  exact hst.invariant (lostSince_step s x.id b)
    ⟨hused, hlost, fun _ h _ _ => h, fun _ h _ _ => Or.inl h⟩

theorem optionalAuth_some {s t : AppState} {now : Instant} {headers : Headers}
    {account : AccountRecord} (h : optionalAuth s now headers = (some account, t)) :
    t = s ∧ Enabled s.db account.id := by
  unfold optionalAuth at h
  split at h
  · cases h
  · rename_i token _
    rcases hres : resolveSession s.db now token with ⟨found, db⟩
    simp only [hres, Prod.mk.injEq] at h
    obtain ⟨rfl, rfl⟩ := h
    obtain ⟨hauth, rfl⟩ := isAuthenticated_of_resolveSession hres
    exact ⟨rfl, enabled_of_authenticated hauth⟩

/-- No session of the account reads the bucket: no answer to it is made from the bucket, and
no share for readers of the bucket lets it in. -/
structure NoSessionReads (s : AppState) (a b : Int) : Prop where
  routes : ∀ P q instant now headers req account, (authAccount s now headers).1 = .ok account →
    account.id = a → ∀ scope answer,
      serveRead P q instant s now headers req = .ok (scope, answer) →
        scope.covers b = false ∧ ∀ r ∈ answer.listed, r.bucketId ≠ b
  shares : ∀ M now headers account t share access, optionalAuth s now headers = (some account, t) →
    account.id = a → share.bucketId = b → share.accessMode = .bucketReaders →
      accessTokenGrantsShare M t now share access = false →
        authorizeShare M t now share (some account) access ≠ .ok ()

theorem noSessionReads_of_lost {s : AppState} {a b : Int} (h : ¬ CanRead s.db a b) :
    NoSessionReads s a b := by
  constructor
  · intro P q instant now headers req account haccount h' scope answer hserve
    obtain rfl := h'
    rcases hauth : authAccount s now headers with ⟨found, t⟩
    rw [hauth] at haccount
    simp only at haccount
    rw [haccount] at hauth
    unfold serveRead at hserve
    rw [hauth] at hserve
    obtain ⟨rfl, hon⟩ := authAccount_ok hauth
    have hscope : scope.covers b = false := by
      by_contra hcovers
      exact h ⟨hon, answer_ok hserve (Bool.not_eq_false _ ▸ hcovers)⟩
    refine ⟨hscope, ?_⟩
    intro r hr h'
    obtain rfl := h'
    rw [listed_in_scope hserve hr] at hscope
    cases hscope
  · intro M now headers account t share access hauth h' hyp hmode haccess hallowed
    obtain rfl := h'
    obtain rfl := hyp
    obtain ⟨rfl, hon⟩ := optionalAuth_some hauth
    unfold authorizeShare at hallowed
    rw [hmode] at hallowed
    split at hallowed
    · cases hallowed
    · simp only [haccess, Bool.false_eq_true, if_false] at hallowed
      split_ifs at hallowed with hperm
      · exact h ⟨hon, hperm⟩
      · cases hallowed

section Tokens

variable (hmac : Bytes → Bytes → Bytes)

theorem verify_minted (config : Config) (now : Instant) {m : Minted}
    (haccount : IsI64 m.target.accountId) (hbucket : IsI64 m.target.bucketId) :
    verifyAccessToken (.standard hmac) config now (m.token (.standard hmac) config) =
      if m.expires < nowUnix now then .error "access token expired".toList
      else .ok (.personal m.target.accountId m.target.bucketId m.target.key m.expires) := by
  have hmint : (MintCall.personal m.target.accountId m.target.bucketId m.target.key).mint
      (.standard hmac) config m.issuedAt = .ok (m.token (.standard hmac) config, m.expires) := rfl
  have hids : MintCall.InRange (.personal m.target.accountId m.target.bucketId m.target.key) :=
    ⟨haccount, hbucket⟩
  rw [(mint_ok hmint).1]
  exact verifyAccessToken_tokenOf hmac config (inRange_grant hids hmint) now

/-- A personal token opens the object that it names, until it expires, and nothing else. -/
def OpensItsObject (M : MediaCodec) (s : AppState) (m : Minted) : Prop :=
  ∀ now rawKey bucket b k,
    personalGrant M s now rawKey bucket (m.token M s.config) = .ok (b, k) ↔
      (b = m.target.bucketId ∧ k = m.target.key) ∧ parseKey rawKey = .ok k ∧
        (∃ name, resolveBucketId s bucket = .ok (b, name)) ∧ nowUnix now ≤ m.expires

theorem opensItsObject (s : AppState) {m : Minted} (haccount : IsI64 m.target.accountId)
    (hbucket : IsI64 m.target.bucketId) : OpensItsObject (.standard hmac) s m := by
  intro now rawKey bucket b k
  unfold personalGrant
  rw [verify_minted hmac s.config now haccount hbucket, bind_eq_ok]
  by_cases hexpired : m.expires < nowUnix now
  · rw [if_pos hexpired]
    constructor
    · intro h
      obtain ⟨key, _, herror⟩ := h
      cases herror
    · intro h
      obtain ⟨_, _, _, hlive⟩ := h
      exact absurd hlive (not_le.mpr hexpired)
  · rw [if_neg hexpired]
    constructor
    · intro h
      obtain ⟨key, hkey, hgrant⟩ := h
      simp only at hgrant
      split_ifs at hgrant with hsame
      · cases hgrant
      · obtain ⟨⟨id, name⟩, hresolve, hgrant⟩ := bind_eq_ok.mp hgrant
        simp only at hgrant
        split_ifs at hgrant with hbucket
        · cases hgrant
        · obtain ⟨rfl, rfl⟩ := Prod.mk.inj (Except.ok.inj hgrant)
          rw [not_not] at hsame hbucket
          rw [hbucket] at hresolve
          exact ⟨⟨rfl, hsame.symm⟩, hkey, ⟨name, hresolve⟩, not_lt.mp hexpired⟩
    · intro h
      obtain ⟨⟨rfl, rfl⟩, hkey, ⟨name, hresolve⟩, _⟩ := h
      refine ⟨_, hkey, ?_⟩
      simp only [ne_eq, not_true, if_false, hresolve, bind, Except.bind]
      rfl

/-- Once an account cannot read a bucket, and until a write gives it Read again, no session of
it reads the bucket. Its personal tokens open the one object that each of them names, a day
from when they were minted; a link request that had not passed its checks mints none. -/
theorem lost_access_stays_lost (r s t : State) (a b : Int) (hids : IsI64 a ∧ IsI64 b)
    (hrs : Run step anyAction r s) (haccount : accountExists r.registry.db a = true)
    (hlost : ¬ CanRead s.registry.db a b) (hst : Run step (NoGrant a b) s t) :
    NoSessionReads t.app a b ∧
      (∀ target ∈ t.pending, target.accountId = a → target.bucketId = b → target ∈ s.pending) ∧
      ∀ m ∈ t.minted, m.target.accountId = a → m.target.bucketId = b →
        (m ∈ s.minted ∨ m.target ∈ s.pending) ∧ OpensItsObject (.standard hmac) t.app m := by
  have h := lostSince_of_run hrs haccount hlost hst
  refine ⟨noSessionReads_of_lost h.lost, h.pending, fun m hm ha hb => ⟨h.minted m hm ha hb, ?_⟩⟩
  exact opensItsObject hmac t.app (by rw [ha]; exact hids.1) (by rw [hb]; exact hids.2)

end Tokens

/-- A node with one object and no account. -/
def sampleNode : State where
  config := oneUpload.config
  disk := oneUpload.disk
  registry := Registry.migrated.withDb oneUpload.db rfl rfl
  pending := []
  minted := []

/-- Two Owners; the first signs in and gets a link to the object. -/
def linking : List Action :=
  [.write (.insertAccount "a1".toList "p1".toList [] none), .write (.assignRole 1 1),
    .write (.claimUnownedBuckets 1), .write (.createSession "t1".toList 1 604800000000000),
    .write (.insertAccount "a2".toList "p2".toList [] (some 1)), .write (.setAccountRoles 2 [1]),
    .requestLink Instant.epoch [("authorization".toList, some "Bearer t1".toList)] ['k'] none,
    .mintLink 0 Instant.epoch]

def linked : State := (exec step sampleNode linking).getD sampleNode

/-- What `patch_account` does when it disables the first Owner. -/
def disabling : List Action :=
  [.write (.setAccountDisabled 1 true), .write (.deleteSessionsForAccount 1)]

def disabled : State := (exec step linked disabling).getD linked

def sampleMinted : Minted := ⟨⟨1, 1, ['k']⟩, Instant.epoch⟩

theorem disabled_lost : ¬ CanRead disabled.registry.db 1 1 := by
  intro h
  obtain ⟨⟨x, hx, hid, hon⟩, _⟩ := h
  have hall : ∀ y ∈ disabled.registry.db.account, y.id = 1 → y.isDisabled = true := by decide
  rw [hall x hx hid] at hon
  cases hon

/-- Later the account is deleted. -/
def deleting : List Action := [.write (.deleteAccount 1)]

def deleted : State := (exec step disabled deleting).getD disabled

theorem noGrant_deleting : ∀ act ∈ deleting, ∀ s, NoGrant 1 1 s act := by
  intro act hact s w hw hgrants
  rw [List.mem_singleton.mp hact] at hw
  rw [← Action.write.inj hw] at hgrants
  exact hgrants.elim

/-- An Owner that was disabled and then deleted: its link opens its object alone. -/
theorem lost_access_stays_lost_sample :
    NoSessionReads deleted.app 1 1 ∧
      OpensItsObject (.standard sampleHmac) deleted.app sampleMinted := by
  have h := lost_access_stays_lost sampleHmac linked disabled deleted 1 1
    ⟨by decide, by decide⟩ (run_of_exec (show exec step linked disabling = some disabled from rfl))
    rfl disabled_lost
    (run_of_exec_of_ok noGrant_deleting (show exec step disabled deleting = some deleted from rfl))
  exact ⟨h.1, (h.2.2 sampleMinted List.mem_cons_self rfl rfl).2⟩

/-- An Owner disables the account that minted the link, and the link still opens the object. -/
theorem link_outlives_account :
    Run step anyAction sampleNode linked ∧ CanRead linked.registry.db 1 1 ∧
      handle linked.registry 2 {} (.patchAccount 1 none (some true)) =
        (.noContent, disabled.registry) ∧
      Run step anyAction linked disabled ∧ ¬ CanRead disabled.registry.db 1 1 ∧
      sampleMinted ∈ linked.minted ∧ ∃ row headers,
        mediaContentByAccess Platform.sample (.standard sampleHmac) Limit1.first disabled.app
            Instant.epoch ['k'] none
            (sampleMinted.token (.standard sampleHmac) disabled.config) [] =
          ⟨some row, .content .ok headers [97]⟩ :=
  ⟨run_of_exec (show exec step sampleNode linking = some linked from rfl),
    ⟨⟨_, List.mem_cons_self, rfl, rfl⟩, rfl⟩, rfl,
    run_of_exec (show exec step linked disabling = some disabled from rfl), disabled_lost,
    List.mem_cons_self, _, _, rfl⟩

end MyS3.Revocation
