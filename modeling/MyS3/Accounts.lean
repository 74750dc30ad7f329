import MyS3.Rbac

/-!
Accounts, roles and new sessions of `db/rbac.rs`. The registry is the database with the
sequences that number accounts and roles: an id is never used twice, and no two roles
share one. Deleting an account or a role cascades to what belongs to it, and a share
link keeps its account from being deleted.
-/

namespace MyS3.Accounts

open Library.Strings Library.Tables
open Models Objects Database Rbac

structure Registry where
  db : Db
  nextAccountId : Int
  nextRoleId : Int
  account_lt : ∀ a ∈ db.account, a.id < nextAccountId
  account_unique : db.account.Pairwise fun a b => a.id ≠ b.id
  role_lt : ∀ r ∈ db.role, r.id < nextRoleId
  role_unique : db.role.Pairwise fun a b => a.id ≠ b.id

def accountExists (db : Db) (id : Int) : Bool := db.account.any fun a => a.id == id

def roleExists (db : Db) (id : Int) : Bool := db.role.any fun r => r.id == id

theorem accountExists_iff {db : Db} {id : Int} :
    accountExists db id = true ↔ ∃ a ∈ db.account, a.id = id := by
  simp [accountExists]

theorem getAccountById_eq_some {db : Db} {id : Int} {a : AccountRecord}
    (h : getAccountById db id = some a) : a ∈ db.account ∧ a.id = id :=
  ⟨List.mem_of_find?_eq_some h, by simpa using List.find?_some h⟩

theorem accountIsOwner_iff {db : Db} {id : Int} :
    accountIsOwner db id = true ↔
      ∃ ar ∈ db.accountRole, ar.accountId = id ∧ ∃ r ∈ db.role, r.id = ar.roleId ∧
        r.isOwner = true := by
  simp [accountIsOwner]

/-- The account exists and is not disabled. -/
def Enabled (db : Db) (id : Int) : Prop := ∃ a ∈ db.account, a.id = id ∧ a.isDisabled = false

/-- An enabled account with the Owner role. -/
def EnabledOwner (db : Db) (id : Int) : Prop := Enabled db id ∧ accountIsOwner db id = true

theorem getOwnerRole_eq_some {db : Db} {r : RoleRecord} (h : getOwnerRole db = some r) :
    r ∈ db.role ∧ r.isOwner = true := by
  have hmem := List.mem_of_head? h
  rw [List.mem_insertionSort, List.mem_filter] at hmem
  exact hmem

inductive RoleError
  | notFound
  | ownerRole
  | query
  deriving DecidableEq

namespace Registry

/-- The registry after the migrations. -/
def migrated : Registry where
  db := Db.migrated
  nextAccountId := 1
  nextRoleId := 2
  account_lt := List.forall_mem_nil _
  account_unique := List.Pairwise.nil
  role_lt := List.forall_mem_singleton.mpr (Int.lt_succ 1)
  role_unique := List.pairwise_singleton _ _

/-- A change of other tables. -/
def withDb (s : Registry) (db : Db) (haccount : db.account = s.db.account)
    (hrole : db.role = s.db.role) : Registry where
  db := db
  nextAccountId := s.nextAccountId
  nextRoleId := s.nextRoleId
  account_lt := by
    rw [haccount]
    exact s.account_lt
  account_unique := by
    rw [haccount]
    exact s.account_unique
  role_lt := by
    rw [hrole]
    exact s.role_lt
  role_unique := by
    rw [hrole]
    exact s.role_unique

def newAccount (id : Int) (usernameHex passwordHash displayName : Text)
    (createdByAccountId : Option Int) : AccountRecord where
  id := id
  usernameHex := usernameHex
  passwordHash := passwordHash
  displayName := displayName
  isDisabled := false
  createdByAccountId := createdByAccountId

/-- `none` is a violation of UNIQUE(username_hex) or of the key to the creator. -/
def insertAccount (s : Registry) (usernameHex passwordHash displayName : Text)
    (createdByAccountId : Option Int) : Option Registry :=
  if s.db.account.any (fun a => a.usernameHex == usernameHex) ||
      !createdByAccountId.all (accountExists s.db) then none
  else
    some {
      db := { s.db with
        account := s.db.account ++
          [newAccount s.nextAccountId usernameHex passwordHash displayName createdByAccountId] }
      nextAccountId := s.nextAccountId + 1
      nextRoleId := s.nextRoleId
      account_lt := lt_append_row s.account_lt rfl
      account_unique :=
        pairwise_append_row s.account_unique fun a ha => ne_of_lt (s.account_lt a ha)
      role_lt := s.role_lt
      role_unique := s.role_unique }

/-- An `UPDATE` of the rows of one account. -/
def updateAccount (s : Registry) (id : Int) (f : AccountRecord → AccountRecord)
    (hid : ∀ a, (f a).id = a.id) : Option Registry :=
  if accountExists s.db id then
    some {
      db := { s.db with account := updateRows (fun a => a.id == id) f s.db.account }
      nextAccountId := s.nextAccountId
      nextRoleId := s.nextRoleId
      account_lt := by
        intro a ha
        rcases mem_updateRows.mp ha with ⟨ha, _⟩ | ⟨b, hb, _, rfl⟩
        · exact s.account_lt a ha
        · rw [hid]
          exact s.account_lt b hb
      account_unique := pairwise_ne_of_map_eq s.account_unique (map_updateRows _ hid _)
      role_lt := s.role_lt
      role_unique := s.role_unique }
  else none

/-- `none` is `account not found`. -/
def setAccountDisabled (s : Registry) (id : Int) (disabled : Bool) : Option Registry :=
  s.updateAccount id (fun a => { a with isDisabled := disabled }) fun _ => rfl

def updateAccountDisplayName (s : Registry) (id : Int) (displayName : Text) : Option Registry :=
  s.updateAccount id (fun a => { a with displayName := displayName }) fun _ => rfl

def setAccountPassword (s : Registry) (id : Int) (passwordHash : Text) : Option Registry :=
  s.updateAccount id (fun a => { a with passwordHash := passwordHash }) fun _ => rfl

def forgetCreator (id : Int) (a : AccountRecord) : AccountRecord :=
  { a with createdByAccountId := a.createdByAccountId.filter (· != id) }

def setOwner (owner : Option Int) (b : BucketRecord) : BucketRecord :=
  { b with ownerAccountId := owner }

/-- The `UPDATE` of the owner of some buckets. -/
def updateOwners (db : Db) (p : BucketRecord → Bool) (owner : Option Int) : Db :=
  { db with
    bucket := db.bucket.updateWhere p (setOwner owner) (fun _ => rfl) (fun _ => rfl)
    object_bucket := by
      intro r hr
      obtain ⟨b, hb, hid⟩ := db.object_bucket r hr
      obtain ⟨c, hc, heq⟩ := exists_updateRows (·.id) p (f := setOwner owner) (fun _ => rfl) hb
      exact ⟨c, hc, heq.trans hid⟩ }

/-- The rows after the deletion of an account: its roles and sessions go with it, and the
references from buckets and from the accounts that it created are cleared. -/
def dropAccount (db : Db) (id : Int) : Db :=
  let cleared := updateOwners db (fun b => b.ownerAccountId == some id) none
  { cleared with
    account := (db.account.filter fun a => !(a.id == id)).map (forgetCreator id)
    accountRole := db.accountRole.filter fun ar => !(ar.accountId == id)
    session := db.session.filter fun t => !(t.accountId == id) }

/-- Whether a row was deleted; `none` is the refusal while a share link names the account. -/
def deleteAccount (s : Registry) (id : Int) : Option (Bool × Registry) :=
  if accountExists s.db id = false then some (false, s)
  else if s.db.shareLink.any (fun l => l.createdByAccountId == id) ||
      s.db.shareLinkUser.any (fun u => u.accountId == id) then none
  else
    some (true, {
      db := dropAccount s.db id
      nextAccountId := s.nextAccountId
      nextRoleId := s.nextRoleId
      account_lt := by
        intro a ha
        obtain ⟨b, hb, rfl⟩ := List.mem_map.mp ha
        exact s.account_lt b (List.mem_of_mem_filter hb)
      account_unique := (s.account_unique.filter _).map _ fun _ _ hne => hne
      role_lt := s.role_lt
      role_unique := s.role_unique })

def getRole (s : Registry) (id : Int) : Option RoleRecord :=
  s.db.role.find? fun r => r.id == id

/-- `none` is a violation of UNIQUE(name). -/
def createRole (s : Registry) (name : Text) (position : Int) : Option Registry :=
  if s.db.role.any fun r => r.name == name then none
  else
    some {
      db := { s.db with role := s.db.role ++ [⟨s.nextRoleId, name, position, false⟩] }
      nextAccountId := s.nextAccountId
      nextRoleId := s.nextRoleId + 1
      account_lt := s.account_lt
      account_unique := s.account_unique
      role_lt := lt_append_row s.role_lt rfl
      role_unique := pairwise_append_row s.role_unique fun a ha => ne_of_lt (s.role_lt a ha) }

def setRole (name : Text) (position : Int) (r : RoleRecord) : RoleRecord :=
  { r with name := name, position := position }

/-- A name that is taken is a query error. -/
def updateRole (s : Registry) (id : Int) (name : Option Text) (position : Option Int) :
    Except RoleError Registry :=
  match s.getRole id with
  | none => .error .notFound
  | some role =>
    let name := name.getD role.name
    let position := position.getD role.position
    if s.db.role.any fun r => r.name == name && !(r.id == id) then .error .query
    else
      .ok {
        db := { s.db with
          role := updateRows (fun r => r.id == id) (setRole name position) s.db.role }
        nextAccountId := s.nextAccountId
        nextRoleId := s.nextRoleId
        account_lt := s.account_lt
        account_unique := s.account_unique
        role_lt := by
          intro r hr
          rcases mem_updateRows.mp hr with ⟨hr, _⟩ | ⟨b, hb, _, rfl⟩
          · exact s.role_lt r hr
          · exact s.role_lt b hb
        role_unique := pairwise_ne_of_map_eq s.role_unique
          (map_updateRows RoleRecord.id (f := setRole name position) (fun _ => rfl) _) }

def deleteRole (s : Registry) (id : Int) : Except RoleError Registry :=
  match s.getRole id with
  | none => .error .notFound
  | some role =>
    if role.isOwner then .error .ownerRole
    else
      .ok {
        db := { s.db with
          role := s.db.role.filter fun r => !(r.id == id)
          accountRole := s.db.accountRole.filter fun ar => !(ar.roleId == id)
          roleBucketPermission := s.db.roleBucketPermission.filter fun p => !(p.roleId == id) }
        nextAccountId := s.nextAccountId
        nextRoleId := s.nextRoleId
        account_lt := s.account_lt
        account_unique := s.account_unique
        role_lt := fun r hr => s.role_lt r (List.mem_of_mem_filter hr)
        role_unique := s.role_unique.filter _ }

/-- One row of `account_role`; `none` is a violation of its primary or foreign keys. -/
def insertAccountRole (db : Db) (rows : List AccountRole) (accountId roleId : Int) :
    Option (List AccountRole) :=
  if rows.contains ⟨accountId, roleId⟩ || !accountExists db accountId || !roleExists db roleId then
    none
  else some (rows ++ [⟨accountId, roleId⟩])

/-- One transaction: the roles of the account are deleted and the new ones inserted. -/
def setAccountRoles (s : Registry) (accountId : Int) (roleIds : List Int) : Option Registry :=
  let cleared := s.db.accountRole.filter fun ar => !(ar.accountId == accountId)
  (roleIds.foldlM (fun rows roleId => insertAccountRole s.db rows accountId roleId) cleared).map
    fun rows => s.withDb { s.db with accountRole := rows } rfl rfl

/-- `INSERT OR IGNORE`; `none` is a violation of a foreign key. -/
def assignRole (s : Registry) (accountId roleId : Int) : Option Registry :=
  if !accountExists s.db accountId || !roleExists s.db roleId then none
  else if s.db.accountRole.contains ⟨accountId, roleId⟩ then some s
  else
    some (s.withDb { s.db with accountRole := s.db.accountRole ++ [⟨accountId, roleId⟩] } rfl rfl)

/-- One row of `role_bucket_permission`; `none` is a violation of its keys. -/
def insertRolePermission (db : Db) (roleId : Int) (rows : List RoleBucketPermission)
    (entry : Int × CrudPerms) : Option (List RoleBucketPermission) :=
  if rows.any (fun p => p.roleId == roleId && p.bucketId == entry.1) || !roleExists db roleId ||
      (getBucketById db entry.1).isNone then none
  else some (rows ++ [⟨roleId, entry.1, entry.2⟩])

/-- One transaction: the permissions of the role are deleted and the new ones inserted. -/
def replaceRolePermissions (s : Registry) (roleId : Int) (perms : List (Int × CrudPerms)) :
    Option Registry :=
  let cleared := s.db.roleBucketPermission.filter fun p => !(p.roleId == roleId)
  (perms.foldlM (insertRolePermission s.db roleId) cleared).map
    fun rows => s.withDb { s.db with roleBucketPermission := rows } rfl rfl

/-- The row of `upsert_role_permission`; `none` is a violation of a foreign key. -/
def upsertRolePermission (s : Registry) (roleId bucketId : Int) (perms : CrudPerms) :
    Option Registry :=
  if !roleExists s.db roleId || (getBucketById s.db bucketId).isNone then none
  else some (s.withDb (Rbac.upsertRolePermission s.db roleId bucketId perms) rfl rfl)

/-- The `UPDATE` of `set_bucket_owner`, which checks the bucket and the account before it. -/
def updateBucketOwner (s : Registry) (id newOwnerId : Int) : Option Registry :=
  if accountExists s.db newOwnerId then
    some (s.withDb (updateOwners s.db (fun b => b.id == id) (some newOwnerId)) rfl rfl)
  else none

def claimUnownedBuckets (s : Registry) (accountId : Int) : Registry :=
  s.withDb (updateOwners s.db (fun b => b.ownerAccountId.isNone) (some accountId)) rfl rfl

/-- `none` is a token that is taken, or an account that is gone. -/
def createSession (s : Registry) (token : Text) (accountId expiresUtc : Int) : Option Registry :=
  if s.db.session.any (fun t => t.token == token) || !accountExists s.db accountId then none
  else
    some (s.withDb { s.db with session := s.db.session ++ [⟨token, accountId, expiresUtc⟩] } rfl rfl)

def deleteSessionsForAccount (s : Registry) (accountId : Int) : Registry :=
  s.withDb { s.db with session := s.db.session.filter fun t => !(t.accountId == accountId) } rfl rfl

theorem insertAccount_eq {s s' : Registry} {usernameHex passwordHash displayName : Text}
    {createdBy : Option Int}
    (h : s.insertAccount usernameHex passwordHash displayName createdBy = some s') :
    s'.db = { s.db with
      account := s.db.account ++
        [newAccount s.nextAccountId usernameHex passwordHash displayName createdBy] } := by
  unfold insertAccount at h
  split_ifs at h
  rw [← Option.some.inj h]

theorem assignRole_eq {s s' : Registry} {accountId roleId : Int}
    (h : s.assignRole accountId roleId = some s') :
    s'.db.account = s.db.account ∧ s'.db.role = s.db.role ∧
      s.db.accountRole ⊆ s'.db.accountRole ∧ ⟨accountId, roleId⟩ ∈ s'.db.accountRole := by
  unfold assignRole at h
  split_ifs at h with _ hthere
  · rw [← Option.some.inj h]
    exact ⟨rfl, rfl, fun _ hr => hr, by simpa using hthere⟩
  · rw [← Option.some.inj h]
    exact ⟨rfl, rfl, fun _ hr => List.mem_append_left _ hr,
      List.mem_append_right _ (List.mem_singleton.mpr rfl)⟩

theorem createSession_eq {s s' : Registry} {token : Text} {accountId expiresUtc : Int}
    (h : s.createSession token accountId expiresUtc = some s') :
    s'.db = { s.db with session := s.db.session ++ [⟨token, accountId, expiresUtc⟩] } := by
  unfold createSession at h
  split_ifs at h
  rw [← Option.some.inj h]
  rfl

theorem updateAccount_eq {s s' : Registry} {id : Int} {f : AccountRecord → AccountRecord}
    {hid : ∀ a, (f a).id = a.id} (h : s.updateAccount id f hid = some s') :
    s'.db = { s.db with account := updateRows (fun a => a.id == id) f s.db.account } ∧
      s'.nextAccountId = s.nextAccountId := by
  unfold updateAccount at h
  split_ifs at h
  rw [← Option.some.inj h]
  exact ⟨rfl, rfl⟩

/-- The rows that one transaction inserts, one after the other. -/
theorem insertAccountRoles_rows {db : Db} {accountId : Int} {roleIds : List Int}
    {rows rows' : List AccountRole}
    (h : roleIds.foldlM (fun rows roleId => insertAccountRole db rows accountId roleId)
      rows = some rows') :
    rows' = rows ++ roleIds.map (fun roleId => ⟨accountId, roleId⟩) ∧ roleIds.Nodup ∧
      ∀ roleId ∈ roleIds, roleExists db roleId = true ∧ ⟨accountId, roleId⟩ ∉ rows := by
  induction roleIds generalizing rows with
  | nil =>
    rw [List.foldlM_nil] at h
    rw [← Option.some.inj h]
    simp
  | cons roleId rest ih =>
    rw [List.foldlM_cons] at h
    obtain ⟨next, hnext, hrest⟩ := Option.bind_eq_some_iff.mp h
    unfold insertAccountRole at hnext
    split_ifs at hnext with hrefused
    simp only [Bool.or_eq_true, List.contains_iff_mem, Bool.not_eq_true', not_or,
      Bool.not_eq_false] at hrefused
    obtain ⟨⟨hnew, _⟩, hrole⟩ := hrefused
    obtain ⟨hrows, hnodup, hall⟩ := ih hrest
    rw [← Option.some.inj hnext] at hrows hall
    refine ⟨by rw [hrows]; simp, List.nodup_cons.mpr ⟨fun hmem => ?_, hnodup⟩, ?_⟩
    · exact (hall roleId hmem).2 (List.mem_append_right _ (List.mem_singleton.mpr rfl))
    · intro other hother
      rcases List.mem_cons.mp hother with rfl | hother
      · exact ⟨hrole, hnew⟩
      · exact ⟨(hall other hother).1, fun hmem => (hall other hother).2
          (List.mem_append_left _ hmem)⟩

theorem setAccountRoles_eq {s s' : Registry} {accountId : Int} {roleIds : List Int}
    (h : s.setAccountRoles accountId roleIds = some s') :
    s'.db = { s.db with
      accountRole := (s.db.accountRole.filter fun ar => !(ar.accountId == accountId)) ++
        roleIds.map fun roleId => ⟨accountId, roleId⟩ } ∧
      roleIds.Nodup ∧ ∀ roleId ∈ roleIds, roleExists s.db roleId = true := by
  unfold setAccountRoles at h
  obtain ⟨rows, hrows, hs⟩ := Option.map_eq_some_iff.mp h
  obtain ⟨heq, hnodup, hall⟩ := insertAccountRoles_rows hrows
  refine ⟨?_, hnodup, fun roleId hmem => (hall roleId hmem).1⟩
  rw [← hs, heq]
  rfl

/-- The rows of a transaction are old ones and those of its entries. -/
theorem insertRolePermissions_rows {db : Db} {roleId : Int} {perms : List (Int × CrudPerms)}
    {rows rows' : List RoleBucketPermission}
    (h : perms.foldlM (insertRolePermission db roleId) rows = some rows') :
    rows' = rows ++ perms.map fun entry => ⟨roleId, entry.1, entry.2⟩ := by
  induction perms generalizing rows with
  | nil =>
    rw [List.foldlM_nil] at h
    rw [← Option.some.inj h]
    simp
  | cons entry rest ih =>
    rw [List.foldlM_cons] at h
    obtain ⟨next, hnext, hrest⟩ := Option.bind_eq_some_iff.mp h
    unfold insertRolePermission at hnext
    split_ifs at hnext
    rw [ih hrest, ← Option.some.inj hnext]
    simp

theorem replaceRolePermissions_eq {s s' : Registry} {roleId : Int} {perms : List (Int × CrudPerms)}
    (h : s.replaceRolePermissions roleId perms = some s') :
    s'.db = { s.db with
      roleBucketPermission := (s.db.roleBucketPermission.filter fun p => !(p.roleId == roleId)) ++
        perms.map fun entry => ⟨roleId, entry.1, entry.2⟩ } := by
  unfold replaceRolePermissions at h
  obtain ⟨rows, hrows, hs⟩ := Option.map_eq_some_iff.mp h
  rw [← hs, insertRolePermissions_rows hrows]
  rfl

end Registry

end MyS3.Accounts
