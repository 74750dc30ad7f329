import MyS3.Revocation
import MyS3.ShareCreation

/-!
Deleting an account. The tables that refer to accounts are written statement by statement,
in any order; sessions, roles, owned buckets and created accounts give way to the deletion.
The two tables of share links do not, and nothing ever takes a row out of them: revoking a
link keeps it, and its bucket cannot be deleted. So an account that has created a share or
has received one stays.
-/

namespace MyS3.AccountDeletion

open Library.Strings Library.Tables Library.Runs Library.Timestamps
open Models Objects Database Rbac Accounts Http SettingsRoutes Revocation ShareCreation

/-- The registry with the next AUTOINCREMENT id of `share_link`. -/
structure Store where
  registry : Registry
  nextShareId : Int
  link_lt : ∀ share ∈ registry.db.shareLink, share.id < nextShareId
  user_lt : ∀ u ∈ registry.db.shareLinkUser, u.shareId < nextShareId

namespace Store

theorem link_lt_migrated : ∀ share ∈ Registry.migrated.db.shareLink, share.id < 1 :=
  List.forall_mem_nil _

theorem user_lt_migrated : ∀ u ∈ Registry.migrated.db.shareLinkUser, u.shareId < 1 :=
  List.forall_mem_nil _

def migrated : Store where
  registry := Registry.migrated
  nextShareId := 1
  link_lt := link_lt_migrated
  user_lt := user_lt_migrated

def shares (s : Store) : ShareStore := ⟨s.registry.db, s.nextShareId, s.link_lt, s.user_lt⟩

/-- A change of the share tables. -/
def withShares (s : Store) (t : ShareStore) (haccount : t.db.account = s.registry.db.account)
    (hrole : t.db.role = s.registry.db.role) : Store :=
  ⟨s.registry.withDb t.db haccount hrole, t.nextId, t.link_lt, t.user_lt⟩

/-- A change of other tables. -/
def withRegistry (s : Store) (r : Registry) (hlink : r.db.shareLink = s.registry.db.shareLink)
    (huser : r.db.shareLinkUser = s.registry.db.shareLinkUser) : Store where
  registry := r
  nextShareId := s.nextShareId
  link_lt := by
    rw [hlink]
    exact s.link_lt
  user_lt := by
    rw [huser]
    exact s.user_lt

end Store

/-- The tables of share links stay. -/
def KeepsShares (db db' : Db) : Prop :=
  db'.shareLink = db.shareLink ∧ db'.shareLinkUser = db.shareLinkUser

theorem keepsShares_updateAccount {s s' : Registry} {id : Int} {f : AccountRecord → AccountRecord}
    {hid : ∀ a, (f a).id = a.id} (h : s.updateAccount id f hid = some s') :
    KeepsShares s.db s'.db := by
  rw [(Registry.updateAccount_eq h).1]
  exact ⟨rfl, rfl⟩

/-- The row of a bucket goes without a cascade to the links. -/
theorem keepsShares_buckets {s s' : Registry} {db : Option Db}
    {h : ∀ t ∈ db, KeepsAccess s.db t} (hkeeps : ∀ t ∈ db, KeepsShares s.db t)
    (hrun : onBuckets s db h = some s') : KeepsShares s.db s'.db :=
  hkeeps s'.db (onBuckets_eq hrun).1

/-- No write of the other tables touches the share links. -/
theorem write_keepsShares {s s' : Registry} {w : Write} (h : w.run s = some s') :
    KeepsShares s.db s'.db := by
  cases w with
  | insertAccount usernameHex passwordHash displayName createdBy =>
    rw [Registry.insertAccount_eq h]
    exact ⟨rfl, rfl⟩
  | setAccountDisabled id disabled =>
    have hupdate : s.updateAccount id (fun a => { a with isDisabled := disabled })
        (fun _ => rfl) = some s' := h
    exact keepsShares_updateAccount hupdate
  | updateAccountDisplayName id displayName =>
    have hupdate : s.updateAccount id (fun a => { a with displayName := displayName })
        (fun _ => rfl) = some s' := h
    exact keepsShares_updateAccount hupdate
  | setAccountPassword id passwordHash =>
    have hupdate : s.updateAccount id (fun a => { a with passwordHash := passwordHash })
        (fun _ => rfl) = some s' := h
    exact keepsShares_updateAccount hupdate
  | deleteAccount id =>
    obtain ⟨⟨deleted, t⟩, hdelete, rfl⟩ := Option.map_eq_some_iff.mp h
    unfold Registry.deleteAccount at hdelete
    split_ifs at hdelete
    · rw [← (Prod.mk.inj (Option.some.inj hdelete)).2]
      exact ⟨rfl, rfl⟩
    · rw [← (Prod.mk.inj (Option.some.inj hdelete)).2]
      exact ⟨rfl, rfl⟩
  | createRole name position =>
    simp only [Write.run, Registry.createRole] at h
    split_ifs at h
    rw [← Option.some.inj h]
    exact ⟨rfl, rfl⟩
  | updateRole id name position =>
    have hupdate := toOption_eq_some h
    unfold Registry.updateRole at hupdate
    split at hupdate
    · cases hupdate
    · simp only at hupdate
      split_ifs at hupdate
      rw [← Except.ok.inj hupdate]
      exact ⟨rfl, rfl⟩
  | deleteRole id =>
    have hdelete := toOption_eq_some h
    unfold Registry.deleteRole at hdelete
    split at hdelete
    · cases hdelete
    · split_ifs at hdelete
      rw [← Except.ok.inj hdelete]
      exact ⟨rfl, rfl⟩
  | setAccountRoles accountId roleIds =>
    rw [(Registry.setAccountRoles_eq h).1]
    exact ⟨rfl, rfl⟩
  | assignRole accountId roleId =>
    simp only [Write.run, Registry.assignRole] at h
    split_ifs at h
    · rw [← Option.some.inj h]
      exact ⟨rfl, rfl⟩
    · rw [← Option.some.inj h]
      exact ⟨rfl, rfl⟩
  | upsertRolePermission roleId bucketId perms =>
    simp only [Write.run, Registry.upsertRolePermission] at h
    split_ifs at h
    rw [← Option.some.inj h]
    exact ⟨rfl, rfl⟩
  | replaceRolePermissions roleId perms =>
    rw [Registry.replaceRolePermissions_eq h]
    exact ⟨rfl, rfl⟩
  | insertBucket name owner all etagType =>
    refine keepsShares_buckets (fun t ht => ?_) h
    unfold Db.insertBucket at ht
    split at ht
    · cases ht
    · rw [← Option.some.inj ht]
      exact ⟨rfl, rfl⟩
  | renameBucket id name =>
    refine keepsShares_buckets (fun t ht => ?_) h
    unfold Db.renameBucketRow at ht
    split at ht
    · cases ht
    · rw [← Option.some.inj ht]
      exact ⟨rfl, rfl⟩
  | deleteBucket id =>
    refine keepsShares_buckets (fun t ht => ?_) h
    unfold Db.deleteBucketRow at ht
    split at ht
    · rw [← Option.some.inj ht]
      exact ⟨rfl, rfl⟩
    · cases ht
  | updateBucketOwner id newOwnerId =>
    simp only [Write.run, Registry.updateBucketOwner] at h
    split_ifs at h
    rw [← Option.some.inj h]
    exact ⟨rfl, rfl⟩
  | claimUnownedBuckets accountId =>
    rw [← Option.some.inj h]
    exact ⟨rfl, rfl⟩
  | createSession token accountId expiresUtc =>
    rw [Registry.createSession_eq h]
    exact ⟨rfl, rfl⟩
  | deleteSession token =>
    rw [← Option.some.inj h]
    exact ⟨rfl, rfl⟩
  | deleteSessionsForAccount accountId =>
    rw [← Option.some.inj h]
    exact ⟨rfl, rfl⟩

/-- A statement of a handler, or a transaction. -/
inductive Statement
  | access (w : Write)
  | insertShareLink (now : Instant) (req : NewShare) (token : Text) (shortCode : Option Text)
  | insertShareLinkUser (shareId accountId : Int)
  | revokeShare (now : Instant) (id : Int)
  /-- Everything else becomes as it is in another database: objects, peers, the outbox. -/
  | content (db : Db)

theorem insertShareLink_keeps {s t : ShareStore} {now : Instant} {req : NewShare} {token : Text}
    {shortCode : Option Text} (h : insertShareLink s now req token shortCode = .ok t) :
    t = s.addLink now req token shortCode := by
  unfold insertShareLink at h
  split_ifs at h
  exact (Except.ok.inj h).symm

theorem insertShareLinkUser_keeps {s t : ShareStore} {shareId accountId : Int}
    (h : insertShareLinkUser s shareId accountId = .ok t) :
    t.db.account = s.db.account ∧ t.db.role = s.db.role := by
  unfold insertShareLinkUser at h
  split_ifs at h
  rw [← Except.ok.inj h]
  exact ⟨rfl, rfl⟩

/-- A statement on the share tables. -/
def onShares (s : Store) (result : Except ShareError ShareStore)
    (h : ∀ t ∈ result.toOption, t.db.account = s.registry.db.account ∧
      t.db.role = s.registry.db.role) : Option Store :=
  result.toOption.pmap (fun t ht => s.withShares t ht.1 ht.2) h

def setRevoked (now : Instant) (share : ShareLinkRecord) : ShareLinkRecord :=
  { share with revokedAt := some (now.currentTimestamp.secs * nanosPerSec) }

/-- The `UPDATE` of `revoke_share`. -/
def revokeShare (s : Store) (now : Instant) (id : Int) : Store where
  registry := s.registry.withDb
    { s.registry.db with
      shareLink := updateRows (fun share => share.id == id && share.revokedAt.isNone)
        (setRevoked now) s.registry.db.shareLink } rfl rfl
  nextShareId := s.nextShareId
  link_lt := by
    intro share hshare
    rcases mem_updateRows.mp hshare with ⟨hshare, _⟩ | ⟨old, hold, _, rfl⟩
    · exact s.link_lt share hshare
    · exact s.link_lt old hold
  user_lt := s.user_lt

def contentDb (db t : Db) : Db :=
  { t with
    account := db.account
    role := db.role
    accountRole := db.accountRole
    roleBucketPermission := db.roleBucketPermission
    session := db.session
    shareLink := db.shareLink
    shareLinkUser := db.shareLinkUser }

def step (s : Store) : Statement → Option Store
  | .access w =>
    (w.run s.registry).pmap (fun r h => s.withRegistry r h.1 h.2) fun _ h => write_keepsShares h
  | .insertShareLink now req token shortCode =>
    onShares s (insertShareLink s.shares now req token shortCode) fun t h => by
      rw [insertShareLink_keeps (toOption_eq_some h)]
      exact ⟨rfl, rfl⟩
  | .insertShareLinkUser shareId accountId =>
    onShares s (insertShareLinkUser s.shares shareId accountId) fun t h =>
      insertShareLinkUser_keeps (toOption_eq_some h)
  | .revokeShare now id => some (revokeShare s now id)
  | .content t =>
    if t.bucket.rows.map bucketKey = s.registry.db.bucket.rows.map bucketKey then
      some (s.withRegistry (s.registry.withDb (contentDb s.registry.db t) rfl rfl) rfl rfl)
    else none

/-- A share link or a recipient row refers to the account. -/
def Named (db : Db) (id : Int) : Prop :=
  (∃ share ∈ db.shareLink, share.createdByAccountId = id) ∨
    ∃ u ∈ db.shareLinkUser, u.accountId = id

/-- The statement inserts a row that refers to the account. -/
def Statement.Names (id : Int) : Statement → Prop
  | .insertShareLink _ req _ _ => req.createdByAccountId = id
  | .insertShareLinkUser _ accountId => accountId = id
  | _ => False

theorem KeepsShares.named_iff {db db' : Db} (h : KeepsShares db db') (id : Int) :
    Named db' id ↔ Named db id := by
  unfold Named
  rw [h.1, h.2]

theorem onShares_ok {s : Store} {result : Except ShareError ShareStore} {t : ShareStore}
    {h : ∀ t ∈ result.toOption, t.db.account = s.registry.db.account ∧
      t.db.role = s.registry.db.role} (hresult : result = .ok t) :
    ∃ u, onShares s result h = some u ∧ u.shares = t := by
  subst hresult
  exact ⟨_, rfl, rfl⟩

theorem onShares_eq {s t : Store} {result : Except ShareError ShareStore}
    {h : ∀ t ∈ result.toOption, t.db.account = s.registry.db.account ∧
      t.db.role = s.registry.db.role} (hrun : onShares s result h = some t) :
    result = .ok t.shares := by
  unfold onShares at hrun
  obtain ⟨u, hu, hresult, rfl⟩ := Option.pmap_eq_some_iff.mp hrun
  exact toOption_eq_some hresult

/-- Afterwards the rows name who they named before, and whom the statement names. -/
theorem named_step {s t : Store} {w : Statement} (h : step s w = some t) (id : Int) :
    Named t.registry.db id ↔ Named s.registry.db id ∨ w.Names id := by
  cases w with
  | access w =>
    unfold step at h
    obtain ⟨r, hkeeps, hrun, rfl⟩ := Option.pmap_eq_some_iff.mp h
    exact ((write_keepsShares hrun).named_iff id).trans (iff_of_eq (or_false _)).symm
  | insertShareLink now req token shortCode =>
    have hdb := insertShareLink_keeps (onShares_eq h)
    have hlinks : t.registry.db.shareLink = s.registry.db.shareLink ++
        [shareRow now req s.nextShareId token shortCode] := congrArg (·.db.shareLink) hdb
    have husers : t.registry.db.shareLinkUser = s.registry.db.shareLinkUser :=
      congrArg (·.db.shareLinkUser) hdb
    unfold Named
    rw [hlinks, husers, or_right_comm]
    refine or_congr_left ?_
    simp [or_and_right, exists_or, Statement.Names, shareRow]
  | insertShareLinkUser shareId accountId =>
    obtain ⟨_, _, hadds, _⟩ := insertShareLinkUser_ok (onShares_eq h)
    have hlinks : t.registry.db.shareLink = s.registry.db.shareLink := hadds.links
    have husers : t.registry.db.shareLinkUser = s.registry.db.shareLinkUser ++
        [⟨shareId, accountId⟩] := hadds.users
    unfold Named
    rw [hlinks, husers, or_assoc]
    refine or_congr_right ?_
    simp [or_and_right, exists_or, Statement.Names]
  | revokeShare now rid =>
    rw [← Option.some.inj h]
    refine Iff.trans (or_congr_left ?_) (iff_of_eq (or_false _)).symm
    constructor
    · intro h'
      obtain ⟨share, hshare, hcreator⟩ := h'
      rcases mem_updateRows.mp hshare with ⟨hshare, _⟩ | ⟨old, hold, _, rfl⟩
      · exact ⟨share, hshare, hcreator⟩
      · exact ⟨old, hold, hcreator⟩
    · intro h'
      obtain ⟨share, hshare, hcreator⟩ := h'
      obtain ⟨share', hshare', heq⟩ := exists_updateRows (·.createdByAccountId)
        (fun share => share.id == rid && share.revokedAt.isNone) (f := setRevoked now)
        (fun _ => rfl) hshare
      exact ⟨share', hshare', heq.trans hcreator⟩
  | content db =>
    unfold step at h
    simp only at h
    split_ifs at h
    rw [← Option.some.inj h]
    exact (iff_of_eq (or_false _)).symm

/-- The rows name exactly the accounts that a statement of the run named. -/
theorem named_run {s t : Store} {statements : List Statement}
    (h : exec step s statements = some t) (id : Int) :
    Named t.registry.db id ↔ Named s.registry.db id ∨ ∃ w ∈ statements, w.Names id := by
  induction statements generalizing s with
  | nil =>
    rw [Option.some.inj h]
    simp
  | cons w rest ih =>
    obtain ⟨u, hu, hrest⟩ := Option.bind_eq_some_iff.mp h
    rw [ih hrest, named_step hu, or_assoc, List.exists_mem_cons_iff]

/-! ### Making a share -/

section shares

variable {fails : ShareCall → Bool} {rng : ShareRandom} {now : Instant} {req : NewShare}

/-- From one store, statements that name only accounts of a kind lead to the share tables. -/
def Reaches (s : Store) (t : ShareStore) (p : Int → Prop) : Prop :=
  ∃ statements u, exec step s statements = some u ∧ u.shares = t ∧
    ∀ w ∈ statements, ∀ id, w.Names id → p id

theorem Reaches.refl (s : Store) (p : Int → Prop) : Reaches s s.shares p :=
  ⟨[], s, rfl, rfl, fun _ hw => absurd hw List.not_mem_nil⟩

theorem Reaches.cons {s u : Store} {t : ShareStore} {p : Int → Prop} {w : Statement}
    (hstep : step s w = some u) (hnames : ∀ id, w.Names id → p id) (h : Reaches u t p) :
    Reaches s t p := by
  obtain ⟨statements, v, hexec, hshares, hrest⟩ := h
  refine ⟨w :: statements, v, ?_, hshares, List.forall_mem_cons.mpr ⟨hnames, hrest⟩⟩
  unfold exec
  rw [hstep]
  exact hexec

theorem reaches_recipients {p : Int → Prop} (shareId : Int) (accountIds : List Int)
    (hp : ∀ a ∈ accountIds, p a) (i : Nat) (s : Store) :
    Reaches s (insertRecipients fails shareId i s.shares accountIds).2 p := by
  induction accountIds generalizing i s with
  | nil => exact Reaches.refl s p
  | cons a rest ih =>
    obtain ⟨hfirst, hrest⟩ := List.forall_mem_cons.mp hp
    unfold insertRecipients
    split_ifs
    · exact Reaches.refl s p
    · cases hinsert : insertShareLinkUser s.shares shareId a with
      | error err => exact Reaches.refl s p
      | ok t =>
        obtain ⟨u, hstep, rfl⟩ := onShares_ok (s := s)
          (h := fun t h => insertShareLinkUser_keeps (toOption_eq_some h)) hinsert
        refine Reaches.cons (w := .insertShareLinkUser shareId a) hstep ?_ (ih hrest (i + 1) u)
        intro id hid
        exact hid ▸ hfirst

theorem finishShare_store (id : Int) (s : ShareStore) :
    (finishShare fails req id s).2 = (insertRecipients fails id 0 s (recipientsOf req)).2 := by
  unfold finishShare
  split
  · rename_i h
    rw [h]
  · rename_i h
    rw [h]
    split_ifs
    · rfl
    · split <;> rfl

/-- The creator of a share and its recipients. -/
def Involves (req : NewShare) (id : Int) : Prop :=
  req.createdByAccountId = id ∨ id ∈ recipientsOf req

theorem reaches_tryShare (left attempt : Nat) (s : Store) :
    Reaches s (tryShare fails rng now req left attempt s.shares).2 (Involves req) := by
  induction left generalizing attempt with
  | zero => exact Reaches.refl s _
  | succ left ih =>
    unfold tryShare
    split_ifs
    · exact Reaches.refl s _
    · cases hinsert : insertShareLink s.shares now req (tokenAt rng attempt)
          (shortCodeAt rng req attempt) with
      | error err =>
        cases err with
        | unique => exact ih (attempt + 1)
        | _ => exact Reaches.refl s _
      | ok t =>
        simp only
        rw [finishShare_store]
        obtain ⟨u, hstep, rfl⟩ := onShares_ok (s := s) (h := fun t h => by
          rw [insertShareLink_keeps (toOption_eq_some h)]
          exact ⟨rfl, rfl⟩) hinsert
        refine Reaches.cons (w := .insertShareLink now req (tokenAt rng attempt)
          (shortCodeAt rng req attempt)) hstep (fun id hid => Or.inl hid) ?_
        exact reaches_recipients s.nextShareId (recipientsOf req) (fun a ha => Or.inr ha) 0 u

variable (fails rng now req) in
/-- What `create_share` does to the tables, however it ends, is a run of statements that name
its creator and its recipients. -/
theorem reaches_createShare (s : Store) :
    Reaches s (createShare fails rng now s.shares req).2 (Involves req) := by
  unfold createShare
  by_cases hreads : fails .target = true
  · rw [if_pos hreads]
    exact Reaches.refl s _
  · rw [if_neg hreads]
    split
    · exact Reaches.refl s _
    · split
      · exact Reaches.refl s _
      · exact reaches_tryShare 8 0 s

end shares

/-- The account is deleted, and no session, role assignment or recipient row refers to it. -/
structure Deletes (id : Int) (answer : Reply × Registry) : Prop where
  reply : answer.1 = .noContent
  sessions : ∀ t ∈ answer.2.db.session, t.accountId ≠ id
  roles : ∀ ar ∈ answer.2.db.accountRole, ar.accountId ≠ id
  recipients : ∀ u ∈ answer.2.db.shareLinkUser, u.accountId ≠ id

theorem accountExists_of_createdBy {db : Db} {id actor : Int}
    (h : accountCreatedBy db id actor = true) : accountExists db id = true := by
  unfold accountCreatedBy at h
  rw [beq_iff_eq, Option.bind_eq_some_iff] at h
  obtain ⟨a, hget, _⟩ := h
  obtain ⟨hmem, hid⟩ := getAccountById_eq_some hget
  exact accountExists_iff.mpr ⟨a, hmem, hid⟩

theorem refused_iff (db : Db) (id : Int) :
    (db.shareLink.any (fun l => l.createdByAccountId == id) ||
      db.shareLinkUser.any fun u => u.accountId == id) = true ↔ Named db id := by
  simp [Named]

/-- The creator deletes an account exactly when no row of the share tables refers to it. -/
theorem deletes_iff {s : Registry} {actor id : Int} (hother : id ≠ actor)
    (hcreated : accountCreatedBy s.db id actor = true) :
    Deletes id (SettingsRoutes.deleteAccount s actor id) ↔ ¬ Named s.db id := by
  rw [← refused_iff]
  unfold SettingsRoutes.deleteAccount Registry.deleteAccount
  rw [if_neg hother, if_neg (by simp [hcreated]),
    if_neg (by simp [accountExists_of_createdBy hcreated])]
  by_cases hrefused : (s.db.shareLink.any (fun l => l.createdByAccountId == id) ||
      s.db.shareLinkUser.any fun u => u.accountId == id) = true
  · rw [if_pos hrefused]
    exact iff_of_false (fun h => by cases h.reply) (not_not_intro hrefused)
  · rw [if_neg hrefused]
    refine iff_of_true ⟨rfl, ?_, ?_, ?_⟩ hrefused
    · intro t ht
      simpa using (List.mem_filter.mp ht).2
    · intro ar har
      simpa using (List.mem_filter.mp har).2
    · intro u hu hid
      rw [refused_iff] at hrefused
      exact hrefused (Or.inr ⟨u, hu, hid⟩)

/-- In every state of the web API, the creator of an account deletes it exactly when no
statement has put a share link of the account or a row for it as a recipient into the tables. -/
theorem delete_account_iff {statements : List Statement} {s : Store} {actor id : Int}
    (h : exec step Store.migrated statements = some s) (hother : id ≠ actor)
    (hcreated : accountCreatedBy s.registry.db id actor = true) :
    Deletes id (SettingsRoutes.deleteAccount s.registry actor id) ↔
      ∀ w ∈ statements, ¬ w.Names id := by
  have hempty : ¬ Named Store.migrated.registry.db id := by
    intro h'
    rcases h' with ⟨share, hshare, _⟩ | ⟨u, hu, _⟩
    · cases hshare
    · cases hu
  rw [deletes_iff hother hcreated, named_run h id, or_iff_right hempty]
  simp

/-- An object arrives, the first account starts the node and makes a second one. -/
def joining : List Statement :=
  [.content (FolderPrefixes.holding ["d/a".toList]).db,
    .access (.insertAccount "a1".toList "p1".toList [] none), .access (.assignRole 1 1),
    .access (.claimUnownedBuckets 1), .access (.createSession "t1".toList 1 0),
    .access (.insertAccount "a2".toList "p2".toList [] (some 1)),
    .access (.setAccountRoles 2 [1]), .access (.createSession "t2".toList 2 0)]

/-- An account shares the folder with everybody. -/
def sharedBy (actor : Int) : Statement :=
  .insertShareLink Instant.epoch ⟨1, "d/".toList, .folder, .publicAccess, none, actor, [], false⟩
    "t".toList none

/-- The second account has shared nothing and received nothing. -/
theorem delete_account_iff_joined :
    ∃ s, exec step Store.migrated (joining ++ [sharedBy 1]) = some s ∧
      Deletes 2 (SettingsRoutes.deleteAccount s.registry 1 2) := by
  refine ⟨_, rfl, (delete_account_iff
    (show exec step Store.migrated (joining ++ [sharedBy 1]) = some _ from rfl) (by decide)
    rfl).mpr ?_⟩
  simp [joining, sharedBy, Statement.Names]

/-- The second account makes a share and revokes it. Its creator cannot delete it any more. -/
theorem sharer_stays :
    ∃ s, exec step Store.migrated (joining ++ [sharedBy 2, .revokeShare Instant.epoch 1]) =
        some s ∧
      accountCreatedBy s.registry.db 2 1 = true ∧
      (∀ share ∈ s.registry.db.shareLink, share.revokedAt.isSome = true) ∧
      SettingsRoutes.deleteAccount s.registry 1 2 = (SettingsRoutes.databaseError, s.registry) ∧
      ¬ Deletes 2 (SettingsRoutes.deleteAccount s.registry 1 2) := by
  refine ⟨_, rfl, rfl, ?_, rfl, fun h => by cases h.reply⟩
  intro share hshare
  rw [List.mem_singleton.mp hshare]
  rfl

end MyS3.AccountDeletion
