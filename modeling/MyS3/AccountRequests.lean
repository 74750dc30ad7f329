import MyS3.Library.Calls
import MyS3.SettingsRoutes

/-!
The handlers `create_account` and `patch_account` of `server/settings_routes.rs`, one call
on the database after the other. Each call may fail; the roles of a new account are set in
one transaction, everything else is a statement of its own.
-/

namespace MyS3.AccountRequests

open Library.Strings Library.Calls Library.Tables
open Models Database Rbac Accounts Http SettingsRoutes

/-- The registry with the column `updated_utc` of its accounts. -/
structure Store where
  registry : Registry
  updatedUtc : Int → DbTime

/-- The accounts that were not there before have the time of their insert. -/
def Store.inserted (s : Store) (now : Instant) (r : Registry) : Store where
  registry := r
  updatedUtc id :=
    if accountExists s.registry.db id then s.updatedUtc id else now.currentTimestamp

def Store.updated (s : Store) (now : Instant) (id : Int) (r : Registry) : Store where
  registry := r
  updatedUtc := Function.update s.updatedUtc id now.currentTimestamp

/-- The body of `create_account`, with the credentials that are drawn at random. -/
structure NewAccount where
  displayName : Option Text
  roleIds : Option (List Int)
  usernameHex : Text
  passwordHash : Text

/-- The call that a request makes next. -/
inductive Stage
  | createRequireOwner (actor : Int) (body : NewAccount)
  /-- The hash of the password, and the `INSERT`. -/
  | createInsert (actor : Int) (body : NewAccount)
  | createReload (id : Int) (roleIds : Option (List Int))
  | createSetRoles (id : Int) (roleIds : List Int)
  | patchRequireOwner (actor id : Int) (displayName : Option Text) (isDisabled : Option Bool)
  | patchDisplayName (actor id : Int) (displayName : Text) (isDisabled : Option Bool)
  | patchSetDisabled (id : Int) (disabled : Bool)
  | patchDeleteSessions (id : Int)
  | answered (reply : Reply)

/-- The part of `patch_account` after the display name. -/
def afterDisplayName (actor id : Int) : Option Bool → Stage
  | none => .answered .noContent
  | some disabled =>
    if disabled = true ∧ id = actor then
      .answered (failWith .badRequest "cannot disable your own account")
    else .patchSetDisabled id disabled

/-- The next call of a request, as long as the database answers. -/
def call (now : Instant) (s : Store) : Stage → Store × Stage
  | .createRequireOwner actor body =>
    if accountIsOwner s.registry.db actor = false then
      (s, .answered (failWith .forbidden "owner role required"))
    else (s, .createInsert actor body)
  | .createInsert actor body =>
    match s.registry.insertAccount body.usernameHex body.passwordHash (body.displayName.getD [])
      (some actor) with
    | none => (s, .answered databaseError)
    | some r => (s.inserted now r, .createReload s.registry.nextAccountId body.roleIds)
  | .createReload id roleIds =>
    match getAccountById s.registry.db id with
    | none =>
      (s, .answered (failWith .internalServerError "account missing after insert"))
    | some account =>
      match roleIds with
      | none => (s, .answered .created)
      | some roles => (s, .createSetRoles account.id roles)
  | .createSetRoles id roleIds =>
    match s.registry.setAccountRoles id roleIds with
    | none => (s, .answered databaseError)
    | some r => ({ s with registry := r }, .answered .created)
  | .patchRequireOwner actor id displayName isDisabled =>
    if accountIsOwner s.registry.db actor = false then
      (s, .answered (failWith .forbidden "owner role required"))
    else
      match displayName with
      | none => (s, afterDisplayName actor id isDisabled)
      | some name => (s, .patchDisplayName actor id name isDisabled)
  | .patchDisplayName actor id displayName isDisabled =>
    match s.registry.updateAccountDisplayName id displayName with
    | none => (s, .answered (failWith .badRequest "account not found"))
    | some r => (s.updated now id r, afterDisplayName actor id isDisabled)
  | .patchSetDisabled id disabled =>
    match s.registry.setAccountDisabled id disabled with
    | none => (s, .answered (failWith .badRequest "account not found"))
    | some r =>
      (s.updated now id r,
        if disabled then .patchDeleteSessions id else .answered .noContent)
  | .patchDeleteSessions id =>
    ({ s with registry := s.registry.deleteSessionsForAccount id }, .answered .noContent)
  | .answered reply => (s, .answered reply)

/-- What a failing call leads to: `patch_account` answers 400, and ignores the failure of
its last call. -/
def Stage.onFailure : Stage → Stage
  | .patchDisplayName _ _ _ _ => .answered (.failure .badRequest none)
  | .patchSetDisabled _ _ => .answered (.failure .badRequest none)
  | .patchDeleteSessions _ => .answered .noContent
  | _ => .answered databaseError

def Stage.isOver : Stage → Bool
  | .answered _ => true
  | _ => false

def requests (now : Instant) : Machine Store Stage where
  isOver := Stage.isOver
  onFailure := Stage.onFailure
  call := call now

/-- A request that nobody interrupts; `fails` tells which of its calls fail. -/
def run (now : Instant) (fails : Stage → Bool) (s : Store) (t : Stage) : Store × Stage :=
  (requests now).alone fails 4 s t

section calls

variable (now : Instant) {s : Store} {actor id : Int} {r : Registry}

theorem createInsert_none {body : NewAccount}
    (h : s.registry.insertAccount body.usernameHex body.passwordHash (body.displayName.getD [])
      (some actor) = none) :
    call now s (.createInsert actor body) = (s, .answered databaseError) := by
  unfold call
  simp only [h]

theorem createInsert_some {body : NewAccount}
    (h : s.registry.insertAccount body.usernameHex body.passwordHash (body.displayName.getD [])
      (some actor) = some r) :
    call now s (.createInsert actor body) =
      (s.inserted now r, .createReload s.registry.nextAccountId body.roleIds) := by
  unfold call
  simp only [h]

theorem createReload_done {account : AccountRecord}
    (h : getAccountById s.registry.db id = some account) :
    call now s (.createReload id none) = (s, .answered .created) := by
  unfold call
  simp only [h]

theorem createReload_roles {account : AccountRecord} {roles : List Int}
    (h : getAccountById s.registry.db id = some account) (hid : account.id = id) :
    call now s (.createReload id (some roles)) = (s, .createSetRoles id roles) := by
  unfold call
  simp only [h, hid]

theorem createSetRoles_none {roles : List Int}
    (h : s.registry.setAccountRoles id roles = none) :
    call now s (.createSetRoles id roles) = (s, .answered databaseError) := by
  unfold call
  simp only [h]

theorem createSetRoles_some {roles : List Int}
    (h : s.registry.setAccountRoles id roles = some r) :
    call now s (.createSetRoles id roles) = ({ s with registry := r }, .answered .created) := by
  unfold call
  simp only [h]

theorem patchDisplayName_none {name : Text} {isDisabled : Option Bool}
    (h : s.registry.updateAccountDisplayName id name = none) :
    call now s (.patchDisplayName actor id name isDisabled) =
      (s, .answered (failWith .badRequest "account not found")) := by
  unfold call
  simp only [h]

theorem patchDisplayName_some {name : Text} {isDisabled : Option Bool}
    (h : s.registry.updateAccountDisplayName id name = some r) :
    call now s (.patchDisplayName actor id name isDisabled) =
      (s.updated now id r, afterDisplayName actor id isDisabled) := by
  unfold call
  simp only [h]

theorem patchSetDisabled_none {disabled : Bool}
    (h : s.registry.setAccountDisabled id disabled = none) :
    call now s (.patchSetDisabled id disabled) =
      (s, .answered (failWith .badRequest "account not found")) := by
  unfold call
  simp only [h]

theorem patchSetDisabled_some {disabled : Bool}
    (h : s.registry.setAccountDisabled id disabled = some r) :
    call now s (.patchSetDisabled id disabled) = (s.updated now id r,
      if disabled then .patchDeleteSessions id else .answered .noContent) := by
  unfold call
  simp only [h]

end calls

/-- How many calls are left at most. -/
def Stage.rank : Stage → Nat
  | .createRequireOwner _ _ => 4
  | .createInsert _ _ => 3
  | .createReload _ _ => 2
  | .createSetRoles _ _ => 1
  | .patchRequireOwner _ _ _ _ => 4
  | .patchDisplayName _ _ _ _ => 3
  | .patchSetDisabled _ _ => 2
  | .patchDeleteSessions _ => 1
  | .answered _ => 0

theorem afterDisplayName_rank (actor id : Int) (isDisabled : Option Bool) :
    (afterDisplayName actor id isDisabled).rank ≤ 2 := by
  unfold afterDisplayName
  split
  · exact Nat.zero_le 2
  · split_ifs
    · exact Nat.zero_le 2
    · exact Nat.le_refl 2

/-- Each call brings a request closer to its answer. -/
theorem call_rank (now : Instant) (s : Store) (t : Stage) (hover : t.isOver = false) :
    (call now s t).2.rank < t.rank := by
  cases t with
  | createRequireOwner actor body =>
    simp only [call]
    split_ifs <;> simp [Stage.rank]
  | createInsert actor body =>
    simp only [call]
    split <;> simp [Stage.rank]
  | createReload id roleIds =>
    simp only [call]
    split
    · simp [Stage.rank]
    · split <;> simp [Stage.rank]
  | createSetRoles id roleIds =>
    simp only [call]
    split <;> simp [Stage.rank]
  | patchRequireOwner actor id displayName isDisabled =>
    simp only [call]
    split_ifs
    · simp [Stage.rank]
    · split
      · exact Nat.lt_of_le_of_lt (afterDisplayName_rank _ _ _) (by simp [Stage.rank])
      · simp [Stage.rank]
  | patchDisplayName actor id displayName isDisabled =>
    simp only [call]
    split
    · simp [Stage.rank]
    · exact Nat.lt_of_le_of_lt (afterDisplayName_rank _ _ _) (by simp [Stage.rank])
  | patchSetDisabled id disabled =>
    simp only [call]
    split
    · simp [Stage.rank]
    · split_ifs <;> simp [Stage.rank]
  | patchDeleteSessions id => exact Nat.succ_pos 0
  | answered reply => cases hover

/-- Every request is answered. -/
theorem run_isOver (now : Instant) (fails : Stage → Bool) (s : Store) (t : Stage) :
    (run now fails s t).2.isOver = true := by
  have hfailure : ∀ t : Stage, (requests now).isOver t = false →
      ((requests now).onFailure t).rank < t.rank := by
    intro t hover
    cases t with
    | answered reply => cases hover
    | _ => exact Nat.succ_pos _
  have hrank : t.rank ≤ 4 := by
    cases t <;> simp [Stage.rank]
  exact alone_isOver (call_rank now) hfailure hrank

/-- The tables `account`, `account_role`, `session` and `bucket` are as before, but for the
column `updated_utc`. -/
structure KeepsTables (db db' : Db) : Prop where
  account : db'.account = db.account
  accountRole : db'.accountRole = db.accountRole
  session : db'.session = db.session
  bucket : db'.bucket.rows = db.bucket.rows

structure Unchanged (s s' : Store) : Prop where
  tables : KeepsTables s.registry.db s'.registry.db
  updatedUtc : ∀ a ∈ s.registry.db.account, s'.updatedUtc a.id = s.updatedUtc a.id

theorem Unchanged.refl (s : Store) : Unchanged s s := ⟨⟨rfl, rfl, rfl, rfl⟩, fun _ _ => rfl⟩

/-- The request is answered with an error. -/
def Stage.isError : Stage → Bool
  | .answered (.failure _ _) => true
  | _ => false

/-- An error leaves the tables as they were. -/
def FailsCleanly (s : Store) (result : Store × Stage) : Prop :=
  result.2.isError = true → Unchanged s result.1

theorem insertAccount_isSome {s : Registry} {usernameHex passwordHash displayName : Text}
    {createdBy : Option Int} :
    (s.insertAccount usernameHex passwordHash displayName createdBy).isSome = true ↔
      (∀ a ∈ s.db.account, a.usernameHex ≠ usernameHex) ∧
        createdBy.all (accountExists s.db) = true := by
  unfold Registry.insertAccount
  split_ifs with h
  · refine iff_of_false (by simp) ?_
    intro h'
    obtain ⟨hfree, hcreator⟩ := h'
    rw [hcreator] at h
    simp only [Bool.not_true, Bool.or_false, List.any_eq_true, beq_iff_eq] at h
    obtain ⟨a, ha, heq⟩ := h
    exact hfree a ha heq
  · simp only [Bool.or_eq_true, List.any_eq_true, beq_iff_eq, Bool.not_eq_true', not_or,
      Bool.not_eq_false] at h
    refine iff_of_true rfl ⟨?_, h.2⟩
    intro a ha heq
    exact h.1 ⟨a, ha, heq⟩

/-- The new row is the one with the new id. -/
theorem getAccountById_insertAccount {s s' : Registry}
    {usernameHex passwordHash displayName : Text} {createdBy : Option Int}
    (h : s.insertAccount usernameHex passwordHash displayName createdBy = some s') :
    getAccountById s'.db s.nextAccountId =
      some (Registry.newAccount s.nextAccountId usernameHex passwordHash displayName
        createdBy) := by
  refine (find_key_eq_some s'.account_unique).mpr ⟨?_, rfl⟩
  rw [Registry.insertAccount_eq h]
  exact List.mem_append_right _ (List.mem_singleton_self _)

/-- The rows of an existing account can be inserted when they differ, are new and name
existing roles. -/
theorem insertAccountRoles_isSome {db : Db} {accountId : Int} {roleIds : List Int}
    {rows : List AccountRole} (haccount : accountExists db accountId = true)
    (hnodup : roleIds.Nodup)
    (hroles : ∀ r ∈ roleIds, roleExists db r = true ∧ ⟨accountId, r⟩ ∉ rows) :
    (roleIds.foldlM (fun rows roleId => Registry.insertAccountRole db rows accountId roleId)
      rows).isSome = true := by
  induction roleIds generalizing rows with
  | nil => rfl
  | cons roleId rest ih =>
    obtain ⟨hnew, hrest⟩ := List.nodup_cons.mp hnodup
    obtain ⟨hrole, hfresh⟩ := hroles roleId List.mem_cons_self
    have hinsert : Registry.insertAccountRole db rows accountId roleId =
        some (rows ++ [⟨accountId, roleId⟩]) := by
      unfold Registry.insertAccountRole
      simp [haccount, hrole, hfresh]
    rw [List.foldlM_cons, hinsert]
    refine ih hrest ?_
    intro r hr
    refine ⟨(hroles r (List.mem_cons_of_mem _ hr)).1, ?_⟩
    intro hmem
    rcases List.mem_append.mp hmem with hmem | hmem
    · exact (hroles r (List.mem_cons_of_mem _ hr)).2 hmem
    · rw [List.mem_singleton, AccountRole.mk.injEq] at hmem
      exact hnew (hmem.2 ▸ hr)

theorem setAccountRoles_isSome {s : Registry} {accountId : Int} (roleIds : List Int)
    (haccount : accountExists s.db accountId = true) :
    (s.setAccountRoles accountId roleIds).isSome = true ↔
      roleIds.Nodup ∧ ∀ r ∈ roleIds, roleExists s.db r = true := by
  constructor
  · intro h
    obtain ⟨s', hs'⟩ := Option.isSome_iff_exists.mp h
    exact (Registry.setAccountRoles_eq hs').2
  · intro h'
    obtain ⟨hnodup, hroles⟩ := h'
    unfold Registry.setAccountRoles
    rw [Option.isSome_map]
    refine insertAccountRoles_isSome haccount hnodup ?_
    intro r hr
    exact ⟨hroles r hr, by simp⟩

/-- The row of the new account is written. -/
structure Creates (fails : Stage → Bool) (db : Db) (actor : Int) (body : NewAccount) : Prop where
  asks : fails (.createRequireOwner actor body) = false
  owner : accountIsOwner db actor = true
  inserts : fails (.createInsert actor body) = false
  free : ∀ a ∈ db.account, a.usernameHex ≠ body.usernameHex
  creator : accountExists db actor = true

/-- After the row of the account with this id nothing goes wrong: neither the reload nor the
transaction of the roles fails, and the roles are different ones that exist. -/
structure Equips (fails : Stage → Bool) (db : Db) (id : Int) (roleIds : Option (List Int)) :
    Prop where
  reloads : fails (.createReload id roleIds) = false
  sets : ∀ roles, roleIds = some roles → fails (.createSetRoles id roles) = false
  roles : ∀ roles, roleIds = some roles →
    roles.Nodup ∧ ∀ r ∈ roles, roleExists db r = true

section create

variable {now : Instant} {fails : Stage → Bool} {s : Store} {actor : Int} {body : NewAccount}

/-- When the row is not written, nothing is. -/
theorem create_refused (h : ¬ Creates fails s.registry.db actor body) :
    (run now fails s (.createRequireOwner actor body)).1 = s := by
  unfold run
  cases hasks : fails (.createRequireOwner actor body) with
  | true => rw [alone_failed rfl hasks rfl]
  | false =>
    cases howner : accountIsOwner s.registry.db actor with
    | false => rw [alone_last rfl hasks (if_pos howner) rfl]
    | true =>
      rw [alone_call_eq rfl hasks (if_neg (by simp [howner]))]
      cases hinserts : fails (.createInsert actor body) with
      | true => rw [alone_failed rfl hinserts rfl]
      | false =>
        cases hinsert : s.registry.insertAccount body.usernameHex body.passwordHash
            (body.displayName.getD []) (some actor) with
        | none =>
          rw [alone_last rfl hinserts (createInsert_none now hinsert) rfl]
        | some r =>
          have hsome := insertAccount_isSome.mp (Option.isSome_iff_exists.mpr ⟨r, hinsert⟩)
          exact absurd ⟨hasks, howner, hinserts, hsome.1, hsome.2⟩ h

theorem Equips.of_role {db db' : Db} {id : Int} {roleIds : Option (List Int)}
    (hrole : db'.role = db.role) (h : Equips fails db id roleIds) :
    Equips fails db' id roleIds where
  reloads := h.reloads
  sets := h.sets
  roles roles hroles := by
    unfold roleExists
    rw [hrole]
    exact h.roles roles hroles

variable (now fails) in
/-- What comes after the row of the account. -/
theorem createReload_run {account : AccountRecord} {id : Int} (roleIds : Option (List Int))
    (haccount : getAccountById s.registry.db id = some account) (hid : account.id = id) :
    (Equips fails s.registry.db id roleIds ∧
        ((requests now).alone fails 2 s (.createReload id roleIds)).2 = .answered .created) ∨
      (¬ Equips fails s.registry.db id roleIds ∧
        (requests now).alone fails 2 s (.createReload id roleIds) =
          (s, .answered databaseError)) := by
  have hexists : accountExists s.registry.db id = true :=
    accountExists_iff.mpr ⟨account, (getAccountById_eq_some haccount).1, hid⟩
  cases hreloads : fails (.createReload id roleIds) with
  | true =>
    refine Or.inr ⟨?_, alone_failed rfl hreloads rfl⟩
    intro h
    rw [h.reloads] at hreloads
    cases hreloads
  | false =>
    cases roleIds with
    | none =>
      refine Or.inl ⟨⟨hreloads, by simp, by simp⟩, ?_⟩
      rw [alone_last rfl hreloads (createReload_done now haccount) rfl]
    | some roles =>
      rw [alone_call_eq rfl hreloads (createReload_roles now haccount hid)]
      cases hsets : fails (.createSetRoles id roles) with
      | true =>
        refine Or.inr ⟨?_, alone_failed rfl hsets rfl⟩
        intro h
        rw [h.sets roles rfl] at hsets
        cases hsets
      | false =>
        have hiff := setAccountRoles_isSome roles hexists
        cases hset : s.registry.setAccountRoles id roles with
        | none =>
          refine Or.inr ⟨?_, alone_last rfl hsets (createSetRoles_none now hset) rfl⟩
          intro h
          have hsome := hiff.mpr (h.roles roles rfl)
          rw [hset] at hsome
          cases hsome
        | some r =>
          refine Or.inl ⟨⟨hreloads, ?_, ?_⟩, ?_⟩
          · intro roles' h'
            cases h'
            exact hsets
          · intro roles' h'
            cases h'
            exact hiff.mp (by rw [hset]; rfl)
          · rw [alone_last rfl hsets (createSetRoles_some now hset) rfl]

variable (now) in
theorem create_inserted (h : Creates fails s.registry.db actor body) :
    ∃ r, s.registry.insertAccount body.usernameHex body.passwordHash (body.displayName.getD [])
        (some actor) = some r ∧
      run now fails s (.createRequireOwner actor body) =
        (requests now).alone fails 2 (s.inserted now r)
          (.createReload s.registry.nextAccountId body.roleIds) := by
  have hsome : (s.registry.insertAccount body.usernameHex body.passwordHash
      (body.displayName.getD []) (some actor)).isSome = true :=
    insertAccount_isSome.mpr ⟨h.free, h.creator⟩
  obtain ⟨r, hr⟩ := Option.isSome_iff_exists.mp hsome
  refine ⟨r, hr, ?_⟩
  unfold run
  rw [alone_call_eq rfl h.asks (if_neg (by simp [h.owner])),
    alone_call_eq rfl h.inserts (createInsert_some now hr)]

/-- An error of `create_account` leaves the tables as they were exactly when the row of the
account is not written, or nothing goes wrong after it. -/
theorem create_failsCleanly_iff :
    FailsCleanly s (run now fails s (.createRequireOwner actor body)) ↔
      (Creates fails s.registry.db actor body →
        Equips fails s.registry.db s.registry.nextAccountId body.roleIds) := by
  by_cases h : Creates fails s.registry.db actor body
  · obtain ⟨r, hinsert, hrun⟩ := create_inserted now h
    have hdb := Registry.insertAccount_eq hinsert
    have hrole : r.db.role = s.registry.db.role := by rw [hdb]
    have hiff : Equips fails r.db s.registry.nextAccountId body.roleIds ↔
        Equips fails s.registry.db s.registry.nextAccountId body.roleIds :=
      ⟨fun he => he.of_role hrole.symm, fun he => he.of_role hrole⟩
    have hreload := createReload_run now fails (s := s.inserted now r) body.roleIds
      (getAccountById_insertAccount hinsert) rfl
    rw [hrun, imp_iff_right h, ← hiff]
    rcases hreload with ⟨hequips, hcreated⟩ | ⟨hequips, herror⟩
    · refine iff_of_true ?_ hequips
      intro hfailed
      rw [hcreated] at hfailed
      cases hfailed
    · refine iff_of_false ?_ hequips
      rw [herror]
      intro hclean
      have haccount := (hclean rfl).tables.account
      change r.db.account = _ at haccount
      rw [hdb] at haccount
      simp at haccount
  · refine iff_of_true ?_ fun hcreates => absurd hcreates h
    intro _
    rw [create_refused h]
    exact Unchanged.refl s

end create

/-- The new display name is written. -/
structure Names (fails : Stage → Bool) (db : Db) (actor id : Int) (displayName : Option Text)
    (isDisabled : Option Bool) (name : Text) : Prop where
  given : displayName = some name
  asks : fails (.patchRequireOwner actor id displayName isDisabled) = false
  owner : accountIsOwner db actor = true
  updates : fails (.patchDisplayName actor id name isDisabled) = false
  account : accountExists db id = true

/-- What follows the display name ends in an error: the caller disables itself, or the update
fails. -/
def Stops (fails : Stage → Bool) (actor id : Int) (isDisabled : Option Bool) : Prop :=
  ∃ disabled, isDisabled = some disabled ∧
    ((disabled = true ∧ id = actor) ∨ fails (.patchSetDisabled id disabled) = true)

/-- The account has the display name, and was last updated in the same second. -/
def AlreadyNamed (now : Instant) (s : Store) (id : Int) (name : Text) : Prop :=
  ∀ a ∈ s.registry.db.account, a.id = id →
    a.displayName = name ∧ s.updatedUtc id = now.currentTimestamp

section patch

variable {now : Instant} {fails : Stage → Bool} {s : Store} {actor id : Int}
  {displayName : Option Text} {isDisabled : Option Bool}

theorem updateAccount_isSome {r : Registry} {f : AccountRecord → AccountRecord}
    {hid : ∀ a, (f a).id = a.id} :
    (r.updateAccount id f hid).isSome = accountExists r.db id := by
  unfold Registry.updateAccount
  split_ifs with h
  · exact h.symm
  · exact (Bool.not_eq_true _ ▸ h).symm

theorem updateAccountDisplayName_isSome {r : Registry} {name : Text} :
    (r.updateAccountDisplayName id name).isSome = accountExists r.db id := updateAccount_isSome

theorem setAccountDisabled_isSome {r : Registry} {disabled : Bool} :
    (r.setAccountDisabled id disabled).isSome = accountExists r.db id := updateAccount_isSome

theorem unchanged_updated_iff {r : Registry} {name : Text}
    (h : s.registry.updateAccountDisplayName id name = some r) :
    Unchanged s (s.updated now id r) ↔ AlreadyNamed now s id name := by
  have hdb := (Registry.updateAccount_eq h).1
  have hself : r.db.account = s.registry.db.account ↔
      ∀ a ∈ s.registry.db.account, a.id = id → a.displayName = name := by
    rw [hdb]
    refine updateRows_eq_self_iff.trans (forall₂_congr fun a _ => ?_)
    rw [beq_iff_eq]
    refine imp_congr_right fun _ => ?_
    constructor
    · intro heq
      exact (congrArg AccountRecord.displayName heq).symm
    · intro h'
      obtain rfl := h'
      rfl
  constructor
  · intro hkeeps a ha hid
    refine ⟨hself.mp hkeeps.tables.account a ha hid, ?_⟩
    have hupdated := hkeeps.updatedUtc a ha
    rw [hid] at hupdated
    exact hupdated.symm.trans (Function.update_self id _ _)
  · intro hnamed
    have haccount := hself.mpr fun a ha hid => (hnamed a ha hid).1
    refine ⟨⟨haccount, ?_, ?_, ?_⟩, ?_⟩
    · simp only [Store.updated, hdb]
    · simp only [Store.updated, hdb]
    · simp only [Store.updated, hdb]
    · intro a ha
      by_cases hid : a.id = id
      · rw [hid, (hnamed a ha hid).2]
        exact Function.update_self id _ _
      · exact Function.update_of_ne hid _ _

variable (now fails s actor id isDisabled) in
/-- What comes after the display name: an error that changes nothing, or success. -/
theorem afterDisplayName_run (n : Nat) :
    ((Stops fails actor id isDisabled ∨ accountExists s.registry.db id = false) ∧
        ∃ message, (requests now).alone fails (n + 2) s (afterDisplayName actor id isDisabled) =
          (s, .answered (.failure .badRequest message))) ∨
      (¬ Stops fails actor id isDisabled ∧
        ((requests now).alone fails (n + 2) s (afterDisplayName actor id isDisabled)).2 =
          .answered .noContent) := by
  cases isDisabled with
  | none =>
    refine Or.inr ⟨?_, by rw [afterDisplayName, alone_over rfl]⟩
    intro h
    obtain ⟨disabled, hdisabled, _⟩ := h
    cases hdisabled
  | some disabled =>
    by_cases hself : disabled = true ∧ id = actor
    · simp only [afterDisplayName, if_pos hself]
      exact Or.inl ⟨Or.inl ⟨disabled, rfl, Or.inl hself⟩, _, alone_over rfl⟩
    · simp only [afterDisplayName, if_neg hself]
      cases hfails : fails (.patchSetDisabled id disabled) with
      | true =>
        exact Or.inl ⟨Or.inl ⟨disabled, rfl, Or.inr hfails⟩, _, alone_failed rfl hfails rfl⟩
      | false =>
        cases hset : s.registry.setAccountDisabled id disabled with
        | none =>
          refine Or.inl ⟨Or.inr ?_, _,
            alone_last rfl hfails (patchSetDisabled_none now hset) rfl⟩
          rw [← setAccountDisabled_isSome, hset]
          rfl
        | some r =>
          refine Or.inr ⟨?_, ?_⟩
          · intro h
            rcases h with ⟨disabled', ⟨⟩, hself' | hfails'⟩
            · exact hself hself'
            · rw [hfails] at hfails'
              cases hfails'
          · rw [alone_call_eq rfl hfails (patchSetDisabled_some now hset)]
            cases disabled with
            | false => exact congrArg Prod.snd (alone_over rfl)
            | true =>
              cases hdelete : fails (.patchDeleteSessions id) with
              | true => exact congrArg Prod.snd (alone_failed rfl hdelete rfl)
              | false => exact congrArg Prod.snd (alone_last rfl hdelete rfl rfl)

/-- When the display name is not written, an error changes nothing. -/
theorem patch_unnamed
    (h : ∀ name, ¬ Names fails s.registry.db actor id displayName isDisabled name) :
    FailsCleanly s (run now fails s (.patchRequireOwner actor id displayName isDisabled)) := by
  have hsame : ∀ {result : Store × Stage}, result.1 = s → FailsCleanly s result := by
    intro result hresult _
    rw [hresult]
    exact Unchanged.refl s
  unfold run
  cases hasks : fails (.patchRequireOwner actor id displayName isDisabled) with
  | true => exact hsame (by rw [alone_failed rfl hasks rfl])
  | false =>
    cases howner : accountIsOwner s.registry.db actor with
    | false => exact hsame (by rw [alone_last rfl hasks (if_pos howner) rfl])
    | true =>
      rw [alone_call_eq rfl hasks (if_neg (by simp [howner]))]
      cases displayName with
      | none =>
        rcases afterDisplayName_run now fails s actor id isDisabled 1 with
          ⟨_, message, herror⟩ | ⟨_, hdone⟩
        · exact hsame (by rw [herror])
        · intro herror
          rw [hdone] at herror
          cases herror
      | some name =>
        cases hupdates : fails (.patchDisplayName actor id name isDisabled) with
        | true => exact hsame (by rw [alone_failed rfl hupdates rfl])
        | false =>
          cases hupdate : s.registry.updateAccountDisplayName id name with
          | none =>
            exact hsame (by rw [alone_last rfl hupdates (patchDisplayName_none now hupdate) rfl])
          | some r =>
            have hexists : accountExists s.registry.db id = true := by
              rw [← updateAccountDisplayName_isSome, hupdate]
              rfl
            exact absurd ⟨rfl, hasks, howner, hupdates, hexists⟩ (h name)

variable (now) in
theorem patch_named {name : Text}
    (h : Names fails s.registry.db actor id displayName isDisabled name) :
    ∃ r, s.registry.updateAccountDisplayName id name = some r ∧
      run now fails s (.patchRequireOwner actor id displayName isDisabled) =
        (requests now).alone fails 2 (s.updated now id r)
          (afterDisplayName actor id isDisabled) := by
  have hsome : (s.registry.updateAccountDisplayName id name).isSome = true :=
    updateAccountDisplayName_isSome.trans h.account
  obtain ⟨r, hr⟩ := Option.isSome_iff_exists.mp hsome
  refine ⟨r, hr, ?_⟩
  obtain rfl := h.given
  unfold run
  rw [alone_call_eq rfl h.asks (if_neg (by simp [h.owner])),
    alone_call_eq rfl h.updates (patchDisplayName_some now hr)]

/-- An error of `patch_account` leaves the tables as they were exactly when the display name
is not written, nothing goes wrong after it, or its update changed nothing. -/
theorem patch_failsCleanly_iff :
    FailsCleanly s (run now fails s (.patchRequireOwner actor id displayName isDisabled)) ↔
      ∀ name, Names fails s.registry.db actor id displayName isDisabled name →
        Stops fails actor id isDisabled → AlreadyNamed now s id name := by
  by_cases h : ∃ name, Names fails s.registry.db actor id displayName isDisabled name
  · obtain ⟨name, hnames⟩ := h
    have hgiven : ∀ name', Names fails s.registry.db actor id displayName isDisabled name' →
        name' = name := by
      intro name' hnames'
      exact Option.some.inj (hnames'.given.symm.trans hnames.given)
    have hiff : (∀ name', Names fails s.registry.db actor id displayName isDisabled name' →
        Stops fails actor id isDisabled → AlreadyNamed now s id name') ↔
        (Stops fails actor id isDisabled → AlreadyNamed now s id name) := by
      constructor
      · intro hall
        exact hall name hnames
      · intro hone name' hnames'
        rw [hgiven name' hnames']
        exact hone
    obtain ⟨r, hr, hrun⟩ := patch_named now hnames
    have hexists : accountExists (s.updated now id r).registry.db id = true := by
      obtain ⟨a, ha, hid⟩ := accountExists_iff.mp hnames.account
      have hdb := (Registry.updateAccount_eq hr).1
      obtain ⟨a', ha', hid'⟩ := exists_updateRows (·.id) (fun a => a.id == id)
        (f := fun a : AccountRecord => { a with displayName := name }) (fun _ => rfl) ha
      refine accountExists_iff.mpr ⟨a', ?_, hid'.trans hid⟩
      change a' ∈ r.db.account
      rw [hdb]
      exact ha'
    rw [hiff, hrun, ← unchanged_updated_iff hr]
    rcases afterDisplayName_run now fails (s.updated now id r) actor id isDisabled 0 with
      ⟨hstops, message, herror⟩ | ⟨hstops, hdone⟩
    · rw [hexists] at hstops
      have hstops := hstops.resolve_right (by simp)
      rw [imp_iff_right hstops, herror]
      exact imp_iff_right rfl
    · refine iff_of_true ?_ fun h => absurd h hstops
      intro herror
      rw [hdone] at herror
      cases herror
  · rw [not_exists] at h
    exact iff_of_true (patch_unnamed h) fun name hnames => absurd hnames (h name)

end patch

section whole

variable {now : Instant} {s : Store} {actor id : Int}

/-- A result of the calls is a result of the handler as a whole. -/
def Agrees (result : Store × Stage) (whole : Reply × Registry) : Prop :=
  result.2 = .answered whole.1 ∧ result.1.registry = whole.2

/-- Without failures the calls of `create_account` do what the handler does as a whole. -/
theorem create_agrees (body : NewAccount) :
    Agrees (run now (fun _ => false) s (.createRequireOwner actor body))
      (createAccount s.registry actor body.displayName body.roleIds body.usernameHex
        body.passwordHash {}) := by
  unfold run createAccount
  cases howner : accountIsOwner s.registry.db actor with
  | false =>
    rw [alone_last rfl rfl (if_pos howner) rfl]
    exact ⟨rfl, rfl⟩
  | true =>
    rw [alone_call_eq rfl rfl (if_neg (by simp [howner]))]
    cases hinsert : s.registry.insertAccount body.usernameHex body.passwordHash
        (body.displayName.getD []) (some actor) with
    | none =>
      rw [alone_last rfl rfl (createInsert_none now hinsert) rfl]
      exact ⟨rfl, rfl⟩
    | some r =>
      have haccount : getAccountById (s.inserted now r).registry.db s.registry.nextAccountId =
          some _ := getAccountById_insertAccount hinsert
      rw [alone_call_eq rfl rfl (createInsert_some now hinsert)]
      cases hroles : body.roleIds with
      | none =>
        rw [alone_last rfl rfl (createReload_done now haccount) rfl]
        exact ⟨rfl, rfl⟩
      | some roles =>
        rw [alone_call_eq rfl rfl (createReload_roles now haccount rfl)]
        cases hset : r.setAccountRoles s.registry.nextAccountId roles with
        | none =>
          have hnone : (s.inserted now r).registry.setAccountRoles s.registry.nextAccountId roles =
              none := hset
          rw [alone_last rfl rfl (createSetRoles_none now hnone) rfl]
          simp only [Bool.true_eq_false, if_false, Bool.false_eq_true, hset]
          exact ⟨rfl, rfl⟩
        | some r' =>
          have hsome : (s.inserted now r).registry.setAccountRoles s.registry.nextAccountId roles =
              some r' := hset
          rw [alone_last rfl rfl (createSetRoles_some now hsome) rfl]
          simp only [Bool.true_eq_false, if_false, Bool.false_eq_true, hset]
          exact ⟨rfl, rfl⟩

theorem afterDisplayName_agrees (isDisabled : Option Bool) (n : Nat) :
    Agrees ((requests now).alone (fun _ => false) (n + 2) s
      (afterDisplayName actor id isDisabled))
      (patchDisabled s.registry actor id isDisabled {}) := by
  cases isDisabled with
  | none =>
    simp only [afterDisplayName]
    rw [alone_over rfl]
    exact ⟨rfl, rfl⟩
  | some disabled =>
    by_cases hself : disabled = true ∧ id = actor
    · simp only [afterDisplayName, patchDisabled, if_pos hself]
      rw [alone_over rfl]
      exact ⟨rfl, rfl⟩
    · simp only [afterDisplayName, patchDisabled, if_neg hself, Bool.false_eq_true, if_false]
      cases hset : s.registry.setAccountDisabled id disabled with
      | none =>
        rw [alone_last rfl rfl (patchSetDisabled_none now hset) rfl]
        exact ⟨rfl, rfl⟩
      | some r =>
        rw [alone_call_eq rfl rfl (patchSetDisabled_some now hset)]
        cases disabled with
        | false =>
          simp only [Bool.false_eq_true, if_false]
          rw [alone_over rfl]
          exact ⟨rfl, rfl⟩
        | true =>
          simp only [if_true]
          rw [alone_last rfl rfl rfl rfl]
          exact ⟨rfl, rfl⟩

/-- Without failures the calls of `patch_account` do what the handler does as a whole. -/
theorem patch_agrees (displayName : Option Text) (isDisabled : Option Bool) :
    Agrees (run now (fun _ => false) s (.patchRequireOwner actor id displayName isDisabled))
      (patchAccount s.registry actor id displayName isDisabled {}) := by
  unfold run patchAccount
  cases howner : accountIsOwner s.registry.db actor with
  | false =>
    rw [alone_last rfl rfl (if_pos howner) rfl]
    exact ⟨rfl, rfl⟩
  | true =>
    rw [alone_call_eq rfl rfl (if_neg (by simp [howner]))]
    cases displayName with
    | none => exact afterDisplayName_agrees isDisabled 1
    | some name =>
      cases hupdate : s.registry.updateAccountDisplayName id name with
      | none =>
        rw [alone_last rfl rfl (patchDisplayName_none now hupdate) rfl]
        simp only [hupdate]
        exact ⟨rfl, rfl⟩
      | some r =>
        rw [alone_call_eq rfl rfl (patchDisplayName_some now hupdate)]
        simp only [hupdate]
        exact afterDisplayName_agrees isDisabled 0

end whole

end MyS3.AccountRequests
