import MyS3.Bootstrap
import MyS3.SettingsRoutes

/-!
Whether an enabled Owner is left. Bootstrap makes one; after it, every handler leaves the
accounts with the Owner role as they are, except for the account that it names. An Owner
is lost when its roles are replaced or its account is deleted, and nobody checks whether
it was the last one; disabling is safe, because the caller stays.
-/

namespace MyS3.LastOwner

open Library.Strings Library.Runs Library.Tables
open Models Database Rbac Accounts SettingsRoutes

/-- Owners other than one account stay Owners. -/
def KeepsOthers (db db' : Db) (id : Int) : Prop :=
  ∀ other, other ≠ id → EnabledOwner db other → EnabledOwner db' other

/-- All Owners stay Owners. -/
def KeepsOwners (db db' : Db) : Prop := ∀ id, EnabledOwner db id → EnabledOwner db' id

theorem keepsOwners_of_eq {db db' : Db} (haccount : db'.account = db.account)
    (hrole : db'.role = db.role) (haccountRole : db'.accountRole = db.accountRole) :
    KeepsOwners db db' := by
  intro id h
  unfold EnabledOwner Enabled accountIsOwner at *
  rw [haccount, hrole, haccountRole]
  exact h

/-- Every account other than one is there as before, and has its roles. -/
theorem keepsOthers_of_rows {db db' : Db} {id : Int}
    (haccount : ∀ a ∈ db.account, a.id ≠ id → a.isDisabled = false →
      ∃ b ∈ db'.account, b.id = a.id ∧ b.isDisabled = false)
    (hrole : db'.role = db.role)
    (haccountRole : ∀ ar ∈ db.accountRole, ar.accountId ≠ id → ar ∈ db'.accountRole) :
    KeepsOthers db db' id := by
  intro other hne hother
  obtain ⟨⟨a, ha, rfl, hon⟩, howner⟩ := hother
  obtain ⟨ar, har, haid, r, hr, hrid, howner⟩ := accountIsOwner_iff.mp howner
  obtain ⟨b, hb, hbid, hbon⟩ := haccount a ha hne hon
  refine ⟨⟨b, hb, hbid, hbon⟩, accountIsOwner_iff.mpr
    ⟨ar, haccountRole ar har (by rw [haid]; exact hne), haid, r, ?_, hrid, howner⟩⟩
  rw [hrole]
  exact hr

theorem keepsOwners_insertAccount {s s' : Registry} {usernameHex passwordHash displayName : Text}
    {createdBy : Option Int}
    (h : s.insertAccount usernameHex passwordHash displayName createdBy = some s') :
    KeepsOwners s.db s'.db := by
  rw [Registry.insertAccount_eq h]
  intro id h'
  obtain ⟨⟨a, ha, hid, hon⟩, howner⟩ := h'
  exact ⟨⟨a, List.mem_append_left _ ha, hid, hon⟩, howner⟩

theorem keepsOthers_updateAccount {s s' : Registry} {id : Int}
    {f : AccountRecord → AccountRecord} {hid : ∀ a, (f a).id = a.id}
    (h : s.updateAccount id f hid = some s') : KeepsOthers s.db s'.db id := by
  rw [(Registry.updateAccount_eq h).1]
  refine keepsOthers_of_rows ?_ rfl fun _ har _ => har
  intro a ha hne hon
  exact ⟨a, mem_updateRows.mpr (Or.inl ⟨ha, by simpa using hne⟩), rfl, hon⟩

theorem keepsOwners_updateAccount {s s' : Registry} {id : Int}
    {f : AccountRecord → AccountRecord} {hid : ∀ a, (f a).id = a.id}
    (hon : ∀ a, a.isDisabled = false → (f a).isDisabled = false)
    (h : s.updateAccount id f hid = some s') : KeepsOwners s.db s'.db := by
  rw [(Registry.updateAccount_eq h).1]
  intro other h'
  obtain ⟨⟨a, ha, haid, hen⟩, howner⟩ := h'
  refine ⟨?_, howner⟩
  by_cases htarget : (a.id == id) = true
  · exact ⟨f a, mem_updateRows.mpr (Or.inr ⟨a, ha, htarget, rfl⟩), by rw [hid, haid], hon a hen⟩
  · exact ⟨a, mem_updateRows.mpr (Or.inl ⟨ha, Bool.not_eq_true _ ▸ htarget⟩), haid, hen⟩

theorem keepsOthers_deleteAccount {s s' : Registry} {id : Int} {deleted : Bool}
    (h : s.deleteAccount id = some (deleted, s')) : KeepsOthers s.db s'.db id := by
  unfold Registry.deleteAccount at h
  split_ifs at h
  · obtain ⟨_, rfl⟩ := Prod.mk.inj (Option.some.inj h)
    exact fun other _ hother => hother
  · obtain ⟨_, rfl⟩ := Prod.mk.inj (Option.some.inj h)
    refine keepsOthers_of_rows ?_ rfl ?_
    · intro a ha hne hon
      exact ⟨Registry.forgetCreator id a, List.mem_map_of_mem (List.mem_filter.mpr
        ⟨ha, by simpa using hne⟩), rfl, hon⟩
    · intro ar har hne
      exact List.mem_filter.mpr ⟨har, by simpa using hne⟩

theorem keepsOthers_setAccountRoles {s s' : Registry} {accountId : Int} {roleIds : List Int}
    (h : s.setAccountRoles accountId roleIds = some s') : KeepsOthers s.db s'.db accountId := by
  rw [(Registry.setAccountRoles_eq h).1]
  refine keepsOthers_of_rows (fun a ha _ hon => ⟨a, ha, rfl, hon⟩) rfl ?_
  intro ar har hne
  exact List.mem_append_left _ (List.mem_filter.mpr ⟨har, by simpa using hne⟩)

/-- One of the roles is the Owner role. -/
def GrantsOwner (db : Db) (roleIds : List Int) : Prop :=
  ∃ roleId ∈ roleIds, ∃ r ∈ db.role, r.id = roleId ∧ r.isOwner = true

theorem owner_setAccountRoles {s s' : Registry} {accountId : Int} {roleIds : List Int}
    (h : s.setAccountRoles accountId roleIds = some s') (hgrants : GrantsOwner s.db roleIds)
    (hon : Enabled s.db accountId) : EnabledOwner s'.db accountId := by
  obtain ⟨roleId, hmem, r, hr, hrid, howner⟩ := hgrants
  rw [(Registry.setAccountRoles_eq h).1]
  exact ⟨hon, accountIsOwner_iff.mpr ⟨⟨accountId, roleId⟩,
    List.mem_append_right _ (List.mem_map_of_mem hmem), rfl, r, hr, hrid, howner⟩⟩

theorem keepsOwners_createRole {s s' : Registry} {name : Text} {position : Int}
    (h : s.createRole name position = some s') : KeepsOwners s.db s'.db := by
  unfold Registry.createRole at h
  split_ifs at h
  rw [← Option.some.inj h]
  intro id h'
  obtain ⟨hon, howner⟩ := h'
  obtain ⟨ar, har, haid, r, hr, hrid, howner⟩ := accountIsOwner_iff.mp howner
  exact ⟨hon, accountIsOwner_iff.mpr ⟨ar, har, haid, r, List.mem_append_left _ hr, hrid, howner⟩⟩

theorem keepsOwners_updateRole {s s' : Registry} {id : Int} {name : Option Text}
    {position : Option Int} (h : s.updateRole id name position = .ok s') :
    KeepsOwners s.db s'.db := by
  unfold Registry.updateRole at h
  split at h
  · cases h
  · rename_i role _
    simp only at h
    split_ifs at h
    rw [← Except.ok.inj h]
    intro other h'
    obtain ⟨hon, howner⟩ := h'
    obtain ⟨ar, har, haid, r, hr, hrid, howner⟩ := accountIsOwner_iff.mp howner
    obtain ⟨r', hr', heq⟩ := exists_updateRows (fun r => (r.id, r.isOwner)) (fun r => r.id == id)
      (f := Registry.setRole (name.getD role.name) (position.getD role.position))
      (fun _ => rfl) hr
    simp only [Prod.mk.injEq] at heq
    exact ⟨hon, accountIsOwner_iff.mpr ⟨ar, har, haid, r', hr', by rw [heq.1, hrid],
      by rw [heq.2, howner]⟩⟩

/-- The Owner role is refused, and no other role shares its id. -/
theorem keepsOwners_deleteRole {s s' : Registry} {id : Int} (h : s.deleteRole id = .ok s') :
    KeepsOwners s.db s'.db := by
  unfold Registry.deleteRole at h
  split at h
  · cases h
  · rename_i role hrole
    split_ifs at h with hplain
    rw [← Except.ok.inj h]
    have hmem : role ∈ s.db.role := List.mem_of_find?_eq_some hrole
    have hid : role.id = id := by simpa using List.find?_some hrole
    intro other h'
    obtain ⟨hon, howner⟩ := h'
    obtain ⟨ar, har, haid, r, hr, hrid, howner⟩ := accountIsOwner_iff.mp howner
    have hne : r.id ≠ id := by
      intro heq
      have hsame := eq_of_pairwise_ne s.role_unique hr hmem (heq.trans hid.symm)
      rw [hsame] at howner
      exact hplain howner
    refine ⟨hon, accountIsOwner_iff.mpr ⟨ar, List.mem_filter.mpr ⟨har, ?_⟩, haid, r,
      List.mem_filter.mpr ⟨hr, by simpa using hne⟩, hrid, howner⟩⟩
    rw [← hrid]
    simpa using hne

/-- A new account has a new id, so that its roles are those of nobody else. -/
theorem keepsOwners_createAccount (s : Registry) (actor : Int) (displayName : Option Text)
    (roleIds : Option (List Int)) (usernameHex passwordHash : Text) (faults : Faults) :
    KeepsOwners s.db
      (createAccount s actor displayName roleIds usernameHex passwordHash faults).2.db := by
  unfold createAccount
  split
  · exact fun _ h => h
  · split
    · exact fun _ h => h
    · rename_i s' hinsert
      have hkeeps := keepsOwners_insertAccount hinsert
      split
      · exact hkeeps
      · split
        · exact hkeeps
        · split
          · exact hkeeps
          · rename_i s'' hroles
            intro id hid
            apply keepsOthers_setAccountRoles hroles id _ (hkeeps id hid)
            obtain ⟨⟨a, ha, rfl, _⟩, _⟩ := hid
            exact ne_of_lt (s.account_lt a ha)

/-- The caller stays an enabled Owner when an account is disabled or enabled. -/
theorem owner_patchDisabled {s : Registry} {actor id : Int} {isDisabled : Option Bool}
    {faults : Faults} (h : EnabledOwner s.db actor) :
    EnabledOwner (patchDisabled s actor id isDisabled faults).2.db actor := by
  unfold patchDisabled
  split
  · exact h
  · rename_i disabled
    split
    · exact h
    · rename_i hself
      split
      · exact h
      · split
        · exact h
        · rename_i s' hset
          have hkept : EnabledOwner s'.db actor := by
            by_cases hid : actor = id
            · cases hdisabled : disabled with
              | true => exact absurd ⟨hdisabled, hid.symm⟩ hself
              | false =>
                subst hdisabled
                exact keepsOwners_updateAccount (fun _ _ => rfl) hset actor h
            · exact keepsOthers_updateAccount hset actor hid h
          simp only
          split_ifs
          · exact keepsOwners_of_eq rfl rfl rfl actor hkept
          · exact hkept

theorem owner_patchAccount {s : Registry} {actor id : Int} {displayName : Option Text}
    {isDisabled : Option Bool} {faults : Faults} (hauth : isAuthenticated s.db actor = true)
    (h : ∃ owner, EnabledOwner s.db owner) :
    ∃ owner, EnabledOwner (patchAccount s actor id displayName isDisabled faults).2.db owner := by
  unfold patchAccount
  split_ifs with howner
  · exact h
  · have hactor : EnabledOwner s.db actor :=
      ⟨enabled_of_authenticated hauth, Bool.not_eq_false _ ▸ howner⟩
    split
    · exact ⟨actor, owner_patchDisabled hactor⟩
    · rename_i name
      split
      · exact h
      · rename_i s' hname
        have hkeeps : KeepsOwners s.db s'.db := keepsOwners_updateAccount
          (f := fun a => { a with displayName := name }) (fun _ hon => hon) hname
        exact ⟨actor, owner_patchDisabled (hkeeps actor hactor)⟩

/-- The calls that take the Owner role from an account, or the account itself: roles that
all exist replace those of the account and the Owner role is not among them, or the
creator of the account deletes it and no share link names it. -/
def Strips (s : Registry) (c : Call) (id : Int) : Prop :=
  match c.request with
  | .setRoles target roleIds =>
    target = id ∧ accountIsOwner s.db c.actor = true ∧ roleIds.Nodup ∧
      (∀ roleId ∈ roleIds, roleExists s.db roleId = true) ∧ ¬ GrantsOwner s.db roleIds
  | .deleteAccount target =>
    target = id ∧ target ≠ c.actor ∧ accountCreatedBy s.db target c.actor = true ∧
      (∀ l ∈ s.db.shareLink, l.createdByAccountId ≠ target) ∧
      ∀ u ∈ s.db.shareLinkUser, u.accountId ≠ target
  | _ => False

/-- An enabled Owner is only stripped or deleted while there is another one. -/
def LeavesOwner (s : Registry) (c : Call) : Prop :=
  ∀ id, EnabledOwner s.db id → Strips s c id → ∃ other, other ≠ id ∧ EnabledOwner s.db other

theorem owner_setRoles {s : Registry} {c : Call} {id : Int} {roleIds : List Int}
    (hrequest : c.request = .setRoles id roleIds) (h : ∃ owner, EnabledOwner s.db owner)
    (hok : LeavesOwner s c) :
    ∃ owner, EnabledOwner (setRoles s c.actor id roleIds).2.db owner := by
  unfold setRoles
  split_ifs with howner
  · exact h
  · exact h
  · split
    · exact h
    · rename_i s' hset
      obtain ⟨owner, hold⟩ := h
      by_cases hid : owner = id
      · by_cases hgrants : GrantsOwner s.db roleIds
        · subst hid
          exact ⟨owner, owner_setAccountRoles hset hgrants hold.1⟩
        · obtain ⟨_, hnodup, hall⟩ := Registry.setAccountRoles_eq hset
          have hstrips : Strips s c owner := by
            unfold Strips
            rw [hrequest]
            exact ⟨hid.symm, Bool.not_eq_false _ ▸ howner, hnodup, hall, hgrants⟩
          obtain ⟨other, hne, hother⟩ := hok owner hold hstrips
          rw [hid] at hne
          exact ⟨other, keepsOthers_setAccountRoles hset other hne hother⟩
      · exact ⟨owner, keepsOthers_setAccountRoles hset owner hid hold⟩

theorem owner_deleteAccount {s : Registry} {c : Call} {id : Int}
    (hrequest : c.request = .deleteAccount id) (h : ∃ owner, EnabledOwner s.db owner)
    (hok : LeavesOwner s c) : ∃ owner, EnabledOwner (deleteAccount s c.actor id).2.db owner := by
  unfold deleteAccount
  split_ifs with hself hcreator
  · exact h
  · exact h
  · cases hdelete : s.deleteAccount id with
    | none => exact h
    | some result =>
      obtain ⟨deleted, s'⟩ := result
      have hkept : ∃ owner, EnabledOwner s'.db owner := by
        obtain ⟨owner, hold⟩ := h
        by_cases hid : owner = id
        · have hstrips : Strips s c owner := by
            have hexists : accountExists s.db id = true := by
              obtain ⟨⟨a, ha, haid, _⟩, _⟩ := hold
              exact accountExists_iff.mpr ⟨a, ha, haid.trans hid⟩
            unfold Registry.deleteAccount at hdelete
            rw [hexists, if_neg (by decide)] at hdelete
            split_ifs at hdelete with hlinks
            simp only [Bool.or_eq_true, List.any_eq_true, beq_iff_eq, not_or, not_exists,
              not_and] at hlinks
            unfold Strips
            rw [hrequest]
            exact ⟨hid.symm, hself, Bool.not_eq_false _ ▸ hcreator, hlinks.1, hlinks.2⟩
          obtain ⟨other, hne, hother⟩ := hok owner hold hstrips
          rw [hid] at hne
          exact ⟨other, keepsOthers_deleteAccount hdelete other hne hother⟩
        · exact ⟨owner, keepsOthers_deleteAccount hdelete owner hid hold⟩
      cases deleted with
      | true => exact hkept
      | false => exact hkept

theorem owner_step (s s' : Registry) (c : Call) (h : ∃ owner, EnabledOwner s.db owner)
    (hok : LeavesOwner s c) (hstep : step s c = some s') : ∃ owner, EnabledOwner s'.db owner := by
  unfold step at hstep
  split_ifs at hstep with hauth
  rw [← Option.some.inj hstep]
  have hkeeps : ∀ t : Registry, KeepsOwners s.db t.db → ∃ owner, EnabledOwner t.db owner := by
    intro t hkeeps
    obtain ⟨owner, howner⟩ := h
    exact ⟨owner, hkeeps owner howner⟩
  cases hrequest : c.request with
  | createAccount displayName roleIds usernameHex passwordHash =>
    exact hkeeps _ (keepsOwners_createAccount s c.actor displayName roleIds usernameHex
      passwordHash c.faults)
  | patchAccount id displayName isDisabled => exact owner_patchAccount hauth h
  | deleteAccount id => exact owner_deleteAccount hrequest h hok
  | setRoles id roleIds => exact owner_setRoles hrequest h hok
  | createRole name position =>
    apply hkeeps
    unfold handle createRole
    simp only
    split_ifs
    · exact fun _ h => h
    · exact fun _ h => h
    · split
      · exact fun _ h => h
      · rename_i hcreate
        exact keepsOwners_createRole hcreate
  | patchRole id name position =>
    apply hkeeps
    unfold handle patchRole
    simp only
    split_ifs
    · exact fun _ h => h
    · split
      · rename_i hupdate
        exact keepsOwners_updateRole hupdate
      · exact fun _ h => h
      · exact fun _ h => h
  | deleteRole id =>
    apply hkeeps
    unfold handle deleteRole
    simp only
    split_ifs
    · exact fun _ h => h
    · split
      · rename_i hdelete
        exact keepsOwners_deleteRole hdelete
      · exact fun _ h => h
      · exact fun _ h => h
      · exact fun _ h => h

/-- One bootstrap, to its end. -/
def bootActions : List Bootstrap.Action := .begin Bootstrap.drawOne :: Bootstrap.turns 0 7

def addOwner : Call := ⟨1, {}, .createAccount none (some [1]) "a2".toList "p2".toList⟩

/-- The first account gives up its own roles. -/
def resign : Call := ⟨1, {}, .setRoles 1 []⟩

end MyS3.LastOwner
