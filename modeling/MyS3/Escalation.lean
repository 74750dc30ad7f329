import MyS3.AccessRequests

/-!
What accounts without the Owner role can reach together. Whatever requests they send, in
whatever order their statements are executed, and even with the unauthenticated bootstrap
among them, nobody gains a permission on a bucket that none of them owns: no role is given,
no permission is set, no account is made, enabled or given a new password, and such a bucket
keeps its name.
-/

namespace MyS3.Escalation

open Library.Strings Library.Tables Library.Interleaving Library.Runs
open Models Objects Database Rbac Accounts Http AccessRequests
open SettingsRoutes (accountCreatedBy)
open PasswordResets (LoginStage ResetStage authLogin regeneratePassword)
open Revocation (onBuckets onBuckets_eq KeepsAccess renameBucketRow_keeps deleteBucketRow_keeps
  bucketKey withContent)

/-- Nothing is granted on the buckets of `B`, and these keep their names. -/
structure Shrinks (B : Int → Prop) (db db' : Db) : Prop where
  owned : ∀ c ∈ db'.bucket.rows, B c.id → ∀ a, c.ownerAccountId = some a →
    ∃ c₀ ∈ db.bucket.rows, c₀.id = c.id ∧ c₀.ownerAccountId = some a
  kept : ∀ c ∈ db.bucket.rows, B c.id → ∃ c' ∈ db'.bucket.rows, c'.id = c.id ∧ c'.name = c.name
  accountRole : db'.accountRole ⊆ db.accountRole
  role : db'.role = db.role
  perms : db'.roleBucketPermission ⊆ db.roleBucketPermission
  accounts : ∀ x ∈ db'.account, ∃ x₀ ∈ db.account, x₀.id = x.id ∧
    x₀.usernameHex = x.usernameHex ∧ x₀.passwordHash = x.passwordHash ∧
    x₀.isDisabled = x.isDisabled

variable {B : Int → Prop} {db db' : Db}

theorem shrinks_refl (B : Int → Prop) (db : Db) : Shrinks B db db where
  owned c hc _ _ howner := ⟨c, hc, rfl, howner⟩
  kept c hc _ := ⟨c, hc, rfl, rfl⟩
  accountRole := List.Subset.refl _
  role := rfl
  perms := List.Subset.refl _
  accounts x hx := ⟨x, hx, rfl, rfl, rfl, rfl⟩

theorem Shrinks.trans {db'' : Db} (h : Shrinks B db db') (h' : Shrinks B db' db'') :
    Shrinks B db db'' where
  owned c hc hB a howner := by
    obtain ⟨c₁, hc₁, hid₁, howner₁⟩ := h'.owned c hc hB a howner
    obtain ⟨c₀, hc₀, hid₀, howner₀⟩ := h.owned c₁ hc₁ (hid₁ ▸ hB) a howner₁
    exact ⟨c₀, hc₀, hid₀.trans hid₁, howner₀⟩
  kept c hc hB := by
    obtain ⟨c₁, hc₁, hid₁, hname₁⟩ := h.kept c hc hB
    obtain ⟨c₂, hc₂, hid₂, hname₂⟩ := h'.kept c₁ hc₁ (hid₁ ▸ hB)
    exact ⟨c₂, hc₂, hid₂.trans hid₁, hname₂.trans hname₁⟩
  accountRole := List.Subset.trans h'.accountRole h.accountRole
  role := h'.role.trans h.role
  perms := List.Subset.trans h'.perms h.perms
  accounts x hx := by
    obtain ⟨x₁, hx₁, hid₁, huser₁, hpass₁, hon₁⟩ := h'.accounts x hx
    obtain ⟨x₀, hx₀, hid₀, huser₀, hpass₀, hon₀⟩ := h.accounts x₁ hx₁
    exact ⟨x₀, hx₀, hid₀.trans hid₁, huser₀.trans huser₁, hpass₀.trans hpass₁, hon₀.trans hon₁⟩

/-- What is not granted cannot be used. -/
theorem Shrinks.checkPerm {a b : Int} {action : CrudAction} (h : Shrinks B db db') (hB : B b)
    (hperm : checkPerm db' a b action = true) : checkPerm db a b action = true := by
  refine checkPerm_iff.mpr ?_
  rcases checkPerm_iff.mp hperm with howns | howner | ⟨p, hp, hpb, hallows, ar, har, haid, hrole⟩
  · obtain ⟨c, hc, hid, howner⟩ := accountOwnsBucket_iff.mp howns
    obtain ⟨c₀, hc₀, hid₀, howner₀⟩ := h.owned c hc (hid ▸ hB) a howner
    exact Or.inl (accountOwnsBucket_iff.mpr ⟨c₀, hc₀, hid₀.trans hid, howner₀⟩)
  · obtain ⟨ar, har, haid, r, hr, hrid, hrole⟩ := accountIsOwner_iff.mp howner
    refine Or.inr (Or.inl (accountIsOwner_iff.mpr ⟨ar, h.accountRole har, haid, r, ?_, hrid, hrole⟩))
    rwa [← h.role]
  · exact Or.inr (Or.inr ⟨p, h.perms hp, hpb, hallows, ar, h.accountRole har, haid, hrole⟩)

theorem Shrinks.isOwner {a : Int} (h : Shrinks B db db') (howner : accountIsOwner db' a = true) :
    accountIsOwner db a = true := by
  obtain ⟨ar, har, haid, r, hr, hrid, hrole⟩ := accountIsOwner_iff.mp howner
  refine accountIsOwner_iff.mpr ⟨ar, h.accountRole har, haid, r, ?_, hrid, hrole⟩
  rwa [← h.role]

/-- The accounts and the roles stay, and each bucket of `B` is a row of before and after. -/
theorem shrinks_of_keeps (h : KeepsAccess db db')
    (hperms : db'.roleBucketPermission ⊆ db.roleBucketPermission)
    (howned : ∀ c ∈ db'.bucket.rows, B c.id → ∀ a, c.ownerAccountId = some a →
      ∃ c₀ ∈ db.bucket.rows, c₀.id = c.id ∧ c₀.ownerAccountId = some a)
    (hkept : ∀ c ∈ db.bucket.rows, B c.id →
      ∃ c' ∈ db'.bucket.rows, c'.id = c.id ∧ c'.name = c.name) : Shrinks B db db' := by
  obtain ⟨haccount, hrole, haccountRole⟩ := h
  refine ⟨howned, hkept, ?_, hrole, hperms, ?_⟩
  · rw [haccountRole]
    exact List.Subset.refl _
  · rw [haccount]
    exact fun x hx => ⟨x, hx, rfl, rfl, rfl, rfl⟩

theorem shrinks_of_same (h : KeepsAccess db db')
    (hperms : db'.roleBucketPermission = db.roleBucketPermission)
    (hbucket : db'.bucket = db.bucket) : Shrinks B db db' := by
  refine shrinks_of_keeps h ?_ ?_ ?_
  · rw [hperms]
    exact List.Subset.refl _
  · rw [hbucket]
    exact fun c hc _ a howner => ⟨c, hc, rfl, howner⟩
  · rw [hbucket]
    exact fun c hc _ => ⟨c, hc, rfl, rfl⟩

theorem shrinks_dropAccount (B : Int → Prop) (db : Db) (id : Int) :
    Shrinks B db (Registry.dropAccount db id) where
  owned c hc _ a howner := by
    rcases mem_updateRows.mp hc with ⟨hc, _⟩ | ⟨c₀, _, _, rfl⟩
    · exact ⟨c, hc, rfl, howner⟩
    · cases howner
  kept c hc _ := by
    obtain ⟨c', hc', heq⟩ := exists_updateRows (fun c : BucketRecord => (c.id, c.name))
      (fun c => c.ownerAccountId == some id) (f := Registry.setOwner none) (fun _ => rfl) hc
    simp only [Prod.mk.injEq] at heq
    exact ⟨c', hc', heq⟩
  accountRole _ har := List.mem_of_mem_filter har
  role := rfl
  perms := List.Subset.refl _
  accounts x hx := by
    obtain ⟨x₀, hx₀, rfl⟩ := List.mem_map.mp hx
    exact ⟨x₀, List.mem_of_mem_filter hx₀, rfl, rfl, rfl, rfl⟩

theorem shrinks_rename {id : Int} {newName : Text} (hB : ¬ B id)
    (h : db.renameBucketRow id newName = some db') : Shrinks B db db' := by
  obtain ⟨hkeeps, hperms, hrows⟩ := renameBucketRow_keeps h
  refine shrinks_of_keeps hkeeps (hperms ▸ List.Subset.refl _) ?_ ?_
  · intro c hc _ a howner
    rw [hrows] at hc
    rcases mem_updateRows.mp hc with ⟨hc, _⟩ | ⟨c₀, hc₀, _, rfl⟩
    · exact ⟨c, hc, rfl, howner⟩
    · exact ⟨c₀, hc₀, rfl, howner⟩
  · intro c hc hBc
    rw [hrows]
    refine ⟨c, mem_updateRows.mpr (Or.inl ⟨hc, ?_⟩), rfl, rfl⟩
    by_contra hid
    rw [Bool.not_eq_false, beq_iff_eq] at hid
    exact hB (hid ▸ hBc)

theorem shrinks_updateBucketOwner {s s' : Registry} {id newOwnerId : Int} (hB : ¬ B id)
    (h : s.updateBucketOwner id newOwnerId = some s') : Shrinks B s.db s'.db := by
  unfold Registry.updateBucketOwner at h
  split_ifs at h
  rw [← Option.some.inj h]
  refine shrinks_of_keeps ⟨rfl, rfl, rfl⟩ (List.Subset.refl _) ?_ ?_
  · intro c hc hBc a howner
    rcases mem_updateRows.mp hc with ⟨hc, _⟩ | ⟨c₀, _, hid, rfl⟩
    · exact ⟨c, hc, rfl, howner⟩
    · exact absurd hBc (beq_iff_eq.mp hid ▸ hB)
  · intro c hc _
    obtain ⟨c', hc', heq⟩ := exists_updateRows (fun c : BucketRecord => (c.id, c.name))
      (fun c => c.id == id) (f := Registry.setOwner (some newOwnerId)) (fun _ => rfl) hc
    simp only [Prod.mk.injEq] at heq
    exact ⟨c', hc', heq⟩

theorem shrinks_deleteBucket {id : Int} (hB : ¬ B id) (h : db.deleteBucketRow id = some db') :
    Shrinks B db db' := by
  obtain ⟨hkeeps, hperms, hrows⟩ := deleteBucketRow_keeps h
  refine shrinks_of_keeps hkeeps hperms (fun c hc _ a howner => ⟨c, hrows hc, rfl, howner⟩) ?_
  intro c hc hBc
  unfold Db.deleteBucketRow at h
  split at h
  · rw [← Option.some.inj h]
    refine ⟨c, List.mem_filter.mpr ⟨hc, ?_⟩, rfl, rfl⟩
    have hne : c.id ≠ id := fun hid => hB (hid ▸ hBc)
    simpa using hne
  · cases h

theorem shrinks_content (s : Registry) {db : Db}
    (h : db.bucket.rows.map bucketKey = s.db.bucket.rows.map bucketKey) :
    Shrinks B s.db (withContent s db).db := by
  refine shrinks_of_keeps ⟨rfl, rfl, rfl⟩ (List.Subset.refl _) ?_ ?_
  · intro c hc _ a howner
    have hmem : bucketKey c ∈ s.db.bucket.rows.map bucketKey := h ▸ List.mem_map_of_mem hc
    obtain ⟨c₀, hc₀, heq⟩ := List.mem_map.mp hmem
    simp only [bucketKey, Prod.mk.injEq] at heq
    exact ⟨c₀, hc₀, heq.1, heq.2.2.trans howner⟩
  · intro c hc _
    have hmem : bucketKey c ∈ db.bucket.rows.map bucketKey := h ▸ List.mem_map_of_mem hc
    obtain ⟨c', hc', heq⟩ := List.mem_map.mp hmem
    simp only [bucketKey, Prod.mk.injEq] at heq
    exact ⟨c', hc', heq.1, heq.2.1⟩

/-- The accounts of `C` have no Owner role and no bucket of `B`, and an account that nobody has
created is there. -/
structure Clean (C B : Int → Prop) (root : Int) (db : Db) : Prop where
  owner : ∀ a, C a → accountIsOwner db a = false
  buckets : ∀ c ∈ db.bucket.rows, B c.id → ∀ a, C a → c.ownerAccountId ≠ some a
  root : ∃ x ∈ db.account, x.id = root ∧ x.createdByAccountId = none

/-- A request that is to be refused at its first check, or is over. -/
def RoleRefused (C : Int → Prop) : RoleStage → Prop
  | .requireOwner actor _ => C actor
  | .answered _ => True
  | _ => False

def AccountRefused (C : Int → Prop) : AccountRequests.Stage → Prop
  | .createRequireOwner actor _ => C actor
  | .patchRequireOwner actor _ _ _ => C actor
  | .answered _ => True
  | _ => False

def ResetRefused : ResetStage → Prop
  | .requireOwner => True
  | stage => stage.isOver = true

def BootstrapRefused : Bootstrap.Stage → Prop
  | .accountCount => True
  | stage => stage.isOver = true

/-- A request about a bucket has found it to be none of `B`. -/
def BucketOk (C B : Int → Prop) (root : Int) : BucketOwners.Stage → Prop
  | .createRequireOwner actor _ => C actor
  | .patchOwns actor _ _ _ => C actor
  | .patchGet id _ _ => ¬ B id
  | .renameGet id _ _ => ¬ B id
  | .renameUpdate id _ _ => ¬ B id
  | .renameReload id _ => ¬ B id
  | .ownerGetBucket id _ => ¬ B id
  | .ownerGetAccount id _ => ¬ B id
  | .ownerUpdate id _ => ¬ B id
  | .ownerReload _ => True
  | .deleteCreatedBy _ _ => True
  | .deleteAccount id => id ≠ root
  | stage => stage.isOver = true

def DeleteOk (C B : Int → Prop) : DeleteStage → Prop
  | .getBucket actor _ => C actor
  | .owns actor _ _ => C actor
  | .listObjectIds id => ¬ B id
  | .purge id _ => ¬ B id
  | .removeBucket id => ¬ B id
  | .answered _ => True

/-- What holds of a request that an account of `C` has sent. -/
def TaskOk (C B : Int → Prop) (root : Int) : Task → Prop
  | .bootstrap t => BootstrapRefused t.stage
  | .login _ _ _ => True
  | .regenerate actor _ _ _ stage => C actor ∧ ResetRefused stage
  | .account stage => AccountRefused C stage
  | .bucket stage => BucketOk C B root stage
  | .role stage => RoleRefused C stage
  | .deleteBucket stage => DeleteOk C B stage
  | .dropped => True

/-- A statement that shrinks what is granted, and keeps the account that nobody created. -/
structure Sound (B : Int → Prop) (root : Int) (db db' : Db) : Prop where
  shrinks : Shrinks B db db'
  root : (∃ x ∈ db.account, x.id = root ∧ x.createdByAccountId = none) →
    ∃ x ∈ db'.account, x.id = root ∧ x.createdByAccountId = none

variable {C : Int → Prop} {root : Int}

theorem sound_refl (B : Int → Prop) (root : Int) (db : Db) : Sound B root db db :=
  ⟨shrinks_refl B db, fun h => h⟩

theorem sound_of_account (h : Shrinks B db db') (haccount : db'.account = db.account) :
    Sound B root db db' := ⟨h, by rw [haccount]; exact fun h => h⟩

theorem Clean.sound (h : Clean C B root db) (hs : Sound B root db db') : Clean C B root db' where
  owner a ha := by
    by_contra howner
    rw [Bool.not_eq_false] at howner
    have hbefore := hs.shrinks.isOwner howner
    rw [h.owner a ha] at hbefore
    cases hbefore
  buckets c hc hB a ha howner := by
    obtain ⟨c₀, hc₀, hid, howner₀⟩ := hs.shrinks.owned c hc hB a howner
    exact h.buckets c₀ hc₀ (hid ▸ hB) a ha howner₀
  root := hs.root h.root

/-- An account of `C` owns no bucket of `B`. -/
theorem Clean.not_mem {a b : Int} (h : Clean C B root db) (ha : C a)
    (howns : accountOwnsBucket db a b = true) : ¬ B b := by
  obtain ⟨c, hc, rfl, howner⟩ := accountOwnsBucket_iff.mp howns
  exact fun hB => h.buckets c hc hB a ha howner

/-- Nobody may delete the account that nobody created. -/
theorem Clean.root_ne {s : Registry} {actor id : Int} (h : Clean C B root s.db)
    (hcreated : accountCreatedBy s.db id actor = true) : id ≠ root := by
  intro hroot
  subst hroot
  obtain ⟨x, hx, hid, hnone⟩ := h.root
  unfold accountCreatedBy at hcreated
  rw [beq_iff_eq, Option.bind_eq_some_iff] at hcreated
  obtain ⟨y, hy, hby⟩ := hcreated
  obtain ⟨hmem, hyid⟩ := getAccountById_eq_some hy
  have hsame : y = x := eq_of_pairwise_ne s.account_unique hmem hx (hyid.trans hid.symm)
  rw [hsame, hnone] at hby
  cases hby

theorem sound_deleteAccount {s s' : Registry} {id : Int} {deleted : Bool} (hid : id ≠ root)
    (h : s.deleteAccount id = some (deleted, s')) : Sound B root s.db s'.db := by
  unfold Registry.deleteAccount at h
  split_ifs at h
  · rw [← (Prod.mk.inj (Option.some.inj h)).2]
    exact sound_refl B root s.db
  · rw [← (Prod.mk.inj (Option.some.inj h)).2]
    refine ⟨shrinks_dropAccount B s.db id, fun hroot => ?_⟩
    obtain ⟨x, hx, hxid, hnone⟩ := hroot
    refine ⟨Registry.forgetCreator id x, List.mem_map_of_mem (List.mem_filter.mpr ⟨hx, ?_⟩), hxid, ?_⟩
    · have hne : x.id ≠ id := fun heq => hid (heq.symm.trans hxid)
      simpa using hne
    · unfold Registry.forgetCreator
      simp [hnone]

/-- What one statement of a request does. -/
structure StepOk (C B : Int → Prop) (root : Int) (db : Db) (s' : Registry) (t : Task) : Prop where
  sound : Sound B root db s'.db
  task : TaskOk C B root t

theorem stepOk_same {s : Registry} {t : Task} (h : TaskOk C B root t) :
    StepOk C B root s.db s t := ⟨sound_refl B root s.db, h⟩

theorem bootstrap_step {now : Instant} {fails : Bool} {s s' : Registry} {t : Bootstrap.Task}
    {u : Task} (hclean : Clean C B root s.db) (hok : TaskOk C B root (.bootstrap t))
    {node : Node} (h : serve node now fails s (.bootstrap t) = some (s', u)) :
    StepOk C B root s.db s' u := by
  obtain ⟨⟨s₁, t₁⟩, hstep, heq⟩ := Option.map_eq_some_iff.mp h
  simp only [Prod.map, id, Prod.mk.injEq] at heq
  obtain ⟨rfl, rfl⟩ := heq
  unfold Bootstrap.authBootstrap at hstep
  split_ifs at hstep with hover hfails
  · cases hstep
    exact stepOk_same rfl
  · have hstage : t.stage = .accountCount := by
      have hrefused : BootstrapRefused t.stage := hok
      cases hs : t.stage with
      | accountCount => rfl
      | _ =>
        rw [hs] at hrefused hover
        exact absurd hrefused hover
    obtain ⟨x, hx, _⟩ := hclean.root
    have hcount : s.db.account.length ≠ 0 := fun hzero => by
      rw [List.length_eq_zero_iff.mp hzero] at hx
      cases hx
    simp only [Bootstrap.call, hstage, if_neg hcount] at hstep
    cases hstep
    exact stepOk_same rfl

theorem login_step {now : Instant} {fails : Bool} {s s' : Registry} {u : Task} {node : Node}
    {body : PasswordResets.LoginBody} {token : Text} {stage : LoginStage}
    (h : serve node now fails s (.login body token stage) = some (s', u)) :
    StepOk C B root s.db s' u := by
  simp only [serve] at h
  split_ifs at h
  · cases h
    exact stepOk_same trivial
  · cases h
    refine ⟨?_, trivial⟩
    cases stage with
    | createSession accountId seen =>
      simp only [authLogin]
      split
      · exact sound_refl B root s.db
      · rename_i registry hsession
        have hdb := Registry.createSession_eq hsession
        simp only [hdb]
        exact sound_of_account (shrinks_of_same ⟨rfl, rfl, rfl⟩ rfl rfl) rfl
    | getAccount =>
      simp only [authLogin]
      split
      · exact sound_refl B root s.db
      · split_ifs <;> exact sound_refl B root s.db
    | verify account seen =>
      simp only [authLogin]
      split <;> exact sound_refl B root s.db
    | _ => exact sound_refl B root s.db

theorem regenerate_step {now : Instant} {fails : Bool} {s s' : Registry} {u : Task} {node : Node}
    {actor id : Int} {passwordHex salt : Text} {stage : ResetStage}
    (hclean : Clean C B root s.db)
    (hok : TaskOk C B root (.regenerate actor id passwordHex salt stage))
    (h : serve node now fails s (.regenerate actor id passwordHex salt stage) = some (s', u)) :
    StepOk C B root s.db s' u := by
  obtain ⟨hactor, hrefused⟩ := hok
  simp only [serve] at h
  split_ifs at h with hover
  have hstage : stage = .requireOwner := by
    cases stage with
    | requireOwner => rfl
    | _ => exact absurd hrefused hover
  subst hstage
  simp only [regeneratePassword, hclean.owner actor hactor, if_true] at h
  split_ifs at h <;>
  · cases h
    exact stepOk_same ⟨hactor, rfl⟩

theorem account_step {now : Instant} {fails : Bool} {s s' : Registry} {u : Task} {node : Node}
    {stage : AccountRequests.Stage} (hclean : Clean C B root s.db)
    (hok : TaskOk C B root (.account stage))
    (h : serve node now fails s (.account stage) = some (s', u)) :
    StepOk C B root s.db s' u := by
  have hrefused : AccountRefused C stage := hok
  simp only [serve] at h
  split_ifs at h
  · cases h
    refine stepOk_same ?_
    cases stage with
    | createRequireOwner actor body => trivial
    | patchRequireOwner actor id displayName isDisabled => trivial
    | answered reply => trivial
    | _ => cases hrefused
  · cases h
    cases stage with
    | createRequireOwner actor body =>
      simp only [AccountRequests.call, hclean.owner actor hrefused, if_true]
      exact stepOk_same trivial
    | patchRequireOwner actor id displayName isDisabled =>
      simp only [AccountRequests.call, hclean.owner actor hrefused, if_true]
      exact stepOk_same trivial
    | answered reply => exact stepOk_same trivial
    | _ => cases hrefused

theorem role_step {now : Instant} {fails : Bool} {s s' : Registry} {u : Task} {node : Node}
    {stage : RoleStage} (hclean : Clean C B root s.db) (hok : TaskOk C B root (.role stage))
    (h : serve node now fails s (.role stage) = some (s', u)) : StepOk C B root s.db s' u := by
  have hrefused : RoleRefused C stage := hok
  cases stage with
  | requireOwner actor req =>
    simp only [serve, callRole, hclean.owner actor hrefused, if_true] at h
    split_ifs at h <;>
    · cases h
      exact stepOk_same trivial
  | answered reply => cases h
  | _ => cases hrefused

theorem bucketOk_afterRename {id : Int} {b : BucketRecord} {owner : Option Int} (h : ¬ B id) :
    BucketOk C B root (BucketOwners.afterRename id b owner) := by
  cases owner with
  | none => rfl
  | some newOwnerId => exact h

/-- One statement of a request about a bucket, or of the deletion of an account. -/
theorem bucketCall_ok (settings : BucketOwners.Settings) {s : Registry}
    {stage : BucketOwners.Stage} (hclean : Clean C B root s.db) (hok : BucketOk C B root stage)
    (hover : stage.isOver = false) :
    Sound B root s.db (BucketOwners.call settings s stage).1.db ∧
      BucketOk C B root (BucketOwners.call settings s stage).2 := by
  have hsame : ∀ stage', BucketOk C B root stage' →
      Sound B root s.db s.db ∧ BucketOk C B root stage' := fun _ h => ⟨sound_refl B root s.db, h⟩
  cases stage with
  | createRequireOwner actor name =>
    simp only [BucketOwners.call, hclean.owner actor hok, if_true]
    exact hsame _ rfl
  | patchOwns actor id name owner =>
    simp only [BucketOwners.call]
    split_ifs with howns
    · exact hsame _ rfl
    · rw [Bool.not_eq_false] at howns
      exact hsame _ (hclean.not_mem hok howns)
  | patchGet id name owner =>
    simp only [BucketOwners.call]
    split
    · exact hsame _ rfl
    · split
      · exact hsame _ (bucketOk_afterRename hok)
      · split
        · exact hsame _ rfl
        · exact hsame _ hok
  | renameGet id newName owner =>
    simp only [BucketOwners.call]
    split
    · exact hsame _ rfl
    · split_ifs
      · exact hsame _ rfl
      · exact hsame _ rfl
      · exact hsame _ (bucketOk_afterRename hok)
      · exact hsame _ hok
  | renameUpdate id newName owner =>
    simp only [BucketOwners.call]
    split_ifs
    · exact hsame _ rfl
    · split
      · exact hsame _ rfl
      · rename_i s' hrename
        obtain ⟨hdb, _⟩ := onBuckets_eq hrename
        exact ⟨sound_of_account (shrinks_rename hok hdb) (renameBucketRow_keeps hdb).1.1, hok⟩
  | renameReload id owner =>
    simp only [BucketOwners.call]
    split
    · exact hsame _ rfl
    · exact hsame _ (bucketOk_afterRename hok)
  | ownerGetBucket id newOwnerId =>
    simp only [BucketOwners.call]
    split_ifs
    · exact hsame _ rfl
    · exact hsame _ hok
  | ownerGetAccount id newOwnerId =>
    simp only [BucketOwners.call]
    split
    · exact hsame _ rfl
    · split_ifs
      · exact hsame _ rfl
      · exact hsame _ hok
  | ownerUpdate id newOwnerId =>
    simp only [BucketOwners.call]
    split_ifs
    · exact hsame _ trivial
    · split
      · exact hsame _ rfl
      · rename_i s' hupdate
        have haccount : s'.db.account = s.db.account := by
          unfold Registry.updateBucketOwner at hupdate
          split_ifs at hupdate
          rw [← Option.some.inj hupdate]
          rfl
        exact ⟨sound_of_account (shrinks_updateBucketOwner hok hupdate) haccount, trivial⟩
  | ownerReload id =>
    simp only [BucketOwners.call]
    split <;> exact hsame _ rfl
  | deleteCreatedBy actor id =>
    simp only [BucketOwners.call]
    split_ifs with hcreated
    · exact hsame _ rfl
    · rw [Bool.not_eq_false] at hcreated
      exact hsame _ (hclean.root_ne hcreated)
  | deleteAccount id =>
    simp only [BucketOwners.call]
    split
    · exact hsame _ rfl
    · rename_i s' hdelete
      exact ⟨sound_deleteAccount hok hdelete, rfl⟩
    · rename_i s' hdelete
      exact ⟨sound_deleteAccount hok hdelete, rfl⟩
  | answered answer => cases hover
  | dropped => cases hover
  | _ => cases hok

theorem bucket_step {now : Instant} {fails : Bool} {s s' : Registry} {u : Task} {node : Node}
    {stage : BucketOwners.Stage} (hclean : Clean C B root s.db)
    (hok : TaskOk C B root (.bucket stage))
    (h : serve node now fails s (.bucket stage) = some (s', u)) :
    StepOk C B root s.db s' u := by
  obtain ⟨⟨s₁, stage₁⟩, hstep, heq⟩ := Option.map_eq_some_iff.mp h
  simp only [Prod.map, id, Prod.mk.injEq] at heq
  obtain ⟨rfl, rfl⟩ := heq
  unfold BucketOwners.serve at hstep
  split_ifs at hstep with hover
  · cases hstep
    exact stepOk_same rfl
  · rw [Bool.not_eq_true] at hover
    have hcall := bucketCall_ok node.settings hclean hok hover
    rw [Option.some.inj hstep] at hcall
    exact ⟨hcall.1, hcall.2⟩

theorem removeBucket_ok {s s' : Registry} {id : Int} (h : removeBucket s id = .ok s') :
    Rbac.deleteBucket s.db id {} = .ok s'.db := by
  unfold removeBucket at h
  split at h
  · cases h
  · rename_i db hdb
    rw [hdb, ← Except.ok.inj h]
    rfl

theorem delete_step {now : Instant} {fails : Bool} {s s' : Registry} {u : Task} {node : Node}
    {stage : DeleteStage} (hclean : Clean C B root s.db)
    (hok : TaskOk C B root (.deleteBucket stage))
    (h : serve node now fails s (.deleteBucket stage) = some (s', u)) :
    StepOk C B root s.db s' u := by
  have hdelete : DeleteOk C B stage := hok
  have hcall : fails = false → StepOk C B root s.db
      (callDelete node.settings.nodeId now s stage).1
      (.deleteBucket (callDelete node.settings.nodeId now s stage).2) := by
    intro _
    cases stage with
    | getBucket actor id => exact stepOk_same hdelete
    | owns actor id name =>
      simp only [callDelete]
      split_ifs with howns
      · exact stepOk_same trivial
      · exact stepOk_same trivial
      · rw [Bool.not_eq_false] at howns
        exact stepOk_same (hclean.not_mem hdelete howns)
    | listObjectIds id => exact stepOk_same hdelete
    | purge id objectIds =>
      cases objectIds with
      | nil => exact stepOk_same hdelete
      | cons objectId rest =>
        simp only [callDelete]
        split
        · exact stepOk_same trivial
        · exact ⟨sound_of_account (shrinks_of_same ⟨rfl, rfl, rfl⟩ rfl rfl) rfl, hdelete⟩
    | removeBucket id =>
      simp only [callDelete]
      split
      · exact stepOk_same trivial
      · rename_i s₁ hremove
        obtain ⟨_, hrow⟩ := BucketDeletion.deleteBucket_ok (removeBucket_ok hremove)
        exact ⟨sound_of_account (shrinks_deleteBucket hdelete hrow)
          (deleteBucketRow_keeps hrow).1.1, trivial⟩
    | answered reply => exact stepOk_same trivial
  cases hfails : fails with
  | true =>
    cases stage with
    | answered reply => cases h
    | _ =>
      simp only [serve, hfails, if_true] at h
      cases h
      exact stepOk_same trivial
  | false =>
    cases stage with
    | answered reply => cases h
    | _ =>
      simp only [serve, hfails, Bool.false_eq_true, if_false, Prod.map, id,
        Option.some.injEq, Prod.mk.injEq] at h
      obtain ⟨rfl, rfl⟩ := h
      exact hcall hfails

/-- One statement of any request. -/
theorem serve_ok {node : Node} {now : Instant} {fails : Bool} {s s' : Registry} {t u : Task}
    (hclean : Clean C B root s.db) (hok : TaskOk C B root t)
    (h : serve node now fails s t = some (s', u)) : StepOk C B root s.db s' u := by
  cases t with
  | bootstrap t => exact bootstrap_step hclean hok h
  | login body token stage => exact login_step h
  | regenerate actor id passwordHex salt stage => exact regenerate_step hclean hok h
  | account stage => exact account_step hclean hok h
  | bucket stage => exact bucket_step hclean hok h
  | role stage => exact role_step hclean hok h
  | deleteBucket stage => exact delete_step hclean hok h
  | dropped => cases h

/-- The requests are those of accounts in `C`; a bootstrap and a login name no account. -/
def SentBy (C : Int → Prop) (_ : State) (a : Action) : Prop :=
  ∀ actor req, a = .request actor req → C actor

theorem taskOk_start {actor : Int} (hactor : C actor) (req : Request) :
    TaskOk C B root (req.start actor) := by
  cases req with
  | createAccount body => exact hactor
  | patchAccount id displayName isDisabled => exact hactor
  | deleteAccount id =>
    simp only [Request.start, BucketOwners.deleteAccount]
    split_ifs
    · rfl
    · trivial
  | regeneratePassword id passwordHex salt => exact ⟨hactor, trivial⟩
  | roles req => exact hactor
  | createBucket name => exact hactor
  | patchBucket id name owner =>
    simp only [Request.start, BucketOwners.patchBucket]
    split_ifs
    · rfl
    · exact hactor
  | deleteBucket id => exact hactor

/-- Since the beginning nothing was granted on the buckets of `B`, and no request can. -/
structure Contained (C B : Int → Prop) (root : Int) (db₀ : Db) (s : State) : Prop where
  clean : Clean C B root s.shared.db
  shrinks : Shrinks B db₀ s.shared.db
  tasks : ∀ t ∈ s.tasks, TaskOk C B root t

theorem Contained.goOn {db₀ : Db} {s : State} {s' : Registry} {tasks : List Task}
    (h : Contained C B root db₀ s) (hs : Sound B root s.shared.db s'.db)
    (htasks : ∀ t ∈ tasks, TaskOk C B root t) : Contained C B root db₀ ⟨s', tasks⟩ :=
  ⟨h.clean.sound hs, h.shrinks.trans hs.shrinks, htasks⟩

/-- Looking a session up may only delete it. -/
theorem shrinks_resolve (B : Int → Prop) (s : Registry) (now : Instant) (token : Text) :
    Shrinks B s.db (PasswordResets.resolve now token s).db := by
  have hdelete : Shrinks B s.db (deleteSession s.db token) := shrinks_of_same ⟨rfl, rfl, rfl⟩ rfl rfl
  show Shrinks B s.db (resolveSession s.db now token).2
  unfold resolveSession
  split
  · exact shrinks_refl B s.db
  · split_ifs
    · exact hdelete
    · split
      · exact shrinks_refl B s.db
      · split_ifs
        · exact hdelete
        · exact shrinks_refl B s.db

theorem contained_step (node : Node) (db₀ : Db) (s : State) (a : Action) (t : State)
    (h : Contained C B root db₀ s) (hok : SentBy C s a) (hstep : step node s a = some t) :
    Contained C B root db₀ t := by
  have hspawn : ∀ u, TaskOk C B root u → Contained C B root db₀ (s.spawn u) := by
    intro u hu
    refine ⟨h.clean, h.shrinks, fun v hv => ?_⟩
    rcases List.mem_append.mp hv with hv | hv
    · exact h.tasks v hv
    · rw [List.mem_singleton.mp hv]
      exact hu
  cases a with
  | bootstrap draw =>
    rw [← Option.some.inj hstep]
    exact hspawn _ trivial
  | login body token =>
    rw [← Option.some.inj hstep]
    exact hspawn _ trivial
  | request actor req =>
    simp only [step] at hstep
    split_ifs at hstep
    rw [← Option.some.inj hstep]
    exact hspawn _ (taskOk_start (hok actor req rfl) req)
  | advance i now fails =>
    obtain ⟨u, s', u', hi, hserve, rfl⟩ := Pool.turn_eq_some.mp hstep
    have hsound := serve_ok h.clean (h.tasks u (List.mem_of_getElem? hi)) hserve
    refine h.goOn hsound.sound fun v hv => ?_
    rcases Pool.mem_replace (s := s') hv with rfl | hv
    · exact hsound.task
    · exact h.tasks v hv
  | drop i =>
    obtain ⟨u, _, rfl⟩ := Option.map_eq_some_iff.mp hstep
    refine h.goOn (sound_refl B root _) fun v hv => ?_
    rcases Pool.mem_replace (s := s.shared) hv with rfl | hv
    · trivial
    · exact h.tasks v hv
  | resolve now token =>
    rw [← Option.some.inj hstep]
    exact h.goOn (sound_of_account (shrinks_resolve B s.shared now token)
      (PasswordResets.resolveSession_access s.shared.db now token).1) h.tasks
  | logout token =>
    rw [← Option.some.inj hstep]
    exact h.goOn (sound_of_account (shrinks_of_same ⟨rfl, rfl, rfl⟩ rfl rfl) rfl) h.tasks
  | content db =>
    simp only [step] at hstep
    split_ifs at hstep with hkeys
    rw [← Option.some.inj hstep]
    exact h.goOn (sound_of_account (shrinks_content s.shared hkeys) rfl) h.tasks

theorem contained_nil {r : Registry} (hclean : Clean C B root r.db) :
    Contained C B root r.db ⟨r, []⟩ := ⟨hclean, shrinks_refl B r.db, List.forall_mem_nil _⟩

def sampleNode : Node := ⟨PasswordResets.sampleHasher, BucketOwners.sampleSettings⟩

def turns (i n : Nat) : List Action := List.replicate n (.advance i Instant.epoch false)

/-- The first account makes a second one without roles, and hands it a new bucket. -/
def settingUp : List Action :=
  .bootstrap Bootstrap.drawOne :: turns 0 7 ++
    .request 1 (.createAccount ⟨none, none, "a2".toList, "$p2".toList⟩) :: turns 1 3 ++
      .request 1 (.createBucket "photos".toList) :: turns 2 6 ++
        .request 1 (.patchBucket 2 none (some 2)) :: turns 3 6

def handedOver : Registry :=
  ((exec (step sampleNode) ⟨BucketOwners.startedNode, []⟩ settingUp).map (·.shared)).getD
    BucketOwners.startedNode

/-- The second account renames its bucket, and tries to get hold of everything else. -/
def attempts : List Action :=
  [.request 2 (.patchBucket 2 (some "album".toList) none), .request 2 (.deleteBucket 1),
    .request 2 (.roles (.setRoles 2 [1])), .request 2 (.roles (.putRolePermissions 1 [])),
    .request 2 (.deleteAccount 1), .bootstrap Bootstrap.drawTwo] ++
    (List.range 6).flatMap (fun i => turns i 1) ++ turns 1 1 ++ turns 0 3

/-- A check that is enough for the condition. -/
def sentBy (actor : Int) (_ : State) : Action → Bool
  | .request sender _ => sender == actor
  | _ => true

theorem sentBy_sound {actor : Int} {s : State} {a : Action} (h : sentBy actor s a = true) :
    SentBy (fun c => c = actor) s a := by
  intro sender req ha
  rw [ha] at h
  exact eq_of_beq h

end MyS3.Escalation
