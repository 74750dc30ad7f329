import MyS3.AccountRequests
import MyS3.BucketOwners

/-!
The calls of `patch_bucket` with nobody in between, any of which may fail. The new name and
the new owner are statements of their own; an error after the first of them leaves the
bucket half changed.
-/

namespace MyS3.BucketPatches

open Library.Strings Library.Calls Library.Tables
open Models Database Rbac Accounts BucketNames Revocation
open AccountRequests (KeepsTables)

def bucketTasks (settings : BucketOwners.Settings) : Machine Registry BucketOwners.Stage where
  isOver := BucketOwners.Stage.isOver
  onFailure _ := BucketOwners.failed
  call := BucketOwners.call settings

theorem bucketTasks_step (settings : BucketOwners.Settings) :
    (bucketTasks settings).step = BucketOwners.serve settings := rfl

/-- A change of a bucket that nobody interrupts. -/
def patchBucket (settings : BucketOwners.Settings) (fails : BucketOwners.Stage → Bool)
    (s : Registry) (actor id : Int) (name : Option Text) (ownerAccountId : Option Int) :
    Registry × BucketOwners.Stage :=
  (bucketTasks settings).alone fails 9 s (BucketOwners.patchBucket actor id name ownerAccountId)

def bucketIsError : BucketOwners.Stage → Bool
  | .answered (.failure _ _) => true
  | _ => false

/-- How many calls are left at most. -/
def rank : BucketOwners.Stage → Nat
  | .createRequireOwner _ _ => 6
  | .createInsert _ _ => 5
  | .createOwnerRole _ => 4
  | .createGrant _ _ => 3
  | .createReload _ => 2
  | .createAssign _ => 1
  | .patchOwns _ _ _ _ => 9
  | .patchGet _ _ _ => 8
  | .renameGet _ _ _ => 7
  | .renameUpdate _ _ _ => 6
  | .renameReload _ _ => 5
  | .ownerGetBucket _ _ => 4
  | .ownerGetAccount _ _ => 3
  | .ownerUpdate _ _ => 2
  | .ownerReload _ => 1
  | .deleteCreatedBy _ _ => 2
  | .deleteAccount _ => 1
  | .ensureGet _ => 4
  | .ensureInsert _ => 3
  | .ensureOwnerRole _ => 2
  | .ensureGrant _ _ => 1
  | .answered _ => 0
  | .dropped => 0

theorem afterRename_rank (id : Int) (b : BucketRecord) (ownerAccountId : Option Int) :
    rank (BucketOwners.afterRename id b ownerAccountId) < 5 := by
  cases ownerAccountId with
  | none => exact Nat.succ_pos 4
  | some newOwnerId => exact Nat.lt_succ_self 4

/-- Each call brings a task closer to its end. -/
theorem call_rank (settings : BucketOwners.Settings) (s : Registry) (t : BucketOwners.Stage)
    (hover : t.isOver = false) : rank (BucketOwners.call settings s t).2 < rank t := by
  cases t with
  | answered answer => cases hover
  | dropped => cases hover
  | patchGet id name ownerAccountId =>
    simp only [BucketOwners.call]
    split
    · exact Nat.succ_pos 7
    · split
      · exact (afterRename_rank _ _ _).trans (by simp [rank])
      · split <;> simp [rank]
  | renameGet id newName ownerAccountId =>
    simp only [BucketOwners.call]
    split
    · exact Nat.succ_pos 6
    · split_ifs
      · exact Nat.succ_pos 6
      · exact Nat.succ_pos 6
      · exact (afterRename_rank _ _ _).trans (by simp [rank])
      · simp [rank]
  | renameReload id ownerAccountId =>
    simp only [BucketOwners.call]
    split
    · exact Nat.succ_pos 4
    · exact afterRename_rank _ _ _
  | _ =>
    simp only [BucketOwners.call]
    repeat' split
    all_goals simp [rank, BucketOwners.refuse, BucketOwners.failed]

/-- Every request is answered. -/
theorem patchBucket_isOver (settings : BucketOwners.Settings)
    (fails : BucketOwners.Stage → Bool) (s : Registry) (actor id : Int) (name : Option Text)
    (ownerAccountId : Option Int) :
    (patchBucket settings fails s actor id name ownerAccountId).2.isOver = true := by
  have hfailure : ∀ t : BucketOwners.Stage, (bucketTasks settings).isOver t = false →
      rank ((bucketTasks settings).onFailure t) < rank t := by
    intro t hover
    cases t with
    | answered answer => cases hover
    | dropped => cases hover
    | _ => exact Nat.succ_pos _
  have hrank : rank (BucketOwners.patchBucket actor id name ownerAccountId) ≤ 9 := by
    unfold BucketOwners.patchBucket
    split_ifs
    · exact Nat.zero_le 9
    · exact Nat.le_refl 9
  exact alone_isOver (call_rank settings) hfailure hrank

/-- The bucket is read for its owner. -/
structure Opens (fails : BucketOwners.Stage → Bool) (db : Db) (actor id : Int)
    (name : Option Text) (ownerAccountId : Option Int) (b : BucketRecord) : Prop where
  asks : fails (.patchOwns actor id name ownerAccountId) = false
  owned : accountOwnsBucket db actor id = true
  reads : fails (.patchGet id name ownerAccountId) = false
  bucket : getBucketById db id = some b

/-- The bucket gets a new name. -/
structure Renames (fails : BucketOwners.Stage → Bool) (db : Db) (id : Int) (name : Option Text)
    (ownerAccountId : Option Int) (b : BucketRecord) (newName : Text) : Prop where
  valid : ∃ raw, name = some raw ∧ validateBucketName raw = .ok newName
  looks : fails (.renameGet id newName ownerAccountId) = false
  mayChange : b.name ≠ "storage".toList
  reserved : newName ≠ "storage".toList
  changed : newName ≠ b.name
  updates : fails (.renameUpdate id newName ownerAccountId) = false
  free : getBucketByName db newName = none

/-- The bucket keeps its name: none is given, or the one that it has. -/
def KeepsName (fails : BucketOwners.Stage → Bool) (id : Int) (name : Option Text)
    (ownerAccountId : Option Int) (b : BucketRecord) : Prop :=
  name = none ∨ b.name ≠ "storage".toList ∧
    fails (.renameGet id b.name ownerAccountId) = false ∧
    ∃ raw, name = some raw ∧ validateBucketName raw = .ok b.name

/-- The new owner of the bucket is written. -/
structure Transfers (fails : BucketOwners.Stage → Bool) (db : Db) (id newOwnerId : Int) :
    Prop where
  getsBucket : fails (.ownerGetBucket id newOwnerId) = false
  getsAccount : fails (.ownerGetAccount id newOwnerId) = false
  account : ∃ a, getAccountById db newOwnerId = some a ∧ a.isDisabled = false
  updates : fails (.ownerUpdate id newOwnerId) = false

section buckets

variable {settings : BucketOwners.Settings} {fails : BucketOwners.Stage → Bool} {s : Registry}
  {actor id : Int} {name : Option Text} {ownerAccountId : Option Int}

/-- A refusal changes nothing. -/
def Refused (s : Registry) (result : Registry × BucketOwners.Stage) : Prop :=
  result.1 = s ∧ bucketIsError result.2 = true

theorem failed_refused {n : Nat} {t : BucketOwners.Stage} (hover : t.isOver = false)
    (hfails : fails t = true) : Refused s ((bucketTasks settings).alone fails (n + 1) s t) := by
  rw [alone_failed hover hfails rfl]
  exact ⟨rfl, rfl⟩

theorem call_refused {n : Nat} {t t' : BucketOwners.Stage} (hover : t.isOver = false)
    (hfails : fails t = false) (hcall : BucketOwners.call settings s t = (s, t'))
    (hlast : bucketIsError t' = true) :
    Refused s ((bucketTasks settings).alone fails (n + 1) s t) := by
  have hover' : t'.isOver = true := by
    cases t' with
    | answered answer => rfl
    | _ => cases hlast
  rw [alone_last hover hfails hcall hover']
  exact ⟨rfl, hlast⟩

section calls

variable (settings)

theorem ownerGetBucket_some {b : BucketRecord} {newOwnerId : Int}
    (hbucket : getBucketById s.db id = some b) :
    BucketOwners.call settings s (.ownerGetBucket id newOwnerId) =
      (s, .ownerGetAccount id newOwnerId) := by
  simp [BucketOwners.call, hbucket]

theorem ownerGetAccount_enabled {account : AccountRecord} {newOwnerId : Int}
    (haccount : getAccountById s.db newOwnerId = some account)
    (henabled : account.isDisabled = false) :
    BucketOwners.call settings s (.ownerGetAccount id newOwnerId) =
      (s, .ownerUpdate id newOwnerId) := by
  simp [BucketOwners.call, haccount, henabled]

theorem patchGet_valid {b : BucketRecord} {raw newName : Text}
    (hbucket : getBucketById s.db id = some b) (hvalid : validateBucketName raw = .ok newName) :
    BucketOwners.call settings s (.patchGet id (some raw) ownerAccountId) =
      (s, .renameGet id newName ownerAccountId) := by
  simp only [BucketOwners.call, hbucket, hvalid]

theorem renameGet_changes {b : BucketRecord} {newName : Text}
    (hbucket : getBucketById s.db id = some b) (hstorage : b.name ≠ "storage".toList)
    (hreserved : newName ≠ "storage".toList) (hchanged : newName ≠ b.name) :
    BucketOwners.call settings s (.renameGet id newName ownerAccountId) =
      (s, .renameUpdate id newName ownerAccountId) := by
  simp only [BucketOwners.call, hbucket, if_neg hstorage, if_neg hreserved, if_neg hchanged]

end calls

variable (settings) in
/-- When the new owner is not written, nothing is. -/
theorem transfer_refused {b : BucketRecord} {newOwnerId : Int} (n : Nat)
    (hbucket : getBucketById s.db id = some b) (h : ¬ Transfers fails s.db id newOwnerId) :
    Refused s ((bucketTasks settings).alone fails (n + 4) s (.ownerGetBucket id newOwnerId)) := by
  cases hgets : fails (.ownerGetBucket id newOwnerId) with
  | true => exact failed_refused rfl hgets
  | false =>
    rw [alone_call_eq rfl hgets (ownerGetBucket_some settings hbucket)]
    cases hreads : fails (.ownerGetAccount id newOwnerId) with
    | true => exact failed_refused rfl hreads
    | false =>
      cases haccount : getAccountById s.db newOwnerId with
      | none =>
        have hmissing : BucketOwners.call settings s (.ownerGetAccount id newOwnerId) =
            (s, BucketOwners.refuse .notFound "account not found") := by
          simp only [BucketOwners.call, haccount]
        exact call_refused rfl hreads hmissing rfl
      | some account =>
        cases hdisabled : account.isDisabled with
        | true =>
          have hrefused : BucketOwners.call settings s (.ownerGetAccount id newOwnerId) =
              (s, BucketOwners.refuse .conflict
                "cannot transfer ownership to a disabled account") := by
            simp only [BucketOwners.call, haccount, hdisabled, if_true]
          exact call_refused rfl hreads hrefused rfl
        | false =>
          rw [alone_call_eq rfl hreads (ownerGetAccount_enabled settings haccount hdisabled)]
          cases hupdates : fails (.ownerUpdate id newOwnerId) with
          | true => exact failed_refused rfl hupdates
          | false => exact absurd ⟨hgets, hreads, ⟨account, haccount, hdisabled⟩, hupdates⟩ h

/-- The rows of buckets after the new owner of one is written. -/
def ownerRows (rows : List BucketRecord) (id newOwnerId : Int) : List BucketRecord :=
  updateRows (fun b => b.id == id) (Registry.setOwner (some newOwnerId)) rows

variable (settings) in
/-- When the new owner is written, the answer is an error only when the reload fails. -/
theorem transfer_done {b : BucketRecord} {newOwnerId : Int} (n : Nat)
    (hbucket : getBucketById s.db id = some b) (h : Transfers fails s.db id newOwnerId) :
    ∃ r t, (bucketTasks settings).alone fails (n + 4) s (.ownerGetBucket id newOwnerId) = (r, t) ∧
      KeepsAccess s.db r.db ∧ r.db.session = s.db.session ∧
      r.db.bucket.rows = ownerRows s.db.bucket.rows id newOwnerId ∧
      bucketIsError t = fails (.ownerReload id) := by
  obtain ⟨account, haccount, henabled⟩ := h.account
  have hexists : accountExists s.db newOwnerId = true :=
    accountExists_iff.mpr ⟨account, getAccountById_eq_some haccount⟩
  obtain ⟨r, hupdate, hkeeps, hsession, hrows⟩ : ∃ r, s.updateBucketOwner id newOwnerId = some r ∧
      KeepsAccess s.db r.db ∧ r.db.session = s.db.session ∧
      r.db.bucket.rows = ownerRows s.db.bucket.rows id newOwnerId := by
    refine ⟨_, if_pos hexists, ⟨rfl, rfl, rfl⟩, rfl, rfl⟩
  have hcall : BucketOwners.call settings s (.ownerUpdate id newOwnerId) =
      (r, .ownerReload id) := by
    simp [BucketOwners.call, hbucket, hupdate]
  obtain ⟨b', hb'⟩ : ∃ b', getBucketById r.db id = some b' := by
    obtain ⟨hmem, hid⟩ := BucketTable.byId_eq_some.mp hbucket
    obtain ⟨b', hb', hsame⟩ := exists_updateRows (·.id) (fun b => b.id == id)
      (f := Registry.setOwner (some newOwnerId)) (fun _ => rfl) hmem
    exact ⟨b', BucketTable.byId_eq_some.mpr ⟨hrows ▸ hb', hsame.trans hid⟩⟩
  rw [alone_call_eq rfl h.getsBucket (ownerGetBucket_some settings hbucket),
    alone_call_eq rfl h.getsAccount (ownerGetAccount_enabled settings haccount henabled),
    alone_call_eq rfl h.updates hcall]
  cases hreloads : fails (.ownerReload id) with
  | true => exact ⟨r, _, alone_failed rfl hreloads rfl, hkeeps, hsession, hrows, rfl⟩
  | false =>
    have hlast : BucketOwners.call settings r (.ownerReload id) =
        (r, .answered (.updated b')) := by
      simp only [BucketOwners.call, hb']
    exact ⟨r, _, alone_last rfl hreloads hlast rfl, hkeeps, hsession, hrows, rfl⟩

/-- The rows of buckets after one has its new name. -/
def namedRows (rows : List BucketRecord) (id : Int) (newName : Text) : List BucketRecord :=
  updateRows (fun b => b.id == id) (BucketTable.setName newName) rows

/-- A name that no bucket has can be given to any. -/
theorem rename_isSome (id : Int) {table : BucketTable} {newName : Text}
    (hfree : table.byName newName = none) : (table.rename id newName).isSome = true := by
  have hold : UniqueOn (fun b : BucketRecord => some b.name) table.rows :=
    table.name_unique.imp fun hne => Or.inr fun heq => hne (Option.some.inj heq)
  have hone : table.rows.Pairwise fun a b => ¬ ((a.id == id) = true ∧ (b.id == id) = true) := by
    refine table.id_unique.imp ?_
    intro a b hne h
    obtain ⟨ha, hb⟩ := h
    exact hne ((beq_iff_eq.mp ha).trans (beq_iff_eq.mp hb).symm)
  have hnew := hold.update_fresh (f := BucketTable.setName newName) (k := newName) hone
    (fun _ _ _ => rfl) fun b hb heq =>
      BucketTable.byName_eq_none.mp hfree b hb (Option.some.inj heq)
  unfold BucketTable.rename
  simp only
  split
  · rfl
  · rename_i hnames
    refine absurd (hnew.imp ?_) hnames
    intro a b hkeys heq
    rcases hkeys with hnone | hne
    · cases hnone
    · exact hne (congrArg some heq)

variable (s id) in
theorem renameBucketRow_some {newName : Text} (hfree : getBucketByName s.db newName = none) :
    ∃ r, BucketOwners.renameBucketRow s id newName = some r ∧ KeepsAccess s.db r.db ∧
      r.db.session = s.db.session ∧ r.db.bucket.rows = namedRows s.db.bucket.rows id newName := by
  have hdb : ∃ db, s.db.renameBucketRow id newName = some db ∧ db.session = s.db.session := by
    have htable := rename_isSome id hfree
    unfold Db.renameBucketRow
    split
    · rename_i hnone
      rw [hnone] at htable
      cases htable
    · exact ⟨_, rfl, rfl⟩
  obtain ⟨db, hdb, hsession⟩ := hdb
  obtain ⟨hkeeps, _, hrows⟩ := renameBucketRow_keeps hdb
  unfold BucketOwners.renameBucketRow onBuckets
  simp only [hdb, Option.pmap_some]
  exact ⟨_, rfl, hkeeps, hsession, hrows⟩

theorem free_of_rename {table table' : BucketTable} {newName : Text} {b : BucketRecord}
    (h : table.rename id newName = some table') (hb : table.byId id = some b)
    (hne : newName ≠ b.name) : table.byName newName = none := by
  rw [BucketTable.byName_eq_none]
  intro c hc hname
  obtain ⟨hmem, hid⟩ := BucketTable.byId_eq_some.mp hb
  have hrows := BucketTable.rename_rows h
  have hcid : c.id ≠ id := by
    intro hsame
    have heq := eq_of_pairwise_ne table.id_unique hc hmem (hsame.trans hid.symm)
    exact hne (heq ▸ hname.symm)
  have hcnew : c ∈ table'.rows := by
    rw [hrows]
    exact mem_updateRows.mpr (Or.inl ⟨hc, by simpa using hcid⟩)
  have hbnew : BucketTable.setName newName b ∈ table'.rows := by
    rw [hrows]
    exact mem_updateRows.mpr (Or.inr ⟨b, hmem, by simpa using hid, rfl⟩)
  have heq := eq_of_pairwise_ne table'.name_unique hcnew hbnew hname
  rw [heq] at hcid
  exact hcid hid

/-- A valid name that the bucket neither has nor gets is refused. -/
theorem renameGet_refused {raw newName : Text} {b : BucketRecord} (n : Nat)
    (hbucket : getBucketById s.db id = some b) (hvalid : validateBucketName raw = .ok newName)
    (hkeeps : ¬ KeepsName fails id (some raw) ownerAccountId b)
    (hrenames : ¬ Renames fails s.db id (some raw) ownerAccountId b newName) :
    ((bucketTasks settings).alone fails (n + 2) s (.renameGet id newName ownerAccountId)).1 =
      s := by
  cases hlooks : fails (.renameGet id newName ownerAccountId) with
  | true => exact (failed_refused rfl hlooks).1
  | false =>
    by_cases hstorage : b.name = "storage".toList
    · have hcall : BucketOwners.call settings s (.renameGet id newName ownerAccountId) =
          (s, BucketOwners.refuse .conflict "cannot rename default storage bucket") := by
        simp only [BucketOwners.call, hbucket, if_pos hstorage]
      exact (call_refused rfl hlooks hcall rfl).1
    · by_cases hreserved : newName = "storage".toList
      · have hcall : BucketOwners.call settings s (.renameGet id newName ownerAccountId) =
            (s, BucketOwners.refuse .conflict "cannot use reserved bucket name storage") := by
          simp only [BucketOwners.call, hbucket, if_neg hstorage, if_pos hreserved]
        exact (call_refused rfl hlooks hcall rfl).1
      · by_cases hsame : newName = b.name
        · rw [hsame] at hvalid hlooks
          exact absurd (Or.inr ⟨hstorage, hlooks, raw, rfl, hvalid⟩) hkeeps
        · rw [alone_call_eq rfl hlooks
            (renameGet_changes settings hbucket hstorage hreserved hsame)]
          cases hupdates : fails (.renameUpdate id newName ownerAccountId) with
          | true => exact (failed_refused rfl hupdates).1
          | false =>
            cases hrename : BucketOwners.renameBucketRow s id newName with
            | none =>
              have hlast : BucketOwners.call settings s
                  (.renameUpdate id newName ownerAccountId) =
                  (s, BucketOwners.refuse .conflict "bucket already exists") := by
                simp [BucketOwners.call, hbucket, hrename]
              exact (call_refused rfl hupdates hlast rfl).1
            | some r =>
              have hfree : getBucketByName s.db newName = none := by
                have hdb := (onBuckets_eq hrename).1
                unfold Db.renameBucketRow at hdb
                split at hdb
                · cases hdb
                · rename_i htable
                  exact free_of_rename htable hbucket hsame
              exact absurd ⟨⟨raw, rfl, hvalid⟩, hlooks, hstorage, hreserved, hsame, hupdates,
                hfree⟩ hrenames

/-- When the bucket neither keeps its name nor gets a new one, nothing is written. -/
theorem patchBucket_refused
    (h : ∀ b, Opens fails s.db actor id name ownerAccountId b →
      ¬ KeepsName fails id name ownerAccountId b ∧
        ∀ newName, ¬ Renames fails s.db id name ownerAccountId b newName) :
    (patchBucket settings fails s actor id name ownerAccountId).1 = s := by
  unfold patchBucket BucketOwners.patchBucket
  split_ifs with hnothing
  · rw [alone_over rfl]
  · cases hasks : fails (.patchOwns actor id name ownerAccountId) with
    | true => exact (failed_refused rfl hasks).1
    | false =>
      cases howned : accountOwnsBucket s.db actor id with
      | false => exact (call_refused rfl hasks (if_pos howned) rfl).1
      | true =>
        rw [alone_call_eq rfl hasks (if_neg (by simp [howned]))]
        cases hreads : fails (.patchGet id name ownerAccountId) with
        | true => exact (failed_refused rfl hreads).1
        | false =>
          cases hbucket : getBucketById s.db id with
          | none =>
            have hcall : BucketOwners.call settings s (.patchGet id name ownerAccountId) =
                (s, BucketOwners.refuse .notFound "bucket not found") := by
              simp only [BucketOwners.call, hbucket]
            exact (call_refused rfl hreads hcall rfl).1
          | some b =>
            obtain ⟨hkeeps, hrenames⟩ := h b ⟨hasks, howned, hreads, hbucket⟩
            cases name with
            | none => exact absurd (Or.inl rfl) hkeeps
            | some raw =>
              cases hvalid : validateBucketName raw with
              | error message =>
                have hcall : BucketOwners.call settings s (.patchGet id (some raw)
                    ownerAccountId) =
                    (s, .answered (.failure .badRequest (some message))) := by
                  simp only [BucketOwners.call, hbucket, hvalid]
                exact (call_refused rfl hreads hcall rfl).1
              | ok newName =>
                rw [alone_call_eq rfl hreads (patchGet_valid settings hbucket hvalid)]
                exact renameGet_refused 5 hbucket hvalid hkeeps (hrenames newName)

variable (settings) in
/-- The bucket is read, and its name stays. -/
theorem patchBucket_keepsName {b : BucketRecord}
    (hopens : Opens fails s.db actor id name ownerAccountId b)
    (hkeeps : KeepsName fails id name ownerAccountId b)
    (hasked : ¬ (name = none ∧ ownerAccountId = none)) :
    ∃ n, patchBucket settings fails s actor id name ownerAccountId =
      (bucketTasks settings).alone fails (n + 4) s
        (BucketOwners.afterRename id b ownerAccountId) := by
  unfold patchBucket BucketOwners.patchBucket
  rw [if_neg hasked, alone_call_eq rfl hopens.asks (if_neg (by simp [hopens.owned]))]
  rcases hkeeps with rfl | ⟨hstorage, hlooks, raw, rfl, hvalid⟩
  · have hcall : BucketOwners.call settings s (.patchGet id none ownerAccountId) =
        (s, BucketOwners.afterRename id b ownerAccountId) := by
      simp only [BucketOwners.call, hopens.bucket]
    exact ⟨3, alone_call_eq rfl hopens.reads hcall⟩
  · have hnext : BucketOwners.call settings s (.renameGet id b.name ownerAccountId) =
        (s, BucketOwners.afterRename id b ownerAccountId) := by
      simp only [BucketOwners.call, hopens.bucket, if_neg hstorage, if_true]
    rw [alone_call_eq rfl hopens.reads (patchGet_valid settings hopens.bucket hvalid)]
    exact ⟨2, alone_call_eq rfl hlooks hnext⟩

variable (settings) in
/-- The bucket is read and gets its new name. -/
theorem patchBucket_renames {b : BucketRecord} {newName : Text}
    (hopens : Opens fails s.db actor id name ownerAccountId b)
    (hrenames : Renames fails s.db id name ownerAccountId b newName) :
    ∃ r, KeepsAccess s.db r.db ∧ r.db.session = s.db.session ∧
      r.db.bucket.rows = namedRows s.db.bucket.rows id newName ∧
      patchBucket settings fails s actor id name ownerAccountId =
        (bucketTasks settings).alone fails 5 r (.renameReload id ownerAccountId) := by
  obtain ⟨raw, rfl, hvalid⟩ := hrenames.valid
  obtain ⟨r, hr, hkeeps, hsession, hrows⟩ := renameBucketRow_some s id hrenames.free
  have hupdate : BucketOwners.call settings s (.renameUpdate id newName ownerAccountId) =
      (r, .renameReload id ownerAccountId) := by
    simp [BucketOwners.call, hopens.bucket, hr]
  refine ⟨r, hkeeps, hsession, hrows, ?_⟩
  unfold patchBucket BucketOwners.patchBucket
  rw [if_neg (by simp), alone_call_eq rfl hopens.asks (if_neg (by simp [hopens.owned])),
    alone_call_eq rfl hopens.reads (patchGet_valid settings hopens.bucket hvalid),
    alone_call_eq rfl hrenames.looks (renameGet_changes settings hopens.bucket
      hrenames.mayChange hrenames.reserved hrenames.changed),
    alone_call_eq rfl hrenames.updates hupdate]

/-- An error of the request leaves the tables as they were. -/
structure Clean (fails : BucketOwners.Stage → Bool) (db : Db) (actor id : Int)
    (name : Option Text) (ownerAccountId : Option Int) : Prop where
  /-- After a new name nothing goes wrong. -/
  renamed : ∀ b newName, Opens fails db actor id name ownerAccountId b →
    Renames fails db id name ownerAccountId b newName →
      fails (.renameReload id ownerAccountId) = false ∧
        ∀ newOwnerId, ownerAccountId = some newOwnerId →
          Transfers fails db id newOwnerId ∧ fails (.ownerReload id) = false
  /-- After a new owner alone nothing goes wrong, or it is the old one. -/
  kept : ∀ b newOwnerId, Opens fails db actor id name ownerAccountId b →
    KeepsName fails id name ownerAccountId b → ownerAccountId = some newOwnerId →
      Transfers fails db id newOwnerId →
        fails (.ownerReload id) = false ∨ b.ownerAccountId = some newOwnerId

theorem Transfers.of_account {db db' : Db} {newOwnerId : Int}
    (haccount : db'.account = db.account) (h : Transfers fails db id newOwnerId) :
    Transfers fails db' id newOwnerId where
  getsBucket := h.getsBucket
  getsAccount := h.getsAccount
  account := by
    unfold getAccountById
    rw [haccount]
    exact h.account
  updates := h.updates

theorem Renames.not_keepsName {b : BucketRecord} {newName : Text}
    (h : Renames fails s.db id name ownerAccountId b newName) :
    ¬ KeepsName fails id name ownerAccountId b := by
  obtain ⟨raw, hname, hvalid⟩ := h.valid
  intro h'
  rcases h' with hnone | ⟨_, _, raw', hname', hvalid'⟩
  · rw [hname] at hnone
    cases hnone
  · obtain rfl := Option.some.inj (hname.symm.trans hname')
    rw [hvalid] at hvalid'
    exact h.changed (Except.ok.inj hvalid')

/-- Rows in which the bucket has another name are not the old ones. -/
theorem rows_ne_of_renamed {b : BucketRecord} {newName : Text} {rows : List BucketRecord}
    (hbucket : getBucketById s.db id = some b) (hchanged : newName ≠ b.name)
    (hrows : ∀ c ∈ rows, c.id = id → c.name = newName) : rows ≠ s.db.bucket.rows := by
  intro h
  obtain rfl := h
  obtain ⟨hmem, hid⟩ := BucketTable.byId_eq_some.mp hbucket
  exact hchanged (hrows b hmem hid).symm

theorem namedRows_name {rows : List BucketRecord} {newName : Text} :
    ∀ c ∈ namedRows rows id newName, c.id = id → c.name = newName := by
  intro c hc hid
  rcases mem_updateRows.mp hc with ⟨_, hother⟩ | ⟨b, _, _, rfl⟩
  · exact absurd hid (by simpa using hother)
  · rfl

theorem ownerRows_name {rows : List BucketRecord} {newName : Text} {newOwnerId : Int}
    (h : ∀ c ∈ rows, c.id = id → c.name = newName) :
    ∀ c ∈ ownerRows rows id newOwnerId, c.id = id → c.name = newName := by
  intro c hc hid
  rcases mem_updateRows.mp hc with ⟨hc, _⟩ | ⟨b, hb, _, rfl⟩
  · exact h c hc hid
  · exact h b hb hid

theorem ownerRows_eq_self_iff {b : BucketRecord} {newOwnerId : Int}
    (hbucket : getBucketById s.db id = some b) :
    ownerRows s.db.bucket.rows id newOwnerId = s.db.bucket.rows ↔
      b.ownerAccountId = some newOwnerId := by
  obtain ⟨hmem, hid⟩ := BucketTable.byId_eq_some.mp hbucket
  unfold ownerRows
  rw [updateRows_eq_self_iff]
  constructor
  · intro h
    exact (congrArg BucketRecord.ownerAccountId (h b hmem (by simpa using hid))).symm
  · intro howner c hc hcid
    have heq := eq_of_pairwise_ne s.db.bucket.id_unique hc hmem
      ((beq_iff_eq.mp hcid).trans hid.symm)
    rw [heq, Registry.setOwner, ← howner]

/-- What an error leaves of a bucket that has its new name. -/
theorem renamed_clean_iff {b : BucketRecord} {newName : Text} {r : Registry}
    (hbucket : getBucketById s.db id = some b) (hchanged : newName ≠ b.name)
    (haccount : r.db.account = s.db.account)
    (hrows : r.db.bucket.rows = namedRows s.db.bucket.rows id newName) :
    (bucketIsError ((bucketTasks settings).alone fails 5 r (.renameReload id ownerAccountId)).2 =
        true → KeepsTables s.db
          ((bucketTasks settings).alone fails 5 r (.renameReload id ownerAccountId)).1.db) ↔
      fails (.renameReload id ownerAccountId) = false ∧
        ∀ newOwnerId, ownerAccountId = some newOwnerId →
          Transfers fails s.db id newOwnerId ∧ fails (.ownerReload id) = false := by
  have hnamed : ∀ c ∈ namedRows s.db.bucket.rows id newName, c.id = id → c.name = newName :=
    namedRows_name
  -- An error with the renamed rows is an error that is not clean.
  have hdirty : ∀ {result : Registry × BucketOwners.Stage}, bucketIsError result.2 = true →
      (∀ c ∈ result.1.db.bucket.rows, c.id = id → c.name = newName) →
      ¬ (bucketIsError result.2 = true → KeepsTables s.db result.1.db) := by
    intro result herror hnames hclean
    exact rows_ne_of_renamed hbucket hchanged hnames (hclean herror).bucket
  obtain ⟨hmem, hid⟩ := BucketTable.byId_eq_some.mp hbucket
  obtain ⟨b', hb', hsame⟩ := exists_updateRows (·.id) (fun b => b.id == id)
    (f := BucketTable.setName newName) (fun _ => rfl) hmem
  have hbucket' : getBucketById r.db id = some b' :=
    BucketTable.byId_eq_some.mpr ⟨hrows ▸ hb', hsame.trans hid⟩
  cases hreloads : fails (.renameReload id ownerAccountId) with
  | true =>
    have hfailed : Refused r ((bucketTasks settings).alone fails 5 r
        (.renameReload id ownerAccountId)) := failed_refused rfl hreloads
    obtain ⟨hstore, herror⟩ := hfailed
    refine iff_of_false (hdirty herror ?_) (by simp)
    rw [hstore, hrows]
    exact hnamed
  | false =>
    have hcall : BucketOwners.call settings r (.renameReload id ownerAccountId) =
        (r, BucketOwners.afterRename id b' ownerAccountId) := by
      simp only [BucketOwners.call, hbucket']
    rw [alone_call_eq rfl hreloads hcall]
    cases ownerAccountId with
    | none =>
      refine iff_of_true ?_ ⟨rfl, by simp⟩
      rw [BucketOwners.afterRename, alone_over rfl]
      intro herror
      cases herror
    | some newOwnerId =>
      by_cases htransfers : Transfers fails s.db id newOwnerId
      · obtain ⟨r', t, hrun, _, _, hrows', herror⟩ := transfer_done settings 0
          hbucket' (htransfers.of_account haccount)
        rw [BucketOwners.afterRename, hrun]
        cases hlast : fails (.ownerReload id) with
        | true =>
          refine iff_of_false (hdirty (herror.trans hlast) ?_) ?_
          · rw [hrows', hrows]
            exact ownerRows_name hnamed
          · intro h'
            obtain ⟨_, hall⟩ := h'
            exact absurd (hall newOwnerId rfl).2 (by simp)
        | false =>
          refine iff_of_true ?_ ⟨rfl, ?_⟩
          · intro h
            rw [herror, hlast] at h
            cases h
          · intro _ h'
            cases h'
            exact ⟨htransfers, rfl⟩
      · have hrefused : ¬ Transfers fails r.db id newOwnerId :=
          fun h => htransfers (h.of_account haccount.symm)
        obtain ⟨hstore, herror⟩ := transfer_refused settings 0 hbucket' hrefused
        refine iff_of_false (hdirty herror ?_) ?_
        · rw [BucketOwners.afterRename, hstore, hrows]
          exact hnamed
        · intro h'
          obtain ⟨_, hall⟩ := h'
          exact htransfers (hall newOwnerId rfl).1

/-- What an error leaves of a bucket that keeps its name. -/
theorem kept_clean_iff {b : BucketRecord} (n : Nat) (hbucket : getBucketById s.db id = some b) :
    (bucketIsError ((bucketTasks settings).alone fails (n + 4) s
        (BucketOwners.afterRename id b ownerAccountId)).2 = true → KeepsTables s.db
          ((bucketTasks settings).alone fails (n + 4) s
            (BucketOwners.afterRename id b ownerAccountId)).1.db) ↔
      ∀ newOwnerId, ownerAccountId = some newOwnerId → Transfers fails s.db id newOwnerId →
        fails (.ownerReload id) = false ∨ b.ownerAccountId = some newOwnerId := by
  cases ownerAccountId with
  | none =>
    rw [BucketOwners.afterRename, alone_over rfl]
    exact iff_of_true (fun herror => by cases herror) (by simp)
  | some newOwnerId =>
    rw [BucketOwners.afterRename]
    by_cases htransfers : Transfers fails s.db id newOwnerId
    · obtain ⟨r, t, hrun, hkeeps, hsession, hrows, herror⟩ :=
        transfer_done settings n hbucket htransfers
      have hsame : KeepsTables s.db r.db ↔ b.ownerAccountId = some newOwnerId := by
        rw [← ownerRows_eq_self_iff hbucket, ← hrows]
        exact ⟨fun h => h.bucket, fun h => ⟨hkeeps.1, hkeeps.2.2, hsession, h⟩⟩
      rw [hrun]
      simp only [hsame, herror]
      cases hlast : fails (.ownerReload id) with
      | true => simp [htransfers]
      | false => simp
    · obtain ⟨hstore, _⟩ := transfer_refused settings n hbucket htransfers
      refine iff_of_true ?_ ?_
      · intro _
        rw [hstore]
        exact ⟨rfl, rfl, rfl, rfl⟩
      · intro _ h' h
        cases h'
        exact absurd h htransfers

variable (settings fails s actor id name ownerAccountId) in
/-- An error of `patch_bucket` leaves the tables as they were exactly when nothing goes wrong
after the new name, and after a new owner that is not the old one. -/
theorem patchBucket_clean_iff :
    (bucketIsError (patchBucket settings fails s actor id name ownerAccountId).2 = true →
        KeepsTables s.db (patchBucket settings fails s actor id name ownerAccountId).1.db) ↔
      Clean fails s.db actor id name ownerAccountId := by
  by_cases hnothing : name = none ∧ ownerAccountId = none
  · obtain ⟨rfl, rfl⟩ := hnothing
    refine iff_of_true ?_ ⟨?_, ?_⟩
    · intro _
      exact ⟨rfl, rfl, rfl, rfl⟩
    · intro b newName _ hrenames
      obtain ⟨_, hraw, _⟩ := hrenames.valid
      cases hraw
    · intro b newOwnerId _ _ howner
      cases howner
  by_cases hopened : ∃ b, Opens fails s.db actor id name ownerAccountId b ∧
      (KeepsName fails id name ownerAccountId b ∨
        ∃ newName, Renames fails s.db id name ownerAccountId b newName)
  · obtain ⟨b, hopens, hname⟩ := hopened
    have hone : ∀ b', Opens fails s.db actor id name ownerAccountId b' → b' = b :=
      fun b' h => Option.some.inj (h.bucket.symm.trans hopens.bucket)
    rcases hname with hkeeps | ⟨newName, hrenames⟩
    · obtain ⟨n, hrun⟩ := patchBucket_keepsName settings hopens hkeeps hnothing
      rw [hrun, kept_clean_iff n hopens.bucket]
      constructor
      · intro hall
        refine ⟨?_, ?_⟩
        · intro b' newName hopens' hrenames
          obtain rfl := hone b' hopens'
          exact absurd hkeeps hrenames.not_keepsName
        · intro b' newOwnerId hopens' _
          obtain rfl := hone b' hopens'
          exact hall newOwnerId
      · intro hclean newOwnerId
        exact hclean.kept b newOwnerId hopens hkeeps
    · obtain ⟨r, hkept, _, hrows, hrun⟩ :=
        patchBucket_renames settings hopens hrenames
      rw [hrun, renamed_clean_iff hopens.bucket hrenames.changed hkept.1 hrows]
      constructor
      · intro hall
        refine ⟨fun _ _ _ _ => hall, ?_⟩
        intro b' newOwnerId hopens' hkeeps
        obtain rfl := hone b' hopens'
        exact absurd hkeeps hrenames.not_keepsName
      · intro hclean
        exact hclean.renamed b newName hopens hrenames
  · have hrefused : ∀ b, Opens fails s.db actor id name ownerAccountId b →
        ¬ KeepsName fails id name ownerAccountId b ∧
          ∀ newName, ¬ Renames fails s.db id name ownerAccountId b newName := by
      intro b hopens
      refine ⟨fun hkeeps => hopened ⟨b, hopens, Or.inl hkeeps⟩, ?_⟩
      intro newName hrenames
      exact hopened ⟨b, hopens, Or.inr ⟨newName, hrenames⟩⟩
    refine iff_of_true ?_ ⟨?_, ?_⟩
    · intro _
      rw [patchBucket_refused hrefused]
      exact ⟨rfl, rfl, rfl, rfl⟩
    · intro b newName hopens hrenames
      exact absurd hrenames ((hrefused b hopens).2 newName)
    · intro b newOwnerId hopens hkeeps
      exact absurd hkeeps (hrefused b hopens).1

end buckets

end MyS3.BucketPatches
