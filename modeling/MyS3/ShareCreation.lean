import MyS3.FolderPrefixes
import MyS3.Shares

/-!
Making a share link, statement by statement: `create_share` of `db/shares.rs`. The row of
the link goes in first, under a drawn token and short code that are drawn again when they
are taken; the recipients follow, one by one. There is no transaction around them.
-/

namespace MyS3.ShareCreation

open Library.Strings Library.Tables
open Models Database Repository Listings Rbac Shares

def shareCharset : Text := "123456789ABCDEFGHJKLMNPQRSTUVWXYZabcdefghijkmnopqrstuvwxyz".toList

def tokenLen : Nat := 22

def shortCodeLen : Nat := 8

/-- `random_share_code`, from the indexes that the generator draws. -/
def randomShareCode (draw : Nat → Fin shareCharset.length) (len : Nat) : Text :=
  (List.range len).map fun i => shareCharset.get (draw i)

/-- What the generator draws for the token and the short code of each attempt. -/
structure ShareRandom where
  token : Nat → Nat → Fin shareCharset.length
  shortCode : Nat → Nat → Fin shareCharset.length

structure NewShare where
  bucketId : Int
  targetKey : Text
  targetKind : ShareTargetKind
  accessMode : ShareAccessMode
  expiresAt : Option Int
  createdByAccountId : Int
  accountIds : List Int
  shorten : Bool
  deriving DecidableEq

/-- A database call of `create_share`. -/
inductive ShareCall
  | target
  | link (attempt : Nat)
  | recipient (index : Nat)
  | reload

inductive ShareError
  | objectNotFound
  | folderNotFound
  | noRecipients
  | unique
  | foreignKey
  | exhausted
  | missing
  | query
  deriving DecidableEq

/-- The text of the error; a library error has none here. -/
def ShareError.message : ShareError → Option Text
  | .objectNotFound => some "object not found".toList
  | .folderNotFound => some "folder not found or empty".toList
  | .noRecipients => some "specific_users requires at least one account_id".toList
  | .exhausted => some "failed to generate unique share token".toList
  | .missing => some "share missing after insert".toList
  | .unique => none
  | .foreignKey => none
  | .query => none

/-- The database with the next AUTOINCREMENT id of `share_link`, which no row refers to. -/
structure ShareStore where
  db : Db
  nextId : Int
  link_lt : ∀ share ∈ db.shareLink, share.id < nextId
  user_lt : ∀ u ∈ db.shareLinkUser, u.shareId < nextId

def tokenAt (rng : ShareRandom) (attempt : Nat) : Text :=
  randomShareCode (rng.token attempt) tokenLen

def shortCodeAt (rng : ShareRandom) (req : NewShare) (attempt : Nat) : Option Text :=
  if req.shorten then some (randomShareCode (rng.shortCode attempt) shortCodeLen) else none

/-- A share has the token or the short code; a short code of NULL is not unique. -/
def isTaken (db : Db) (token : Text) (shortCode : Option Text) : Bool :=
  db.shareLink.any fun share =>
    share.token == token || (shortCode.isSome && share.shortCode == shortCode)

/-- The bucket and the creator that the row refers to are there. -/
def refersToRows (db : Db) (req : NewShare) : Bool :=
  (db.bucket.byId req.bucketId).isSome && (getAccountById db req.createdByAccountId).isSome

def shareRow (now : Instant) (req : NewShare) (id : Int) (token : Text)
    (shortCode : Option Text) : ShareLinkRecord where
  id := id
  token := token
  shortCode := shortCode
  bucketId := req.bucketId
  targetKey := req.targetKey
  targetKind := req.targetKind
  accessMode := req.accessMode
  expiresAt := req.expiresAt
  createdByAccountId := req.createdByAccountId
  revokedAt := none
  createdAt := now.currentTimestamp

/-- The store with one more link. -/
def ShareStore.addLink (s : ShareStore) (now : Instant) (req : NewShare) (token : Text)
    (shortCode : Option Text) : ShareStore where
  db := { s.db with shareLink := s.db.shareLink ++ [shareRow now req s.nextId token shortCode] }
  nextId := s.nextId + 1
  link_lt := lt_append_row s.link_lt rfl
  user_lt := by
    intro u hu
    have := s.user_lt u hu
    omega

def insertShareLink (s : ShareStore) (now : Instant) (req : NewShare) (token : Text)
    (shortCode : Option Text) : Except ShareError ShareStore :=
  if isTaken s.db token shortCode then .error .unique
  else if refersToRows s.db req then .ok (s.addLink now req token shortCode)
  else .error .foreignKey

/-- The primary key is the pair; both ids refer to rows. -/
def insertShareLinkUser (s : ShareStore) (shareId accountId : Int) : Except ShareError ShareStore :=
  if shareAllowsAccount s.db shareId accountId then .error .unique
  else if h : ∃ share ∈ s.db.shareLink, share.id = shareId then
    if (getAccountById s.db accountId).isNone then .error .foreignKey
    else
      .ok {
        db := { s.db with shareLinkUser := s.db.shareLinkUser ++ [⟨shareId, accountId⟩] }
        nextId := s.nextId
        link_lt := s.link_lt
        user_lt := by
          intro u hu
          rcases List.mem_append.mp hu with hu | hu
          · exact s.user_lt u hu
          · obtain ⟨share, hshare, hid⟩ := h
            rw [List.mem_singleton.mp hu]
            exact hid ▸ s.link_lt share hshare }
  else .error .foreignKey

/-- The recipients from the one with the given index on; the first error ends it. -/
def insertRecipients (fails : ShareCall → Bool) (shareId : Int) :
    Nat → ShareStore → List Int → Option ShareError × ShareStore
  | _, s, [] => (none, s)
  | i, s, accountId :: rest =>
    if fails (.recipient i) then (some .query, s)
    else
      match insertShareLinkUser s shareId accountId with
      | .error err => (some err, s)
      | .ok s' => insertRecipients fails shareId (i + 1) s' rest

def getShareById (db : Db) (id : Int) : Option ShareLinkRecord :=
  db.shareLink.find? fun share => share.id == id

/-- The accounts that get a row. -/
def recipientsOf (req : NewShare) : List Int :=
  if req.accessMode = .specificUsers then req.accountIds else []

/-- What follows the insert of the link. -/
def finishShare (fails : ShareCall → Bool) (req : NewShare) (id : Int) (s : ShareStore) :
    Except ShareError ShareLinkRecord × ShareStore :=
  match insertRecipients fails id 0 s (recipientsOf req) with
  | (some err, s) => (.error err, s)
  | (none, s) =>
    if fails .reload then (.error .query, s)
    else
      match getShareById s.db id with
      | some share => (.ok share, s)
      | none => (.error .missing, s)

/-- The attempts that are left, from the given one on. -/
def tryShare (fails : ShareCall → Bool) (rng : ShareRandom) (now : Instant) (req : NewShare) :
    Nat → Nat → ShareStore → Except ShareError ShareLinkRecord × ShareStore
  | 0, _, s => (.error .exhausted, s)
  | left + 1, attempt, s =>
    if fails (.link attempt) then (.error .query, s)
    else
      match insertShareLink s now req (tokenAt rng attempt) (shortCodeAt rng req attempt) with
      | .ok s' => finishShare fails req s.nextId s'
      | .error .unique => tryShare fails rng now req left (attempt + 1) s
      | .error err => (.error err, s)

/-- The target of the share is there. -/
def targetError (db : Db) (req : NewShare) : Option ShareError :=
  match req.targetKind with
  | .file =>
    if (getObjectByFilenameInBucket db req.targetKey req.bucketId).isNone then some .objectNotFound
    else none
  | .folder =>
    if prefixHasObjects db req.bucketId req.targetKey then none else some .folderNotFound

def createShare (fails : ShareCall → Bool) (rng : ShareRandom) (now : Instant) (s : ShareStore)
    (req : NewShare) : Except ShareError ShareLinkRecord × ShareStore :=
  if fails .target then (.error .query, s)
  else
    match targetError s.db req with
    | some err => (.error err, s)
    | none =>
      if req.accessMode = .specificUsers ∧ req.accountIds = [] then (.error .noRecipients, s)
      else tryShare fails rng now req 8 0 s

/-- The recipients can all be inserted: they are different accounts that are there, none of
them has a row yet, and no insert fails. -/
structure Insertable (fails : ShareCall → Bool) (s : ShareStore) (shareId : Int) (i : Nat)
    (accountIds : List Int) : Prop where
  nodup : accountIds.Nodup
  known : ∀ a ∈ accountIds, (getAccountById s.db a).isSome = true
  fresh : ∀ a ∈ accountIds, shareAllowsAccount s.db shareId a = false
  works : ∀ k, k < accountIds.length → fails (.recipient (i + k)) = false

/-- Inserting recipients writes nothing but their rows. -/
structure AddsRecipients (s s' : ShareStore) (shareId : Int) (accountIds : List Int) : Prop where
  links : s'.db.shareLink = s.db.shareLink
  users : s'.db.shareLinkUser = s.db.shareLinkUser ++ accountIds.map fun a => ⟨shareId, a⟩

section recipients

variable {fails : ShareCall → Bool} {s s' : ShareStore} {shareId accountId : Int}

theorem insertShareLinkUser_ok (h : insertShareLinkUser s shareId accountId = .ok s') :
    shareAllowsAccount s.db shareId accountId = false ∧
      (getAccountById s.db accountId).isSome = true ∧
      AddsRecipients s s' shareId [accountId] ∧ s'.db.account = s.db.account := by
  unfold insertShareLinkUser at h
  split_ifs at h with hexists hshare haccount
  cases h
  rw [Option.isNone_iff_eq_none, ← ne_eq, ← Option.isSome_iff_ne_none] at haccount
  exact ⟨Bool.not_eq_true _ ▸ hexists, haccount, ⟨rfl, rfl⟩, rfl⟩

theorem insertShareLinkUser_some (hshare : ∃ share ∈ s.db.shareLink, share.id = shareId)
    (hfresh : shareAllowsAccount s.db shareId accountId = false)
    (hknown : (getAccountById s.db accountId).isSome = true) :
    ∃ s', insertShareLinkUser s shareId accountId = .ok s' := by
  unfold insertShareLinkUser
  have hsome := Option.isSome_iff_ne_none.mp hknown
  rw [if_neg (by simp [hfresh]), dif_pos hshare, if_neg (by simp [hsome])]
  exact ⟨_, rfl⟩

theorem shareAllowsAccount_add (h : AddsRecipients s s' shareId [accountId]) (a : Int) :
    shareAllowsAccount s'.db shareId a = (shareAllowsAccount s.db shareId a || accountId == a) := by
  unfold shareAllowsAccount
  rw [h.users, List.any_append]
  simp

/-- The first recipient and then the others, once it has its row. -/
theorem insertable_cons_iff {i : Nat} {rest : List Int}
    (hadds : AddsRecipients s s' shareId [accountId]) (haccount : s'.db.account = s.db.account) :
    Insertable fails s shareId i (accountId :: rest) ↔
      fails (.recipient i) = false ∧ (getAccountById s.db accountId).isSome = true ∧
        shareAllowsAccount s.db shareId accountId = false ∧
          Insertable fails s' shareId (i + 1) rest := by
  have hallows := shareAllowsAccount_add hadds
  have hlookup : ∀ x, getAccountById s'.db x = getAccountById s.db x := by
    intro x
    unfold getAccountById
    rw [haccount]
  constructor
  · intro h
    obtain ⟨hnew, hrest⟩ := List.nodup_cons.mp h.nodup
    have hknown := List.forall_mem_cons.mp h.known
    have hfresh := List.forall_mem_cons.mp h.fresh
    refine ⟨h.works 0 (Nat.succ_pos _), hknown.1, hfresh.1, hrest, ?_, ?_, ?_⟩
    · intro x hx
      rw [hlookup]
      exact hknown.2 x hx
    · intro x hx
      have hne : (accountId == x) = false := by
        rw [beq_eq_false_iff_ne]
        intro h'
        obtain rfl := h'
        exact hnew hx
      rw [hallows, hfresh.2 x hx, hne]
      rfl
    · intro k hk
      have hworks := h.works (k + 1) (Nat.succ_lt_succ hk)
      rwa [Nat.add_assoc, Nat.add_comm 1 k]
  · intro h'
    obtain ⟨hfirst, hknown, hfresh, h⟩ := h'
    refine ⟨List.nodup_cons.mpr ⟨?_, h.nodup⟩, ?_, ?_, ?_⟩
    · intro hmem
      have hnone := h.fresh accountId hmem
      rw [hallows] at hnone
      simp at hnone
    · refine List.forall_mem_cons.mpr ⟨hknown, ?_⟩
      intro x hx
      rw [← hlookup]
      exact h.known x hx
    · refine List.forall_mem_cons.mpr ⟨hfresh, ?_⟩
      intro x hx
      have hnone := h.fresh x hx
      rw [hallows, Bool.or_eq_false_iff] at hnone
      exact hnone.1
    · intro k hk
      cases k with
      | zero => exact hfirst
      | succ k =>
        have hworks := h.works k (Nat.lt_of_succ_lt_succ hk)
        rwa [Nat.add_assoc, Nat.add_comm 1 k] at hworks

/-- All recipients are inserted exactly when they can be. -/
theorem insertRecipients_none_iff (accountIds : List Int) (i : Nat) (s : ShareStore)
    (hshare : ∃ share ∈ s.db.shareLink, share.id = shareId) :
    (insertRecipients fails shareId i s accountIds).1 = none ↔
      Insertable fails s shareId i accountIds := by
  induction accountIds generalizing i s with
  | nil => exact iff_of_true rfl ⟨List.nodup_nil, by simp, by simp, by simp⟩
  | cons a rest ih =>
    unfold insertRecipients
    by_cases hfails : fails (.recipient i) = true
    · rw [if_pos hfails]
      refine iff_of_false (by simp) ?_
      intro h
      have hworks : fails (.recipient i) = false := h.works 0 (Nat.succ_pos _)
      rw [hfails] at hworks
      cases hworks
    · rw [if_neg hfails]
      cases hinsert : insertShareLinkUser s shareId a with
      | error err =>
        refine iff_of_false (by simp) ?_
        intro h
        obtain ⟨s', hs'⟩ := insertShareLinkUser_some hshare (h.fresh a List.mem_cons_self)
          (h.known a List.mem_cons_self)
        rw [hinsert] at hs'
        cases hs'
      | ok s' =>
        obtain ⟨hfresh, hknown, hadds, haccount⟩ := insertShareLinkUser_ok hinsert
        simp only
        rw [ih (i + 1) s' (hadds.links ▸ hshare), insertable_cons_iff hadds haccount]
        simp [hfails, hknown, hfresh]

variable (fails shareId) in
/-- Whatever happens to the recipients, the links stay; and without an error all of them
have rows. -/
theorem insertRecipients_rows (accountIds : List Int) (i : Nat) (s : ShareStore) :
    (insertRecipients fails shareId i s accountIds).2.db.shareLink = s.db.shareLink ∧
      ((insertRecipients fails shareId i s accountIds).1 = none →
        AddsRecipients s (insertRecipients fails shareId i s accountIds).2 shareId accountIds) := by
  induction accountIds generalizing i s with
  | nil => exact ⟨rfl, fun _ => ⟨rfl, (List.append_nil _).symm⟩⟩
  | cons a rest ih =>
    unfold insertRecipients
    by_cases hfails : fails (.recipient i) = true
    · rw [if_pos hfails]
      exact ⟨rfl, fun h => by simp at h⟩
    · rw [if_neg hfails]
      cases hinsert : insertShareLinkUser s shareId a with
      | error err => exact ⟨rfl, fun h => by simp at h⟩
      | ok s' =>
        obtain ⟨_, _, hadds, _⟩ := insertShareLinkUser_ok hinsert
        obtain ⟨hlinks, hrest⟩ := ih (i + 1) s'
        refine ⟨hlinks.trans hadds.links, ?_⟩
        intro hnone
        have hall := hrest hnone
        refine ⟨hall.links.trans hadds.links, ?_⟩
        rw [hall.users, hadds.users]
        simp

end recipients

/-- A share with exactly the requested recipients, or an error that leaves the links and
their recipients alone. -/
def AllOrNothing (s : ShareStore) (req : NewShare)
    (run : Except ShareError ShareLinkRecord × ShareStore) : Prop :=
  match run.1 with
  | .ok share =>
    share ∈ run.2.db.shareLink ∧
      (req.accessMode = .specificUsers →
        ∀ a, shareAllowsAccount run.2.db share.id a = true ↔ a ∈ req.accountIds)
  | .error _ =>
    run.2.db.shareLink = s.db.shareLink ∧ run.2.db.shareLinkUser = s.db.shareLinkUser

/-- The attempt `i` from `first` on is the first one with a free token and short code, and
no insert fails up to it. -/
structure LinksAt (fails : ShareCall → Bool) (rng : ShareRandom) (db : Db) (req : NewShare)
    (first i : Nat) : Prop where
  works : ∀ j ≤ i, fails (.link (first + j)) = false
  taken : ∀ j < i, isTaken db (tokenAt rng (first + j)) (shortCodeAt rng req (first + j)) = true
  free : isTaken db (tokenAt rng (first + i)) (shortCodeAt rng req (first + i)) = false

/-- The row of the link goes in: the checks pass, the rows that it refers to are there and
one of the eight attempts finds a free token and short code. -/
structure LinksIn (fails : ShareCall → Bool) (rng : ShareRandom) (db : Db) (req : NewShare) :
    Prop where
  reads : fails .target = false
  target : targetError db req = none
  recipients : ¬ (req.accessMode = .specificUsers ∧ req.accountIds = [])
  refers : refersToRows db req = true
  attempt : ∃ i < 8, LinksAt fails rng db req 0 i

/-- Nothing goes wrong once the row of the link is in: the recipients are different accounts
that are there, and neither their inserts nor the reload fail. -/
structure Completes (fails : ShareCall → Bool) (db : Db) (req : NewShare) : Prop where
  nodup : (recipientsOf req).Nodup
  known : ∀ a ∈ recipientsOf req, (getAccountById db a).isSome = true
  works : ∀ k, k < (recipientsOf req).length → fails (.recipient k) = false
  reload : fails .reload = false

section attempts

variable {fails : ShareCall → Bool} {rng : ShareRandom} {now : Instant} {req : NewShare}
  {s : ShareStore}

theorem finishShare_links (id : Int) (s : ShareStore) :
    (finishShare fails req id s).2.db.shareLink = s.db.shareLink := by
  obtain ⟨hlinks, _⟩ := insertRecipients_rows fails id (recipientsOf req) 0 s
  unfold finishShare
  split
  · rename_i h
    rwa [h] at hlinks
  · rename_i h
    rw [h] at hlinks
    split_ifs
    · exact hlinks
    · split <;> exact hlinks

theorem getShareById_some {db : Db} {id : Int} (h : ∃ share ∈ db.shareLink, share.id = id) :
    ∃ share, getShareById db id = some share ∧ share ∈ db.shareLink ∧ share.id = id := by
  obtain ⟨row, hrow, hid⟩ := h
  cases hget : getShareById db id with
  | none => exact absurd (beq_iff_eq.mpr hid) (List.find?_eq_none.mp hget row hrow)
  | some share =>
    have hfound := List.find?_some hget
    exact ⟨share, rfl, List.mem_of_find?_eq_some hget, beq_iff_eq.mp hfound⟩

/-- When all recipients can be inserted and the reload works, the share is returned and each
recipient has a row. -/
theorem finishShare_ok {id : Int} (hshare : ∃ share ∈ s.db.shareLink, share.id = id)
    (hrecipients : Insertable fails s id 0 (recipientsOf req)) (hreload : fails .reload = false) :
    ∃ share, (finishShare fails req id s).1 = .ok share ∧ share ∈ s.db.shareLink ∧
      share.id = id ∧ AddsRecipients s (finishShare fails req id s).2 id (recipientsOf req) := by
  have hnone := (insertRecipients_none_iff (recipientsOf req) 0 s hshare).mpr hrecipients
  obtain ⟨_, hadds⟩ := insertRecipients_rows fails id (recipientsOf req) 0 s
  have hrows := hadds hnone
  obtain ⟨share, hget, hmem, hid⟩ := getShareById_some (hrows.links ▸ hshare)
  rw [hrows.links] at hmem
  unfold finishShare
  split
  · rename_i hrun
    rw [hrun] at hnone
    cases hnone
  · rename_i hrun
    rw [hrun] at hget hrows
    rw [if_neg (by simp [hreload]), hget]
    exact ⟨share, rfl, hmem, hid, hrows⟩

theorem finishShare_error {id : Int} (hshare : ∃ share ∈ s.db.shareLink, share.id = id)
    (h : ¬ (Insertable fails s id 0 (recipientsOf req) ∧ fails .reload = false)) :
    ∃ err, (finishShare fails req id s).1 = .error err := by
  rw [← insertRecipients_none_iff (recipientsOf req) 0 s hshare] at h
  unfold finishShare
  split
  · exact ⟨_, rfl⟩
  · rename_i hrun
    rw [hrun] at h
    have hreload : fails .reload = true := by simpa using h
    rw [if_pos hreload]
    exact ⟨_, rfl⟩

variable (now req s) in
theorem addLink_has (token : Text) (shortCode : Option Text) :
    ∃ share ∈ (s.addLink now req token shortCode).db.shareLink, share.id = s.nextId :=
  ⟨_, List.mem_append_right _ (List.mem_singleton_self _), rfl⟩

variable (now req s) in
/-- No row refers to the id of the new link. -/
theorem addLink_fresh (token : Text) (shortCode : Option Text) (a : Int) :
    shareAllowsAccount (s.addLink now req token shortCode).db s.nextId a = false := by
  unfold shareAllowsAccount
  rw [List.any_eq_false]
  intro u hu hboth
  have hlt := s.user_lt u hu
  rw [Bool.and_eq_true, beq_iff_eq] at hboth
  omega

variable (now) in
theorem insertable_addLink_iff (token : Text) (shortCode : Option Text) :
    Insertable fails (s.addLink now req token shortCode) s.nextId 0 (recipientsOf req) ∧
        fails .reload = false ↔ Completes fails s.db req := by
  constructor
  · intro h'
    obtain ⟨h, hreload⟩ := h'
    refine ⟨h.nodup, h.known, ?_, hreload⟩
    intro k hk
    have hworks := h.works k hk
    rwa [Nat.zero_add] at hworks
  · intro h
    refine ⟨⟨h.nodup, h.known, fun a _ => addLink_fresh now req s token shortCode a, ?_⟩, h.reload⟩
    intro k hk
    rw [Nat.zero_add]
    exact h.works k hk

/-- Once the row of the link is in, the request is all or nothing exactly when nothing goes
wrong any more. -/
theorem finishShare_allOrNothing_iff (token : Text) (shortCode : Option Text) :
    AllOrNothing s req (finishShare fails req s.nextId (s.addLink now req token shortCode)) ↔
      Completes fails s.db req := by
  have hhas := addLink_has now req s token shortCode
  rw [← insertable_addLink_iff now token shortCode]
  unfold AllOrNothing
  by_cases h : Insertable fails (s.addLink now req token shortCode) s.nextId 0
      (recipientsOf req) ∧ fails .reload = false
  · obtain ⟨share, hok, hmem, hid, hrows⟩ := finishShare_ok hhas h.1 h.2
    refine iff_of_true ?_ h
    rw [hok]
    refine ⟨hrows.links ▸ hmem, ?_⟩
    intro hmode a
    have hold := addLink_fresh now req s token shortCode a
    unfold shareAllowsAccount at hold ⊢
    rw [hrows.users, List.any_append, hid, hold, Bool.false_or, recipientsOf, if_pos hmode]
    simp
  · obtain ⟨err, herr⟩ := finishShare_error hhas h
    refine iff_of_false ?_ h
    rw [herr]
    intro h'
    obtain ⟨hlinks, _⟩ := h'
    rw [finishShare_links] at hlinks
    simp [ShareStore.addLink] at hlinks

theorem linksAt_zero {first : Nat} :
    LinksAt fails rng s.db req first 0 ↔ fails (.link first) = false ∧
      isTaken s.db (tokenAt rng first) (shortCodeAt rng req first) = false := by
  constructor
  · intro h
    exact ⟨h.works 0 (Nat.le_refl 0), h.free⟩
  · intro h'
    obtain ⟨hworks, hfree⟩ := h'
    refine ⟨?_, ?_, hfree⟩
    · intro j hj
      rw [Nat.le_zero.mp hj]
      exact hworks
    · intro j hj
      omega

theorem linksAt_succ {first i : Nat} :
    LinksAt fails rng s.db req first (i + 1) ↔ fails (.link first) = false ∧
      isTaken s.db (tokenAt rng first) (shortCodeAt rng req first) = true ∧
      LinksAt fails rng s.db req (first + 1) i := by
  have hshift : ∀ j, first + 1 + j = first + (j + 1) := by omega
  constructor
  · intro h
    refine ⟨h.works 0 (Nat.zero_le _), h.taken 0 (Nat.succ_pos i), ?_, ?_, ?_⟩
    · intro j hj
      rw [hshift]
      exact h.works (j + 1) (by omega)
    · intro j hj
      rw [hshift]
      exact h.taken (j + 1) (by omega)
    · rw [hshift]
      exact h.free
  · intro h'
    obtain ⟨hworks, htaken, h⟩ := h'
    refine ⟨?_, ?_, ?_⟩
    · intro j hj
      cases j with
      | zero => exact hworks
      | succ j =>
        rw [← hshift]
        exact h.works j (by omega)
    · intro j hj
      cases j with
      | zero => exact htaken
      | succ j =>
        rw [← hshift]
        exact h.taken j (by omega)
    · rw [← hshift]
      exact h.free

/-- The attempt that finds a free token inserts the link. -/
theorem tryShare_linksAt {left first i : Nat} (hrefers : refersToRows s.db req = true)
    (hi : i < left) (h : LinksAt fails rng s.db req first i) :
    ∃ token shortCode, tryShare fails rng now req left first s =
      finishShare fails req s.nextId (s.addLink now req token shortCode) := by
  induction left generalizing first i with
  | zero => omega
  | succ left ih =>
    unfold tryShare insertShareLink
    cases i with
    | zero =>
      obtain ⟨hworks, hfree⟩ := linksAt_zero.mp h
      rw [if_neg (by simp [hworks]), if_neg (by simp [hfree]), if_pos hrefers]
      exact ⟨_, _, rfl⟩
    | succ i =>
      obtain ⟨hworks, htaken, hnext⟩ := linksAt_succ.mp h
      rw [if_neg (by simp [hworks]), if_pos htaken]
      exact ih (Nat.lt_of_succ_lt_succ hi) hnext

/-- When no attempt inserts the link, nothing is written. -/
theorem tryShare_error {left first : Nat}
    (h : ¬ (refersToRows s.db req = true ∧ ∃ i < left, LinksAt fails rng s.db req first i)) :
    ∃ err, tryShare fails rng now req left first s = (.error err, s) := by
  induction left generalizing first with
  | zero => exact ⟨.exhausted, rfl⟩
  | succ left ih =>
    unfold tryShare insertShareLink
    by_cases hfails : fails (.link first) = true
    · exact ⟨.query, if_pos hfails⟩
    · rw [if_neg hfails]
      rw [Bool.not_eq_true] at hfails
      by_cases htaken : isTaken s.db (tokenAt rng first) (shortCodeAt rng req first) = true
      · rw [if_pos htaken]
        refine ih ?_
        intro h'
        obtain ⟨hrefers, i, hi, hat⟩ := h'
        exact h ⟨hrefers, i + 1, Nat.succ_lt_succ hi, linksAt_succ.mpr ⟨hfails, htaken, hat⟩⟩
      · rw [if_neg htaken]
        rw [Bool.not_eq_true] at htaken
        by_cases hrefers : refersToRows s.db req = true
        · exact absurd ⟨hrefers, 0, Nat.succ_pos left, linksAt_zero.mpr ⟨hfails, htaken⟩⟩ h
        · rw [if_neg hrefers]
          exact ⟨.foreignKey, rfl⟩

variable (now) in
/-- When the row of the link does not go in, the answer is an error and nothing is written. -/
theorem createShare_error (h : ¬ LinksIn fails rng s.db req) :
    ∃ err, createShare fails rng now s req = (.error err, s) := by
  unfold createShare
  by_cases hreads : fails .target = true
  · exact ⟨.query, if_pos hreads⟩
  · rw [if_neg hreads]
    cases htarget : targetError s.db req with
    | some err => exact ⟨err, rfl⟩
    | none =>
      by_cases hempty : req.accessMode = .specificUsers ∧ req.accountIds = []
      · exact ⟨.noRecipients, if_pos hempty⟩
      · simp only [if_neg hempty]
        refine tryShare_error ?_
        intro h'
        obtain ⟨hrefers, hattempt⟩ := h'
        exact h ⟨Bool.not_eq_true _ ▸ hreads, htarget, hempty, hrefers, hattempt⟩

variable (now) in
theorem createShare_linksIn (h : LinksIn fails rng s.db req) :
    ∃ token shortCode, createShare fails rng now s req =
      finishShare fails req s.nextId (s.addLink now req token shortCode) := by
  obtain ⟨i, hi, hat⟩ := h.attempt
  unfold createShare
  rw [if_neg (by simp [h.reads]), h.target]
  simp only [if_neg h.recipients]
  exact tryShare_linksAt h.refers hi hat

/-- `create_share` returns a share with exactly the requested recipients, or an error with
both tables as they were, exactly when nothing goes wrong after the row of the link is in. -/
theorem create_share_all_or_nothing_iff (fails : ShareCall → Bool) (rng : ShareRandom)
    (now : Instant) (s : ShareStore) (req : NewShare) :
    AllOrNothing s req (createShare fails rng now s req) ↔
      (LinksIn fails rng s.db req → Completes fails s.db req) := by
  by_cases hin : LinksIn fails rng s.db req
  · obtain ⟨token, shortCode, hrun⟩ := createShare_linksIn now hin
    rw [hrun, finishShare_allOrNothing_iff]
    exact (imp_iff_right hin).symm
  · obtain ⟨err, hrun⟩ := createShare_error now hin
    rw [hrun]
    exact iff_of_true ⟨rfl, rfl⟩ fun h => absurd h hin

end attempts

/-- A node with the object `d/a` and the accounts 1 and 2. -/
def twoAccounts : ShareStore where
  db := { (FolderPrefixes.holding ["d/a".toList]).db with
    account := [⟨1, "a1".toList, "p1".toList, [], false, none⟩,
      ⟨2, "a2".toList, "p2".toList, [], false, none⟩]
    shareLink := []
    shareLinkUser := [] }
  nextId := 1
  link_lt := by simp
  user_lt := by simp

def firstDraws : ShareRandom where
  token := fun _ _ => ⟨0, by decide⟩
  shortCode := fun _ _ => ⟨0, by decide⟩

/-- Sharing the folder with an account that is there and one that is not fails, and leaves a
link that the first of them may use. -/
theorem failed_share_leaves_link :
    let req : NewShare := ⟨1, "d/".toList, .folder, .specificUsers, none, 1, [2, 9], false⟩
    let run := createShare (fun _ => false) firstDraws Instant.epoch twoAccounts req
    run.1 = .error .foreignKey ∧ run.2.db.shareLink.length = 1 ∧
      shareAllowsAccount run.2.db 1 2 = true ∧ ¬ AllOrNothing twoAccounts req run := by
  have herror : (createShare (fun _ => false) firstDraws Instant.epoch twoAccounts
      ⟨1, "d/".toList, .folder, .specificUsers, none, 1, [2, 9], false⟩).1 =
      .error .foreignKey := by rfl
  have hlinks : (createShare (fun _ => false) firstDraws Instant.epoch twoAccounts
      ⟨1, "d/".toList, .folder, .specificUsers, none, 1, [2, 9], false⟩).2.db.shareLink.length =
      1 := by rfl
  refine ⟨herror, hlinks, by rfl, ?_⟩
  unfold AllOrNothing
  rw [herror]
  intro h
  obtain ⟨hsame, _⟩ := h
  rw [hsame] at hlinks
  cases hlinks

end MyS3.ShareCreation
