import MyS3.Accounts
import MyS3.Library.Interleaving
import MyS3.Library.Runs

/-!
The first account of a node, `auth_bootstrap` of `server/settings_routes.rs`. A request
counts the accounts, and only after that inserts its own; each call on the database is a
step, and other requests take theirs in between. As long as no request inserts after
another one has, a single request creates an account.
-/

namespace MyS3.Bootstrap

open Library.Strings Library.Interleaving Library.Runs Library.Timestamps Library.Tables
open Models Database Rbac Accounts

/-- The body of a request and what it draws at random; the password is hashed. -/
structure Draw where
  displayName : Option Text
  usernameHex : Text
  passwordHash : Text
  token : Text

inductive Answer
  /-- 201, with the account and its session. -/
  | created (accountId : Int) (sessionToken : Text)
  /-- 409. -/
  | conflict (message : Text)
  /-- 500; a library error has no text here. -/
  | failed (message : Option Text)
  deriving DecidableEq

/-- The call that a request makes next. -/
inductive Stage
  | accountCount
  | insertAccount
  | getAccountById (id : Int)
  | getOwnerRole (accountId : Int)
  | assignRole (accountId ownerId : Int)
  | claimUnownedBuckets (accountId : Int)
  | createSession (accountId : Int)
  | answered (answer : Answer)
  | dropped
  deriving DecidableEq

structure Task where
  draw : Draw
  stage : Stage

def Task.goOn (t : Task) (stage : Stage) : Task := { t with stage := stage }

def Task.fail (t : Task) : Task := t.goOn (.answered (.failed none))

def sessionDays : Int := 7

def Stage.isOver : Stage → Bool
  | .answered _ => true
  | .dropped => true
  | _ => false

/-- The next call of `auth_bootstrap`, as long as the database answers. -/
def call (now : Instant) (s : Registry) (t : Task) : Registry × Task :=
  match t.stage with
  | .accountCount =>
    if s.db.account.length = 0 then (s, t.goOn .insertAccount)
    else (s, t.goOn (.answered (.conflict "bootstrap already completed".toList)))
  | .insertAccount =>
    match s.insertAccount t.draw.usernameHex t.draw.passwordHash
      (t.draw.displayName.getD "Owner".toList) none with
    | none => (s, t.fail)
    | some s' => (s', t.goOn (.getAccountById s.nextAccountId))
  | .getAccountById id =>
    match Rbac.getAccountById s.db id with
    | none => (s, t.goOn (.answered (.failed (some "account missing after insert".toList))))
    | some a => (s, t.goOn (.getOwnerRole a.id))
  | .getOwnerRole accountId =>
    match Rbac.getOwnerRole s.db with
    | none => (s, t.goOn (.answered (.failed (some "Owner role missing".toList))))
    | some r => (s, t.goOn (.assignRole accountId r.id))
  | .assignRole accountId ownerId =>
    match s.assignRole accountId ownerId with
    | none => (s, t.fail)
    | some s' => (s', t.goOn (.claimUnownedBuckets accountId))
  | .claimUnownedBuckets accountId =>
    (s.claimUnownedBuckets accountId, t.goOn (.createSession accountId))
  | .createSession accountId =>
    match s.createSession t.draw.token accountId
      (now.nanos + sessionDays * (24 * 3600) * nanosPerSec) with
    | none => (s, t.fail)
    | some s' => (s', t.goOn (.answered (.created accountId t.draw.token)))
  | .answered answer => (s, t.goOn (.answered answer))
  | .dropped => (s, t.goOn .dropped)

/-- One call, or its failure; `none` when the request is over. -/
def authBootstrap (now : Instant) (fails : Bool) (s : Registry) (t : Task) :
    Option (Registry × Task) :=
  if t.stage.isOver then none
  else if fails then some (s, t.fail)
  else some (call now s t)

abbrev State := Pool Registry Task

inductive Action
  | begin (draw : Draw)
  | advance (i : Nat) (now : Instant) (fails : Bool)
  /-- The client goes away. -/
  | drop (i : Nat)

def step (s : State) : Action → Option State
  | .begin draw => some (s.spawn ⟨draw, .accountCount⟩)
  | .advance i now fails => s.turn (authBootstrap now fails) i
  | .drop i => (s.tasks[i]?).map fun t => s.replace i s.shared (t.goOn .dropped)

/-- The request has inserted an account and has not failed. -/
def Stage.hasAccount : Stage → Bool
  | .getAccountById _ => true
  | .getOwnerRole _ => true
  | .assignRole _ _ => true
  | .claimUnownedBuckets _ => true
  | .createSession _ => true
  | .answered (.created _ _) => true
  | _ => false

/-- What one call can do. -/
inductive Move (s : Registry) (t : Task) : Registry → Task → Prop
  | ended (stage : Stage) (account : stage.hasAccount = false) : Move s t s (t.goOn stage)
  | insertAccount {s' : Registry} (stage : t.stage = .insertAccount)
      (insert : s.insertAccount t.draw.usernameHex t.draw.passwordHash
        (t.draw.displayName.getD "Owner".toList) none = some s') :
      Move s t s' (t.goOn (.getAccountById s.nextAccountId))
  | getAccountById {id : Int} {a : AccountRecord} (stage : t.stage = .getAccountById id)
      (account : Rbac.getAccountById s.db id = some a) :
      Move s t s (t.goOn (.getOwnerRole a.id))
  | getOwnerRole {accountId : Int} {r : RoleRecord} (stage : t.stage = .getOwnerRole accountId)
      (role : Rbac.getOwnerRole s.db = some r) : Move s t s (t.goOn (.assignRole accountId r.id))
  | assignRole {s' : Registry} {accountId ownerId : Int}
      (stage : t.stage = .assignRole accountId ownerId)
      (assign : s.assignRole accountId ownerId = some s') :
      Move s t s' (t.goOn (.claimUnownedBuckets accountId))
  | claimUnownedBuckets {accountId : Int} (stage : t.stage = .claimUnownedBuckets accountId) :
      Move s t (s.claimUnownedBuckets accountId) (t.goOn (.createSession accountId))
  | createSession {s' : Registry} {accountId expiresUtc : Int}
      (stage : t.stage = .createSession accountId)
      (session : s.createSession t.draw.token accountId expiresUtc = some s') :
      Move s t s' (t.goOn (.answered (.created accountId t.draw.token)))

theorem move_of_call (now : Instant) (s : Registry) (t : Task) (hover : t.stage.isOver = false) :
    Move s t (call now s t).1 (call now s t).2 := by
  unfold call
  split
  · split_ifs
    · exact Move.ended _ rfl
    · exact Move.ended _ rfl
  · rename_i hstage
    split
    · exact Move.ended _ rfl
    · rename_i hinsert
      exact Move.insertAccount hstage hinsert
  · rename_i hstage
    split
    · exact Move.ended _ rfl
    · rename_i haccount
      exact Move.getAccountById hstage haccount
  · rename_i hstage
    split
    · exact Move.ended _ rfl
    · rename_i hrole
      exact Move.getOwnerRole hstage hrole
  · rename_i hstage
    split
    · exact Move.ended _ rfl
    · rename_i hassign
      exact Move.assignRole hstage hassign
  · rename_i hstage
    exact Move.claimUnownedBuckets hstage
  · rename_i hstage
    split
    · exact Move.ended _ rfl
    · rename_i hsession
      exact Move.createSession hstage hsession
  · rename_i hstage
    rw [hstage] at hover
    cases hover
  · rename_i hstage
    rw [hstage] at hover
    cases hover

theorem move_of_authBootstrap {now : Instant} {fails : Bool} {s s' : Registry} {t u : Task}
    (h : authBootstrap now fails s t = some (s', u)) : Move s t s' u := by
  unfold authBootstrap at h
  split_ifs at h with hover hfails
  · obtain ⟨rfl, rfl⟩ := Prod.mk.inj (Option.some.inj h)
    exact Move.ended _ rfl
  · have hmove := move_of_call now s t (Bool.not_eq_true _ ▸ hover)
    rwa [Option.some.inj h] at hmove

/-- How a move leaves the accounts. -/
theorem account_of_move {s s' : Registry} {t u : Task} (h : Move s t s' u) :
    (s'.db.account = s.db.account ∧ (u.stage.hasAccount = true → t.stage.hasAccount = true)) ∨
      t.stage = .insertAccount ∧ ∃ a, s'.db.account = s.db.account ++ [a] ∧ a.isDisabled = false ∧
        a.id = s.nextAccountId := by
  cases h with
  | ended stage haccount =>
    refine Or.inl ⟨rfl, fun hu => ?_⟩
    rw [show (t.goOn stage).stage = stage from rfl, haccount] at hu
    cases hu
  | insertAccount hstage hinsert =>
    exact Or.inr ⟨hstage, _, by rw [Registry.insertAccount_eq hinsert], rfl, rfl⟩
  | getAccountById hstage _ => exact Or.inl ⟨rfl, fun _ => by rw [hstage]; rfl⟩
  | getOwnerRole hstage _ => exact Or.inl ⟨rfl, fun _ => by rw [hstage]; rfl⟩
  | assignRole hstage hassign =>
    exact Or.inl ⟨(Registry.assignRole_eq hassign).1, fun _ => by rw [hstage]; rfl⟩
  | claimUnownedBuckets hstage => exact Or.inl ⟨rfl, fun _ => by rw [hstage]; rfl⟩
  | createSession hstage hsession =>
    exact Or.inl ⟨by rw [Registry.createSession_eq hsession], fun _ => by rw [hstage]; rfl⟩

/-- What a request knows of the account that it has inserted. -/
def Knows (db : Db) : Stage → Prop
  | .getAccountById id => Enabled db id
  | .getOwnerRole accountId => Enabled db accountId
  | .assignRole accountId ownerId =>
    Enabled db accountId ∧ ∃ r ∈ db.role, r.id = ownerId ∧ r.isOwner = true
  | .claimUnownedBuckets accountId => EnabledOwner db accountId
  | .createSession accountId => EnabledOwner db accountId
  | .answered (.created accountId _) => EnabledOwner db accountId
  | _ => True

/-- Accounts and assignments are only added. -/
structure Grows (db db' : Db) : Prop where
  account : db.account ⊆ db'.account
  role : db'.role = db.role
  accountRole : db.accountRole ⊆ db'.accountRole

theorem Grows.enabled {db db' : Db} (h : Grows db db') {id : Int} (he : Enabled db id) :
    Enabled db' id := by
  obtain ⟨a, ha, hid, hon⟩ := he
  exact ⟨a, h.account ha, hid, hon⟩

theorem Grows.enabledOwner {db db' : Db} (h : Grows db db') {id : Int}
    (he : EnabledOwner db id) : EnabledOwner db' id := by
  obtain ⟨ar, har, hid, r, hr, hrole⟩ := accountIsOwner_iff.mp he.2
  refine ⟨h.enabled he.1, accountIsOwner_iff.mpr ⟨ar, h.accountRole har, hid, r, ?_, hrole⟩⟩
  rw [h.role]
  exact hr

theorem Grows.knows {db db' : Db} (h : Grows db db') {stage : Stage} (hk : Knows db stage) :
    Knows db' stage := by
  cases stage with
  | getAccountById id => exact h.enabled hk
  | getOwnerRole accountId => exact h.enabled hk
  | assignRole accountId ownerId =>
    obtain ⟨he, r, hr, hrole⟩ := hk
    exact ⟨h.enabled he, r, by rw [h.role]; exact hr, hrole⟩
  | claimUnownedBuckets accountId => exact h.enabledOwner hk
  | createSession accountId => exact h.enabledOwner hk
  | answered answer =>
    cases answer with
    | created accountId token => exact h.enabledOwner hk
    | conflict message => trivial
    | failed message => trivial
  | accountCount => trivial
  | insertAccount => trivial
  | dropped => trivial

theorem knows_of_hasAccount {db : Db} {stage : Stage} (h : stage.hasAccount = false) :
    Knows db stage := by
  cases stage with
  | answered answer =>
    cases answer with
    | created accountId token => cases h
    | conflict message => trivial
    | failed message => trivial
  | accountCount => trivial
  | insertAccount => trivial
  | dropped => trivial
  | getAccountById id => cases h
  | getOwnerRole accountId => cases h
  | assignRole accountId ownerId => cases h
  | claimUnownedBuckets accountId => cases h
  | createSession accountId => cases h

/-- A call adds to the tables, and its request knows what it needs next. -/
theorem knows_of_move {s s' : Registry} {t u : Task} (h : Move s t s' u)
    (hk : Knows s.db t.stage) : Grows s.db s'.db ∧ Knows s'.db u.stage := by
  cases h with
  | ended stage haccount => exact ⟨⟨fun _ h => h, rfl, fun _ h => h⟩, knows_of_hasAccount haccount⟩
  | insertAccount hstage hinsert =>
    have hdb := Registry.insertAccount_eq hinsert
    rw [hdb]
    exact ⟨⟨fun _ h => List.mem_append_left _ h, rfl, fun _ h => h⟩, _,
      List.mem_append_right _ (List.mem_singleton.mpr rfl), rfl, rfl⟩
  | getAccountById hstage haccount =>
    obtain ⟨_, hid⟩ := getAccountById_eq_some haccount
    rw [hstage] at hk
    refine ⟨⟨fun _ h => h, rfl, fun _ h => h⟩, ?_⟩
    rw [← hid] at hk
    exact hk
  | getOwnerRole hstage hrole =>
    obtain ⟨hr, howner⟩ := getOwnerRole_eq_some hrole
    rw [hstage] at hk
    exact ⟨⟨fun _ h => h, rfl, fun _ h => h⟩, hk, _, hr, rfl, howner⟩
  | assignRole hstage hassign =>
    obtain ⟨haccount, hroles, hsub, hmem⟩ := Registry.assignRole_eq hassign
    rw [hstage] at hk
    obtain ⟨he, r, hr, hid, howner⟩ := hk
    have hgrows : Grows s.db s'.db := ⟨by rw [haccount]; exact fun _ h => h, hroles, hsub⟩
    refine ⟨hgrows, hgrows.enabled he, accountIsOwner_iff.mpr ⟨_, hmem, rfl, r, ?_, hid, howner⟩⟩
    rw [hroles]
    exact hr
  | claimUnownedBuckets hstage =>
    rw [hstage] at hk
    exact ⟨⟨fun _ h => h, rfl, fun _ h => h⟩, hk⟩
  | createSession hstage hsession =>
    have hdb := Registry.createSession_eq hsession
    rw [hstage] at hk
    rw [hdb]
    exact ⟨⟨fun _ h => h, rfl, fun _ h => h⟩, hk⟩

abbrev Known : State → Prop :=
  Coherent (fun _ : Registry => True) (fun s t => Knows s.db t.stage) (fun _ _ => True)

theorem known_step (s s' : State) (a : Action) (h : Known s) (hstep : step s a = some s') :
    Known s' := by
  cases a with
  | begin draw =>
    rw [← Option.some.inj hstep]
    exact h.spawn trivial fun _ _ => trivial
  | drop i =>
    obtain ⟨t, hi, rfl⟩ := Option.map_eq_some_iff.mp hstep
    exact h.replace (fun _ _ _ => trivial) hi trivial trivial fun _ _ _ hv => ⟨hv, trivial⟩
  | advance i now fails =>
    obtain ⟨t, r, u, hi, hserve, rfl⟩ := Pool.turn_eq_some.mp hstep
    obtain ⟨hgrows, hknows⟩ := knows_of_move (move_of_authBootstrap hserve)
      (h.tasks t (List.mem_of_getElem? hi))
    exact h.replace (fun _ _ _ => trivial) hi trivial hknows fun _ _ _ hv =>
      ⟨hgrows.knows hv, trivial⟩

/-- A request that answered 201 has made an enabled account with the Owner role. -/
theorem created_owner (r : Registry) {s : State} (h : Run step anyAction ⟨r, []⟩ s) {t : Task}
    (ht : t ∈ s.tasks) {accountId : Int} {token : Text}
    (hstage : t.stage = .answered (.created accountId token)) :
    EnabledOwner s.shared.db accountId := by
  have hknown : Known s := h.invariant (fun s a t hs _ hstep => known_step s t a hs hstep)
    (coherent_nil trivial)
  have hk := hknown.tasks t ht
  rw [hstage] at hk
  exact hk

/-- No request inserts an account where there is one. -/
def NoLateInsert (s : State) : Action → Prop
  | .advance i _ _ =>
    ∀ t, s.tasks[i]? = some t → t.stage = .insertAccount → s.shared.db.account = []
  | _ => True

/-- One account at most; a request that has inserted it leaves no other one so far. -/
abbrev Single : State → Prop :=
  Coherent (fun s : Registry => s.db.account.length ≤ 1)
    (fun s t => t.stage.hasAccount = true → s.db.account ≠ [])
    (fun t u => ¬ (t.stage.hasAccount = true ∧ u.stage.hasAccount = true))

theorem single_step (s s' : State) (a : Action) (h : Single s) (hok : NoLateInsert s a)
    (hstep : step s a = some s') : Single s' := by
  have hsymm : ∀ t u : Task, ¬ (t.stage.hasAccount = true ∧ u.stage.hasAccount = true) →
      ¬ (u.stage.hasAccount = true ∧ t.stage.hasAccount = true) :=
    fun t u hapart hboth => hapart hboth.symm
  cases a with
  | begin draw =>
    rw [← Option.some.inj hstep]
    exact h.spawn (fun hhas => by cases hhas) fun v _ hboth => by cases hboth.2
  | drop i =>
    obtain ⟨t, hi, rfl⟩ := Option.map_eq_some_iff.mp hstep
    exact h.replace hsymm hi h.shared (fun hhas => by cases hhas) fun v _ _ hv =>
      ⟨hv, fun hboth => by cases hboth.1⟩
  | advance i now fails =>
    obtain ⟨t, r, u, hi, hserve, rfl⟩ := Pool.turn_eq_some.mp hstep
    have htask := h.tasks t (List.mem_of_getElem? hi)
    rcases account_of_move (move_of_authBootstrap hserve) with
      ⟨hrows, hkeeps⟩ | ⟨hstage, a, hrows, _, _⟩
    · apply h.replace hsymm hi
      · rw [hrows]
        exact h.shared
      · intro hhas
        rw [hrows]
        exact htask (hkeeps hhas)
      · intro v _ hapart hv
        refine ⟨fun hhas => ?_, fun hboth => hapart ⟨hkeeps hboth.1, hboth.2⟩⟩
        rw [hrows]
        exact hv hhas
    · have hnone := hok t hi hstage
      rw [hnone] at hrows
      apply h.replace hsymm hi
      · rw [hrows]
        exact le_refl 1
      · intro _
        rw [hrows]
        exact List.cons_ne_nil _ _
      · intro v _ _ hv
        refine ⟨fun hhas => absurd hnone (hv hhas), fun hboth => absurd hnone (hv hboth.2)⟩

/-- The request answered 201. -/
def Task.isCreated (t : Task) : Bool :=
  match t.stage with
  | .answered (.created _ _) => true
  | _ => false

theorem hasAccount_of_created {t : Task} (h : t.isCreated = true) : t.stage.hasAccount = true := by
  unfold Task.isCreated at h
  split at h
  · rename_i hstage
    rw [hstage]
    rfl
  · cases h

/-- One 201 at most, and one account with the Owner role at most. -/
def OneOwner (s : State) : Prop :=
  (∀ (i j : Nat) (t u : Task), s.tasks[i]? = some t → s.tasks[j]? = some u →
    t.isCreated = true → u.isCreated = true → i = j) ∧
  ∀ a ∈ s.shared.db.account, ∀ b ∈ s.shared.db.account, accountIsOwner s.shared.db a.id = true →
    accountIsOwner s.shared.db b.id = true → a = b

theorem oneOwner_of_single {s : State} (h : Single s) : OneOwner s := by
  constructor
  · intro i j t u hi hj ht hu
    by_contra hne
    exact h.apart_of_ne (fun _ _ hapart hboth => hapart hboth.symm) hi hj hne
      ⟨hasAccount_of_created ht, hasAccount_of_created hu⟩
  · intro a ha b hb _ _
    have hlen := h.shared
    match haccount : s.shared.db.account, hlen with
    | [], _ =>
      rw [haccount] at ha
      cases ha
    | [c], _ =>
      rw [haccount] at ha hb
      rw [List.mem_singleton.mp ha, List.mem_singleton.mp hb]

/-- In a run that starts without accounts and inserts none beside another one, one request
at most answers 201 and one account at most gets the Owner role. -/
theorem bootstrap_once (r : Registry) (hr : r.db.account = []) {s : State}
    (h : Run step NoLateInsert ⟨r, []⟩ s) : OneOwner s := by
  apply oneOwner_of_single
  apply h.invariant (fun s a t hs hok hstep => single_step s t a hs hok hstep)
  apply coherent_nil
  rw [hr]
  exact Nat.zero_le 1

/-- The condition, evaluated. -/
def noLateInsert (s : State) : Action → Bool
  | .advance i _ _ =>
    (s.tasks[i]?).all fun t => t.stage != .insertAccount || s.shared.db.account.isEmpty
  | _ => true

theorem noLateInsert_sound {s : State} {a : Action} (h : noLateInsert s a = true) :
    NoLateInsert s a := by
  cases a with
  | advance i now fails =>
    intro t hi hstage
    simpa [noLateInsert, hi, hstage] using h
  | begin draw => trivial
  | drop i => trivial

def drawOne : Draw where
  displayName := none
  usernameHex := "a1".toList
  passwordHash := "p1".toList
  token := "t1".toList

def drawTwo : Draw where
  displayName := none
  usernameHex := "a2".toList
  passwordHash := "p2".toList
  token := "t2".toList

def turns (i n : Nat) : List Action := List.replicate n (.advance i Instant.epoch false)

def oneAfterTheOther : List Action :=
  .begin drawOne :: .begin drawTwo :: (turns 0 7 ++ turns 1 1)

/-- Both requests count before either of them inserts. -/
def countingTwice : List Action :=
  .begin drawOne :: .begin drawTwo :: (turns 0 1 ++ turns 1 1 ++ turns 0 6 ++ turns 1 6)

/-- One request after the other: the second one finds an account. -/
theorem bootstrap_in_turn :
    ∃ s, execIf step noLateInsert ⟨Registry.migrated, []⟩ oneAfterTheOther = some s ∧
      s.tasks.map Task.isCreated = [true, false] ∧ OneOwner s := by
  refine ⟨_, rfl, rfl, ?_⟩
  exact bootstrap_once Registry.migrated rfl (run_of_execIf noLateInsert
    (fun _ _ _ => noLateInsert_sound) (show execIf step _ _ oneAfterTheOther = some _ from rfl))

/-- Two requests count before either of them inserts: both answer 201, and there are two
Owners. -/
theorem bootstrap_can_make_two_owners :
    ∃ s, Run step anyAction ⟨Registry.migrated, []⟩ s ∧
      s.tasks.map Task.isCreated = [true, true] ∧
      s.shared.db.account.map (fun a => accountIsOwner s.shared.db a.id) = [true, true] ∧
      ¬ OneOwner s := by
  refine ⟨_, run_of_exec (show exec step _ countingTwice = some _ from rfl), rfl, rfl, ?_⟩
  intro h
  exact absurd (h.1 0 1 _ _ rfl rfl rfl rfl) (by decide)

end MyS3.Bootstrap
