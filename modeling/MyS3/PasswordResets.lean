import MyS3.Library.Interleaving
import MyS3.Library.Logs
import MyS3.Library.Runs
import MyS3.SettingsRoutes

/-!
Logins and password resets at the same time, `auth_login` and `regenerate_password` of
`server/settings_routes.rs`. A login reads the account, verifies the password against the
hash that it has read, and inserts its session; a reset stores a new hash and then deletes
the sessions of the account. A session of an old password outlives the reset only when its
login inserts it after the reset has answered.
-/

namespace MyS3.PasswordResets

open Library.Strings Library.Interleaving Library.Runs Library.Timestamps Library.Tables
open Library.Logs
open Models Database Rbac Accounts Http SettingsRoutes

/-- The password hash of the library; `none` is a hash that it cannot parse. -/
structure PasswordHasher where
  hash (password salt : Text) : Text
  verify (password passwordHash : Text) : Option Bool

/-- Only the password itself passes the verification. -/
def PasswordHasher.Sound (H : PasswordHasher) : Prop :=
  ∀ password other salt, H.verify password (H.hash other salt) = some true → password = other

structure LoginBody where
  usernameHex : Text
  passwordHex : Text

/-- The password that a login presents. -/
def LoginBody.password (body : LoginBody) : Text := trim body.passwordHex

inductive LoginStage
  | getAccount
  /-- The account, and how many passwords had been set when it was read. -/
  | verify (account : AccountRecord) (seen : Nat)
  | createSession (accountId : Int) (seen : Nat)
  | loggedIn (accountId : Int)
  | failure (status : Status) (message : Option Text)
  | dropped

inductive ResetStage
  | requireOwner
  | getAccount
  | setPassword (usernameHex : Text)
  /-- The new password is the entry `stored` of the passwords that were set. -/
  | deleteSessions (usernameHex : Text) (stored : Nat)
  | credentials (usernameHex : Text) (stored : Nat)
  | failure (status : Status) (message : Option Text)
  | dropped

/-- A request with what it draws at random: the token of a login, the password and the salt
of a reset. -/
inductive Task
  | login (body : LoginBody) (token : Text) (stage : LoginStage)
  | regenerate (actor id : Int) (passwordHex salt : Text) (stage : ResetStage)

/-- A session that a login has created, and the password that the login presented. -/
structure Issue where
  token : Text
  accountId : Int
  password : Text
  seen : Nat

/-- The database, with the history of the passwords that were set and the sessions that
were created. -/
structure Server where
  registry : Registry
  passwords : List (Int × Text)
  issued : List Issue

def sessionDays : Int := 7

def getAccountByUsername (db : Db) (usernameHex : Text) : Option AccountRecord :=
  db.account.find? fun a => a.usernameHex == usernameHex

def LoginStage.isOver : LoginStage → Bool
  | .loggedIn _ => true
  | .failure _ _ => true
  | .dropped => true
  | _ => false

def ResetStage.isOver : ResetStage → Bool
  | .credentials _ _ => true
  | .failure _ _ => true
  | .dropped => true
  | _ => false

/-- The next step of `auth_login`, as long as the database answers. -/
def authLogin (H : PasswordHasher) (now : Instant) (s : Server) (body : LoginBody)
    (token : Text) : LoginStage → Server × LoginStage
  | .getAccount =>
    match getAccountByUsername s.registry.db (trim body.usernameHex) with
    | none => (s, .failure .unauthorized (some "invalid credentials".toList))
    | some account =>
      if account.isDisabled then (s, .failure .forbidden (some "account disabled".toList))
      else (s, .verify account s.passwords.length)
  | .verify account seen =>
    match H.verify body.password account.passwordHash with
    | some true => (s, .createSession account.id seen)
    | some false => (s, .failure .unauthorized (some "invalid credentials".toList))
    | none => (s, .failure .internalServerError none)
  | .createSession accountId seen =>
    match s.registry.createSession token accountId
      (now.nanos + sessionDays * (24 * 3600) * nanosPerSec) with
    | none => (s, .failure .internalServerError none)
    | some registry =>
      ({ s with
          registry := registry
          issued := s.issued ++ [⟨token, accountId, body.password, seen⟩] }, .loggedIn accountId)
  | stage => (s, stage)

/-- The next step of `regenerate_password`; only the failure of the last one is ignored. -/
def regeneratePassword (H : PasswordHasher) (fails : Bool) (s : Server) (actor id : Int)
    (passwordHex salt : Text) : ResetStage → Server × ResetStage
  | .deleteSessions usernameHex stored =>
    (if fails then s else { s with registry := s.registry.deleteSessionsForAccount id },
      .credentials usernameHex stored)
  | stage =>
    if fails then (s, .failure .internalServerError none)
    else
      match stage with
      | .requireOwner =>
        if accountIsOwner s.registry.db actor = false then
          (s, .failure .forbidden (some "owner role required".toList))
        else (s, .getAccount)
      | .getAccount =>
        match getAccountById s.registry.db id with
        | none => (s, .failure .notFound (some "account not found".toList))
        | some account => (s, .setPassword account.usernameHex)
      | .setPassword usernameHex =>
        match s.registry.setAccountPassword id (H.hash passwordHex salt) with
        | none => (s, .failure .internalServerError (some "account not found".toList))
        | some registry =>
          ({ s with registry := registry, passwords := s.passwords ++ [(id, passwordHex)] },
            .deleteSessions usernameHex s.passwords.length)
      | stage => (s, stage)

/-- One step of a request; `none` when it is over. -/
def serve (H : PasswordHasher) (now : Instant) (fails : Bool) (s : Server) :
    Task → Option (Server × Task)
  | .login body token stage =>
    if stage.isOver then none
    else if fails then some (s, .login body token (.failure .internalServerError none))
    else
      let (s', stage') := authLogin H now s body token stage
      some (s', .login body token stage')
  | .regenerate actor id passwordHex salt stage =>
    if stage.isOver then none
    else
      let (s', stage') := regeneratePassword H fails s actor id passwordHex salt stage
      some (s', .regenerate actor id passwordHex salt stage')

def Task.drop : Task → Task
  | .login body token _ => .login body token .dropped
  | .regenerate actor id passwordHex salt _ => .regenerate actor id passwordHex salt .dropped

abbrev State := Pool Server Task

inductive Action
  | login (body : LoginBody) (token : Text)
  | regenerate (actor id : Int) (passwordHex salt : Text)
  | advance (i : Nat) (now : Instant) (fails : Bool)
  /-- The client goes away. -/
  | drop (i : Nat)
  /-- Any request that looks up its session. -/
  | resolve (now : Instant) (token : Text)
  | logout (token : Text)

theorem resolveSession_access (db : Db) (now : Instant) (token : Text) :
    (resolveSession db now token).2.account = db.account ∧
      (resolveSession db now token).2.role = db.role ∧
        (resolveSession db now token).2.session ⊆ db.session := by
  have hdelete : (deleteSession db token).session ⊆ db.session :=
    fun _ h => List.mem_of_mem_filter h
  unfold resolveSession
  split
  · exact ⟨rfl, rfl, fun _ h => h⟩
  · split_ifs
    · exact ⟨rfl, rfl, hdelete⟩
    · split
      · exact ⟨rfl, rfl, fun _ h => h⟩
      · split_ifs
        · exact ⟨rfl, rfl, hdelete⟩
        · exact ⟨rfl, rfl, fun _ h => h⟩

/-- Sessions are looked up, and may be deleted by that. -/
def resolve (now : Instant) (token : Text) (r : Registry) : Registry :=
  r.withDb (resolveSession r.db now token).2 (resolveSession_access r.db now token).1
    (resolveSession_access r.db now token).2.1

def logout (token : Text) (r : Registry) : Registry :=
  r.withDb (deleteSession r.db token) rfl rfl

def onRegistry (s : State) (registry : Registry) : State :=
  { s with shared := { s.shared with registry := registry } }

def step (H : PasswordHasher) (s : State) : Action → Option State
  | .login body token => some (s.spawn (.login body token .getAccount))
  | .regenerate actor id passwordHex salt =>
    if isAuthenticated s.shared.registry.db actor then
      some (s.spawn (.regenerate actor id passwordHex salt .requireOwner))
    else none
  | .advance i now fails => s.turn (serve H now fails) i
  | .drop i => (s.tasks[i]?).map fun t => s.replace i s.shared t.drop
  | .resolve now token => some (onRegistry s (resolve now token s.shared.registry))
  | .logout token => some (onRegistry s (logout token s.shared.registry))

/-- The stored hash of each account is that of the last password that was set for it. -/
def HashesCurrent (H : PasswordHasher) (db : Db) (passwords : List (Int × Text)) : Prop :=
  ∀ a ∈ db.account, ∀ p, latest a.id passwords = some p → ∃ salt, a.passwordHash = H.hash p salt

/-- The password is the one that was set last when `seen` of them had been. -/
def Presents (passwords : List (Int × Text)) (accountId : Int) (seen : Nat) (password : Text) :
    Prop :=
  seen ≤ passwords.length ∧ ∀ p, latest accountId (passwords.take seen) = some p → password = p

theorem Presents.concat {passwords : List (Int × Text)} {accountId : Int} {seen : Nat}
    {password : Text} (h : Presents passwords accountId seen password) (e : Int × Text) :
    Presents (passwords ++ [e]) accountId seen password := by
  obtain ⟨hle, hlatest⟩ := h
  refine ⟨by rw [List.length_append]; omega, ?_⟩
  rw [List.take_append_of_le_length hle]
  exact hlatest

/-- Who reads the account after a password was set presents this one or a later one. -/
theorem Presents.new {passwords : List (Int × Text)} {accountId : Int} {seen n : Nat}
    {password new : Text} (h : Presents passwords accountId seen password)
    (hset : passwords[n]? = some (accountId, new)) (hn : n < seen) :
    password = new ∨ (accountId, password) ∈ passwords.drop (n + 1) := by
  obtain ⟨p, hp, hmem⟩ := latest_take_of_getElem? hset hn
  obtain ⟨hlt, heq⟩ := List.getElem?_eq_some_iff.mp hset
  rw [List.drop_eq_getElem_cons hlt, heq] at hmem
  rw [h.2 p hp]
  rcases List.mem_cons.mp hmem with hmem | hmem
  · exact Or.inl (Prod.mk.inj hmem).2
  · exact Or.inr hmem

/-- Every session of the account was created by a login that had read the account after the
password was set. -/
def Covered (s : Server) (accountId : Int) (stored : Nat) : Prop :=
  ∀ row ∈ s.registry.db.session, row.accountId = accountId →
    ∃ i ∈ s.issued, i.token = row.token ∧ i.accountId = accountId ∧ stored < i.seen

structure ServerOk (H : PasswordHasher) (s : Server) : Prop where
  hashes : HashesCurrent H s.registry.db s.passwords
  issued : ∀ i ∈ s.issued, Presents s.passwords i.accountId i.seen i.password

/-- What a request knows. -/
def TaskOk (H : PasswordHasher) (s : Server) : Task → Prop
  | .login _ _ (.verify account seen) =>
    seen ≤ s.passwords.length ∧ ∀ p, latest account.id (s.passwords.take seen) = some p →
      ∃ salt, account.passwordHash = H.hash p salt
  | .login body _ (.createSession accountId seen) =>
    Presents s.passwords accountId seen body.password
  | .regenerate _ id passwordHex _ (.deleteSessions _ stored) =>
    s.passwords[stored]? = some (id, passwordHex)
  | .regenerate _ id passwordHex _ (.credentials _ stored) =>
    s.passwords[stored]? = some (id, passwordHex) ∧ Covered s id stored
  | _ => True

/-- What a step must not do: insert the session of a login that has read the account before
a password was set whose reset has answered, or fail to delete a session that was not
created with the new password or a later one. -/
def Timely (s : State) : Action → Prop
  | .advance i _ fails => ∀ t, s.tasks[i]? = some t →
    match t with
    | .login _ _ (.createSession accountId seen) => fails = false →
      ∀ actor passwordHex salt usernameHex stored,
        Task.regenerate actor accountId passwordHex salt (.credentials usernameHex stored) ∈
          s.tasks → stored < seen
    | .regenerate _ id _ _ (.deleteSessions _ stored) => fails = true → Covered s.shared id stored
    | _ => True
  | _ => True

/-- How the history and the sessions change: nothing is forgotten, and no session is new. -/
structure Keeps (s s' : Server) : Prop where
  passwords : s'.passwords = s.passwords ∨ ∃ e, s'.passwords = s.passwords ++ [e]
  issued : s'.issued = s.issued
  session : s'.registry.db.session ⊆ s.registry.db.session

theorem Keeps.refl (s : Server) : Keeps s s := ⟨Or.inl rfl, rfl, fun _ h => h⟩

theorem Keeps.covered {s s' : Server} (h : Keeps s s') {accountId : Int} {stored : Nat}
    (hcovered : Covered s accountId stored) : Covered s' accountId stored := by
  unfold Covered
  rw [h.issued]
  exact fun row hrow hid => hcovered row (h.session hrow) hid

theorem taskOk_concat {H : PasswordHasher} {s s' : Server} {t : Task} {e : Int × Text}
    (hpasswords : s'.passwords = s.passwords ++ [e])
    (hcovered : ∀ accountId stored, Covered s accountId stored → Covered s' accountId stored)
    (h : TaskOk H s t) : TaskOk H s' t := by
  have hget : ∀ (n : Nat) (x : Int × Text), s.passwords[n]? = some x →
      s'.passwords[n]? = some x := by
    intro n x hx
    obtain ⟨hlt, _⟩ := List.getElem?_eq_some_iff.mp hx
    rw [hpasswords, List.getElem?_append_left hlt, hx]
  cases t with
  | login body token stage =>
    cases stage with
    | verify account seen =>
      obtain ⟨hle, hlatest⟩ := h
      refine ⟨by rw [hpasswords, List.length_append]; omega, ?_⟩
      rw [hpasswords, List.take_append_of_le_length hle]
      exact hlatest
    | createSession accountId seen =>
      have hpresents : Presents s.passwords accountId seen body.password := h
      have hlater := hpresents.concat e
      rw [← hpasswords] at hlater
      exact hlater
    | _ => trivial
  | regenerate actor id passwordHex salt stage =>
    cases stage with
    | deleteSessions usernameHex stored => exact hget _ _ h
    | credentials usernameHex stored => exact ⟨hget _ _ h.1, hcovered _ _ h.2⟩
    | _ => trivial

theorem taskOk_same {H : PasswordHasher} {s s' : Server} {t : Task}
    (hpasswords : s'.passwords = s.passwords)
    (hcovered : ∀ actor id passwordHex salt usernameHex stored,
      t = .regenerate actor id passwordHex salt (.credentials usernameHex stored) →
        Covered s id stored → Covered s' id stored)
    (h : TaskOk H s t) : TaskOk H s' t := by
  cases t with
  | login body token stage =>
    cases stage with
    | verify account seen =>
      unfold TaskOk
      rw [hpasswords]
      exact h
    | createSession accountId seen =>
      unfold TaskOk
      rw [hpasswords]
      exact h
    | _ => trivial
  | regenerate actor id passwordHex salt stage =>
    cases stage with
    | deleteSessions usernameHex stored =>
      unfold TaskOk
      rw [hpasswords]
      exact h
    | credentials usernameHex stored =>
      refine ⟨by rw [hpasswords]; exact h.1, hcovered _ _ _ _ _ _ rfl h.2⟩
    | _ => trivial

theorem Keeps.taskOk {H : PasswordHasher} {s s' : Server} (h : Keeps s s') {t : Task}
    (ht : TaskOk H s t) : TaskOk H s' t := by
  rcases h.passwords with hsame | ⟨e, hmore⟩
  · exact taskOk_same hsame (fun _ _ _ _ _ _ _ hcovered => h.covered hcovered) ht
  · exact taskOk_concat hmore (fun _ _ hcovered => h.covered hcovered) ht

/-- A step of a login, other than the last one, changes nothing. -/
theorem authLogin_ok {H : PasswordHasher} (hsound : H.Sound) (now : Instant) {s : Server}
    {body : LoginBody} (token : Text) {stage : LoginStage} (hok : ServerOk H s)
    (ht : TaskOk H s (.login body token stage))
    (hstage : ∀ accountId seen, stage ≠ .createSession accountId seen) :
    (authLogin H now s body token stage).1 = s ∧
      TaskOk H s (.login body token (authLogin H now s body token stage).2) := by
  unfold authLogin
  split
  · split
    · exact ⟨rfl, trivial⟩
    · rename_i account haccount
      split_ifs
      · exact ⟨rfl, trivial⟩
      · refine ⟨rfl, le_refl _, fun p hp => ?_⟩
        rw [List.take_length] at hp
        exact hok.hashes account (List.mem_of_find?_eq_some haccount) p hp
  · rename_i account seen
    split
    · rename_i hverify
      refine ⟨rfl, ht.1, fun p hp => ?_⟩
      obtain ⟨salt, hhash⟩ := ht.2 p hp
      rw [hhash] at hverify
      exact hsound _ _ _ hverify
    · exact ⟨rfl, trivial⟩
    · exact ⟨rfl, trivial⟩
  · rename_i accountId seen
    exact absurd rfl (hstage accountId seen)
  · exact ⟨rfl, ht⟩

/-- The last step of a login adds a session of its own. -/
theorem createSession_ok {H : PasswordHasher} (now : Instant) {s : Server} {body : LoginBody}
    (token : Text) {accountId : Int} {seen : Nat} (hok : ServerOk H s)
    (ht : Presents s.passwords accountId seen body.password) :
    ServerOk H (authLogin H now s body token (.createSession accountId seen)).1 ∧
      TaskOk H (authLogin H now s body token (.createSession accountId seen)).1
        (.login body token (authLogin H now s body token (.createSession accountId seen)).2) ∧
      ∀ t, TaskOk H s t →
        (∀ actor passwordHex salt usernameHex stored,
          t = .regenerate actor accountId passwordHex salt (.credentials usernameHex stored) →
            stored < seen) →
        TaskOk H (authLogin H now s body token (.createSession accountId seen)).1 t := by
  unfold authLogin
  simp only
  split
  · exact ⟨hok, trivial, fun t h _ => h⟩
  · rename_i registry hcreate
    have hdb := Registry.createSession_eq hcreate
    refine ⟨⟨?_, ?_⟩, trivial, fun t htask hbefore => ?_⟩
    · unfold HashesCurrent
      rw [hdb]
      exact hok.hashes
    · intro i hi
      rcases List.mem_append.mp hi with hi | hi
      · exact hok.issued i hi
      · rw [List.mem_singleton.mp hi]
        exact ht
    · refine taskOk_same (s := s) rfl ?_ htask
      intro actor id passwordHex salt usernameHex stored h' hcovered row hrow hid
      obtain rfl := h'
      rw [hdb] at hrow
      rcases List.mem_append.mp hrow with hrow | hrow
      · obtain ⟨i, hi, hrest⟩ := hcovered row hrow hid
        exact ⟨i, List.mem_append_left _ hi, hrest⟩
      · rw [List.mem_singleton.mp hrow] at hid ⊢
        obtain rfl : accountId = id := hid
        exact ⟨_, List.mem_append_right _ (List.mem_singleton.mpr rfl), rfl, rfl,
          hbefore _ _ _ _ _ rfl⟩

theorem setPassword_ok {H : PasswordHasher} {s : Server} {id : Int} {passwordHex salt : Text}
    {registry : Registry} (hok : ServerOk H s)
    (h : s.registry.setAccountPassword id (H.hash passwordHex salt) = some registry) :
    ServerOk H { s with registry := registry, passwords := s.passwords ++ [(id, passwordHex)] } ∧
      Keeps s { s with
        registry := registry, passwords := s.passwords ++ [(id, passwordHex)] } := by
  have hdb : registry.db = { s.registry.db with
      account := updateRows (fun a => a.id == id)
        (fun a => { a with passwordHash := H.hash passwordHex salt }) s.registry.db.account } :=
    (Registry.updateAccount_eq h).1
  refine ⟨⟨?_, fun i hi => (hok.issued i hi).concat _⟩, Or.inr ⟨_, rfl⟩, rfl, ?_⟩
  · intro a ha p hp
    rw [hdb] at ha
    rcases mem_updateRows.mp ha with ⟨ha, hne⟩ | ⟨b, _, hb, rfl⟩
    · have hother : id ≠ a.id := by
        simp only [beq_eq_false_iff_ne] at hne
        exact fun heq => hne heq.symm
      rw [latest_concat_ne hother] at hp
      exact hok.hashes a ha p hp
    · obtain rfl : b.id = id := by simpa using hb
      rw [show latest b.id (s.passwords ++ [(b.id, passwordHex)]) = some passwordHex from
        latest_concat_self _ _ _] at hp
      exact ⟨salt, by rw [← Option.some.inj hp]⟩
  · rw [hdb]
    exact fun _ h => h

/-- A step of a reset keeps what every request knows; its last one deletes the sessions. -/
theorem regeneratePassword_ok {H : PasswordHasher} {fails : Bool} {s : Server} {actor id : Int}
    {passwordHex salt : Text} {stage : ResetStage} (hok : ServerOk H s)
    (ht : TaskOk H s (.regenerate actor id passwordHex salt stage))
    (hdelete : ∀ usernameHex stored, stage = .deleteSessions usernameHex stored →
      fails = true → Covered s id stored) :
    ServerOk H (regeneratePassword H fails s actor id passwordHex salt stage).1 ∧
      TaskOk H (regeneratePassword H fails s actor id passwordHex salt stage).1
        (.regenerate actor id passwordHex salt
          (regeneratePassword H fails s actor id passwordHex salt stage).2) ∧
      Keeps s (regeneratePassword H fails s actor id passwordHex salt stage).1 := by
  unfold regeneratePassword
  split
  · rename_i usernameHex stored
    cases fails with
    | true => exact ⟨hok, ⟨ht, hdelete _ _ rfl rfl⟩, Keeps.refl s⟩
    | false =>
      refine ⟨⟨hok.hashes, hok.issued⟩, ⟨ht, ?_⟩, Or.inl rfl, rfl,
        fun _ h => List.mem_of_mem_filter h⟩
      intro row hrow hid
      have hne := (List.mem_filter.mp hrow).2
      simp [hid] at hne
  · by_cases hfails : fails = true
    · rw [if_pos hfails]
      exact ⟨hok, trivial, Keeps.refl s⟩
    · rw [if_neg hfails]
      split
      · split_ifs
        · exact ⟨hok, trivial, Keeps.refl s⟩
        · exact ⟨hok, trivial, Keeps.refl s⟩
      · split
        · exact ⟨hok, trivial, Keeps.refl s⟩
        · exact ⟨hok, trivial, Keeps.refl s⟩
      · split
        · exact ⟨hok, trivial, Keeps.refl s⟩
        · rename_i hset
          obtain ⟨hserver, hkeeps⟩ := setPassword_ok hok hset
          refine ⟨hserver, ?_, hkeeps⟩
          unfold TaskOk
          simp
      · exact ⟨hok, ht, Keeps.refl s⟩

/-- What holds in every state of a timely run. -/
abbrev Safe (H : PasswordHasher) : State → Prop :=
  Coherent (ServerOk H) (TaskOk H) fun _ _ => True

theorem safe_onRegistry {H : PasswordHasher} {s : State} {registry : Registry} (h : Safe H s)
    (haccount : registry.db.account = s.shared.registry.db.account)
    (hsession : registry.db.session ⊆ s.shared.registry.db.session) :
    Safe H (onRegistry s registry) := by
  have hkeeps : Keeps s.shared { s.shared with registry := registry } :=
    ⟨Or.inl rfl, rfl, hsession⟩
  refine ⟨⟨?_, h.shared.issued⟩, fun t ht => hkeeps.taskOk (h.tasks t ht), h.apart⟩
  unfold HashesCurrent
  rw [show (onRegistry s registry).shared.registry.db.account =
    s.shared.registry.db.account from haccount]
  exact h.shared.hashes

theorem taskOk_drop {H : PasswordHasher} (s : Server) (t : Task) : TaskOk H s t.drop := by
  cases t with
  | login body token stage => trivial
  | regenerate actor id passwordHex salt stage => trivial

/-- A step of one request leaves every request with what it knows. -/
theorem safe_advance {H : PasswordHasher} (hsound : H.Sound) {s : State} {i : Nat}
    {now : Instant} {fails : Bool} {t u : Task} {s' : Server} (h : Safe H s)
    (hok : Timely s (.advance i now fails)) (hi : s.tasks[i]? = some t)
    (hserve : serve H now fails s.shared t = some (s', u)) : Safe H (s.replace i s' u) := by
  have hsymm : ∀ t v : Task, True → True := fun _ _ h => h
  have ht := h.tasks t (List.mem_of_getElem? hi)
  have htimely := hok t hi
  cases t with
  | login body token stage =>
    unfold serve at hserve
    simp only at hserve
    split_ifs at hserve with hover hfails
    · obtain ⟨rfl, rfl⟩ := Prod.mk.inj (Option.some.inj hserve)
      exact h.replace hsymm hi h.shared trivial fun v _ _ hv => ⟨hv, trivial⟩
    · obtain ⟨rfl, rfl⟩ := Prod.mk.inj (Option.some.inj hserve)
      by_cases hstage : ∃ accountId seen, stage = .createSession accountId seen
      · obtain ⟨accountId, seen, rfl⟩ := hstage
        obtain ⟨hserver, hown, hothers⟩ := createSession_ok now token h.shared ht
        refine h.replace hsymm hi hserver hown fun v hv _ hvok =>
          ⟨hothers v hvok fun actor passwordHex salt usernameHex stored heq => ?_, trivial⟩
        exact htimely (Bool.not_eq_true _ ▸ hfails) actor passwordHex salt usernameHex stored
          (heq ▸ hv)
      · obtain ⟨hsame, hown⟩ := authLogin_ok hsound now token h.shared ht
          fun accountId seen heq => hstage ⟨accountId, seen, heq⟩
        rw [hsame]
        exact h.replace hsymm hi h.shared hown fun v _ _ hv => ⟨hv, trivial⟩
  | regenerate actor id passwordHex salt stage =>
    unfold serve at hserve
    simp only at hserve
    split_ifs at hserve
    obtain ⟨rfl, rfl⟩ := Prod.mk.inj (Option.some.inj hserve)
    have hdelete : ∀ usernameHex stored, stage = .deleteSessions usernameHex stored →
        fails = true → Covered s.shared id stored := by
      intro usernameHex stored h' hfails
      obtain rfl := h'
      exact htimely hfails
    obtain ⟨hserver, hown, hkeeps⟩ := regeneratePassword_ok h.shared ht hdelete
    exact h.replace hsymm hi hserver hown fun v _ _ hv => ⟨hkeeps.taskOk hv, trivial⟩

theorem safe_step {H : PasswordHasher} (hsound : H.Sound) (s s' : State) (a : Action)
    (h : Safe H s) (hok : Timely s a) (hstep : step H s a = some s') : Safe H s' := by
  cases a with
  | login body token =>
    rw [← Option.some.inj hstep]
    exact h.spawn trivial fun _ _ => trivial
  | regenerate actor id passwordHex salt =>
    unfold step at hstep
    simp only at hstep
    split_ifs at hstep
    rw [← Option.some.inj hstep]
    exact h.spawn trivial fun _ _ => trivial
  | advance i now fails =>
    obtain ⟨t, r, u, hi, hserve, rfl⟩ := Pool.turn_eq_some.mp hstep
    exact safe_advance hsound h hok hi hserve
  | drop i =>
    obtain ⟨t, hi, rfl⟩ := Option.map_eq_some_iff.mp hstep
    exact h.replace (fun _ _ h => h) hi h.shared (taskOk_drop _ t) fun v _ _ hv => ⟨hv, trivial⟩
  | resolve now token =>
    rw [← Option.some.inj hstep]
    obtain ⟨haccount, _, hsession⟩ := resolveSession_access s.shared.registry.db now token
    exact safe_onRegistry h haccount hsession
  | logout token =>
    rw [← Option.some.inj hstep]
    exact safe_onRegistry h rfl fun _ hrow => List.mem_of_mem_filter hrow

theorem serverOk_start (H : PasswordHasher) (r : Registry) : ServerOk H ⟨r, [], []⟩ where
  hashes := by
    intro a _ p hp
    cases hp
  issued := List.forall_mem_nil _

/-- A token that is accepted stands for a session of the account. -/
theorem session_of_resolveSession {db db' : Db} {now : Instant} {token : Text}
    {account : AccountRecord} (h : resolveSession db now token = (some account, db')) :
    ∃ row ∈ db.session, row.token = token ∧ row.accountId = account.id := by
  unfold resolveSession at h
  split at h
  · cases h
  · rename_i row hrow
    split_ifs at h
    · cases h
    · split at h
      · cases h
      · rename_i a haccount
        split_ifs at h
        · cases h
        · obtain rfl := Option.some.inj (Prod.mk.inj h).1
          exact ⟨row, List.mem_of_find?_eq_some hrow, by simpa using List.find?_some hrow,
            (getAccountById_eq_some haccount).2.symm⟩

/-- Once a reset has answered, in a run in which no login is late and no old session stays
undeleted, every token that is accepted for the account was issued by a login that presented
the new password, or one that a later reset has set. -/
theorem reset_ends_old_sessions (H : PasswordHasher) (hsound : H.Sound) (r : Registry)
    {s : State} (h : Run (step H) Timely ⟨⟨r, [], []⟩, []⟩ s) {actor id : Int}
    {passwordHex salt usernameHex : Text} {stored : Nat}
    (ht : Task.regenerate actor id passwordHex salt (.credentials usernameHex stored) ∈ s.tasks)
    (now : Instant) {token : Text} {account : AccountRecord} {db : Db}
    (haccepted : resolveSession s.shared.registry.db now token = (some account, db))
    (haccount : account.id = id) :
    ∃ i ∈ s.shared.issued, i.token = token ∧ i.accountId = id ∧
      (i.password = passwordHex ∨
        (id, i.password) ∈ s.shared.passwords.drop (stored + 1)) := by
  have hsafe : Safe H s := h.invariant
    (fun s a t hs hok hstep => safe_step hsound s t a hs hok hstep)
    (coherent_nil (serverOk_start H r))
  obtain ⟨hset, hcovered⟩ := hsafe.tasks _ ht
  obtain ⟨row, hrow, htoken, hid⟩ := session_of_resolveSession haccepted
  obtain ⟨i, hi, hitoken, hiid, hseen⟩ := hcovered row hrow (hid.trans haccount)
  have hpresents := hsafe.shared.issued i hi
  rw [hiid] at hpresents
  exact ⟨i, hi, hitoken.trans htoken, hiid, hpresents.new hset hseen⟩

/-- A check that is enough for the condition. -/
def timely (s : State) : Action → Bool
  | .advance i _ fails =>
    (s.tasks[i]?).all fun t =>
      match t with
      | .login _ _ (.createSession accountId seen) =>
        s.tasks.all fun u =>
          match u with
          | .regenerate _ id _ _ (.credentials _ stored) => id != accountId || stored < seen
          | _ => true
      | .regenerate _ _ _ _ (.deleteSessions _ _) => !fails
      | _ => true
  | _ => true

theorem timely_sound {s : State} {a : Action} (h : timely s a = true) : Timely s a := by
  cases a with
  | advance i now fails =>
    intro t hi
    simp only [timely, hi, Option.all_some] at h
    cases t with
    | login body token stage =>
      cases stage with
      | createSession accountId seen =>
        intro _ actor passwordHex salt usernameHex stored hmem
        simpa using List.all_eq_true.mp h _ hmem
      | _ => trivial
    | regenerate actor id passwordHex salt stage =>
      cases stage with
      | deleteSessions usernameHex stored =>
        intro hfails
        simp [hfails] at h
      | _ => trivial
  | _ => trivial

/-- A hash that is the password behind a mark. -/
def sampleHasher : PasswordHasher where
  hash password _ := '$' :: password
  verify password passwordHash := (stripPrefix ['$'] passwordHash).map (· == password)

theorem sampleHasher_sound : sampleHasher.Sound := by
  intro password other salt h
  have hstrip : stripPrefix ['$'] ('$' :: other) = some other :=
    stripPrefix_eq_some.mpr rfl
  simp only [sampleHasher, hstrip, Option.map_some, Option.some.injEq, beq_iff_eq] at h
  exact h.symm

/-- A node with one account, which has the Owner role and the password `p1`. -/
def oneAccount : Registry :=
  ((Registry.migrated.insertAccount "a1".toList "$p1".toList [] none).bind fun r =>
    r.assignRole 1 1).getD Registry.migrated

def start : State := ⟨⟨oneAccount, [], []⟩, []⟩

def loginWith (password token : String) : Action :=
  .login ⟨"a1".toList, password.toList⟩ token.toList

def reset : Action := .regenerate 1 1 "p2".toList "s".toList

def turns (i n : Nat) : List Action := List.replicate n (.advance i Instant.epoch false)

/-- One login is over before the reset, one inserts its session before the sessions are
deleted, and one comes with the new password. -/
def loginsInTime : List Action :=
  loginWith "p1" "t1" :: turns 0 3 ++ reset :: loginWith "p1" "t2" :: turns 2 2 ++ turns 1 3 ++
    turns 2 1 ++ turns 1 1 ++ loginWith "p2" "t3" :: turns 3 3

/-- A login has verified the old password when the reset begins, and inserts its session
after it. -/
def lateLogin : List Action := loginWith "p1" "t1" :: turns 0 2 ++ reset :: turns 1 4 ++ turns 0 1

def accepts (s : State) (token : String) : Option Int :=
  ((resolveSession s.shared.registry.db Instant.epoch token.toList).1).map (·.id)

/-- Only the login with the new password is left with a session. -/
theorem reset_ends_old_sessions_in_time :
    ∃ s, execIf (step sampleHasher) timely start loginsInTime = some s ∧
      ["t1", "t2", "t3"].map (accepts s) = [none, none, some 1] ∧
      ∃ i ∈ s.shared.issued, i.token = "t3".toList ∧ i.accountId = 1 ∧
        (i.password = "p2".toList ∨ ((1 : Int), i.password) ∈ s.shared.passwords.drop 1) := by
  refine ⟨_, rfl, rfl, ?_⟩
  exact reset_ends_old_sessions sampleHasher sampleHasher_sound oneAccount
    (run_of_execIf timely (fun _ _ _ => timely_sound)
      (show execIf (step sampleHasher) timely start loginsInTime = some _ from rfl))
    (List.mem_cons_of_mem _ List.mem_cons_self) Instant.epoch rfl rfl

/-- The token of the late login is accepted after the reset, and it was issued for the old
password. -/
theorem old_session_outlives_reset :
    ∃ s, Run (step sampleHasher) anyAction start s ∧
      (∃ actor salt usernameHex, Task.regenerate actor 1 "p2".toList salt
        (.credentials usernameHex 0) ∈ s.tasks) ∧
      accepts s "t1" = some 1 ∧ s.shared.issued.map (fun i => (i.token, i.password)) =
        [("t1".toList, "p1".toList)] ∧ s.shared.passwords = [(1, "p2".toList)] := by
  refine ⟨_, run_of_exec (show exec (step sampleHasher) start lateLogin = some _ from rfl),
    ⟨1, "s".toList, "a1".toList, List.mem_cons_of_mem _ List.mem_cons_self⟩, rfl, rfl, rfl⟩

end MyS3.PasswordResets
