import MyS3.AccessRequests
import MyS3.Library.Encodings
import MyS3.Library.Lifetimes

/-!
How long a login lasts. A login answers with a session token, which a browser sends as a
cookie and any other client as a bearer token. In whatever order the statements of other
requests about accounts are executed, the token names the account until the session expires
or is ended, and only a logout with the token, a password reset, the disabling or the
deletion of the account, and the use of a dead session end it.
-/

namespace MyS3.SessionLife

open Library.Strings Library.Encodings Library.Timestamps Library.Interleaving Library.Runs
open Library.Lifetimes
open Models Objects Database Engine Rbac Accounts Http SessionAuth AccessRequests
open Revocation (onBuckets_eq withContent)

def generateSessionToken (draw : Bytes) : Text := hexEncode draw

/-- What a browser sends of its cookies. -/
def cookieText (cookies : List Text) : Text := "; ".toList.intercalate cookies

/-- The cookie that a login sets, as it is sent back. -/
def loginCookie (token : Text) : Text := sessionCookie ++ '=' :: token

/-- A request of a client that has logged in. -/
inductive Sends (token : Text) (headers : Headers) : Prop
  | bearer (h : headers.get "authorization".toList = some (some ("Bearer ".toList ++ token)))
  | cookie (before after : List Text) (hauth : headers.get "authorization".toList = none)
      (hcookie : headers.get "cookie".toList =
        some (some (cookieText (before ++ loginCookie token :: after))))
      (hother : ∀ c ∈ before, ';' ∉ c ∧ stripPrefix (sessionCookie ++ ['=']) (trim c) = none)

/-- A text that is the same once it is trimmed, and cannot be cut at a semicolon. -/
structure Solid (t : Text) : Prop where
  nonempty : t ≠ []
  plain : ∀ c ∈ t, isWhitespace c = false ∧ c ≠ ';'

theorem Solid.trim_eq {t : Text} (h : Solid t) : trim t = t :=
  trim_eq_self (fun c hc => (h.plain c (List.mem_of_mem_head? hc)).1)
    fun c hc => (h.plain c (List.mem_of_mem_getLast? hc)).1

theorem solid_token {draw : Bytes} (h : draw.length = 32) : Solid (generateSessionToken draw) where
  nonempty := by
    cases draw with
    | nil => cases h
    | cons b rest => exact List.cons_ne_nil _ _
  plain c hc := by
    have hall : ∀ c ∈ hexAlphabet, isWhitespace c = false ∧ c ≠ ';' :=
      forall_mem_of_all (by decide)
    exact hall c (mem_hexEncode hc)

theorem solid_loginCookie {token : Text} (h : Solid token) : Solid (loginCookie token) where
  nonempty := List.append_ne_nil_of_right_ne_nil _ (List.cons_ne_nil _ _)
  plain c hc := by
    have hall : ∀ c ∈ sessionCookie ++ ['='], isWhitespace c = false ∧ c ≠ ';' :=
      forall_mem_of_all (by decide)
    rcases List.mem_append.mp hc with hname | hvalue
    · exact hall c (List.mem_append_left _ hname)
    · rcases List.mem_cons.mp hvalue with rfl | hvalue
      · exact hall '=' (by decide)
      · exact h.plain c hvalue

/-- The value of one part of a cookie header, when it is that of the session cookie. -/
def partToken (part : Text) : Option Text :=
  ((stripPrefix (sessionCookie ++ ['=']) (trim part)).map trim).filter (· ≠ [])

theorem cookieToken_single {part : Text} (h : ';' ∉ part) : cookieToken part = partToken part := by
  unfold cookieToken split
  rw [List.splitOn_eq_singleton h, List.findSome?_singleton]
  rfl

theorem cookieToken_cons {part : Text} (h : ';' ∉ part) (rest : Text) :
    cookieToken (part ++ ';' :: rest) = (partToken part).or (cookieToken rest) := by
  unfold cookieToken split
  rw [List.splitOn_append_cons_self, List.splitOn_eq_singleton h, List.findSome?_append,
    List.findSome?_singleton]
  rfl

theorem partToken_login {token : Text} (h : Solid token) (sp : Bool) :
    partToken ((if sp then [' '] else []) ++ loginCookie token) = some token := by
  have htrim : trim ((if sp then [' '] else []) ++ loginCookie token) = loginCookie token := by
    cases sp with
    | true => exact (solid_loginCookie h).trim_eq
    | false => exact (solid_loginCookie h).trim_eq
  have hstrip : stripPrefix (sessionCookie ++ ['=']) (loginCookie token) = some token := by
    rw [stripPrefix_eq_some]
    exact List.append_assoc _ _ _
  unfold partToken
  rw [htrim, hstrip, Option.map_some, h.trim_eq, Option.filter_some, if_pos]
  exact decide_eq_true h.nonempty

theorem partToken_other {c : Text} (h : stripPrefix (sessionCookie ++ ['=']) (trim c) = none)
    (sp : Bool) : partToken ((if sp then [' '] else []) ++ c) = none := by
  have htrim : trim ((if sp then [' '] else []) ++ c) = trim c := by
    cases sp with
    | true => rfl
    | false => rfl
  unfold partToken
  rw [htrim, h]
  rfl

theorem cookieText_cons (c d : Text) (rest : List Text) :
    cookieText (c :: d :: rest) = c ++ ';' :: ([' '] ++ cookieText (d :: rest)) := by
  unfold cookieText
  rw [List.intercalate_cons_cons]
  simp

/-- The session cookie is found behind those of other names. The parts after the first one
start with a blank. -/
theorem cookieToken_login {token : Text} (h : Solid token) (after : List Text)
    {before : List Text}
    (hother : ∀ c ∈ before, ';' ∉ c ∧ stripPrefix (sessionCookie ++ ['=']) (trim c) = none)
    (sp : Bool) :
    cookieToken ((if sp then [' '] else []) ++
      cookieText (before ++ loginCookie token :: after)) = some token := by
  have hsp : ∀ (sp : Bool) (c : Text), ';' ∉ c → ';' ∉ (if sp then [' '] else []) ++ c := by
    intro sp c hc
    cases sp with
    | true => simpa using hc
    | false => exact hc
  have hlogin : ';' ∉ loginCookie token := fun hmem => ((solid_loginCookie h).plain _ hmem).2 rfl
  induction before generalizing sp with
  | nil =>
    cases after with
    | nil =>
      have hone : cookieText [loginCookie token] = loginCookie token := List.intercalate_singleton
      rw [List.nil_append, hone, cookieToken_single (hsp sp _ hlogin), partToken_login h]
    | cons d rest =>
      rw [List.nil_append, cookieText_cons, ← List.append_assoc,
        cookieToken_cons (hsp sp _ hlogin), partToken_login h, Option.some_or]
  | cons c rest ih =>
    obtain ⟨hsemi, hname⟩ := hother c List.mem_cons_self
    have hrest := ih (fun d hd => hother d (List.mem_cons_of_mem c hd)) true
    rw [if_pos rfl] at hrest
    obtain ⟨d, tail, htail⟩ : ∃ d tail, rest ++ loginCookie token :: after = d :: tail :=
      List.exists_cons_of_ne_nil (by simp)
    rw [htail] at hrest
    rw [List.cons_append, htail, cookieText_cons, ← List.append_assoc,
      cookieToken_cons (hsp sp c hsemi), partToken_other hname, Option.none_or, hrest]

/-- The extractors read back the token that the client was given. -/
theorem extract_sends {token : Text} (h : Solid token) {headers : Headers}
    (hsends : Sends token headers) : extractTokenFromHeaders headers = some token := by
  unfold extractTokenFromHeaders
  cases hsends with
  | bearer hbearer =>
    have htrim : trim ("Bearer ".toList ++ token) = "Bearer ".toList ++ token := by
      refine trim_eq_self (fun c hc => ?_) fun c hc => ?_
      · rw [← Option.some.inj hc]
        decide
      · have hlast : ("Bearer ".toList ++ token).getLast? = token.getLast? := by
          rw [List.getLast?_append_of_ne_nil _ h.nonempty]
        rw [hlast] at hc
        exact (h.plain c (List.mem_of_mem_getLast? hc)).1
    have hstrip : stripPrefix "Bearer ".toList ("Bearer ".toList ++ token) = some token :=
      stripPrefix_eq_some.mpr rfl
    simp only [hbearer, Option.bind_some, id, htrim, hstrip, Option.map_some, h.trim_eq,
      Option.filter_some, h.nonempty, ne_eq, not_false_eq_true, decide_true, if_true,
      Option.orElse_some]
  | cookie before after hauth hcookie hother =>
    have hfound := cookieToken_login h after hother false
    rw [if_neg Bool.false_ne_true, List.nil_append] at hfound
    simp only [hauth, hcookie, Option.bind_none, Option.bind_some, id, Option.orElse_none, hfound]

/-- The sessions of a token. -/
def sessionsOf (db : Db) (token : Text) : List SessionRow :=
  db.session.filter fun row => row.token == token

/-- The next statement of a request deletes the sessions of an account. -/
def endsSessions (s : Registry) (accountId : Int) : Task → Bool
  | .regenerate _ id _ _ (.deleteSessions _ _) => accountId == id
  | .account (.patchDeleteSessions id) => accountId == id
  | .bucket (.deleteAccount id) => accountId == id && (s.deleteAccount id).map (·.1) == some true
  | _ => false

/-- The next statement of a request inserts a session of the token. -/
def insertsSession (token : Text) : Task → Bool
  | .login _ drawn (.createSession _ _) => drawn == token
  | .bootstrap ⟨draw, .createSession _⟩ => draw.token == token
  | _ => false

def isDisabled (db : Db) (accountId : Int) : Bool :=
  (getAccountById db accountId).any (·.isDisabled)

/-- What ends a session. -/
def ends (row : SessionRow) (p : State) : Action → Bool
  | .logout token => row.token == token
  -- A session that is found dead is deleted.
  | .resolve now token =>
    row.token == token &&
      (decide (row.expiresUtc < now.nanos) || isDisabled p.shared.db row.accountId)
  | .advance i _ fails => !fails && (p.tasks[i]?).any (endsSessions p.shared row.accountId)
  | _ => false

def starts (token : Text) (p : State) : Action → Bool
  | .advance i _ fails => !fails && (p.tasks[i]?).any (insertsSession token)
  | _ => false

/-- The statement of a request leaves the sessions of a token, but for those that it ends. -/
def Leaves (token : Text) (s s' : Registry) (ending : Int → Bool) : Prop :=
  sessionsOf s'.db token = (sessionsOf s.db token).filter fun row => !ending row.accountId

theorem leaves_same {token : Text} {s s' : Registry} {ending : Int → Bool}
    (h : s'.db.session = s.db.session) (hending : ∀ id, ending id = false) :
    Leaves token s s' ending := by
  unfold Leaves sessionsOf
  rw [h, eq_comm, List.filter_eq_self]
  intro row _
  rw [hending]
  rfl

theorem leaves_filter {token : Text} {s s' : Registry} {id : Int}
    (h : s'.db.session = s.db.session.filter fun row => !(row.accountId == id)) :
    Leaves token s s' fun accountId => accountId == id := by
  unfold Leaves sessionsOf
  rw [h, List.filter_filter, List.filter_filter]
  exact List.filter_congr fun row _ => Bool.and_comm _ _

theorem leaves_insert {token drawn : Text} {s s' : Registry} {accountId expiresUtc : Int}
    {ending : Int → Bool} (hne : (drawn == token) = false)
    (h : s.createSession drawn accountId expiresUtc = some s')
    (hending : ∀ id, ending id = false) : Leaves token s s' ending := by
  have hsame : sessionsOf s'.db token = sessionsOf s.db token := by
    unfold sessionsOf
    rw [Registry.createSession_eq h, List.filter_append, List.filter_cons_of_neg,
      List.filter_nil, List.append_nil]
    rw [hne]
    exact Bool.false_ne_true
  unfold Leaves
  rw [hsame, eq_comm, List.filter_eq_self]
  intro row _
  rw [hending]
  rfl

/-- The sessions are as before. -/
def Same (s s' : Registry) : Prop := s'.db.session = s.db.session

theorem same_insertBucket {db db' : Db} {name : Text} {owner : Option Int} {all : Bool}
    {etagType : EtagType} (h : db.insertBucket name owner all etagType = some db') :
    db'.session = db.session := by
  unfold Db.insertBucket at h
  split at h
  · cases h
  · rw [← Option.some.inj h]

theorem same_renameBucketRow {db db' : Db} {id : Int} {name : Text}
    (h : db.renameBucketRow id name = some db') : db'.session = db.session := by
  unfold Db.renameBucketRow at h
  split at h
  · cases h
  · rw [← Option.some.inj h]

theorem same_deleteBucketRow {db db' : Db} {id : Int} (h : db.deleteBucketRow id = some db') :
    db'.session = db.session := by
  unfold Db.deleteBucketRow at h
  split at h
  · rw [← Option.some.inj h]
  · cases h

theorem same_assignOwnNode {nodeId : Text} {s s' : Registry} {bucketId : Int}
    (h : BucketOwners.assignOwnNode nodeId s bucketId = .ok s') : Same s s' := by
  unfold BucketOwners.assignOwnNode at h
  split at h
  · cases h
  · rename_i db hassign
    unfold ReplicationEdits.assignBucketNode at hassign
    split_ifs at hassign
    rw [← Except.ok.inj h]
    change db.session = s.db.session
    rw [← Except.ok.inj hassign]
    rfl

theorem same_assignRole {s s' : Registry} {accountId roleId : Int}
    (h : s.assignRole accountId roleId = some s') : Same s s' := by
  unfold Registry.assignRole at h
  split_ifs at h
  · rw [← Option.some.inj h]
    exact rfl
  · rw [← Option.some.inj h]
    exact rfl

theorem same_updateAccount {s s' : Registry} {id : Int} {f : AccountRecord → AccountRecord}
    {hid : ∀ a, (f a).id = a.id} (h : s.updateAccount id f hid = some s') : Same s s' := by
  unfold Same
  rw [(Registry.updateAccount_eq h).1]

theorem same_setAccountRoles {s s' : Registry} {accountId : Int} {roleIds : List Int}
    (h : s.setAccountRoles accountId roleIds = some s') : Same s s' := by
  obtain ⟨rows, _, rfl⟩ := Option.map_eq_some_iff.mp h
  rfl

theorem same_replaceRolePermissions {s s' : Registry} {roleId : Int}
    {perms : List (Int × CrudPerms)} (h : s.replaceRolePermissions roleId perms = some s') :
    Same s s' := by
  obtain ⟨rows, _, rfl⟩ := Option.map_eq_some_iff.mp h
  rfl

theorem same_createRole {s s' : Registry} {name : Text} {position : Int}
    (h : s.createRole name position = some s') : Same s s' := by
  unfold Registry.createRole at h
  split_ifs at h
  rw [← Option.some.inj h]
  exact rfl

theorem same_updateRole {s s' : Registry} {id : Int} {name : Option Text} {position : Option Int}
    (h : s.updateRole id name position = .ok s') : Same s s' := by
  unfold Registry.updateRole at h
  split at h
  · cases h
  · simp only at h
    split_ifs at h
    rw [← Except.ok.inj h]
    exact rfl

theorem same_deleteRole {s s' : Registry} {id : Int} (h : s.deleteRole id = .ok s') :
    Same s s' := by
  unfold Registry.deleteRole at h
  split at h
  · cases h
  · split_ifs at h
    rw [← Except.ok.inj h]
    exact rfl

theorem same_upsertRolePermission {s s' : Registry} {roleId bucketId : Int} {perms : CrudPerms}
    (h : s.upsertRolePermission roleId bucketId perms = some s') : Same s s' := by
  unfold Registry.upsertRolePermission at h
  split_ifs at h
  rw [← Option.some.inj h]
  exact rfl

theorem same_updateBucketOwner {s s' : Registry} {id newOwnerId : Int}
    (h : s.updateBucketOwner id newOwnerId = some s') : Same s s' := by
  unfold Registry.updateBucketOwner at h
  split_ifs at h
  rw [← Option.some.inj h]
  exact rfl

/-- A deletion that deletes no account changes nothing. -/
theorem deleteAccount_cases {s s' : Registry} {id : Int} {deleted : Bool}
    (h : s.deleteAccount id = some (deleted, s')) :
    deleted = false ∧ s' = s ∨ deleted = true ∧
      s'.db.session = s.db.session.filter fun row => !(row.accountId == id) := by
  unfold Registry.deleteAccount at h
  split_ifs at h
  · cases h
    exact Or.inl ⟨rfl, rfl⟩
  · cases h
    exact Or.inr ⟨rfl, rfl⟩

theorem leaves_bootstrap {token : Text} {now : Instant} {s : Registry} {t : Bootstrap.Task}
    (hdrawn : insertsSession token (.bootstrap t) = false) :
    Leaves token s (Bootstrap.call now s t).1 fun id => endsSessions s id (.bootstrap t) := by
  obtain ⟨draw, stage⟩ := t
  have hsame : ∀ s', Same s s' →
      Leaves token s s' fun id => endsSessions s id (.bootstrap ⟨draw, stage⟩) :=
    fun _ h => leaves_same h fun _ => rfl
  cases stage with
  | accountCount =>
    simp only [Bootstrap.call]
    split_ifs <;> exact hsame _ rfl
  | insertAccount =>
    simp only [Bootstrap.call]
    split
    · exact hsame _ rfl
    · rename_i s' hinsert
      refine hsame _ ?_
      unfold Same
      rw [Registry.insertAccount_eq hinsert]
  | getAccountById id =>
    simp only [Bootstrap.call]
    split <;> exact hsame _ rfl
  | getOwnerRole id =>
    simp only [Bootstrap.call]
    split <;> exact hsame _ rfl
  | assignRole id ownerId =>
    simp only [Bootstrap.call]
    split
    · exact hsame _ rfl
    · rename_i s' hassign
      exact hsame _ (same_assignRole hassign)
  | claimUnownedBuckets id => exact hsame _ rfl
  | createSession id =>
    simp only [Bootstrap.call]
    split
    · exact hsame _ rfl
    · rename_i s' hsession
      exact leaves_insert hdrawn hsession fun _ => rfl
  | answered answer => exact hsame _ rfl
  | dropped => exact hsame _ rfl

theorem leaves_login {token drawn : Text} {node : Node} {now : Instant} {s : Registry}
    {body : PasswordResets.LoginBody} {stage : PasswordResets.LoginStage}
    (hdrawn : insertsSession token (.login body drawn stage) = false) :
    Leaves token s
      (PasswordResets.authLogin node.hasher now ⟨s, [], []⟩ body drawn stage).1.registry
      fun id => endsSessions s id (.login body drawn stage) := by
  have hsame : ∀ s', Same s s' →
      Leaves token s s' fun id => endsSessions s id (.login body drawn stage) :=
    fun _ h => leaves_same h fun _ => rfl
  cases stage with
  | getAccount =>
    simp only [PasswordResets.authLogin]
    split
    · exact hsame _ rfl
    · split_ifs <;> exact hsame _ rfl
  | verify account seen =>
    simp only [PasswordResets.authLogin]
    split <;> exact hsame _ rfl
  | createSession accountId seen =>
    simp only [PasswordResets.authLogin]
    split
    · exact hsame _ rfl
    · rename_i s' hsession
      exact leaves_insert hdrawn hsession fun _ => rfl
  | _ => exact hsame _ rfl

theorem leaves_regenerate {token : Text} {node : Node} {fails : Bool} {s : Registry}
    {actor id : Int} {passwordHex salt : Text} {stage : PasswordResets.ResetStage} :
    Leaves token s
      (PasswordResets.regeneratePassword node.hasher fails ⟨s, [], []⟩ actor id passwordHex salt
        stage).1.registry
      fun a => !fails && endsSessions s a (.regenerate actor id passwordHex salt stage) := by
  cases fails with
  | true => cases stage <;> exact leaves_same rfl fun _ => rfl
  | false =>
    cases stage with
    | requireOwner =>
      simp only [PasswordResets.regeneratePassword, Bool.false_eq_true, if_false]
      split_ifs <;> exact leaves_same rfl fun _ => rfl
    | getAccount =>
      simp only [PasswordResets.regeneratePassword, Bool.false_eq_true, if_false]
      split <;> exact leaves_same rfl fun _ => rfl
    | setPassword usernameHex =>
      simp only [PasswordResets.regeneratePassword, Bool.false_eq_true, if_false]
      split
      · exact leaves_same rfl fun _ => rfl
      · rename_i s' hset
        exact leaves_same (same_updateAccount hset) fun _ => rfl
    | deleteSessions usernameHex stored => exact leaves_filter rfl
    | _ => exact leaves_same rfl fun _ => rfl

theorem leaves_account {token : Text} {now : Instant} {s : AccountRequests.Store}
    {stage : AccountRequests.Stage} :
    Leaves token s.registry (AccountRequests.call now s stage).1.registry
      fun id => endsSessions s.registry id (.account stage) := by
  cases stage with
  | createRequireOwner actor body =>
    simp only [AccountRequests.call]
    split_ifs <;> exact leaves_same rfl fun _ => rfl
  | createInsert actor body =>
    simp only [AccountRequests.call]
    split
    · exact leaves_same rfl fun _ => rfl
    · rename_i r hinsert
      refine leaves_same ?_ fun _ => rfl
      change r.db.session = _
      rw [Registry.insertAccount_eq hinsert]
  | createReload id roleIds =>
    simp only [AccountRequests.call]
    split
    · exact leaves_same rfl fun _ => rfl
    · split <;> exact leaves_same rfl fun _ => rfl
  | createSetRoles id roleIds =>
    simp only [AccountRequests.call]
    split
    · exact leaves_same rfl fun _ => rfl
    · rename_i r hroles
      exact leaves_same (same_setAccountRoles hroles) fun _ => rfl
  | patchRequireOwner actor id displayName disabled =>
    simp only [AccountRequests.call]
    split_ifs
    · exact leaves_same rfl fun _ => rfl
    · split <;> exact leaves_same rfl fun _ => rfl
  | patchDisplayName actor id displayName disabled =>
    simp only [AccountRequests.call]
    split
    · exact leaves_same rfl fun _ => rfl
    · rename_i r hname
      exact leaves_same (same_updateAccount hname) fun _ => rfl
  | patchSetDisabled id disabled =>
    simp only [AccountRequests.call]
    split
    · exact leaves_same rfl fun _ => rfl
    · rename_i r hset
      exact leaves_same (same_updateAccount hset) fun _ => rfl
  | patchDeleteSessions id => exact leaves_filter rfl
  | answered reply => exact leaves_same rfl fun _ => rfl

theorem leaves_bucket {token : Text} {settings : BucketOwners.Settings} {s : Registry}
    {stage : BucketOwners.Stage} :
    Leaves token s (BucketOwners.call settings s stage).1
      fun id => endsSessions s id (.bucket stage) := by
  cases stage with
  | createRequireOwner actor name =>
    simp only [BucketOwners.call]
    split_ifs
    · exact leaves_same rfl fun _ => rfl
    · split <;> exact leaves_same rfl fun _ => rfl
  | createInsert actor name =>
    simp only [BucketOwners.call]
    split_ifs
    · exact leaves_same rfl fun _ => rfl
    · exact leaves_same rfl fun _ => rfl
    · split
      · exact leaves_same rfl fun _ => rfl
      · rename_i s' hinsert
        exact leaves_same (same_insertBucket (onBuckets_eq hinsert).1) fun _ => rfl
  | createOwnerRole id =>
    simp only [BucketOwners.call]
    split <;> exact leaves_same rfl fun _ => rfl
  | createGrant roleId id =>
    simp only [BucketOwners.call]
    split
    · exact leaves_same rfl fun _ => rfl
    · rename_i s' hgrant
      exact leaves_same (same_upsertRolePermission hgrant) fun _ => rfl
  | createReload id =>
    simp only [BucketOwners.call]
    split <;> exact leaves_same rfl fun _ => rfl
  | createAssign b =>
    simp only [BucketOwners.call]
    split
    · exact leaves_same rfl fun _ => rfl
    · rename_i s' hassign
      exact leaves_same (same_assignOwnNode hassign) fun _ => rfl
  | patchOwns actor id name owner =>
    simp only [BucketOwners.call]
    split_ifs <;> exact leaves_same rfl fun _ => rfl
  | patchGet id name owner =>
    simp only [BucketOwners.call]
    split
    · exact leaves_same rfl fun _ => rfl
    · split
      · exact leaves_same rfl fun _ => rfl
      · split <;> exact leaves_same rfl fun _ => rfl
  | renameGet id newName owner =>
    simp only [BucketOwners.call]
    split
    · exact leaves_same rfl fun _ => rfl
    · split_ifs <;> exact leaves_same rfl fun _ => rfl
  | renameUpdate id newName owner =>
    simp only [BucketOwners.call]
    split_ifs
    · exact leaves_same rfl fun _ => rfl
    · split
      · exact leaves_same rfl fun _ => rfl
      · rename_i s' hrename
        exact leaves_same (same_renameBucketRow (onBuckets_eq hrename).1) fun _ => rfl
  | renameReload id owner =>
    simp only [BucketOwners.call]
    split <;> exact leaves_same rfl fun _ => rfl
  | ownerGetBucket id newOwnerId =>
    simp only [BucketOwners.call]
    split_ifs <;> exact leaves_same rfl fun _ => rfl
  | ownerGetAccount id newOwnerId =>
    simp only [BucketOwners.call]
    split
    · exact leaves_same rfl fun _ => rfl
    · split_ifs <;> exact leaves_same rfl fun _ => rfl
  | ownerUpdate id newOwnerId =>
    simp only [BucketOwners.call]
    split_ifs
    · exact leaves_same rfl fun _ => rfl
    · split
      · exact leaves_same rfl fun _ => rfl
      · rename_i s' hupdate
        exact leaves_same (same_updateBucketOwner hupdate) fun _ => rfl
  | ownerReload id =>
    simp only [BucketOwners.call]
    split <;> exact leaves_same rfl fun _ => rfl
  | deleteCreatedBy actor id =>
    simp only [BucketOwners.call]
    split_ifs <;> exact leaves_same rfl fun _ => rfl
  | deleteAccount id =>
    have hnone : (s.deleteAccount id).map (·.1) ≠ some true →
        ∀ a, endsSessions s a (.bucket (.deleteAccount id)) = false := by
      intro hne a
      rw [endsSessions, beq_eq_false_iff_ne.mpr hne, Bool.and_false]
    simp only [BucketOwners.call]
    split
    · rename_i hdelete
      exact leaves_same rfl (hnone (by simp [hdelete]))
    · rename_i s' hdelete
      rcases deleteAccount_cases hdelete with ⟨hfalse, _⟩ | ⟨_, hsession⟩
      · cases hfalse
      · have hends : (fun a => endsSessions s a (.bucket (.deleteAccount id))) =
            fun a => a == id := by
          funext a
          rw [endsSessions, hdelete]
          exact Bool.and_true _
        rw [hends]
        exact leaves_filter hsession
    · rename_i s' hdelete
      rcases deleteAccount_cases hdelete with ⟨_, rfl⟩ | ⟨htrue, _⟩
      · exact leaves_same rfl (hnone (by simp [hdelete]))
      · cases htrue
  | ensureGet name =>
    simp only [BucketOwners.call]
    split <;> exact leaves_same rfl fun _ => rfl
  | ensureInsert name =>
    simp only [BucketOwners.call]
    split
    · exact leaves_same rfl fun _ => rfl
    · rename_i s' hinsert
      exact leaves_same (same_insertBucket (onBuckets_eq hinsert).1) fun _ => rfl
  | ensureOwnerRole id =>
    simp only [BucketOwners.call]
    split <;> exact leaves_same rfl fun _ => rfl
  | ensureGrant roleId id =>
    simp only [BucketOwners.call]
    split
    · exact leaves_same rfl fun _ => rfl
    · rename_i s' hgrant
      exact leaves_same (same_upsertRolePermission hgrant) fun _ => rfl
  | answered answer => exact leaves_same rfl fun _ => rfl
  | dropped => exact leaves_same rfl fun _ => rfl

theorem same_role {s : Registry} {stage : RoleStage} : Same s (callRole s stage).1 := by
  cases stage with
  | requireOwner actor req =>
    simp only [callRole]
    split_ifs <;> rfl
  | getAccount id roleIds =>
    simp only [callRole]
    split_ifs <;> rfl
  | setAccountRoles id roleIds =>
    simp only [callRole]
    split
    · rfl
    · rename_i s' hroles
      exact same_setAccountRoles hroles
  | insertRole name position =>
    simp only [callRole]
    split
    · rfl
    · rename_i s' hcreate
      exact same_createRole hcreate
  | patchGet id name position =>
    simp only [callRole]
    split <;> rfl
  | patchRow id name position =>
    simp only [callRole]
    split
    · rename_i s' hupdate
      exact same_updateRole hupdate
    · rfl
    · rfl
  | deleteGet id =>
    simp only [callRole]
    split
    · rfl
    · split_ifs <;> rfl
  | deleteRow id =>
    simp only [callRole]
    cases hdelete : s.deleteRole id with
    | error e => rfl
    | ok s' => exact same_deleteRole hdelete
  | getRole id permissions =>
    simp only [callRole]
    split_ifs <;> rfl
  | replacePermissions id permissions =>
    simp only [callRole]
    split
    · rfl
    · rename_i s' hreplace
      exact same_replaceRolePermissions hreplace
  | answered reply => rfl

theorem same_deletion {nodeId : Text} {now : Instant} {s : Registry} {stage : DeleteStage} :
    Same s (callDelete nodeId now s stage).1 := by
  cases stage with
  | purge id objectIds =>
    cases objectIds with
    | nil => rfl
    | cons objectId rest =>
      simp only [callDelete]
      split <;> rfl
  | removeBucket id =>
    simp only [callDelete]
    split
    · rfl
    · rename_i s' hremove
      unfold removeBucket at hremove
      split at hremove
      · cases hremove
      · rename_i db hdelete
        rw [← Except.ok.inj hremove]
        exact same_deleteBucketRow (BucketDeletion.deleteBucket_ok hdelete).2
  | owns actor id name =>
    simp only [callDelete]
    split_ifs <;> rfl
  | _ => rfl

/-- One statement of any request, or its failure. -/
theorem serve_leaves {token : Text} {node : Node} {now : Instant} {fails : Bool}
    {s s' : Registry} {t u : Task} (hdrawn : (!fails && insertsSession token t) = false)
    (h : serve node now fails s t = some (s', u)) :
    Leaves token s s' fun id => !fails && endsSessions s id t := by
  cases t with
  | bootstrap t =>
    obtain ⟨⟨s₁, t₁⟩, hstep, heq⟩ := Option.map_eq_some_iff.mp h
    simp only [Prod.map, id, Prod.mk.injEq] at heq
    obtain ⟨rfl, rfl⟩ := heq
    unfold Bootstrap.authBootstrap at hstep
    split_ifs at hstep with hover hfails
    · cases hstep
      exact leaves_same rfl fun _ => Bool.and_false _
    · rw [Bool.not_eq_true] at hfails
      subst hfails
      have hcall : Leaves token s (Bootstrap.call now s t).1 _ := leaves_bootstrap hdrawn
      rw [Option.some.inj hstep] at hcall
      exact hcall
  | login body drawn stage =>
    simp only [serve] at h
    split_ifs at h with hover hfails
    · cases h
      exact leaves_same rfl fun _ => Bool.and_false _
    · rw [Bool.not_eq_true] at hfails
      subst hfails
      cases h
      exact leaves_login hdrawn
  | regenerate actor id passwordHex salt stage =>
    simp only [serve] at h
    split_ifs at h
    cases h
    exact leaves_regenerate
  | account stage =>
    simp only [serve] at h
    split_ifs at h with hover hfails
    · cases h
      refine leaves_same rfl fun _ => ?_
      rw [hfails]
      rfl
    · rw [Bool.not_eq_true] at hfails
      subst hfails
      cases h
      exact leaves_account
  | bucket stage =>
    obtain ⟨⟨s₁, t₁⟩, hstep, heq⟩ := Option.map_eq_some_iff.mp h
    simp only [Prod.map, id, Prod.mk.injEq] at heq
    obtain ⟨rfl, rfl⟩ := heq
    unfold BucketOwners.serve at hstep
    split_ifs at hstep with hover hfails
    · cases hstep
      refine leaves_same rfl fun _ => ?_
      rw [hfails]
      rfl
    · rw [Bool.not_eq_true] at hfails
      subst hfails
      have hcall : Leaves token s (BucketOwners.call node.settings s stage).1 _ := leaves_bucket
      rw [Option.some.inj hstep] at hcall
      exact hcall
  | role stage =>
    have hsame : Same s s' := by
      cases stage with
      | answered reply => cases h
      | _ =>
        simp only [serve] at h
        split_ifs at h
        · cases h
          rfl
        · simp only [Prod.map, id, Option.some.injEq, Prod.mk.injEq] at h
          rw [← h.1]
          exact same_role
    exact leaves_same hsame fun _ => Bool.and_false _
  | deleteBucket stage =>
    have hsame : Same s s' := by
      cases stage with
      | answered reply => cases h
      | _ =>
        simp only [serve] at h
        split_ifs at h
        · cases h
          rfl
        · simp only [Prod.map, id, Option.some.injEq, Prod.mk.injEq] at h
          rw [← h.1]
          exact same_deletion
    exact leaves_same hsame fun _ => Bool.and_false _
  | dropped => cases h

/-- What `resolve_session` accepts. -/
theorem resolveSession_fst_iff {db : Db} {now : Instant} {token : Text} {account : AccountRecord} :
    (resolveSession db now token).1 = some account ↔
      ∃ row, (sessionsOf db token).head? = some row ∧ now.nanos ≤ row.expiresUtc ∧
        getAccountById db row.accountId = some account ∧ account.isDisabled = false := by
  unfold resolveSession sessionsOf
  rw [List.head?_filter]
  cases hfind : db.session.find? fun row => row.token == token with
  | none => simp
  | some row =>
    simp only [Option.some.injEq, exists_eq_left']
    split_ifs with hexpired
    · simp [not_le.mpr hexpired]
    · rw [and_iff_right (not_lt.mp hexpired)]
      cases hget : getAccountById db row.accountId with
      | none => simp
      | some found =>
        simp only [Option.some.injEq]
        cases hdisabled : found.isDisabled with
        | true =>
          simp only [if_true]
          constructor
          · intro h
            cases h
          · intro h
            rw [← h.1, hdisabled] at h
            cases h.2
        | false =>
          simp only [Bool.false_eq_true, if_false, Option.some.injEq]
          constructor
          · intro h
            exact ⟨h, h ▸ hdisabled⟩
          · exact And.left

theorem sessionsOf_deleteSession (db : Db) (drawn token : Text) :
    sessionsOf (deleteSession db drawn) token =
      (sessionsOf db token).filter fun row => !(row.token == drawn) := by
  unfold sessionsOf deleteSession
  rw [List.filter_filter, List.filter_filter]
  exact List.filter_congr fun _ _ => Bool.and_comm _ _

/-- A lookup deletes the session of the token when that is dead. -/
theorem sessionsOf_resolve (s : Registry) (now : Instant) (drawn : Text) {row : SessionRow}
    (h : sessionsOf s.db row.token = [row]) :
    sessionsOf (PasswordResets.resolve now drawn s).db row.token =
      if row.token == drawn &&
        (decide (row.expiresUtc < now.nanos) || isDisabled s.db row.accountId) then []
      else [row] := by
  have hdelete : sessionsOf (deleteSession s.db drawn) row.token =
      if row.token == drawn then [] else [row] := by
    rw [sessionsOf_deleteSession, h]
    cases hsame : row.token == drawn with
    | true => rw [List.filter_cons_of_neg (by simp [hsame]), List.filter_nil, if_pos rfl]
    | false =>
      rw [List.filter_cons_of_pos (by simp [hsame]), List.filter_nil, if_neg Bool.false_ne_true]
  change sessionsOf (resolveSession s.db now drawn).2 row.token = _
  cases hsame : row.token == drawn with
  | false =>
    rw [hsame, if_neg Bool.false_ne_true] at hdelete
    rw [Bool.false_and, if_neg Bool.false_ne_true]
    unfold resolveSession
    split
    · exact h
    · split_ifs
      · exact hdelete
      · split
        · exact h
        · split_ifs
          · exact hdelete
          · exact h
  | true =>
    rw [hsame, if_pos rfl] at hdelete
    have hfind : (s.db.session.find? fun t => t.token == drawn) = some row := by
      rw [← beq_iff_eq.mp hsame, ← List.head?_filter]
      exact congrArg List.head? h
    rw [Bool.true_and]
    unfold resolveSession isDisabled
    rw [hfind]
    simp only
    by_cases hexpired : row.expiresUtc < now.nanos
    · rw [if_pos hexpired, decide_eq_true hexpired, Bool.true_or, if_pos rfl]
      exact hdelete
    · rw [if_neg hexpired, decide_eq_false hexpired, Bool.false_or]
      cases getAccountById s.db row.accountId with
      | none => exact h
      | some account =>
        simp only [Option.any_some]
        by_cases hdisabled : account.isDisabled = true
        · rw [if_pos hdisabled, if_pos hdisabled]
          exact hdelete
        · rw [if_neg hdisabled, if_neg hdisabled]
          exact h

theorem gone_resolve (s : Registry) (now : Instant) (drawn : Text) {token : Text}
    (h : sessionsOf s.db token = []) :
    sessionsOf (PasswordResets.resolve now drawn s).db token = [] := by
  have hsub := (PasswordResets.resolveSession_access s.db now drawn).2.2
  refine List.filter_eq_nil_iff.mpr fun row hrow => ?_
  exact List.filter_eq_nil_iff.mp h row (hsub hrow)

/-- The session of a login is there, as the only one of its token. -/
def Alive (row : SessionRow) (p : State) : Prop := sessionsOf p.shared.db row.token = [row]

/-- No session of the token is there. -/
def Gone (token : Text) (p : State) : Prop := sessionsOf p.shared.db token = []

/-- A turn of a request. -/
theorem turn_leaves {token : Text} {node : Node} {p q : State} {i : Nat} {now : Instant}
    {fails : Bool} (hstarts : starts token p (.advance i now fails) = false)
    (h : step node p (.advance i now fails) = some q) :
    Leaves token p.shared q.shared fun id =>
      !fails && (p.tasks[i]?).any (endsSessions p.shared id) := by
  obtain ⟨t, s', u, ht, hserve, rfl⟩ := Pool.turn_eq_some.mp h
  simp only [starts, ht, Option.any_some] at hstarts
  simp only [ht, Option.any_some]
  exact serve_leaves hstarts hserve

/-- A turn, a lookup or a logout; no other step writes to the table of sessions. -/
def touchesSessions : Action → Bool
  | .advance _ _ _ => true
  | .resolve _ _ => true
  | .logout _ => true
  | _ => false

theorem same_step {node : Node} {p q : State} {a : Action} (ha : touchesSessions a = false)
    (h : step node p a = some q) : q.shared.db.session = p.shared.db.session := by
  cases a with
  | bootstrap draw =>
    rw [← Option.some.inj h]
    rfl
  | login body token =>
    rw [← Option.some.inj h]
    rfl
  | request actor req =>
    simp only [step] at h
    split_ifs at h
    rw [← Option.some.inj h]
    rfl
  | advance i now fails => cases ha
  | drop i =>
    obtain ⟨_, _, rfl⟩ := Option.map_eq_some_iff.mp h
    rfl
  | resolve now token => cases ha
  | logout token => cases ha
  | content db =>
    simp only [step] at h
    split_ifs at h
    rw [← Option.some.inj h]
    rfl

/-- A session lives until one of the steps that end it, and is gone for good from then on,
unless its token is drawn again. -/
theorem session_lifetime (node : Node) (row : SessionRow) :
    Lifetime (step node) (starts row.token) (ends row) (Alive row) (Gone row.token) := by
  have hturn : ∀ (p q : State) i now fails, Alive row p →
      starts row.token p (.advance i now fails) = false →
      step node p (.advance i now fails) = some q →
      sessionsOf q.shared.db row.token =
        [row].filter fun r => !ends r p (.advance i now fails) := by
    intro p q i now fails halive hstarts hstep
    have hleaves := turn_leaves hstarts hstep
    unfold Leaves at hleaves
    rw [halive] at hleaves
    exact hleaves
  have hlogout : ∀ (s : Registry) (drawn : Text),
      sessionsOf (PasswordResets.logout drawn s).db row.token =
        (sessionsOf s.db row.token).filter fun t => !(t.token == drawn) :=
    fun s drawn => sessionsOf_deleteSession s.db drawn row.token
  constructor
  · intro p a q halive hstarts hends hstep
    cases a with
    | advance i now fails =>
      refine (hturn p q i now fails halive hstarts hstep).trans ?_
      rw [List.filter_cons_of_pos (by rw [hends]; rfl), List.filter_nil]
    | resolve now drawn =>
      rw [← Option.some.inj hstep]
      refine (sessionsOf_resolve p.shared now drawn halive).trans ?_
      exact if_neg (by rw [Bool.not_eq_true]; exact hends)
    | logout drawn =>
      rw [← Option.some.inj hstep]
      refine (hlogout p.shared drawn).trans ?_
      have hne : (row.token == drawn) = false := hends
      rw [halive, List.filter_cons_of_pos (by rw [hne]; rfl), List.filter_nil]
    | _ =>
      have hsame := same_step rfl hstep
      unfold Alive sessionsOf
      rw [hsame]
      exact halive
  · intro p a q halive hstarts hends hstep
    cases a with
    | advance i now fails =>
      refine (hturn p q i now fails halive hstarts hstep).trans ?_
      rw [List.filter_cons_of_neg (by rw [hends]; exact Bool.false_ne_true), List.filter_nil]
    | resolve now drawn =>
      rw [← Option.some.inj hstep]
      refine (sessionsOf_resolve p.shared now drawn halive).trans ?_
      exact if_pos hends
    | logout drawn =>
      rw [← Option.some.inj hstep]
      refine (hlogout p.shared drawn).trans ?_
      have heq : (row.token == drawn) = true := hends
      rw [halive, List.filter_cons_of_neg (by rw [heq]; exact Bool.false_ne_true), List.filter_nil]
    | _ => cases hends
  · intro p a q hgone hstarts hstep
    have hnone : sessionsOf p.shared.db row.token = [] := hgone
    cases a with
    | advance i now fails =>
      have hleaves := turn_leaves hstarts hstep
      unfold Leaves at hleaves
      rw [hnone, List.filter_nil] at hleaves
      exact hleaves
    | resolve now drawn =>
      rw [← Option.some.inj hstep]
      exact gone_resolve p.shared now drawn hnone
    | logout drawn =>
      rw [← Option.some.inj hstep]
      refine (hlogout p.shared drawn).trans ?_
      rw [hnone, List.filter_nil]
    | _ =>
      have hsame := same_step rfl hstep
      unfold Gone sessionsOf
      rw [hsame]
      exact hnone

/-- The row of a login. -/
def loginRow (token : Text) (accountId : Int) (now : Instant) : SessionRow :=
  ⟨token, accountId, now.nanos + PasswordResets.sessionDays * (24 * 3600) * nanosPerSec⟩

/-- A login that answers has inserted the only session of its token. -/
theorem alive_login {node : Node} {p q : State} {i seen : Nat} {now : Instant}
    {body : PasswordResets.LoginBody} {token : Text} {accountId : Int}
    (hbefore : p.tasks[i]? = some (.login body token (.createSession accountId seen)))
    (hlogin : step node p (.advance i now false) = some q)
    (hanswer : q.tasks[i]? = some (.login body token (.loggedIn accountId))) :
    Alive (loginRow token accountId now) q := by
  obtain ⟨t, s', u, ht, hserve, rfl⟩ := Pool.turn_eq_some.mp hlogin
  rw [hbefore] at ht
  cases ht
  rw [Pool.replace_self hbefore, Option.some.injEq] at hanswer
  subst hanswer
  simp only [serve, PasswordResets.LoginStage.isOver, PasswordResets.authLogin,
    Bool.false_eq_true, if_false, Option.some.injEq, Prod.mk.injEq] at hserve
  obtain ⟨rfl, hstage⟩ := hserve
  split at hstage
  · simp at hstage
  · rename_i registry hsession
    have hfree : sessionsOf p.shared.db token = [] := by
      unfold Registry.createSession at hsession
      split_ifs at hsession with hrefused
      rw [Bool.not_eq_true, Bool.or_eq_false_iff, List.any_eq_false] at hrefused
      exact List.filter_eq_nil_iff.mpr hrefused.1
    change (registry.db.session.filter fun row => row.token == token) = _
    rw [Registry.createSession_eq hsession, List.filter_append]
    refine (congrArg₂ (· ++ ·) hfree ?_).trans (List.nil_append _)
    exact List.filter_cons_of_pos (beq_self_eq_true token)

/-- How long a login lasts: in every run after it, a request that carries its token is signed in
exactly as the account of the login, and exactly as long as the session has neither expired
nor been ended and the account is not disabled. Nobody else draws the token. -/
theorem login_lasts (node : Node) {p q r : State} {i seen : Nat} {now later : Instant}
    {body : PasswordResets.LoginBody} {draw : Bytes} {accountId : Int} (hdraw : draw.length = 32)
    (hbefore : p.tasks[i]? =
      some (.login body (generateSessionToken draw) (.createSession accountId seen)))
    (hlogin : step node p (.advance i now false) = some q)
    (hanswer : q.tasks[i]? =
      some (.login body (generateSessionToken draw) (.loggedIn accountId)))
    {actions : List Action} (hrun : exec (step node) q actions = some r)
    (hfresh : someStep (step node) (starts (generateSessionToken draw)) q actions = false)
    {headers : Headers} (hsends : Sends (generateSessionToken draw) headers) (config : Config)
    (disk : Disk) (account : AccountRecord) :
    (authAccount ⟨config, r.shared.db, disk⟩ later headers).1 = .ok account ↔
      someStep (step node) (ends (loginRow (generateSessionToken draw) accountId now)) q actions =
          false ∧
        later.nanos ≤ now.nanos + PasswordResets.sessionDays * (24 * 3600) * nanosPerSec ∧
        getAccountById r.shared.db accountId = some account ∧ account.isDisabled = false := by
  have hauth : (authAccount ⟨config, r.shared.db, disk⟩ later headers).1 = .ok account ↔
      (resolveSession r.shared.db later (generateSessionToken draw)).1 = some account := by
    unfold authAccount
    rw [extract_sends (solid_token hdraw) hsends]
    simp only
    split
    · rename_i found db hfound
      rw [hfound]
      simp
    · rename_i db hnone
      rw [hnone]
      simp [failWith]
  rw [hauth, resolveSession_fst_iff]
  have halive := alive_login hbefore hlogin hanswer
  rcases (session_lifetime node (loginRow (generateSessionToken draw) accountId now)).exec halive
    hrun hfresh with ⟨hlives, hends⟩ | ⟨hgone, hends⟩
  · have hrow : sessionsOf r.shared.db (generateSessionToken draw) =
        [loginRow (generateSessionToken draw) accountId now] := hlives
    rw [hrow, hends]
    simp [loginRow]
  · have hrow : sessionsOf r.shared.db (generateSessionToken draw) = [] := hgone
    rw [hrow, hends]
    simp

def sampleNode : Node := ⟨PasswordResets.sampleHasher, BucketOwners.sampleSettings⟩

def sampleToken : Text := generateSessionToken (List.replicate 32 7)

def turns (i n : Nat) : List Action := List.replicate n (.advance i Instant.epoch false)

/-- A login that has verified the password. -/
def verified : State :=
  (exec (step sampleNode) ⟨PasswordResets.oneAccount, []⟩
    (.login ⟨"a1".toList, "p1".toList⟩ sampleToken :: turns 0 2)).getD
      ⟨PasswordResets.oneAccount, []⟩

def loggedIn : State := (step sampleNode verified (.advance 0 Instant.epoch false)).getD verified

/-- The account logs in once more, ends that session, and uses the first one. -/
def meanwhile : List Action :=
  .login ⟨"a1".toList, "p1".toList⟩ "t2".toList :: turns 1 3 ++
    [.logout "t2".toList, .resolve Instant.epoch sampleToken]

def afterwards : State := (exec (step sampleNode) loggedIn meanwhile).getD loggedIn

def sampleApp : AppState := AppState.migrated "n1".toList

/-- The cookie of the login, behind another one. -/
def browserHeaders : Headers :=
  [("cookie".toList, some (cookieText ["theme=dark".toList, loginCookie sampleToken]))]

theorem login_lasts_meanwhile :
    (authAccount { sampleApp with db := afterwards.shared.db } Instant.epoch browserHeaders).1 =
      .ok (Registry.newAccount 1 "a1".toList "$p1".toList [] none) := by
  have hbefore : verified.tasks[0]? = some (.login ⟨"a1".toList, "p1".toList⟩
      (generateSessionToken (List.replicate 32 7)) (.createSession 1 0)) := rfl
  have hlogin : step sampleNode verified (.advance 0 Instant.epoch false) = some loggedIn := rfl
  have hrun : exec (step sampleNode) loggedIn meanwhile = some afterwards := rfl
  have hother : ∀ c ∈ ["theme=dark".toList],
      ';' ∉ c ∧ stripPrefix (sessionCookie ++ ['=']) (trim c) = none :=
    List.forall_mem_singleton.mpr ⟨by decide, rfl⟩
  have hsends : Sends sampleToken browserHeaders := .cookie ["theme=dark".toList] [] rfl rfl hother
  exact (login_lasts sampleNode List.length_replicate hbefore hlogin rfl hrun rfl hsends
    sampleApp.config sampleApp.disk _).mpr ⟨rfl, by decide, rfl, rfl⟩

end MyS3.SessionLife
