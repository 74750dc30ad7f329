import MyS3.Accounts
import MyS3.SessionAuth

/-!
The account and role handlers of `server/settings_routes.rs`. All but the deletion of an
account ask for the Owner role of the caller; an account is deleted by its creator.
-/

namespace MyS3.SettingsRoutes

open Library.Strings
open Models Database Rbac Accounts Http

inductive Reply
  | created
  | noContent
  /-- The text of a library error is not modelled. -/
  | failure (status : Status) (message : Option Text)
  deriving DecidableEq

def failWith (status : Status) (message : String) : Reply := .failure status (some message.toList)

def databaseError : Reply := .failure .internalServerError none

inductive Request
  /-- The username and the password are drawn at random. -/
  | createAccount (displayName : Option Text) (roleIds : Option (List Int))
      (usernameHex passwordHash : Text)
  | patchAccount (id : Int) (displayName : Option Text) (isDisabled : Option Bool)
  | deleteAccount (id : Int)
  | setRoles (id : Int) (roleIds : List Int)
  | createRole (name : Text) (position : Option Int)
  | patchRole (id : Int) (name : Option Text) (position : Option Int)
  | deleteRole (id : Int)

/-- Database calls of a handler that fail: its second write, and the one whose failure it
ignores. -/
structure Faults where
  write : Bool := false
  sessions : Bool := false

def createAccount (s : Registry) (actor : Int) (displayName : Option Text)
    (roleIds : Option (List Int)) (usernameHex passwordHash : Text) (faults : Faults) :
    Reply × Registry :=
  if accountIsOwner s.db actor = false then (failWith .forbidden "owner role required", s)
  else
    match s.insertAccount usernameHex passwordHash (displayName.getD []) (some actor) with
    | none => (databaseError, s)
    | some s' =>
      match roleIds with
      | none => (.created, s')
      | some roles =>
        if faults.write then (databaseError, s')
        else
          match s'.setAccountRoles s.nextAccountId roles with
          | none => (databaseError, s')
          | some s'' => (.created, s'')

/-- The part of `patch_account` after the display name. -/
def patchDisabled (s : Registry) (actor id : Int) (isDisabled : Option Bool) (faults : Faults) :
    Reply × Registry :=
  match isDisabled with
  | none => (.noContent, s)
  | some disabled =>
    if disabled = true ∧ id = actor then (failWith .badRequest "cannot disable your own account", s)
    else if faults.write then (.failure .badRequest none, s)
    else
      match s.setAccountDisabled id disabled with
      | none => (failWith .badRequest "account not found", s)
      | some s' =>
        (.noContent, if disabled && !faults.sessions then s'.deleteSessionsForAccount id else s')

def patchAccount (s : Registry) (actor id : Int) (displayName : Option Text)
    (isDisabled : Option Bool) (faults : Faults) : Reply × Registry :=
  if accountIsOwner s.db actor = false then (failWith .forbidden "owner role required", s)
  else
    match displayName with
    | none => patchDisabled s actor id isDisabled faults
    | some name =>
      match s.updateAccountDisplayName id name with
      | none => (failWith .badRequest "account not found", s)
      | some s' => patchDisabled s' actor id isDisabled faults

def accountCreatedBy (db : Db) (accountId actor : Int) : Bool :=
  ((getAccountById db accountId).bind (·.createdByAccountId)) == some actor

def deleteAccount (s : Registry) (actor id : Int) : Reply × Registry :=
  if id = actor then (failWith .badRequest "cannot delete your own account", s)
  else if accountCreatedBy s.db id actor = false then
    (failWith .forbidden "only the creator of an account can delete it", s)
  else
    match s.deleteAccount id with
    | none => (databaseError, s)
    | some (true, s') => (.noContent, s')
    | some (false, s') => (failWith .notFound "account not found", s')

def setRoles (s : Registry) (actor id : Int) (roleIds : List Int) : Reply × Registry :=
  if accountIsOwner s.db actor = false then (failWith .forbidden "owner role required", s)
  else if (getAccountById s.db id).isNone then (failWith .notFound "account not found", s)
  else
    match s.setAccountRoles id roleIds with
    | none => (databaseError, s)
    | some s' => (.noContent, s')

def createRole (s : Registry) (actor : Int) (name : Text) (position : Option Int) :
    Reply × Registry :=
  if accountIsOwner s.db actor = false then (failWith .forbidden "owner role required", s)
  else
    let name := trim name
    if name = [] then (failWith .badRequest "name required", s)
    else
      match s.createRole name (position.getD 0) with
      | none => (failWith .conflict "role already exists", s)
      | some s' => (.created, s')

def patchRole (s : Registry) (actor id : Int) (name : Option Text) (position : Option Int) :
    Reply × Registry :=
  if accountIsOwner s.db actor = false then (failWith .forbidden "owner role required", s)
  else
    match s.updateRole id (name.map trim) position with
    | .ok s' => (.noContent, s')
    | .error .notFound => (failWith .badRequest "role not found", s)
    | .error _ => (.failure .badRequest none, s)

def deleteRole (s : Registry) (actor id : Int) : Reply × Registry :=
  if accountIsOwner s.db actor = false then (failWith .forbidden "owner role required", s)
  else
    match s.deleteRole id with
    | .ok s' => (.noContent, s')
    | .error .notFound => (failWith .badRequest "role not found", s)
    | .error .ownerRole => (failWith .badRequest "cannot delete Owner role", s)
    | .error .query => (databaseError, s)

def handle (s : Registry) (actor : Int) (faults : Faults) : Request → Reply × Registry
  | .createAccount displayName roleIds usernameHex passwordHash =>
    createAccount s actor displayName roleIds usernameHex passwordHash faults
  | .patchAccount id displayName isDisabled => patchAccount s actor id displayName isDisabled faults
  | .deleteAccount id => deleteAccount s actor id
  | .setRoles id roleIds => setRoles s actor id roleIds
  | .createRole name position => createRole s actor name position
  | .patchRole id name position => patchRole s actor id name position
  | .deleteRole id => deleteRole s actor id

/-- The accounts that the session extractor lets through. -/
def isAuthenticated (db : Db) (actor : Int) : Bool :=
  (getAccountById db actor).any fun a => !a.isDisabled

theorem enabled_of_authenticated {db : Db} {actor : Int} (h : isAuthenticated db actor = true) :
    Enabled db actor := by
  unfold isAuthenticated at h
  cases ha : getAccountById db actor with
  | none =>
    rw [ha] at h
    cases h
  | some a =>
    rw [ha] at h
    obtain ⟨hmem, hid⟩ := getAccountById_eq_some ha
    exact ⟨a, hmem, hid, by simpa using h⟩

/-- A session belongs to an account that is let through. -/
theorem isAuthenticated_of_resolveSession {db db' : Db} {now : Instant} {token : Text}
    {a : AccountRecord} (h : resolveSession db now token = (some a, db')) :
    isAuthenticated db a.id = true ∧ db' = db := by
  unfold resolveSession at h
  split at h
  · cases h
  · rename_i row _
    split_ifs at h with hexpired
    · cases h
    · cases haccount : getAccountById db row.accountId with
      | none =>
        rw [haccount] at h
        cases h
      | some account =>
        simp only [haccount] at h
        split_ifs at h with hdisabled
        · cases h
        · simp only [Prod.mk.injEq, Option.some.injEq] at h
          obtain ⟨rfl, rfl⟩ := h
          refine ⟨?_, rfl⟩
          unfold isAuthenticated
          rw [(getAccountById_eq_some haccount).2, haccount]
          simpa using hdisabled

/-- One request of a signed-in account. -/
structure Call where
  actor : Int
  faults : Faults
  request : Request

def step (s : Registry) (c : Call) : Option Registry :=
  if isAuthenticated s.db c.actor then some (handle s c.actor c.faults c.request).2 else none

end MyS3.SettingsRoutes
