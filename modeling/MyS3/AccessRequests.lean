import MyS3.AccountRequests
import MyS3.BucketDeletion
import MyS3.BucketOwners
import MyS3.PasswordResets

/-!
The requests of `server/settings_routes.rs` that write accounts, roles, permissions or the
owners of buckets, all of them at the same time and statement by statement. Most of them
ask for the Owner role first; a bucket is renamed, handed over and deleted by the account
that owns it, and an account is deleted by the one that created it.
-/

namespace MyS3.AccessRequests

open Library.Strings Library.Interleaving Library.Runs
open Models Objects Database Repository Outbox Rbac Accounts Http SettingsRoutes PasswordResets
open Revocation (onBuckets KeepsAccess deleteBucketRow_keeps bucketKey withContent)

inductive RoleRequest
  | setRoles (id : Int) (roleIds : List Int)
  | createRole (name : Text) (position : Option Int)
  | patchRole (id : Int) (name : Option Text) (position : Option Int)
  | deleteRole (id : Int)
  | putRolePermissions (id : Int) (permissions : List (Int × CrudPerms))

/-- The statement that a request about roles executes next. -/
inductive RoleStage
  | requireOwner (actor : Int) (req : RoleRequest)
  | getAccount (id : Int) (roleIds : List Int)
  | setAccountRoles (id : Int) (roleIds : List Int)
  | insertRole (name : Text) (position : Int)
  | patchGet (id : Int) (name : Option Text) (position : Option Int)
  | patchRow (id : Int) (name : Text) (position : Int)
  | deleteGet (id : Int)
  | deleteRow (id : Int)
  | getRole (id : Int) (permissions : List (Int × CrudPerms))
  | replacePermissions (id : Int) (permissions : List (Int × CrudPerms))
  | answered (reply : Reply)

def RoleRequest.start : RoleRequest → RoleStage
  | .setRoles id roleIds => .getAccount id roleIds
  | .createRole name position =>
    if trim name = [] then .answered (failWith .badRequest "name required")
    else .insertRole (trim name) (position.getD 0)
  | .patchRole id name position => .patchGet id (name.map trim) position
  | .deleteRole id => .deleteGet id
  | .putRolePermissions id permissions => .getRole id permissions

/-- What a failing statement leads to. -/
def RoleStage.onFailure : RoleStage → RoleStage
  | .getAccount _ _ => .answered (failWith .notFound "account not found")
  | .patchGet _ _ _ => .answered (.failure .badRequest none)
  | .patchRow _ _ _ => .answered (.failure .badRequest none)
  | _ => .answered databaseError

def callRole (s : Registry) : RoleStage → Registry × RoleStage
  | .requireOwner actor req =>
    if accountIsOwner s.db actor = false then
      (s, .answered (failWith .forbidden "owner role required"))
    else (s, req.start)
  | .getAccount id roleIds =>
    if (getAccountById s.db id).isNone then (s, .answered (failWith .notFound "account not found"))
    else (s, .setAccountRoles id roleIds)
  | .setAccountRoles id roleIds =>
    match s.setAccountRoles id roleIds with
    | none => (s, .answered databaseError)
    | some s' => (s', .answered .noContent)
  | .insertRole name position =>
    match s.createRole name position with
    | none => (s, .answered (failWith .conflict "role already exists"))
    | some s' => (s', .answered .created)
  | .patchGet id name position =>
    match s.getRole id with
    | none => (s, .answered (failWith .badRequest "role not found"))
    | some role => (s, .patchRow id (name.getD role.name) (position.getD role.position))
  | .patchRow id name position =>
    match s.updateRole id (some name) (some position) with
    | .ok s' => (s', .answered .noContent)
    -- The role is gone, and the update finds no row.
    | .error .notFound => (s, .answered .noContent)
    | .error _ => (s, .answered (.failure .badRequest none))
  | .deleteGet id =>
    match s.getRole id with
    | none => (s, .answered (failWith .badRequest "role not found"))
    | some role =>
      if role.isOwner then (s, .answered (failWith .badRequest "cannot delete Owner role"))
      else (s, .deleteRow id)
  | .deleteRow id => ((s.deleteRole id).toOption.getD s, .answered .noContent)
  | .getRole id permissions =>
    if (s.getRole id).isNone then (s, .answered (failWith .notFound "role not found"))
    else (s, .replacePermissions id permissions)
  | .replacePermissions id permissions =>
    match s.replaceRolePermissions id permissions with
    | none => (s, .answered databaseError)
    | some s' => (s', .answered .noContent)
  | .answered reply => (s, .answered reply)

/-- The statement that `delete_bucket` executes next. -/
inductive DeleteStage
  | getBucket (actor id : Int)
  | owns (actor id : Int) (name : Option Text)
  | listObjectIds (id : Int)
  | purge (id : Int) (objectIds : List Int)
  | removeBucket (id : Int)
  | answered (reply : Reply)

theorem keepsAccess_deleteBucket {db db' : Db} {id : Int} {faults : DeleteBucketFaults}
    (h : Rbac.deleteBucket db id faults = .ok db') : KeepsAccess db db' :=
  (deleteBucketRow_keeps (BucketDeletion.deleteBucket_ok h).2).1

def deletionReply : DeleteBucketError → Reply
  | .notFound => failWith .notFound "bucket not found"
  | .defaultBucket => failWith .conflict "cannot delete default storage bucket"
  | .containsObjects => failWith .conflict "bucket still contains objects"
  | .query => databaseError

def removeBucket (s : Registry) (id : Int) : Except DeleteBucketError Registry :=
  match h : Rbac.deleteBucket s.db id {} with
  | .error err => .error err
  | .ok db =>
    .ok (s.withDb db (keepsAccess_deleteBucket h).1 (keepsAccess_deleteBucket h).2.1)

/-- The transaction of `hard_purge_object`. -/
def purgeObject (nodeId : Text) (now : Instant) (s : Registry) (record : ObjectRecord) : Registry :=
  s.withDb ((enqueueDeleteForActivePeers s.db now record.id record.filepath record.etag
    nodeId).deleteObjects fun r => r.id == record.id) rfl rfl

def callDelete (nodeId : Text) (now : Instant) (s : Registry) : DeleteStage → Registry × DeleteStage
  | .getBucket actor id => (s, .owns actor id ((getBucketById s.db id).map (·.name)))
  | .owns actor id name =>
    if accountOwnsBucket s.db actor id = false then
      (s, .answered (failWith .forbidden "only the bucket owner can delete this bucket"))
    else if name = some "storage".toList then
      (s, .answered (failWith .conflict "cannot delete default storage bucket"))
    else (s, .listObjectIds id)
  | .listObjectIds id => (s, .purge id (listObjectIdsInBucket s.db id))
  | .purge id [] => (s, .removeBucket id)
  | .purge id (objectId :: rest) =>
    match getObjectById s.db objectId with
    | none => (s, .answered (failWith .internalServerError "object not found"))
    | some record => (purgeObject nodeId now s record, .purge id rest)
  | .removeBucket id =>
    match removeBucket s id with
    | .error err => (s, .answered (deletionReply err))
    | .ok s' => (s', .answered .noContent)
  | .answered reply => (s, .answered reply)

inductive Task
  | bootstrap (t : Bootstrap.Task)
  | login (body : LoginBody) (token : Text) (stage : LoginStage)
  | regenerate (actor id : Int) (passwordHex salt : Text) (stage : ResetStage)
  | account (stage : AccountRequests.Stage)
  /-- `create_bucket`, `patch_bucket` and `delete_account`. -/
  | bucket (stage : BucketOwners.Stage)
  | role (stage : RoleStage)
  | deleteBucket (stage : DeleteStage)
  | dropped

structure Node where
  hasher : PasswordHasher
  settings : BucketOwners.Settings

/-- The next statement of a request, or its failure; `none` when the request is over. -/
def serve (node : Node) (now : Instant) (fails : Bool) (s : Registry) :
    Task → Option (Registry × Task)
  | .bootstrap t => (Bootstrap.authBootstrap now fails s t).map (Prod.map id .bootstrap)
  | .login body token stage =>
    if stage.isOver then none
    else if fails then some (s, .login body token (.failure .internalServerError none))
    else
      let (server, stage) := authLogin node.hasher now ⟨s, [], []⟩ body token stage
      some (server.registry, .login body token stage)
  | .regenerate actor id passwordHex salt stage =>
    if stage.isOver then none
    else
      let (server, stage) :=
        regeneratePassword node.hasher fails ⟨s, [], []⟩ actor id passwordHex salt stage
      some (server.registry, .regenerate actor id passwordHex salt stage)
  | .account stage =>
    if stage.isOver then none
    else if fails then some (s, .account stage.onFailure)
    else
      let (store, stage) := AccountRequests.call now ⟨s, fun _ => now.currentTimestamp⟩ stage
      some (store.registry, .account stage)
  | .bucket stage => (BucketOwners.serve node.settings fails s stage).map (Prod.map id .bucket)
  | .role (.answered _) => none
  | .role stage =>
    if fails then some (s, .role stage.onFailure)
    else some (Prod.map id .role (callRole s stage))
  | .deleteBucket (.answered _) => none
  | .deleteBucket stage =>
    if fails then some (s, .deleteBucket (.answered databaseError))
    else some (Prod.map id .deleteBucket (callDelete node.settings.nodeId now s stage))
  | .dropped => none

/-- A request of an account that is signed in. -/
inductive Request
  | createAccount (body : AccountRequests.NewAccount)
  | patchAccount (id : Int) (displayName : Option Text) (isDisabled : Option Bool)
  | deleteAccount (id : Int)
  | regeneratePassword (id : Int) (passwordHex salt : Text)
  | roles (req : RoleRequest)
  | createBucket (name : Text)
  | patchBucket (id : Int) (name : Option Text) (ownerAccountId : Option Int)
  | deleteBucket (id : Int)

def Request.start (actor : Int) : Request → Task
  | .createAccount body => .account (.createRequireOwner actor body)
  | .patchAccount id displayName isDisabled =>
    .account (.patchRequireOwner actor id displayName isDisabled)
  | .deleteAccount id => .bucket (BucketOwners.deleteAccount actor id)
  | .regeneratePassword id passwordHex salt => .regenerate actor id passwordHex salt .requireOwner
  | .roles req => .role (.requireOwner actor req)
  | .createBucket name => .bucket (BucketOwners.createBucket actor name)
  | .patchBucket id name ownerAccountId =>
    .bucket (BucketOwners.patchBucket actor id name ownerAccountId)
  | .deleteBucket id => .deleteBucket (.getBucket actor id)

inductive Action
  | bootstrap (draw : Bootstrap.Draw)
  | login (body : LoginBody) (token : Text)
  | request (actor : Int) (req : Request)
  | advance (i : Nat) (now : Instant) (fails : Bool)
  /-- The client goes away. -/
  | drop (i : Nat)
  | resolve (now : Instant) (token : Text)
  | logout (token : Text)
  /-- Everything else becomes as it is in another database: objects, shares, peers. -/
  | content (db : Db)

abbrev State := Pool Registry Task

def step (node : Node) (s : State) : Action → Option State
  | .bootstrap draw => some (s.spawn (.bootstrap ⟨draw, .accountCount⟩))
  | .login body token => some (s.spawn (.login body token .getAccount))
  | .request actor req =>
    if isAuthenticated s.shared.db actor then some (s.spawn (req.start actor)) else none
  | .advance i now fails => s.turn (serve node now fails) i
  | .drop i => (s.tasks[i]?).map fun _ => s.replace i s.shared .dropped
  | .resolve now token => some { s with shared := PasswordResets.resolve now token s.shared }
  | .logout token => some { s with shared := PasswordResets.logout token s.shared }
  | .content db =>
    if db.bucket.rows.map bucketKey = s.shared.db.bucket.rows.map bucketKey then
      some { s with shared := withContent s.shared db }
    else none

end MyS3.AccessRequests
