import MyS3.Http
import MyS3.Rbac

/-!
Authentication of a request by its session, as the extractors of
`server/session_auth.rs` do it, and the checks on the bucket that it names.
Resolving a session may delete it, so the extractors return the state as well.
-/

namespace MyS3.SessionAuth

open Library.Strings
open Models Objects Database Repository Rbac Http

def sessionCookie : Text := "mys3_session".toList

/-- The first nonempty value of the session cookie. -/
def cookieToken (cookie : Text) : Option Text :=
  (split ';' cookie).findSome? fun part =>
    ((stripPrefix (sessionCookie ++ ['=']) (trim part)).map trim).filter (· ≠ [])

def extractTokenFromHeaders (headers : Headers) : Option Text :=
  let bearer := ((headers.get "authorization".toList).bind id).bind fun value =>
    ((stripPrefix "Bearer ".toList (trim value)).map trim).filter (· ≠ [])
  bearer.orElse fun _ => ((headers.get "cookie".toList).bind id).bind cookieToken

def failWith {α : Type} (status : Status) (message : String) : Except Response α :=
  .error (.failure status (.message message.toList))

/-- A chain of checks passes when each of them does. -/
theorem bind_eq_ok {ε α β : Type} {x : Except ε α} {f : α → Except ε β} {b : β} :
    x >>= f = .ok b ↔ ∃ a, x = .ok a ∧ f a = .ok b := by
  cases x with
  | error e => simp [bind, Except.bind]
  | ok a => simp [bind, Except.bind]

/-- A chain of checks fails with the error of the first one that does. -/
theorem bind_eq_error {ε α β : Type} {x : Except ε α} {f : α → Except ε β} {e : ε} :
    x >>= f = .error e ↔ x = .error e ∨ ∃ a, x = .ok a ∧ f a = .error e := by
  cases x with
  | error e' => simp [bind, Except.bind]
  | ok a => simp [bind, Except.bind]

def authAccount (s : AppState) (now : Instant) (headers : Headers) :
    Except Response AccountRecord × AppState :=
  match extractTokenFromHeaders headers with
  | none => (failWith .unauthorized "authentication required", s)
  | some token =>
    match resolveSession s.db now token with
    | (some account, db) => (.ok account, { s with db := db })
    | (none, db) => (failWith .unauthorized "invalid or expired session", { s with db := db })

def optionalAuth (s : AppState) (now : Instant) (headers : Headers) :
    Option AccountRecord × AppState :=
  match extractTokenFromHeaders headers with
  | none => (none, s)
  | some token =>
    let (account, db) := resolveSession s.db now token
    (account, { s with db := db })

def requireBucketPerm (s : AppState) (accountId bucketId : Int) (action : CrudAction) :
    Except Response Unit :=
  if checkPerm s.db accountId bucketId action then .ok ()
  else failWith .forbidden "insufficient permissions"

theorem requireBucketPerm_ok {s : AppState} {accountId bucketId : Int} {action : CrudAction}
    {u : Unit} (h : requireBucketPerm s accountId bucketId action = .ok u) :
    checkPerm s.db accountId bucketId action = true := by
  unfold requireBucketPerm at h
  split_ifs at h with hperm
  · exact hperm
  · cases h

/-- A missing or blank name stands for the default bucket. -/
def resolveBucketId (s : AppState) (bucketName : Option Text) : Except Response (Int × Text) :=
  let name := ((bucketName.map trim).filter (· ≠ [])).getD "storage".toList
  match getBucketByName s.db name with
  | some b => .ok (b.id, b.name)
  | none =>
    .error (.failure .notFound
      (.message ("bucket '".toList ++ name ++ "' not found".toList)))

/-- Resolving a session touches no table but that of the sessions. -/
theorem resolveSession_frame (db : Db) (now : Instant) (token : Text) :
    (resolveSession db now token).2.object = db.object ∧
      (resolveSession db now token).2.bucket = db.bucket := by
  unfold resolveSession
  split
  · exact ⟨rfl, rfl⟩
  · split_ifs
    · exact ⟨rfl, rfl⟩
    · split
      · exact ⟨rfl, rfl⟩
      · split_ifs
        · exact ⟨rfl, rfl⟩
        · exact ⟨rfl, rfl⟩

/-- What an extractor leaves as it is. -/
structure SameData (s t : AppState) : Prop where
  config : t.config = s.config
  disk : t.disk = s.disk
  object : t.db.object = s.db.object
  bucket : t.db.bucket = s.db.bucket

theorem SameData.refl (s : AppState) : SameData s s := ⟨rfl, rfl, rfl, rfl⟩

theorem sameData_resolveSession (s : AppState) (now : Instant) (token : Text) :
    SameData s { s with db := (resolveSession s.db now token).2 } :=
  ⟨rfl, rfl, (resolveSession_frame s.db now token).1, (resolveSession_frame s.db now token).2⟩

theorem sameData_authAccount (s : AppState) (now : Instant) (headers : Headers) :
    SameData s (authAccount s now headers).2 := by
  unfold authAccount
  split
  · exact SameData.refl s
  · rename_i token _
    have h := sameData_resolveSession s now token
    split
    · rename_i hres
      rwa [hres] at h
    · rename_i hres
      rwa [hres] at h

theorem sameData_optionalAuth (s : AppState) (now : Instant) (headers : Headers) :
    SameData s (optionalAuth s now headers).2 := by
  unfold optionalAuth
  split
  · exact SameData.refl s
  · exact sameData_resolveSession s now _

end MyS3.SessionAuth
