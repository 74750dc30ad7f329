import MyS3.MediaAccess
import MyS3.SessionAuth

/-!
Share links of `db/shares.rs`, and who may use one: anybody for a public share,
and otherwise the holder of an access token for it, a reader of its bucket, or a
listed recipient.
-/

namespace MyS3.Shares

open Library.Strings
open Models Database Rbac Http MediaAccess SessionAuth

/-- The token column is unique. -/
def getShareByToken (db : Db) (token : Text) : Option ShareLinkRecord :=
  db.shareLink.find? fun share => share.token == token

/-- The short code column is unique. -/
def getShareByShortCode (db : Db) (code : Text) : Option ShareLinkRecord :=
  db.shareLink.find? fun share => share.shortCode == some code

inductive ShareDenyReason
  | revoked
  | expired
  deriving DecidableEq, Repr

def shareIsUsable (share : ShareLinkRecord) (now : Instant) : Except ShareDenyReason Unit :=
  if share.revokedAt.isSome then .error .revoked
  else if share.expiresAt.any (· < now.nanos) then .error .expired
  else .ok ()

def shareAllowsAccount (db : Db) (shareId accountId : Int) : Bool :=
  db.shareLinkUser.any fun u => u.shareId == shareId && u.accountId == accountId

def keyInShareScope (share : ShareLinkRecord) (key : Text) : Bool :=
  match share.targetKind with
  | .file => key == share.targetKey
  | .folder => startsWith share.targetKey key

def accessTokenGrantsShare (M : MediaCodec) (s : AppState) (now : Instant)
    (share : ShareLinkRecord) (access : Option Text) : Bool :=
  match (access.map trim).filter (· ≠ []) with
  | none => false
  | some raw =>
    match verifyAccessToken M s.config now raw with
    | .ok (.share shareId bucketId _) => shareId == share.id && bucketId == share.bucketId
    | _ => false

def authorizeShare (M : MediaCodec) (s : AppState) (now : Instant) (share : ShareLinkRecord)
    (auth : Option AccountRecord) (access : Option Text) : Except Response Unit :=
  match shareIsUsable share now with
  | .error _ => failWith .gone "share is no longer available"
  | .ok () =>
    match share.accessMode with
    | .publicAccess => .ok ()
    | .bucketReaders =>
      if accessTokenGrantsShare M s now share access then .ok ()
      else
        match auth with
        | none => failWith .unauthorized "authentication required"
        | some account =>
          if checkPerm s.db account.id share.bucketId .read then .ok ()
          else failWith .forbidden "insufficient permissions"
    | .specificUsers =>
      if accessTokenGrantsShare M s now share access then .ok ()
      else
        match auth with
        | none => failWith .unauthorized "authentication required"
        | some account =>
          if shareAllowsAccount s.db share.id account.id then .ok ()
          else failWith .forbidden "not on share recipient list"

def loadShareByToken (s : AppState) (token : Text) : Except Response ShareLinkRecord :=
  match getShareByToken s.db token with
  | some share => .ok share
  | none => failWith .notFound "share not found"

def loadShareByCode (s : AppState) (code : Text) : Except Response ShareLinkRecord :=
  match getShareByShortCode s.db code with
  | some share => .ok share
  | none => failWith .notFound "share not found"

end MyS3.Shares
