import MyS3.Http
import MyS3.Library.Encodings

/-!
Signed access tokens of `server/media_access.rs`. A token is its payload and
the HMAC of the payload under the media secret, in hex. The HMAC and the base64
of a key are functions of libraries; the bytes of a text are its UTF-8.
-/

namespace MyS3.MediaAccess

open Library.Strings Library.Timestamps
open Models Http

/-- Library functions: HMAC-SHA256 in hex, and base64 for URLs without padding. -/
structure MediaCodec where
  hmacHex : Bytes → Bytes → Text
  encode : Bytes → Text
  decode : Text → Option Bytes

/-- A codec that reads its values from tables. -/
def MediaCodec.tabulated (hmacs : List ((Bytes × Bytes) × Text)) (keys : List (Bytes × Text)) :
    MediaCodec where
  hmacHex secret payload := (hmacs.lookup (secret, payload)).getD []
  encode data := (keys.lookup data).getD []
  decode t := (keys.find? fun e => e.2 == t).map (·.1)

/-- The codec of the source: hexadecimal HMACs of some function, and base64 for URLs. -/
def MediaCodec.standard (hmac : Bytes → Bytes → Bytes) : MediaCodec where
  hmacHex secret payload := Library.Encodings.hexEncode (hmac secret payload)
  encode := Library.Encodings.base64Encode
  decode := Library.Encodings.base64Decode

/-- The UTF-8 of a text. -/
def asBytes (t : Text) : Bytes := t.flatMap String.utf8EncodeChar

def fromUtf8 (data : Bytes) : Option Text := (ByteArray.mk data.toArray).utf8Decode?.map (·.toList)

theorem fromUtf8_asBytes (t : Text) : fromUtf8 (asBytes t) = some t := by
  have hbytes : ByteArray.mk (asBytes t).toArray = t.utf8Encode := by
    apply ByteArray.ext
    exact List.data_toByteArray.symm
  unfold fromUtf8
  rw [hbytes, List.utf8Decode?_utf8Encode]
  rfl

inductive MediaGrant
  /-- Any key in the scope of the share, until the expiry. -/
  | share (shareId bucketId exp : Int)
  /-- One object key, until the expiry. -/
  | personal (accountId bucketId : Int) (key : Text) (exp : Int)
  deriving DecidableEq

def personalTtlSecs : Int := 24 * 3600

def mediaSecret (config : Config) : Text :=
  config.mediaLinkSecret.getD ("mys3-media-link:".toList ++ config.awsSecretAccessKey)

/-- Whole seconds since 1970; a clock before that counts as 1970. -/
def nowUnix (now : Instant) : Int := max (now.nanos / nanosPerSec) 0

def sign (M : MediaCodec) (secret payload : Text) : Text := M.hmacHex (asBytes secret) (asBytes payload)

def verifySig (M : MediaCodec) (secret payload sigHex : Text) : Bool :=
  sign M secret payload == sigHex

/-- A decimal integer with its sign. -/
def showInt (n : Int) : Text :=
  if n < 0 then '-' :: Nat.toDigits 10 n.natAbs else Nat.toDigits 10 n.natAbs

def personalPayload (M : MediaCodec) (accountId bucketId : Int) (key : Text) (exp : Int) : Text :=
  ['.'].intercalate ["v1".toList, "p".toList, showInt accountId, showInt bucketId,
    M.encode (asBytes key), showInt exp]

/-- A new token for one key, with its expiry. -/
def mintPersonalToken (M : MediaCodec) (config : Config) (now : Instant)
    (accountId bucketId : Int) (key : Text) : Text × Int :=
  let exp := now.nanos / nanosPerSec + personalTtlSecs
  let payload := personalPayload M accountId bucketId key exp
  (payload ++ '.' :: sign M (mediaSecret config) payload, exp)

def shareTokenMaxSecs : Int := 7 * 24 * 3600

def sharePayload (shareId bucketId exp : Int) : Text :=
  ['.'].intercalate ["v1".toList, "s".toList, showInt shareId, showInt bucketId, showInt exp]

/-- A new token for a share, with the instant of its expiry; the token carries whole seconds. -/
def mintShareToken (M : MediaCodec) (config : Config) (now : Instant) (share : ShareLinkRecord) :
    Except Text (Text × Int) :=
  let maxExp := now.nanos + shareTokenMaxSecs * nanosPerSec
  let exp :=
    match share.expiresAt with
    | some e => if e < maxExp then e else maxExp
    | none => maxExp
  if exp ≤ now.nanos then .error "share already expired".toList
  else
    let payload := sharePayload share.id share.bucketId (exp / nanosPerSec)
    .ok (payload ++ '.' :: sign M (mediaSecret config) payload, exp)

def orError {α : Type} (value : Option α) (message : String) : Except Text α :=
  match value with
  | some a => .ok a
  | none => .error message.toList

/-- The grant of a payload whose signature is right. -/
def parseGrant (M : MediaCodec) (now : Instant) (payload : Text) : Except Text MediaGrant :=
  match split '.' payload with
  | [['v', '1'], ['s'], shareId, bucketId, exp] => do
    let shareId ← orError (parseI64 shareId) "bad share_id"
    let bucketId ← orError (parseI64 bucketId) "bad bucket_id"
    let exp ← orError (parseI64 exp) "bad exp"
    if exp < nowUnix now then .error "access token expired".toList
    else .ok (.share shareId bucketId exp)
  | [['v', '1'], ['p'], accountId, bucketId, keyB64, exp] => do
    let accountId ← orError (parseI64 accountId) "bad account_id"
    let bucketId ← orError (parseI64 bucketId) "bad bucket_id"
    let exp ← orError (parseI64 exp) "bad exp"
    if exp < nowUnix now then .error "access token expired".toList
    else do
      let keyBytes ← orError (M.decode keyB64) "bad key encoding"
      let key ← orError (fromUtf8 keyBytes) "bad key utf8"
      .ok (.personal accountId bucketId key exp)
  | _ => .error "unknown access token format".toList

def verifyAccessToken (M : MediaCodec) (config : Config) (now : Instant) (token : Text) :
    Except Text MediaGrant :=
  let token := trim token
  if token = [] then .error "empty access token".toList
  else
    match rsplitOnce '.' token with
    | none => .error "malformed access token".toList
    | some (payload, sig) =>
      if verifySig M (mediaSecret config) payload sig then parseGrant M now payload
      else .error "invalid access token signature".toList

end MyS3.MediaAccess
