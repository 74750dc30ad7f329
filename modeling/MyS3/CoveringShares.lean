import MyS3.AccessTokens
import MyS3.ContentRoutes
import MyS3.FolderPrefixes
import MyS3.Library.SigV4

/-!
Links to shared files. The shares that cover a key are selected in SQL, with the target of
a folder as a LIKE pattern, and the content route tests the scope of a share by a prefix.
The two agree on every key when no character of a target is a wildcard or a letter. The
content route also trims the key of a link once more, so that a key which begins with
white space is read as another one.
-/

namespace MyS3.CoveringShares

open Library.Strings Library.Like Library.SigV4 Library.Timestamps
open Models Database Engine Repository Rbac Http Keys SessionAuth MediaAccess Shares
open ContentRoutes AccessTokens

/-- `ORDER BY created_at DESC`; rows of one second come in any order. -/
structure NewestFirst where
  sort : List ShareLinkRecord → List ShareLinkRecord
  perm : ∀ rows, (sort rows).Perm rows
  newest : ∀ rows, (sort rows).Pairwise fun a b => b.createdAt.secs ≤ a.createdAt.secs

/-- Whether a share covers a key, as the query tests it: the target of a folder is a pattern. -/
def coversKey (bucketId : Int) (key : Text) (share : ShareLinkRecord) : Bool :=
  share.bucketId == bucketId && share.revokedAt.isNone &&
    match share.targetKind with
    | .file => share.targetKey == key
    | .folder => like none (share.targetKey ++ ['%']) key

/-- A share of the bucket that is not revoked and has the key in its scope. -/
def inScope (bucketId : Int) (key : Text) (share : ShareLinkRecord) : Bool :=
  share.bucketId == bucketId && share.revokedAt.isNone && keyInShareScope share key

def listSharesCoveringKey (order : NewestFirst) (db : Db) (bucketId : Int) (key : Text) :
    List ShareLinkRecord :=
  order.sort (db.shareLink.filter (coversKey bucketId key))

def listFolderSharesForPrefix (order : NewestFirst) (db : Db) (bucketId : Int) (pre : Text) :
    List ShareLinkRecord :=
  order.sort (db.shareLink.filter fun share => share.bucketId == bucketId &&
    share.revokedAt.isNone && share.targetKind == .folder && share.targetKey == pre)

/-- Best covering share: public first, then exact file match, then newest. -/
def preferShareForLink (now : Instant) (shares : List ShareLinkRecord) (fileKey : Option Text) :
    Option ShareLinkRecord :=
  let usable := shares.filter fun share => (shareIsUsable share now).isOk
  (usable.find? fun share => share.accessMode == .publicAccess).orElse fun _ =>
    (fileKey.bind fun key =>
      usable.find? fun share => share.targetKind == .file && share.targetKey == key).orElse
      fun _ => usable.head?

def shareNeedsAccessToken (mode : ShareAccessMode) : Bool := mode != .publicAccess

def encodeKeyPath (key : Text) : Text :=
  ['/'].intercalate ((split '/' key).map fun segment => uriEncode (asBytes segment))

/-- The route of the content of a share, up to the key. -/
def shareContentBase (share : ShareLinkRecord) : Text :=
  match share.shortCode with
  | some code => "/api/v1/shares/by-code/".toList ++ code ++ "/content/".toList
  | none => "/api/v1/shares/by-token/".toList ++ share.token ++ "/content/".toList

def shareContentPath (share : ShareLinkRecord) (key : Text) : Text :=
  shareContentBase share ++ encodeKeyPath key

def sharePagePath (share : ShareLinkRecord) : Text :=
  match share.shortCode with
  | some code => "/s/".toList ++ code
  | none => "/share/".toList ++ share.token

def personalContentPath (bucket key : Text) : Text :=
  "/api/v1/media/content/".toList ++ encodeKeyPath key ++ "?bucket=".toList ++
    uriEncode (asBytes bucket)

/-- A link, with the access token of its query kept apart. -/
structure MediaLinkResponse where
  path : Text
  access : Option Text
  accessMode : Option ShareAccessMode
  auth : Text
  expiresAt : Option Int
  deriving DecidableEq

structure MediaLinkBody where
  bucket : Option Text := none
  key : Text
  kind : ShareTargetKind

/-- A link to a path of a share, with an access token unless the share is public. -/
def shareLink (M : MediaCodec) (config : Config) (now : Instant) (share : ShareLinkRecord)
    (path : Text) : Except Response MediaLinkResponse :=
  if shareNeedsAccessToken share.accessMode then
    match mintShareToken M config now share with
    | .ok (tok, exp) =>
      .ok {
        path := path
        access := some tok
        accessMode := some share.accessMode
        auth := "token".toList
        expiresAt := some exp }
    | .error err => .error (.failure .internalServerError (.message err))
  else
    .ok {
      path := path
      access := none
      accessMode := some share.accessMode
      auth := "none".toList
      expiresAt := share.expiresAt }

/-- The link to an object: of the preferred share that covers it, or a personal one. The
clock is read for the choice and again for the token. -/
def fileLink (M : MediaCodec) (order : NewestFirst) (s : AppState) (now mintNow : Instant)
    (accountId bucketId : Int) (bucketName key : Text) : Except Response MediaLinkResponse :=
  match preferShareForLink now (listSharesCoveringKey order s.db bucketId key) (some key) with
  | some share => shareLink M s.config mintNow share (shareContentPath share key)
  | none =>
    let (tok, _) := mintPersonalToken M s.config mintNow accountId bucketId key
    .ok {
      path := personalContentPath bucketName key
      access := some tok
      accessMode := none
      auth := "token".toList
      expiresAt := some (mintNow.nanos + personalTtlSecs * nanosPerSec) }

/-- `create_media_link`; `listFails` is a failure of the query of shares. -/
def createMediaLink (M : MediaCodec) (order : NewestFirst) (s : AppState) (now mintNow : Instant)
    (accountId : Int) (body : MediaLinkBody) (listFails : Bool) :
    Except Response MediaLinkResponse := do
  let (bucketId, bucketName) ← resolveBucketId s body.bucket
  requireBucketPerm s accountId bucketId .read
  match body.kind with
  | .folder =>
    match normalizeFolderPrefix body.key with
    | .error msg => .error (.failure .badRequest (.message msg))
    | .ok pre =>
      if listFails then .error databaseError
      else
        match preferShareForLink now (listFolderSharesForPrefix order s.db bucketId pre) none with
        | none => failWith .conflict "create a share for this folder first"
        | some share => shareLink M s.config mintNow share (sharePagePath share)
  | .file => do
    let key ← parseKey body.key
    if (getObjectByFilenameInBucket s.db key bucketId).isNone then
      failWith .notFound "object not found"
    else if listFails then .error databaseError
    else fileLink M order s now mintNow accountId bucketId bucketName key

/-- The link that `create_media_link` answers with for a file is that of the parsed key. -/
theorem createMediaLink_file {M : MediaCodec} {order : NewestFirst} {s : AppState}
    {now mintNow : Instant} {accountId : Int} {body : MediaLinkBody} {listFails : Bool}
    {answer : MediaLinkResponse} (hkind : body.kind = .file)
    (h : createMediaLink M order s now mintNow accountId body listFails = .ok answer) :
    ∃ bucketId bucketName key, resolveBucketId s body.bucket = .ok (bucketId, bucketName) ∧
      checkPerm s.db accountId bucketId .read = true ∧ normalizeObjectKey body.key = .ok key ∧
      fileLink M order s now mintNow accountId bucketId bucketName key = .ok answer := by
  unfold createMediaLink at h
  obtain ⟨⟨bucketId, bucketName⟩, hbucket, h⟩ := bind_eq_ok.mp h
  obtain ⟨_, hperm, h⟩ := bind_eq_ok.mp h
  rw [hkind] at h
  obtain ⟨key, hparse, h⟩ := bind_eq_ok.mp h
  have hkey : normalizeObjectKey body.key = .ok key := by
    unfold parseKey at hparse
    split at hparse
    · cases hparse
    · rename_i k hk
      cases hparse
      exact hk
  refine ⟨bucketId, bucketName, key, hbucket, requireBucketPerm_ok hperm, hkey, ?_⟩
  split_ifs at h with hmissing hfails
  · cases h
  · exact h

/-- The key that the router hands to the content route of a share for a path. -/
def routedKey (share : ShareLinkRecord) (path : Text) : Option Text :=
  (stripPrefix (shareContentBase share) path).bind fun raw => fromUtf8 (percentDecode raw)

def outsideScope : Response := .failure .forbidden (.message "key outside share scope".toList)

/-- Nobody who follows a path of a share is ever refused because of the scope of the share. -/
def NeverOutside (share : ShareLinkRecord) (path : Text) : Prop :=
  ∀ M s now auth access rawKey, routedKey share path = some rawKey →
    shareGrant M s now share auth rawKey access ≠ .error outsideScope

/-- The shares that cover a key are those whose scope has it, and the link to the file is
in the scope of its share. -/
structure CoversExactly (M : MediaCodec) (order : NewestFirst) (s : AppState)
    (now mintNow : Instant) (bucketId : Int) (key : Text) : Prop where
  listed : (listSharesCoveringKey order s.db bucketId key).Perm
    (s.db.shareLink.filter (inScope bucketId key))
  link : ∀ accountId bucketName share answer,
    preferShareForLink now (listSharesCoveringKey order s.db bucketId key) (some key) =
      some share → fileLink M order s now mintNow accountId bucketId bucketName key = .ok answer →
      NeverOutside share answer.path

/-- The router decodes the path of a key to the key. -/
theorem decode_encodeKeyPath (key : Text) :
    fromUtf8 (percentDecode (encodeKeyPath key)) = some key := by
  have hdecode : percentDecode (encodeKeyPath key) = asBytes key := by
    have hsegments := percentDecode_segments (split '/' key)
    unfold split at hsegments
    rwa [List.intercalate_splitOn] at hsegments
  rw [hdecode, fromUtf8_asBytes]

theorem routedKey_shareContentPath (share : ShareLinkRecord) (key : Text) :
    routedKey share (shareContentPath share key) = some key := by
  have hstrip : stripPrefix (shareContentBase share) (shareContentPath share key) =
      some (encodeKeyPath key) := stripPrefix_eq_some.mpr rfl
  unfold routedKey
  rw [hstrip, Option.bind_some, decode_encodeKeyPath]

/-- Some user of some state is admitted to a share that can be used. -/
theorem exists_admitted (M : MediaCodec) {share : ShareLinkRecord} {now : Instant}
    (h : shareIsUsable share now = .ok ()) :
    ∃ s auth, authorizeShare M s now share auth none = .ok () := by
  let account : AccountRecord := ⟨1, [], [], [], false, none⟩
  let db : Db := { Db.migrated with
    accountRole := [⟨1, 1⟩]
    shareLinkUser := [⟨share.id, 1⟩] }
  refine ⟨{ AppState.migrated [] with db := db }, some account, ?_⟩
  have hread : checkPerm db 1 share.bucketId .read = true := by
    have howner : accountIsOwner db 1 = true := rfl
    have hperms : effectivePerms db 1 share.bucketId = .full := by
      simp only [effectivePerms, howner, if_true, ite_self]
    rw [checkPerm, hperms]
    rfl
  have hlisted : shareAllowsAccount db share.id 1 = true := by
    simp [shareAllowsAccount, db]
  unfold authorizeShare
  rw [h]
  cases share.accessMode with
  | publicAccess => rfl
  | bucketReaders =>
    change (if _ then _ else if checkPerm db 1 share.bucketId .read then _ else _) = _
    rw [hread, if_pos rfl, ite_self]
  | specificUsers =>
    change (if _ then _ else if shareAllowsAccount db share.id 1 then _ else _) = _
    rw [hlisted, if_pos rfl, ite_self]

theorem authorizeShare_ne_outside (M : MediaCodec) (s : AppState) (now : Instant)
    (share : ShareLinkRecord) (auth : Option AccountRecord) (access : Option Text) :
    authorizeShare M s now share auth access ≠ .error outsideScope := by
  intro h
  unfold authorizeShare at h
  simp only [failWith, outsideScope] at h
  repeat' split at h
  all_goals simp at h

/-- A link is refused because of the scope of its share exactly when the key, trimmed once
more, is outside of it. -/
theorem neverOutside_iff {share : ShareLinkRecord} {now : Instant} {key : Text}
    (husable : shareIsUsable share now = .ok ()) :
    NeverOutside share (shareContentPath share key) ↔
      ∀ again, normalizeObjectKey key = .ok again → keyInShareScope share again = true := by
  unfold NeverOutside
  simp only [routedKey_shareContentPath, Option.some.injEq, forall_eq']
  constructor
  · intro h again hagain
    by_contra hscope
    obtain ⟨s, auth, hallow⟩ := exists_admitted (MediaCodec.tabulated [] []) husable
    refine h (MediaCodec.tabulated [] []) s now auth none ?_
    unfold shareGrant parseKey
    rw [hallow, hagain]
    change (if _ then _ else _) = _
    rw [if_neg hscope]
    rfl
  · intro h M s now auth access hrefused
    rcases bind_eq_error.mp hrefused with hallow | ⟨_, _, hparse⟩
    · exact authorizeShare_ne_outside M s now share auth access hallow
    · unfold parseKey at hparse
      cases hkey : normalizeObjectKey key with
      | error msg =>
        rw [hkey] at hparse
        cases hparse
      | ok again =>
        rw [hkey] at hparse
        change (if keyInShareScope share again then _ else _) = _ at hparse
        rw [h again hkey, if_pos rfl] at hparse
        cases hparse

theorem shareLink_path {M : MediaCodec} {config : Config} {now : Instant} {share : ShareLinkRecord}
    {path : Text} {answer : MediaLinkResponse}
    (h : shareLink M config now share path = .ok answer) : answer.path = path := by
  unfold shareLink at h
  split at h
  · split at h
    · cases h
      rfl
    · cases h
  · cases h
    rfl

/-- A link is made unless its access token would be expired at once. -/
theorem shareLink_ok_iff (M : MediaCodec) (config : Config) (now : Instant)
    (share : ShareLinkRecord) (path : Text) :
    (∃ answer, shareLink M config now share path = .ok answer) ↔
      share.accessMode = .publicAccess ∨ ∀ e, share.expiresAt = some e → now.nanos < e := by
  unfold shareLink shareNeedsAccessToken
  by_cases hpublic : share.accessMode = .publicAccess
  · simp [hpublic]
  · have htoken : (share.accessMode != .publicAccess) = true := bne_iff_ne.mpr hpublic
    have hlasts : ¬ shareExpiry now share ≤ now.nanos ↔
        ∀ e, share.expiresAt = some e → now.nanos < e := by
      unfold shareExpiry shareTokenMaxSecs nanosPerSec
      cases share.expiresAt with
      | none =>
        simp only [reduceCtorEq, false_implies, implies_true, iff_true]
        omega
      | some e =>
        simp only [Option.some.injEq, forall_eq']
        split_ifs with hearly
        · omega
        · omega
    rw [if_pos htoken, mintShareToken_eq, ← hlasts, or_iff_right hpublic]
    split_ifs with hover
    · simp [hover]
    · simp [hover]

theorem inScope_covers {bucketId : Int} {key : Text} {share : ShareLinkRecord}
    (h : inScope bucketId key share = true) : coversKey bucketId key share = true := by
  unfold inScope keyInShareScope at h
  unfold coversKey
  rw [Bool.and_eq_true] at h ⊢
  refine ⟨h.1, ?_⟩
  have hscope := h.2
  cases hkind : share.targetKind with
  | file =>
    rw [hkind] at hscope
    simp only [beq_iff_eq] at hscope ⊢
    exact hscope.symm
  | folder =>
    rw [hkind] at hscope
    exact like_none_of_prefix (startsWith_iff.mp hscope)

theorem covers_inScope_iff {bucketId : Int} {key : Text} {share : ShareLinkRecord} :
    (coversKey bucketId key share = true → inScope bucketId key share = true) ↔
      (share.bucketId = bucketId → share.revokedAt = none → share.targetKind = .folder →
        like none (share.targetKey ++ ['%']) key = true → share.targetKey <+: key) := by
  unfold coversKey inScope keyInShareScope
  cases hkind : share.targetKind with
  | file =>
    simp only [reduceCtorEq, false_implies, implies_true, iff_true, Bool.and_eq_true, beq_iff_eq]
    intro h
    obtain ⟨hrow, hkey⟩ := h
    exact ⟨hrow, hkey.symm⟩
  | folder =>
    simp only [Bool.and_eq_true, beq_iff_eq, Option.isNone_iff_eq_none, startsWith_iff, true_implies]
    tauto

theorem listSharesCoveringKey_eq (order : NewestFirst) {db : Db} {bucketId : Int} {key : Text}
    (h : ∀ share ∈ db.shareLink,
      coversKey bucketId key share = true → inScope bucketId key share = true) :
    listSharesCoveringKey order db bucketId key =
      order.sort (db.shareLink.filter (inScope bucketId key)) := by
  unfold listSharesCoveringKey
  congr 1
  exact List.filter_congr fun share hmem =>
    Bool.eq_iff_iff.mpr ⟨h share hmem, inScope_covers⟩

theorem perm_inScope_iff (order : NewestFirst) (db : Db) (bucketId : Int) (key : Text) :
    (listSharesCoveringKey order db bucketId key).Perm (db.shareLink.filter (inScope bucketId key)) ↔
      ∀ share ∈ db.shareLink,
        coversKey bucketId key share = true → inScope bucketId key share = true := by
  constructor
  · intro h share hmem hcovers
    have hlisted := (order.perm _).mem_iff.mpr (List.mem_filter.mpr ⟨hmem, hcovers⟩)
    exact (List.mem_filter.mp (h.mem_iff.mp hlisted)).2
  · intro h
    rw [listSharesCoveringKey_eq order h]
    exact order.perm _

/-- The query of covering shares is right for every key exactly when no target of a folder
has a wildcard or a letter. -/
theorem covers_every_key_iff (order : NewestFirst) (db : Db) (bucketId : Int) :
    (∀ key, (listSharesCoveringKey order db bucketId key).Perm
        (db.shareLink.filter (inScope bucketId key))) ↔
      ∀ share ∈ db.shareLink, share.bucketId = bucketId → share.revokedAt = none →
        share.targetKind = .folder → ∀ c ∈ share.targetKey, Plain c := by
  simp only [perm_inScope_iff, covers_inScope_iff]
  constructor
  · intro h share hmem hbucket hactive hfolder
    refine like_none_prefix_iff.mp fun key => ⟨?_, like_none_of_prefix⟩
    exact h key share hmem hbucket hactive hfolder
  · intro h key share hmem hbucket hactive hfolder
    exact (like_none_prefix_iff.mpr (h share hmem hbucket hactive hfolder) key).mp

theorem usable_of_preferred {now : Instant} {shares : List ShareLinkRecord} {fileKey : Option Text}
    {share : ShareLinkRecord} (h : preferShareForLink now shares fileKey = some share) :
    shareIsUsable share now = .ok () := by
  have hmem : share ∈ shares.filter fun share => (shareIsUsable share now).isOk := by
    unfold preferShareForLink at h
    simp only [Option.orElse_eq_or, Option.or_eq_some_iff] at h
    rcases h with hpublic | ⟨_, hfile | ⟨_, hfirst⟩⟩
    · exact List.mem_of_find?_eq_some hpublic
    · obtain ⟨key, _, hfile⟩ := Option.bind_eq_some_iff.mp hfile
      exact List.mem_of_find?_eq_some hfile
    · exact List.mem_of_head? hfirst
  have hok := (List.mem_filter.mp hmem).2
  cases hshare : shareIsUsable share now with
  | error reason => rw [hshare] at hok; cases hok
  | ok _ => rfl

/-- The order that keeps the rows of one second as the table has them. -/
def NewestFirst.stable : NewestFirst where
  sort rows := rows.insertionSort fun a b => b.createdAt.secs ≤ a.createdAt.secs
  perm rows := List.perm_insertionSort _ rows
  newest rows :=
    haveI : Std.Total fun a b : ShareLinkRecord => b.createdAt.secs ≤ a.createdAt.secs :=
      ⟨fun a b => le_total b.createdAt.secs a.createdAt.secs⟩
    haveI : IsTrans ShareLinkRecord fun a b => b.createdAt.secs ≤ a.createdAt.secs :=
      ⟨fun _ _ _ hab hbc => le_trans hbc hab⟩
    List.pairwise_insertionSort _ rows

/-- A node with an object put under a key, a public share of a target, and an Owner. -/
def sharing (raw target : Text) (kind : ShareTargetKind) : AppState :=
  let s := FolderPrefixes.holding [raw]
  { s with
    db := { s.db with
      accountRole := [⟨1, 1⟩]
      shareLink := [{ sampleShare with targetKey := target, targetKind := kind }] } }

/-- The link to the object, followed without a session. -/
def followed (raw target : Text) (kind : ShareTargetKind) : Except Response (Int × Text) := do
  let s := sharing raw target kind
  let M := MediaCodec.tabulated [] []
  let link ← createMediaLink M .stable s Instant.epoch Instant.epoch 1
    { key := raw, kind := .file } false
  let share ← loadShareByToken s "token".toList
  shareGrant M s Instant.epoch share none ((routedKey share link.path).getD []) none

end MyS3.CoveringShares
