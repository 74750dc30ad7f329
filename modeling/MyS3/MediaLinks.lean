import MyS3.MediaUrls

/-!
Media links, from the request that makes one to the bytes that are read through it. The holder of
an access token is admitted until the token expires, and the row of a share stays as it is until
it is revoked, so that a link opens what it was made for in every later state of the node.
-/

namespace MyS3.MediaLinks

open Library.Strings Library.Tables Library.Interleaving Library.Runs Library.Timestamps
open Library.FormQuery
open Models Objects Database Engine Repository Listings Rbac Http Keys SessionAuth MediaAccess
open Shares ContentRoutes S3Routes AccessTokens ShareListings CoveringShares
open ShareCreation ShareRequests ShareLinks ShareRights ShareUrls MediaUrls

/-- The answer to a request for content; `none` where the URL has another route. -/
def openContent (node : Node) (s : Shared) (headers : Headers) (url : Text) : Option Served :=
  match endpointOf (urlPath url) with
  | some (.media rawKey) =>
    some <| match mediaContentQuery (queryPairs url) with
    | .error response => ⟨none, response⟩
    | .ok (bucket, access) =>
      mediaContentByAccess node.platform node.codec node.limit s.app s.now rawKey bucket access
        headers
  | some (.content name rawKey) =>
    some <| match accessQuery (queryPairs url) with
    | .error response => ⟨none, response⟩
    | .ok access =>
      match name with
      | .token token =>
        shareContentByToken node.platform node.codec node.limit s.app s.now token rawKey access
          headers
      | .code code =>
        shareContentByCode node.platform node.codec node.limit s.app s.now code rawKey access
          headers
  | _ => none

/-- The answer to a request for the listing of a shared folder. -/
def openListing (node : Node) (s : Shared) (headers : Headers) (url : Text) :
    Option (Except Response (Option PrefixListResult)) :=
  match endpointOf (urlPath url) with
  | some (.listing name) =>
    some <| match shareListQuery (queryPairs url) with
    | .error response => .error response
    | .ok q =>
      match name with
      | .token token => shareListByToken node.codec node.platform node.instant s.app s.now token q
          headers false
      | .code code => shareListByCode node.codec node.platform node.instant s.app s.now code q
          headers false
  | _ => none

section Standard

variable {hmac : Bytes → Bytes → Bytes}

theorem tokenOf_ne_nil (M : MediaCodec) (config : Config) (grant : MediaGrant) :
    tokenOf M config grant ≠ [] := by
  unfold tokenOf
  exact List.append_ne_nil_of_right_ne_nil _ (List.cons_ne_nil _ _)

theorem trim_tokenOf (config : Config) (grant : MediaGrant) :
    trim (tokenOf (.standard hmac) config grant) = tokenOf (.standard hmac) config grant :=
  trim_signed hmac grant fun _ => mem_sign hmac

/-- A token that has not expired, read by a node with the same secret. -/
theorem verifyAccessToken_later {config config' : Config}
    (hsecret : mediaSecret config' = mediaSecret config) {grant : MediaGrant}
    (hrange : InRange grant) {now : Instant} (htime : nowUnix now ≤ expOf grant) :
    verifyAccessToken (.standard hmac) config' now (tokenOf (.standard hmac) config grant) =
      .ok grant := by
  have htoken : tokenOf (.standard hmac) config grant = tokenOf (.standard hmac) config' grant := by
    unfold tokenOf
    rw [hsecret]
  rw [htoken, verifyAccessToken_tokenOf hmac config' hrange, if_neg (not_lt.mpr htime)]

/-- A clock within the time of a token, in whole seconds. -/
theorem nowUnix_le {now : Instant} {exp : Int} (hpos : 0 ≤ exp) (h : now.nanos ≤ exp) :
    nowUnix now ≤ exp / nanosPerSec := by
  unfold nowUnix nanosPerSec
  omega

/-- What a share link gives its holder, until the link expires. -/
structure Admitted (M : MediaCodec) (s : AppState) (later : Instant) (share : ShareLinkRecord)
    (access : Option Text) : Prop where
  usable : shareIsUsable share later = .ok ()
  mode : share.accessMode = .publicAccess ∨ accessTokenGrantsShare M s later share access = true

theorem usable_until {share : ShareLinkRecord} {later : Instant} (hrevoked : share.revokedAt = none)
    (htime : ∀ e, share.expiresAt = some e → later.nanos ≤ e) :
    shareIsUsable share later = .ok () := by
  have hfresh : share.expiresAt.any (· < later.nanos) = false := by
    cases hexp : share.expiresAt with
    | none => rfl
    | some e => exact decide_eq_false (not_lt.mpr (htime e hexp))
  unfold shareIsUsable
  rw [hrevoked, hfresh]
  rfl

theorem le_of_shareExpiry {mintNow : Instant} {share : ShareLinkRecord} {e : Int}
    (h : share.expiresAt = some e) : shareExpiry mintNow share ≤ e := by
  unfold shareExpiry
  rw [h]
  simp only
  split_ifs with hlt
  · exact le_rfl
  · exact not_lt.mp hlt

/-- The token of a link, where it has one, is that of its share. -/
theorem shareLink_access {config : Config} {mintNow : Instant} {share : ShareLinkRecord}
    {path : Text} {link : MediaLinkResponse}
    (h : shareLink (.standard hmac) config mintNow share path = .ok link) :
    (share.accessMode = .publicAccess ∧ link.access = none ∧ link.expiresAt = share.expiresAt) ∨
      ∃ exp, mintNow.nanos < exp ∧ exp = shareExpiry mintNow share ∧ link.expiresAt = some exp ∧
        (MintCall.share share).mint (.standard hmac) config mintNow =
          .ok (tokenOf (.standard hmac) config
            ((MintCall.share share).grant (exp / nanosPerSec)), exp / nanosPerSec) ∧
        link.access = some (tokenOf (.standard hmac) config
          ((MintCall.share share).grant (exp / nanosPerSec))) := by
  unfold shareLink shareNeedsAccessToken at h
  split_ifs at h with hmode
  · right
    cases hmint : mintShareToken (.standard hmac) config mintNow share with
    | error err =>
      rw [hmint] at h
      cases h
    | ok pair =>
      obtain ⟨tok, exp⟩ := pair
      obtain ⟨rfl, hafter, _⟩ := mintShareToken_ok hmint
      rw [hmint] at h
      cases h
      refine ⟨exp, hafter, ?_, rfl, ?_, rfl⟩
      · rw [mintShareToken_eq] at hmint
        split_ifs at hmint
        exact (Prod.mk.inj (Except.ok.inj hmint)).2.symm
      · simp only [MintCall.mint, hmint]
        rfl
  · left
    cases h
    exact ⟨by simpa using hmode, rfl, rfl⟩

/-- The holder of a share link is admitted until the link expires. -/
theorem shareLink_admits {config : Config} {mintNow : Instant} {share : ShareLinkRecord}
    {path : Text} {link : MediaLinkResponse}
    (h : shareLink (.standard hmac) config mintNow share path = .ok link)
    (hclock : 0 ≤ mintNow.nanos) (hids : IsI64 share.id ∧ IsI64 share.bucketId)
    (hrevoked : share.revokedAt = none) {s : AppState} {later : Instant}
    (hsecret : mediaSecret s.config = mediaSecret config)
    (htime : ∀ e, link.expiresAt = some e → later.nanos ≤ e) :
    Admitted (.standard hmac) s later share link.access := by
  rcases shareLink_access h with hpublic | ⟨exp, hafter, hexp, hexpires, hmint, haccess⟩
  · obtain ⟨hmode, _, hexpires⟩ := hpublic
    exact ⟨usable_until hrevoked fun e he => htime e (hexpires.trans he), Or.inl hmode⟩
  · have hlater : later.nanos ≤ exp := htime exp hexpires
    have hrange : MintCall.InRange (.share share) := hids
    have hunix : nowUnix later ≤ expOf ((MintCall.share share).grant (exp / nanosPerSec)) := by
      rw [expOf_grant]
      exact nowUnix_le (by omega) hlater
    have hverify : verifyAccessToken (.standard hmac) s.config later
        (tokenOf (.standard hmac) config ((MintCall.share share).grant (exp / nanosPerSec))) =
          .ok ((MintCall.share share).grant (exp / nanosPerSec)) :=
      verifyAccessToken_later hsecret (inRange_grant hrange hmint) hunix
    refine ⟨usable_until hrevoked fun e he => ?_, Or.inr ?_⟩
    · exact (hexp ▸ hlater).trans (le_of_shareExpiry he)
    · have hkeep : decide (tokenOf (.standard hmac) config
          ((MintCall.share share).grant (exp / nanosPerSec)) ≠ []) = true :=
        decide_eq_true (tokenOf_ne_nil _ _ _)
      unfold accessTokenGrantsShare
      rw [haccess, Option.map_some, trim_tokenOf, Option.filter_some, if_pos hkeep]
      simp only
      rw [hverify]
      simp [MintCall.grant]

theorem access_ne_nil {config : Config} {mintNow : Instant} {share : ShareLinkRecord}
    {path : Text} {link : MediaLinkResponse}
    (h : shareLink (.standard hmac) config mintNow share path = .ok link) :
    ∀ tok, link.access = some tok → tok ≠ [] := by
  intro tok htok
  rcases shareLink_access h with ⟨_, hnone, _⟩ | ⟨exp, _, _, _, _, haccess⟩
  · rw [hnone] at htok
    cases htok
  · rw [haccess] at htok
    exact Option.some.inj htok ▸ tokenOf_ne_nil _ _ _

end Standard

theorem authorizeShare_admitted {M : MediaCodec} {s : AppState} {now : Instant}
    {share : ShareLinkRecord} {access : Option Text} (h : Admitted M s now share access)
    (auth : Option AccountRecord) : authorizeShare M s now share auth access = .ok () := by
  unfold authorizeShare
  rw [h.usable]
  rcases h.mode with hpublic | hgrants
  · rw [hpublic]
  · rw [hgrants]
    cases share.accessMode <;> rfl

theorem resolveSession_links (db : Db) (now : Instant) (token : Text) :
    (resolveSession db now token).2.shareLink = db.shareLink := by
  unfold resolveSession
  split
  · rfl
  · split_ifs
    · rfl
    · split
      · rfl
      · split_ifs <;> rfl

theorem optionalAuth_links (s : AppState) (now : Instant) (headers : Headers) :
    (optionalAuth s now headers).2.db.shareLink = s.db.shareLink := by
  unfold optionalAuth
  split
  · rfl
  · exact resolveSession_links s.db now _

theorem parseKey_ok {key : Text} (h : normalizeObjectKey key = .ok key) :
    parseKey key = .ok key := by
  unfold parseKey
  rw [h]

theorem step_config {node : Node} {p q : State} {a : Action} (h : step node p a = some q) :
    q.shared.config = p.shared.config := by
  cases a with
  | advance i fails =>
    obtain ⟨t, s', u, _, hserve, rfl⟩ := Pool.turn_eq_some.mp h
    exact (serve_wrote hserve).config
  | drop i =>
    obtain ⟨t, _, rfl⟩ := Option.map_eq_some_iff.mp h
    rfl
  | tick now =>
    simp only [step] at h
    split_ifs at h
    rw [← Option.some.inj h]
  | others db disk => rw [← Option.some.inj h]
  | _ =>
    rw [← Option.some.inj h]
    rfl

/-- No request changes the configuration of the node, its secrets among it. -/
theorem run_config {node : Node} {p q : State} (h : Run (step node) anyAction p q) :
    q.shared.config = p.shared.config := by
  induction h with
  | refl => rfl
  | tail a _ _ hnext ih => exact (step_config hnext).trans ih

/-- A link that is not revoked later is the same row. -/
theorem link_kept {node : Node} {p q : State} (hq : Run (step node) anyAction p q)
    {share : ShareLinkRecord} (hshare : share ∈ p.shared.links) (hactive : share.revokedAt = none)
    (hkept : ∀ row ∈ q.shared.links, row.id = share.id → row.revokedAt = none) :
    share ∈ q.shared.links := by
  obtain ⟨row, hrow, hlater⟩ := (run_grown hq).kept share hshare
  have hrowactive := hkept row hrow hlater.same.id_eq.symm
  have hrow' : row = share := by
    have hsame : { row with revokedAt := none } = { share with revokedAt := none } :=
      hlater.same.symm
    rw [show row = { row with revokedAt := none } by rw [← hrowactive], hsame, ← hactive]
  exact hrow' ▸ hrow

theorem load_kept {s : Shared} {share : ShareLinkRecord} (hunique : s.links.Pairwise Apart)
    (hshare : share ∈ s.links) (headers : Headers) :
    (nameOf share).load (optionalAuth s.app s.now headers).2.db = some share := by
  have hfound := load_nameOf hunique hshare
  unfold ShareName.load getShareByToken getShareByShortCode at *
  rwa [optionalAuth_links]

/-- The holder of a link is served the content of a key in its scope, by whatever URL the route
gets the name of the link, the access token and the key. -/
theorem serves_share {node : Node} {s : Shared} {headers : Headers} {url : Text}
    {share : ShareLinkRecord} {access : Option Text} {key : Text}
    (hendpoint : endpointOf (urlPath url) = some (.content (nameOf share) key))
    (hquery : accessQuery (queryPairs url) = .ok access)
    (hunique : s.links.Pairwise Apart) (hshare : share ∈ s.links)
    (hadmitted : Admitted node.codec (optionalAuth s.app s.now headers).2 s.now share access)
    (hkey : normalizeObjectKey key = .ok key) (hscope : keyInShareScope share key = true) :
    openContent node s headers url =
      some (serveGranted node.platform node.limit (optionalAuth s.app s.now headers).2 headers
        objectNotFound (.ok (share.bucketId, key))) := by
  have hload := load_kept hunique hshare headers
  have hgrant : shareGrant node.codec (optionalAuth s.app s.now headers).2 s.now share
      (optionalAuth s.app s.now headers).1 key access = .ok (share.bucketId, key) := by
    unfold shareGrant
    rw [authorizeShare_admitted hadmitted, parseKey_ok hkey]
    change (if _ then _ else _) = _
    rw [if_pos hscope]
    rfl
  unfold openContent
  rw [hendpoint]
  simp only
  rw [hquery]
  simp only
  generalize nameOf share = name at hload
  cases name with
  | token token =>
    have hfound : getShareByToken (optionalAuth s.app s.now headers).2.db token = some share := hload
    simp only [shareContentByToken, loadShareByToken, hfound, contentForShare, hgrant]
  | code code =>
    have hfound : getShareByShortCode (optionalAuth s.app s.now headers).2.db code = some share :=
      hload
    simp only [shareContentByCode, loadShareByCode, hfound, contentForShare, hgrant]

/-- The holder of a link to a folder is shown the listing of a folder in its scope. -/
theorem lists_share {node : Node} {s : Shared} {headers : Headers} {url : Text}
    {share : ShareLinkRecord} {q : ShareListQuery} {dir : Text}
    (hendpoint : endpointOf (urlPath url) = some (.listing (nameOf share)))
    (hquery : shareListQuery (queryPairs url) = .ok q)
    (hunique : s.links.Pairwise Apart) (hshare : share ∈ s.links)
    (hadmitted : Admitted node.codec (optionalAuth s.app s.now headers).2 s.now share q.access)
    (hfolder : share.targetKind = .folder) (hdir : listPrefix share q.pre = .ok dir) :
    openListing node s headers url =
      some (.ok ((listObjectsWithPrefix node.platform node.instant
        (optionalAuth s.app s.now headers).2.db dir ['/'] none (some share.bucketId) 0 0).map
          hideMarkers)) := by
  have hload := load_kept hunique hshare headers
  have hlist : listForShare node.codec node.platform node.instant
      (optionalAuth s.app s.now headers).2 s.now share (optionalAuth s.app s.now headers).1 q false =
        .ok ((listObjectsWithPrefix node.platform node.instant
          (optionalAuth s.app s.now headers).2.db dir ['/'] none (some share.bucketId) 0 0).map
            hideMarkers) := by
    unfold listForShare
    rw [authorizeShare_admitted hadmitted]
    change (if share.targetKind ≠ .folder then _ else _) = _
    rw [if_neg (not_not.mpr hfolder), hdir]
    rfl
  unfold openListing
  rw [hendpoint]
  simp only
  rw [hquery]
  simp only
  generalize nameOf share = name at hload
  cases name with
  | token token =>
    have hfound : getShareByToken (optionalAuth s.app s.now headers).2.db token = some share := hload
    have hbind : shareListByToken node.codec node.platform node.instant s.app s.now token q headers
        false = listForShare node.codec node.platform node.instant
          (optionalAuth s.app s.now headers).2 s.now share (optionalAuth s.app s.now headers).1 q
            false := by
      simp only [shareListByToken, loadShareByToken, hfound]
      rfl
    simp only [hbind, hlist]
  | code code =>
    have hfound : getShareByShortCode (optionalAuth s.app s.now headers).2.db code = some share :=
      hload
    have hbind : shareListByCode node.codec node.platform node.instant s.app s.now code q headers
        false = listForShare node.codec node.platform node.instant
          (optionalAuth s.app s.now headers).2 s.now share (optionalAuth s.app s.now headers).1 q
            false := by
      simp only [shareListByCode, loadShareByCode, hfound]
      rfl
    simp only [hbind, hlist]

theorem mem_of_preferred {now : Instant} {shares : List ShareLinkRecord} {fileKey : Option Text}
    {share : ShareLinkRecord} (h : preferShareForLink now shares fileKey = some share) :
    share ∈ shares := by
  have hmem : share ∈ shares.filter fun share => (shareIsUsable share now).isOk := by
    unfold preferShareForLink at h
    simp only [Option.orElse_eq_or, Option.or_eq_some_iff] at h
    rcases h with hpublic | ⟨_, hfile | ⟨_, hfirst⟩⟩
    · exact List.mem_of_find?_eq_some hpublic
    · obtain ⟨key, _, hfile⟩ := Option.bind_eq_some_iff.mp hfile
      exact List.mem_of_find?_eq_some hfile
    · exact List.mem_of_head? hfirst
  exact (List.mem_filter.mp hmem).1

/-- The share that a link to a file goes through, if any. -/
def fileShare (node : Node) (s : Shared) (bucketId : Int) (key : Text) : Option ShareLinkRecord :=
  preferShareForLink s.now (listSharesCoveringKey node.order s.store.db bucketId key) (some key)

/-- The share that a link to a folder goes through. -/
def folderShare (node : Node) (s : Shared) (bucketId : Int) (pre : Text) : Option ShareLinkRecord :=
  preferShareForLink s.now (listFolderSharesForPrefix node.order s.store.db bucketId pre) none

/-- A link that goes through a share is good until it expires or the share is revoked, and a
personal one as long as its bucket has its name. -/
structure StillGood (via : Option ShareLinkRecord) (q : Shared) (link : MediaLinkResponse)
    (bucketId : Int) (bucketName : Text) : Prop where
  time : ∀ e, link.expiresAt = some e → q.now.nanos ≤ e
  share : ∀ share, via = some share → ∀ row ∈ q.links, row.id = share.id → row.revokedAt = none
  bucket : via = none → ∃ b, getBucketByName q.store.db bucketName = some b ∧ b.id = bucketId

theorem fileShare_row {node : Node} {s : Shared} {bucketId : Int} {key : Text}
    {share : ShareLinkRecord} (h : fileShare node s bucketId key = some share) :
    share ∈ s.links ∧ share.bucketId = bucketId ∧ share.revokedAt = none := by
  have hmem := (node.order.perm _).mem_iff.mp (mem_of_preferred h)
  obtain ⟨hrow, hcovers⟩ := List.mem_filter.mp hmem
  unfold coversKey at hcovers
  simp only [Bool.and_eq_true, beq_iff_eq, Option.isNone_iff_eq_none] at hcovers
  exact ⟨hrow, hcovers.1.1, hcovers.1.2⟩

theorem folderShare_row {node : Node} {s : Shared} {bucketId : Int} {pre : Text}
    {share : ShareLinkRecord} (h : folderShare node s bucketId pre = some share) :
    share ∈ s.links ∧ share.bucketId = bucketId ∧ share.revokedAt = none ∧
      share.targetKind = .folder ∧ share.targetKey = pre := by
  have hmem := (node.order.perm _).mem_iff.mp (mem_of_preferred h)
  obtain ⟨hrow, hfolder⟩ := List.mem_filter.mp hmem
  simp only [Bool.and_eq_true, beq_iff_eq, Option.isNone_iff_eq_none] at hfolder
  exact ⟨hrow, hfolder.1.1.1, hfolder.1.1.2, hfolder.1.2, hfolder.2⟩

/-- The name of a bucket that a request has found finds the bucket of this name later. -/
theorem resolveBucketId_later {s s' : AppState} {raw : Option Text} {bucketId : Int} {name : Text}
    (h : resolveBucketId s raw = .ok (bucketId, name)) {b : BucketRecord}
    (hb : getBucketByName s'.db name = some b) :
    resolveBucketId s' (some name) = .ok (b.id, b.name) := by
  have hname : trim name = name ∧ name ≠ [] := by
    unfold resolveBucketId at h
    simp only at h
    split at h
    · rename_i found hfound
      obtain ⟨_, hfoundname⟩ := BucketTable.byName_eq_some.mp hfound
      rw [← (Prod.mk.inj (Except.ok.inj h)).2, hfoundname]
      cases hraw : (raw.map trim).filter (· ≠ []) with
      | none => exact ⟨by decide, by decide⟩
      | some t =>
        obtain ⟨ht, hne⟩ := Option.filter_eq_some_iff.mp hraw
        obtain ⟨t₀, _, rfl⟩ := Option.map_eq_some_iff.mp ht
        exact ⟨trim_trim t₀, of_decide_eq_true hne⟩
    · cases h
  have hkeep : decide (name ≠ []) = true := decide_eq_true hname.2
  unfold resolveBucketId
  rw [Option.map_some, hname.1, Option.filter_some, if_pos hkeep, Option.getD_some]
  simp only [hb]

/-- A personal token gives its key until it expires, while its bucket has its name. -/
theorem personalGrant_ok {hmac : Bytes → Bytes → Bytes} {config : Config} {s : AppState}
    (hconfig : s.config = config) {mintNow now : Instant} (hclock : 0 ≤ mintNow.nanos)
    {accountId bucketId : Int} {bucketName key : Text} (hids : IsI64 accountId ∧ IsI64 bucketId)
    (hresolve : ∃ name, resolveBucketId s (some bucketName) = .ok (bucketId, name))
    (hkey : normalizeObjectKey key = .ok key)
    (htime : now.nanos ≤ mintNow.nanos + personalTtlSecs * nanosPerSec) :
    personalGrant (.standard hmac) s now key (some bucketName)
      (mintPersonalToken (.standard hmac) config mintNow accountId bucketId key).1 =
        .ok (bucketId, key) := by
  have hrange : MintCall.InRange (.personal accountId bucketId key) := hids
  have hmint : (MintCall.personal accountId bucketId key).mint (.standard hmac) config mintNow =
      .ok (mintPersonalToken (.standard hmac) config mintNow accountId bucketId key) := rfl
  have hunix : nowUnix now ≤ mintNow.nanos / nanosPerSec + personalTtlSecs := by
    unfold nowUnix
    unfold nanosPerSec personalTtlSecs at *
    omega
  have hverify : verifyAccessToken (.standard hmac) s.config now
      (mintPersonalToken (.standard hmac) config mintNow accountId bucketId key).1 =
        .ok (.personal accountId bucketId key (mintNow.nanos / nanosPerSec + personalTtlSecs)) := by
    have htoken : (mintPersonalToken (.standard hmac) config mintNow accountId bucketId key).1 =
        tokenOf (.standard hmac) config
          (.personal accountId bucketId key (mintNow.nanos / nanosPerSec + personalTtlSecs)) := rfl
    rw [htoken]
    exact verifyAccessToken_later (congrArg mediaSecret hconfig) (inRange_grant hrange hmint) hunix
  obtain ⟨name, hresolve⟩ := hresolve
  unfold personalGrant
  rw [parseKey_ok hkey, hverify]
  simp only [bind, Except.bind, ne_eq, not_true_eq_false, if_false, hresolve]
  rfl

/-- Following a personal link. -/
theorem serves_personal {hmac : Bytes → Bytes → Bytes} {node : Node}
    (hcodec : node.codec = .standard hmac) {s : Shared} {url bucketName key tok : Text}
    {bucketId : Int} (hurl : url = appendAccessQuery (personalContentPath bucketName key) tok)
    (hkey : normalizeObjectKey key = .ok key)
    (hgrant : personalGrant (.standard hmac) s.app s.now key (some bucketName) tok =
      .ok (bucketId, key)) (headers : Headers) :
    openContent node s headers url =
      some (serveGranted node.platform node.limit s.app headers objectNotFound
        (.ok (bucketId, key))) := by
  obtain ⟨hpath, hpairs⟩ := read_personal bucketName key tok
  have hendpoint := endpointOf_media (pathParam_keyPath (normalizeObjectKey_valid hkey).1)
  have hmedia : mediaContentQuery [("bucket".toList, bucketName), ("access".toList, tok)] =
      .ok (some bucketName, tok) := rfl
  unfold openContent
  rw [hurl, hpath, hendpoint, hpairs]
  simp only [hmedia, mediaContentByAccess, hcodec, hgrant]

/-- The link that `create_media_link` answers with for a folder is that of a share of it. -/
theorem createMediaLink_folder {M : MediaCodec} {order : NewestFirst} {s : AppState}
    {now mintNow : Instant} {accountId : Int} {body : MediaLinkBody} {listFails : Bool}
    {answer : MediaLinkResponse} {bucketId : Int} {bucketName pre : Text}
    (hkind : body.kind = .folder)
    (h : createMediaLink M order s now mintNow accountId body listFails = .ok answer)
    (hbucket : resolveBucketId s body.bucket = .ok (bucketId, bucketName))
    (hpre : normalizeFolderPrefix body.key = .ok pre) :
    ∃ share, preferShareForLink now (listFolderSharesForPrefix order s.db bucketId pre) none =
        some share ∧
      shareLink M s.config mintNow share (sharePagePath share) = .ok answer := by
  unfold createMediaLink at h
  rw [hbucket] at h
  obtain ⟨⟨id, name⟩, hfound, h⟩ := bind_eq_ok.mp h
  obtain ⟨rfl, rfl⟩ := Prod.mk.inj (Except.ok.inj hfound)
  obtain ⟨_, _, h⟩ := bind_eq_ok.mp h
  rw [hkind] at h
  simp only [hpre] at h
  split_ifs at h
  split at h
  · cases h
  · rename_i share hshare
    exact ⟨share, hshare, h⟩

section Runs

variable (hmac : Bytes → Bytes → Bytes) (node : Node) (hcodec : node.codec = .standard hmac)
  (s₀ : Shared) (hunique : s₀.links.Pairwise Apart) (hdrawn : ∀ row ∈ s₀.links, DrawnNames row)
  {p q : State} (hp : Run (step node) anyAction ⟨s₀, []⟩ p) (hq : Run (step node) anyAction p q)
  (mintNow : Instant) (hclock : 0 ≤ mintNow.nanos)

/-- The names of links are drawn in every state. -/
theorem drawn_of_run {s₀ : Shared} (hdrawn : ∀ row ∈ s₀.links, DrawnNames row) {p : State}
    (hp : Run (step node) anyAction ⟨s₀, []⟩ p) : ∀ row ∈ p.shared.links, DrawnNames row :=
  hp.invariant (fun _ _ _ h _ hstep => links_step lasting_drawnNames h hstep) hdrawn

include hcodec hunique hdrawn hp hq hclock

end Runs

/-- The Owner shares the object with the readers of its bucket, under a short code. -/
def readersOnly : List Action :=
  .create 1 ⟨none, "d/a".toList, .file, .bucketReaders, [], none, true⟩ firstDraws :: turns 0 6

/-- Nearly a week goes by. -/
def almostAWeek : List Action := [.tick ⟨604799000000000, by decide, by decide⟩]

def standardNode : Node := { sampleNode with codec := .standard sampleHmac }

/-- The Owner shares the folder with the readers of its bucket. -/
def sharedFolder : List Action :=
  .create 1 ⟨none, "d".toList, .folder, .bucketReaders, [], none, true⟩ firstDraws :: turns 0 6

end MyS3.MediaLinks
