import MyS3.ContentRoutes
import MyS3.S3Map

/-!
Which object a web route serves. A route that has authorized a bucket and a key
answers from the object of that bucket whatever row its last lookup returns, if and
only if no other bucket holds an active object under the same key.
-/

namespace MyS3.ContentScope

open Library.Strings Library.Tables
open Models Objects Database Engine Repository Http Keys S3Routes SessionAuth MediaAccess Shares
open ContentRoutes S3Map

inductive ContentRequest
  | session (rawKey : Text) (bucket : Option Text)
  | personal (rawKey : Text) (bucket : Option Text) (access : Text)
  | shareToken (token rawKey : Text) (access : Option Text)
  | shareCode (code rawKey : Text) (access : Option Text)

def serve (P : Platform) (M : MediaCodec) (q : Limit1 ObjectRecord) (s : AppState)
    (now : Instant) (headers : Headers) : ContentRequest → Served
  | .session rawKey bucket => webGetObjectContent P q s now rawKey bucket headers
  | .personal rawKey bucket access =>
    mediaContentByAccess P M q s now rawKey bucket access headers
  | .shareToken token rawKey access => shareContentByToken P M q s now token rawKey access headers
  | .shareCode code rawKey access => shareContentByCode P M q s now code rawKey access headers

/-- The bucket and the key that a route authorizes, before it looks for an object. -/
def grant (M : MediaCodec) (s : AppState) (now : Instant) (headers : Headers) :
    ContentRequest → Except Response (Int × Text)
  | .session rawKey bucket =>
    let (account, s) := authAccount s now headers
    account.bind fun account => sessionGrant s account.id rawKey bucket
  | .personal rawKey bucket access => personalGrant M s now rawKey bucket access
  | .shareToken token rawKey access =>
    let (auth, s) := optionalAuth s now headers
    (loadShareByToken s token).bind fun share => shareGrant M s now share auth rawKey access
  | .shareCode code rawKey access =>
    let (auth, s) := optionalAuth s now headers
    (loadShareByCode s code).bind fun share => shareGrant M s now share auth rawKey access

/-- An answer made from the active object of the bucket under the key, or from none. -/
def FromObject (P : Platform) (s : AppState) (b : Int) (k : Text) (headers : Headers)
    (served : Served) : Prop :=
  match getObjectByFilenameInBucket s.db k b with
  | some r => served = ⟨some r, serveRecord P s r headers⟩
  | none => served.row = none ∧ served.response.isFailure = true

/-- No other bucket has an active object under the key of one of this bucket. -/
def SoleKey (s : AppState) (b : Int) (k : Text) : Prop :=
  ∀ a ∈ s.db.object.rows, a.bucketId = b → a.originalFilename = k → a.deletedAt = none →
    ∀ r ∈ s.db.object.rows, r.originalFilename = k → r.deletedAt = none → r.bucketId = b

/-- After its authorization every route ends in the same two lookups. -/
theorem serve_of_grant {P : Platform} {M : MediaCodec} {s : AppState} {now : Instant}
    {headers : Headers} {req : ContentRequest} {b : Int} {k : Text}
    (h : grant M s now headers req = .ok (b, k)) :
    ∃ t missing, SameData s t ∧ missing.isFailure = true ∧
      ∀ q, serve P M q s now headers req = serveGranted P q t headers missing (.ok (b, k)) := by
  cases req with
  | session rawKey bucket =>
    have hsame := sameData_authAccount s now headers
    rcases hauth : authAccount s now headers with ⟨_ | account, t⟩
    · simp [grant, hauth, Except.bind] at h
    · rw [hauth] at hsame
      simp only [grant, hauth, Except.bind] at h
      refine ⟨t, noSuchKey, hsame, rfl, fun q => ?_⟩
      simp only [serve, webGetObjectContent, hauth, h]
  | personal rawKey bucket access =>
    refine ⟨s, objectNotFound, SameData.refl s, rfl, fun q => ?_⟩
    simp only [grant] at h
    simp only [serve, mediaContentByAccess, h]
  | shareToken token rawKey access =>
    have hsame := sameData_optionalAuth s now headers
    rcases hauth : optionalAuth s now headers with ⟨auth, t⟩
    rw [hauth] at hsame
    cases hload : loadShareByToken t token with
    | error response => simp [grant, hauth, hload, Except.bind] at h
    | ok share =>
      simp only [grant, hauth, hload, Except.bind] at h
      refine ⟨t, objectNotFound, hsame, rfl, fun q => ?_⟩
      simp only [serve, shareContentByToken, hauth, hload, contentForShare, h]
  | shareCode code rawKey access =>
    have hsame := sameData_optionalAuth s now headers
    rcases hauth : optionalAuth s now headers with ⟨auth, t⟩
    rw [hauth] at hsame
    cases hload : loadShareByCode t code with
    | error response => simp [grant, hauth, hload, Except.bind] at h
    | ok share =>
      simp only [grant, hauth, hload, Except.bind] at h
      refine ⟨t, objectNotFound, hsame, rfl, fun q => ?_⟩
      simp only [serve, shareContentByCode, hauth, hload, contentForShare, h]

theorem serveRecord_congr {P : Platform} {s t : AppState} (h : SameData s t)
    (r : ObjectRecord) (headers : Headers) :
    serveRecord P t r headers = serveRecord P s r headers := by
  unfold serveRecord
  rw [h.config, h.disk]

theorem fromObject_congr {P : Platform} {s t : AppState} (h : SameData s t) {b : Int} {k : Text}
    {headers : Headers} {served : Served} :
    FromObject P t b k headers served ↔ FromObject P s b k headers served := by
  have hlookup : getObjectByFilenameInBucket t.db k b = getObjectByFilenameInBucket s.db k b := by
    unfold getObjectByFilenameInBucket
    rw [h.object]
  unfold FromObject
  rw [hlookup]
  simp only [serveRecord_congr h]

/-- The two lookups name one row for every LIMIT 1 exactly when the key is of one bucket. -/
theorem serveGranted_iff (P : Platform) {s : AppState} (headers : Headers) {missing : Response}
    (hmissing : missing.isFailure = true) {b : Int} {k : Text} :
    (∀ q, FromObject P s b k headers (serveGranted P q s headers missing (.ok (b, k)))) ↔
      SoleKey s b k := by
  simp only [FromObject, serveGranted, getObjectKeyedWithHeaders, getObjectByFilename]
  cases hobj : getObjectByFilenameInBucket s.db k b with
  | none =>
    simp only [hmissing, and_self, implies_true, true_iff]
    intro a ha hbucket hkey hd
    exact absurd hd (getObjectByFilenameInBucket_eq_none.mp hobj a ha hkey hbucket)
  | some a =>
    obtain ⟨ha, hkey, hbucket, hd⟩ := getObjectByFilenameInBucket_eq_some.mp hobj
    have hmem := mem_activeByFilename.mpr ⟨ha, hkey, hd⟩
    simp only
    constructor
    · intro hall c _ _ _ _ r hr hrkey hrd
      have hrmem := mem_activeByFilename.mpr ⟨hr, hrkey, hrd⟩
      have hq := hall (Limit1.prefer r)
      rw [Limit1.pick_prefer hrmem] at hq
      have hrow : r = a := by simpa using congrArg Served.row hq
      rw [hrow, hbucket]
    · intro hsole q
      have hpick : q.pick (activeByFilename s.db k) = some a := by
        apply q.pick_eq_of_unique hmem
        intro r hr
        obtain ⟨hr, hrkey, hrd⟩ := mem_activeByFilename.mp hr
        have hrbucket := hsole a ha hbucket hkey hd r hr hrkey hrd
        exact s.db.object.eq_of_active hr ha hrd hd (hrbucket.trans hbucket.symm)
          (hrkey.trans hkey.symm)
      rw [hpick]

/-- A route that has authorized a bucket and a key serves the object of that bucket,
whichever of several matching rows its query returns, if and only if the key is active
in that bucket alone, or not at all in it. -/
theorem granted_content_iff (P : Platform) (M : MediaCodec) (s : AppState) (now : Instant)
    (headers : Headers) (req : ContentRequest) (b : Int) (k : Text)
    (h : grant M s now headers req = .ok (b, k)) :
    (∀ q, FromObject P s b k headers (serve P M q s now headers req)) ↔ SoleKey s b k := by
  obtain ⟨t, missing, hsame, hmissing, hserve⟩ := serve_of_grant (P := P) h
  have hsole : SoleKey t b k ↔ SoleKey s b k := by
    unfold SoleKey
    rw [hsame.object]
  rw [← hsole, ← serveGranted_iff P headers hmissing]
  refine forall_congr' fun q => ?_
  rw [hserve q, fromObject_congr hsame]

/-- The signature of a link to the key `k` of the default bucket, for account 1. -/
def sampleCodec : MediaCodec :=
  .tabulated
    [((asBytes "mys3-media-link:minioadmin".toList, asBytes "v1.p.1.1.aw.86400".toList),
      "8b2016f5e02d4a5c859a27d74654f7d69e24e117562adb74d86e9645c52db9e5".toList)]
    [([107], "aw".toList)]

def sampleLink : Text :=
  (mintPersonalToken sampleCodec oneUpload.config Instant.epoch 1 1 ['k']).1

def sampleRequest : ContentRequest := .personal ['k'] none sampleLink

/-- The link serves the one object under its key. -/
theorem granted_content_of_sole_key :
    (∀ q, FromObject Platform.sample oneUpload 1 ['k'] []
      (serve Platform.sample sampleCodec q oneUpload Instant.epoch [] sampleRequest)) ↔
      SoleKey oneUpload 1 ['k'] :=
  granted_content_iff Platform.sample sampleCodec oneUpload Instant.epoch [] sampleRequest 1 ['k']
    rfl

/-- The same link, after another bucket got an object under the key: the query may
return that object, and the link serves its content. -/
theorem granted_content_can_be_foreign :
    grant sampleCodec sameKeyTwice Instant.epoch [] sampleRequest = .ok (1, ['k']) ∧
    ∃ r ∈ sameKeyTwice.db.object.rows, r.bucketId = 2 ∧ ∃ headers,
      serve Platform.sample sampleCodec Limit1.last sameKeyTwice Instant.epoch [] sampleRequest =
        ⟨some r, .content .ok headers [98]⟩ :=
  ⟨rfl, _, List.mem_cons_of_mem _ List.mem_cons_self, rfl, _, rfl⟩

end MyS3.ContentScope
