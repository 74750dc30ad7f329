import MyS3.Accounts
import MyS3.ContentRoutes
import MyS3.Listings
import MyS3.Requests

/-!
The web routes that show objects to a session: listings, archives, the content of an
object, the recycle bin, and the first half of `create_media_link`. Each finds out whose
session it is, then which buckets that account may read, and answers from these buckets.
-/

namespace MyS3.ReadRoutes

open Library.Strings Library.Paths Library.Like Library.Tables
open Models Objects Database Engine Repository Http Keys Rbac Accounts SessionAuth Shares
open S3Routes ContentRoutes Listings Requests

inductive ArchiveFormat
  | zip
  | tarGz
  | sevenZ
  deriving DecidableEq

def ArchiveFormat.parse (raw : Text) : Except Text ArchiveFormat :=
  let name := (trim raw).map Char.toLower
  if name = "zip".toList then .ok .zip
  else if name = "tar.gz".toList ∨ name = "tgz".toList then .ok .tarGz
  else if name = "7z".toList then .ok .sevenZ
  else .error "format must be zip, tar.gz, or 7z".toList

/-- The name of a record in an archive of the folder; `none` is left out. -/
def archiveEntry (pre : Text) (r : ObjectRecord) : Option Text :=
  if baseName r.originalFilename = keepMarker then none
  else
    (stripPrefix pre r.originalFilename).filter fun rel =>
      rel != [] && !rel.contains '\x00' &&
        !(split '/' rel).any fun s => s == ['.'] || s == ['.', '.']

def filterArchiveEntries (root : Path) (pre : Text) (records : List ObjectRecord) :
    List (Text × Path) :=
  records.filterMap fun r =>
    (archiveEntry pre r).map fun rel => (rel, absolutePathFor root r.filepath)

/-- The buckets that an answer may show; `none` is all of them. -/
abbrev Scope := Option (List Int)

def Scope.covers (scope : Scope) (bucketId : Int) : Bool := scope.all (·.contains bucketId)

inductive ReadRequest
  | objects (bucket : Option Text)
  | objectsList (pre delimiter : Text) (search bucket : Option Text) (offset : Int)
      (limit : Option Int)
  | folderArchive (pre format : Text) (bucket : Option Text)
  | content (rawKey : Text) (bucket : Option Text)
  | recycleBin (bucket : Option Text)

inductive ReadAnswer
  | rows (rows : List ObjectRecord)
  /-- `none` is a panic. -/
  | page (result : Option PrefixListResult)
  /-- What the archive is made of. -/
  | archive (format : ArchiveFormat) (entries : List (Text × Path))
  | content (served : Served)

def readableBucket (s : AppState) (accountId : Int) (bucket : Option Text) :
    Except Response Int := do
  let (bucketId, _) ← resolveBucketId s bucket
  requireBucketPerm s accountId bucketId .read
  return bucketId

def recycleBinBucketFilter (s : AppState) (accountId : Int) :
    Option Text → Except Response Scope
  | some name => do
    let bucketId ← readableBucket s accountId (some name)
    return some [bucketId]
  | none =>
    if accountIsOwner s.db accountId then .ok none
    else
      .ok (some ((s.db.bucket.rows.map (·.id)).filter fun id => checkPerm s.db accountId id .read))

def defaultListLimit : Int := 50

def badRequest {α : Type} (message : Text) : Except Response α :=
  .error (.failure .badRequest (.message message))

/-- The answer to a signed-in account, and the buckets that it is made from. -/
def ReadRequest.answer (P : Platform) (q : Limit1 ObjectRecord) (instant : Text → Int)
    (s : AppState) (accountId : Int) (headers : Headers) :
    ReadRequest → Except Response (Scope × ReadAnswer)
  | .objects bucket => do
    let bucketId ← readableBucket s accountId bucket
    return (some [bucketId], .rows (listObjectsInBucket s.db bucketId))
  | .objectsList pre delimiter search bucket offset limit => do
    let bucketId ← readableBucket s accountId bucket
    let limit := max 1 (min 500 (limit.getD defaultListLimit))
    return (some [bucketId], .page (listObjectsWithPrefix P instant s.db pre delimiter search
      (some bucketId) (max 0 offset) limit))
  | .folderArchive pre format bucket =>
    match normalizeFolderPrefix pre with
    | .error msg => badRequest msg
    | .ok pre =>
      match ArchiveFormat.parse format with
      | .error msg => badRequest msg
      | .ok format => do
        let bucketId ← readableBucket s accountId bucket
        let entries := filterArchiveEntries s.config.storageRoot pre
          (listKeysUnderPrefix s.db bucketId pre)
        if entries = [] then failWith .badRequest "folder is empty"
        else return (some [bucketId], .archive format entries)
  | .content rawKey bucket => do
    let (bucketId, key) ← sessionGrant s accountId rawKey bucket
    return (some [bucketId], .content (serveGranted P q s headers noSuchKey (.ok (bucketId, key))))
  | .recycleBin bucket => do
    let scope ← recycleBinBucketFilter s accountId bucket
    return (scope, .rows (listDeletedObjects s.db scope))

/-- A request with its session. -/
def serveRead (P : Platform) (q : Limit1 ObjectRecord) (instant : Text → Int) (s : AppState)
    (now : Instant) (headers : Headers) (req : ReadRequest) :
    Except Response (Scope × ReadAnswer) :=
  match authAccount s now headers with
  | (.error response, _) => .error response
  | (.ok account, s) => req.answer P q instant s account.id headers

/-- `web_get_object_content` beside the other routes. -/
theorem serveRead_content (P : Platform) (q : Limit1 ObjectRecord) (instant : Text → Int)
    (s : AppState) (now : Instant) (headers : Headers) (rawKey : Text) (bucket : Option Text) :
    (∃ scope, serveRead P q instant s now headers (.content rawKey bucket) =
      .ok (scope, .content (webGetObjectContent P q s now rawKey bucket headers))) ∨
    ∃ response, serveRead P q instant s now headers (.content rawKey bucket) = .error response ∧
      webGetObjectContent P q s now rawKey bucket headers = ⟨none, response⟩ := by
  unfold serveRead webGetObjectContent
  rcases authAccount s now headers with ⟨_ | account, t⟩
  · exact Or.inr ⟨_, rfl, rfl⟩
  · simp only [ReadRequest.answer]
    cases sessionGrant t account.id rawKey bucket with
    | error response => exact Or.inr ⟨response, rfl, rfl⟩
    | ok granted => exact Or.inl ⟨some [granted.1], rfl⟩

/-- A share that `list_shares_covering_key` returns and that is still usable. -/
def coversKey (now : Instant) (bucketId : Int) (key : Text) (share : ShareLinkRecord) : Bool :=
  share.bucketId == bucketId && share.revokedAt.isNone &&
    (match share.targetKind with
    | .file => share.targetKey == key
    | .folder => like none (share.targetKey ++ ['%']) key) &&
    (shareIsUsable share now).isOk

/-- What a personal link is about. -/
structure LinkTarget where
  accountId : Int
  bucketId : Int
  key : Text
  deriving DecidableEq

/-- `create_media_link` for a file, until it mints a token; `none` is a link to a share. -/
def personalLinkTarget (s : AppState) (now : Instant) (accountId : Int) (rawKey : Text)
    (bucket : Option Text) : Except Response (Option LinkTarget) := do
  let bucketId ← readableBucket s accountId bucket
  let key ← parseKey rawKey
  if (getObjectByFilenameInBucket s.db key bucketId).isNone then
    failWith .notFound "object not found"
  else if s.db.shareLink.any (coversKey now bucketId key) then return none
  else return some ⟨accountId, bucketId, key⟩

theorem readableBucket_ok {s : AppState} {accountId b : Int} {bucket : Option Text}
    (h : readableBucket s accountId bucket = .ok b) : checkPerm s.db accountId b .read = true := by
  obtain ⟨⟨id, _⟩, _, hperm⟩ := bind_eq_ok.mp h
  obtain ⟨_, hperm, hid⟩ := bind_eq_ok.mp hperm
  rw [← Except.ok.inj hid]
  exact requireBucketPerm_ok hperm

theorem sessionGrant_ok {s : AppState} {accountId b : Int} {key rawKey : Text}
    {bucket : Option Text} (h : sessionGrant s accountId rawKey bucket = .ok (b, key)) :
    checkPerm s.db accountId b .read = true := by
  obtain ⟨_, _, hbucket⟩ := bind_eq_ok.mp h
  obtain ⟨⟨id, _⟩, _, hperm⟩ := bind_eq_ok.mp hbucket
  obtain ⟨_, hperm, hid⟩ := bind_eq_ok.mp hperm
  rw [← (Prod.mk.inj (Except.ok.inj hid)).1]
  exact requireBucketPerm_ok hperm

theorem recycleBinBucketFilter_ok {s : AppState} {accountId b : Int} {bucket : Option Text}
    {scope : Scope} (h : recycleBinBucketFilter s accountId bucket = .ok scope)
    (hb : scope.covers b = true) : checkPerm s.db accountId b .read = true := by
  cases bucket with
  | some name =>
    obtain ⟨id, hid, hscope⟩ := bind_eq_ok.mp h
    rw [← Except.ok.inj hscope] at hb
    have hmem : b = id := by simpa [Scope.covers] using hb
    rw [hmem]
    exact readableBucket_ok hid
  | none =>
    unfold recycleBinBucketFilter at h
    simp only at h
    split_ifs at h with howner
    · exact checkPerm_iff.mpr (Or.inr (Or.inl howner))
    · rw [← Except.ok.inj h] at hb
      simp only [Scope.covers, Option.all_some, List.contains_iff_mem, List.mem_filter] at hb
      exact hb.2

/-- The answers of the routes, where no check fails. -/
inductive Answers (P : Platform) (q : Limit1 ObjectRecord) (instant : Text → Int) (s : AppState)
    (accountId : Int) (headers : Headers) : ReadRequest → Scope → ReadAnswer → Prop
  | objects {bucket : Option Text} {b : Int} (hb : readableBucket s accountId bucket = .ok b) :
      Answers P q instant s accountId headers (.objects bucket) (some [b])
        (.rows (listObjectsInBucket s.db b))
  | objectsList {pre delimiter : Text} {search bucket : Option Text} {offset : Int}
      {limit : Option Int} {b : Int} (hb : readableBucket s accountId bucket = .ok b) :
      Answers P q instant s accountId headers
        (.objectsList pre delimiter search bucket offset limit) (some [b])
        (.page (listObjectsWithPrefix P instant s.db pre delimiter search (some b) (max 0 offset)
          (max 1 (min 500 (limit.getD defaultListLimit)))))
  | folderArchive {raw pre rawFormat : Text} {bucket : Option Text} {b : Int}
      {format : ArchiveFormat} (hpre : normalizeFolderPrefix raw = .ok pre)
      (hb : readableBucket s accountId bucket = .ok b) :
      Answers P q instant s accountId headers (.folderArchive raw rawFormat bucket) (some [b])
        (.archive format (filterArchiveEntries s.config.storageRoot pre
          (listKeysUnderPrefix s.db b pre)))
  | content {rawKey key : Text} {bucket : Option Text} {b : Int}
      (hgrant : sessionGrant s accountId rawKey bucket = .ok (b, key)) :
      Answers P q instant s accountId headers (.content rawKey bucket) (some [b])
        (.content (serveGranted P q s headers noSuchKey (.ok (b, key))))
  | recycleBin {bucket : Option Text} {scope : Scope}
      (hscope : recycleBinBucketFilter s accountId bucket = .ok scope) :
      Answers P q instant s accountId headers (.recycleBin bucket) scope
        (.rows (listDeletedObjects s.db scope))

theorem answers_of_ok {P : Platform} {q : Limit1 ObjectRecord} {instant : Text → Int}
    {s : AppState} {accountId : Int} {headers : Headers} {req : ReadRequest} {scope : Scope}
    {answer : ReadAnswer} (h : req.answer P q instant s accountId headers = .ok (scope, answer)) :
    Answers P q instant s accountId headers req scope answer := by
  cases req with
  | objects bucket =>
    obtain ⟨b, hb, hanswer⟩ := bind_eq_ok.mp h
    cases hanswer
    exact .objects hb
  | objectsList pre delimiter search bucket offset limit =>
    obtain ⟨b, hb, hanswer⟩ := bind_eq_ok.mp h
    cases hanswer
    exact .objectsList hb
  | folderArchive raw rawFormat bucket =>
    simp only [ReadRequest.answer] at h
    split at h
    · cases h
    · rename_i pre hpre
      split at h
      · cases h
      · obtain ⟨b, hb, hanswer⟩ := bind_eq_ok.mp h
        split_ifs at hanswer
        · cases hanswer
        · cases hanswer
          exact .folderArchive hpre hb
  | content rawKey bucket =>
    obtain ⟨⟨b, key⟩, hgrant, hanswer⟩ := bind_eq_ok.mp h
    cases hanswer
    exact .content hgrant
  | recycleBin bucket =>
    obtain ⟨filter, hfilter, hanswer⟩ := bind_eq_ok.mp h
    cases hanswer
    exact .recycleBin hfilter

theorem covers_singleton {b b' : Int} : Scope.covers (some [b]) b' = true ↔ b' = b := by
  simp [Scope.covers]

/-- An answer is made from buckets that the account may read at that time. -/
theorem answer_ok {P : Platform} {q : Limit1 ObjectRecord} {instant : Text → Int} {s : AppState}
    {accountId b : Int} {headers : Headers} {req : ReadRequest} {scope : Scope}
    {answer : ReadAnswer} (h : req.answer P q instant s accountId headers = .ok (scope, answer))
    (hb : scope.covers b = true) : checkPerm s.db accountId b .read = true := by
  cases answers_of_ok h with
  | objects hid =>
    obtain rfl := covers_singleton.mp hb
    exact readableBucket_ok hid
  | objectsList hid =>
    obtain rfl := covers_singleton.mp hb
    exact readableBucket_ok hid
  | folderArchive _ hid =>
    obtain rfl := covers_singleton.mp hb
    exact readableBucket_ok hid
  | content hgrant =>
    obtain rfl := covers_singleton.mp hb
    exact sessionGrant_ok hgrant
  | recycleBin hscope => exact recycleBinBucketFilter_ok hscope hb

/-- The rows that an answer lists. The content of an object is looked up by its key alone. -/
def ReadAnswer.listed : ReadAnswer → List ObjectRecord
  | .rows records => records
  | .page (some result) => result.objects
  | .page none => []
  | .archive _ _ => []
  | .content _ => []

/-- A page has objects of one query, in its order. -/
theorem objects_sublist {P : Platform} {instant : Text → Int} {db : Db} {pre delimiter : Text}
    {search : Option Text} {b : Int} {offset limit : Int} {result : PrefixListResult}
    (h : listObjectsWithPrefix P instant db pre delimiter search (some b) offset limit =
      some result) : ∃ pattern, result.objects.Sublist (rowsLike db (some b) pattern) := by
  have hpage : ∀ {folders objects pattern}, some (pageFolderObjectLists folders objects pre
      delimiter offset limit) = some result → objects.Sublist (rowsLike db (some b) pattern) →
      ∃ pattern, result.objects.Sublist (rowsLike db (some b) pattern) := by
    intro folders objects pattern heq hsub
    rw [← Option.some.inj heq]
    exact ⟨pattern, (slice_sublist _ _ _).trans hsub⟩
  unfold listObjectsWithPrefix at h
  split at h
  · exact hpage h List.filter_sublist
  · simp only at h
    split_ifs at h
    · exact hpage h List.filter_sublist
    · exact hpage h List.filter_sublist

theorem mem_listObjectsWithPrefix {P : Platform} {instant : Text → Int} {db : Db}
    {pre delimiter : Text} {search : Option Text} {b : Int} {offset limit : Int}
    {result : PrefixListResult} {r : ObjectRecord}
    (h : listObjectsWithPrefix P instant db pre delimiter search (some b) offset limit =
      some result) (hr : r ∈ result.objects) : r.bucketId = b := by
  obtain ⟨pattern, hsub⟩ := objects_sublist h
  exact (mem_rowsLike.mp (hsub.subset hr)).2.2.1

theorem listed_in_scope {P : Platform} {q : Limit1 ObjectRecord} {instant : Text → Int}
    {s : AppState} {accountId : Int} {headers : Headers} {req : ReadRequest} {scope : Scope}
    {answer : ReadAnswer} (h : req.answer P q instant s accountId headers = .ok (scope, answer))
    {r : ObjectRecord} (hr : r ∈ answer.listed) : scope.covers r.bucketId = true := by
  cases answers_of_ok h with
  | objects hid =>
    simp only [ReadAnswer.listed, listObjectsInBucket, orderByUploadedDesc,
      List.mem_insertionSort, List.mem_filter, Bool.and_eq_true, beq_iff_eq] at hr
    exact covers_singleton.mpr hr.2.1
  | @objectsList pre delimiter search _ offset limit b hid =>
    cases hpage : listObjectsWithPrefix P instant s.db pre delimiter search (some b)
      (max 0 offset) (max 1 (min 500 (limit.getD defaultListLimit))) with
    | none =>
      rw [hpage] at hr
      cases hr
    | some result =>
      rw [hpage] at hr
      exact covers_singleton.mpr (mem_listObjectsWithPrefix hpage hr)
  | folderArchive hpre hid => cases hr
  | content hgrant => cases hr
  | recycleBin hscope =>
    cases scope with
    | none => rfl
    | some ids =>
      simp only [ReadAnswer.listed, listDeletedObjects, List.mem_filter] at hr
      exact hr.2

end MyS3.ReadRoutes
