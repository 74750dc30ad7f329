import MyS3.Delimiters
import MyS3.ContentRoutes

/-!
The listing of a folder share. The prefix of the request is absolute when it begins with
the target of the share and relative to the target otherwise, and each way trims and
checks it in its own manner. In every way the prefix that is listed begins with the
target, and so does every key and every folder of the listing.
-/

namespace MyS3.ShareListings

open Library.Strings Library.Tables Library.Like
open Models Objects Database Engine Keys Listings FolderPrefixes Delimiters Http SessionAuth MediaAccess
open Shares

/-- No segment of a joined prefix is empty, `.` or `..`. -/
def joinedSegmentsValid (joined : Text) : Bool := validSegments (trimEndMatches (· == '/') joined)

/-- A path relative to the root of a share, as a folder below the root. -/
def joined (root rel : Text) : Text :=
  if rel.getLast? = some '/' then root ++ rel else root ++ rel ++ ['/']

def resolveListPrefix (share : ShareLinkRecord) (relative : Option Text) : Except Text Text :=
  if share.targetKind ≠ .folder then .error "share is not a folder".toList
  else
    let root := share.targetKey
    match (relative.map trim).filter (· ≠ []) with
    | none => .ok root
    | some rel =>
      let joined := joined root (trimStartMatches (· == '/') rel)
      if !startsWith root joined then .error "prefix outside share scope".toList
      else if joinedSegmentsValid joined then .ok joined
      else .error "invalid prefix".toList

structure ShareListQuery where
  /-- Absolute key prefix, or path relative to the share root. -/
  pre : Text := []
  access : Option Text := none

/-- The prefix that `list_for_share` lists. -/
def listPrefix (share : ShareLinkRecord) (pre : Text) : Except Text Text :=
  if pre = [] then .ok share.targetKey
  else if startsWith share.targetKey pre then
    match normalizeFolderPrefix pre with
    | .ok p =>
      if startsWith share.targetKey p then .ok p else .error "prefix outside share scope".toList
    | .error msg => .error msg
  else resolveListPrefix share (some pre)

/-- Markers of empty folders are hidden from the users of a share. -/
def hideMarkers (listing : PrefixListResult) : PrefixListResult :=
  { listing with
    objects := listing.objects.filter fun o => (stripSuffix keepMarker o.originalFilename).isNone }

/-- `list_for_share`: an error response, or the listing; a listing of `none` is a panic.
`listFails` is a failure of the query. -/
def listForShare (M : MediaCodec) (P : Platform) (instant : Text → Int) (s : AppState)
    (now : Instant) (share : ShareLinkRecord) (auth : Option AccountRecord) (q : ShareListQuery)
    (listFails : Bool) : Except Response (Option PrefixListResult) := do
  authorizeShare M s now share auth q.access
  if share.targetKind ≠ .folder then failWith .badRequest "share is not a folder"
  else
    match listPrefix share q.pre with
    | .error msg => .error (.failure .badRequest (.message msg))
    | .ok pre =>
      if listFails then .error databaseError
      else
        return (listObjectsWithPrefix P instant s.db pre ['/'] none (some share.bucketId) 0 0).map
          hideMarkers

def shareListByToken (M : MediaCodec) (P : Platform) (instant : Text → Int) (s : AppState)
    (now : Instant) (token : Text) (q : ShareListQuery) (headers : Headers) (listFails : Bool) :
    Except Response (Option PrefixListResult) := do
  let (auth, s) := optionalAuth s now headers
  let share ← loadShareByToken s token
  listForShare M P instant s now share auth q listFails

def shareListByCode (M : MediaCodec) (P : Platform) (instant : Text → Int) (s : AppState)
    (now : Instant) (code : Text) (q : ShareListQuery) (headers : Headers) (listFails : Bool) :
    Except Response (Option PrefixListResult) := do
  let (auth, s) := optionalAuth s now headers
  let share ← loadShareByCode s code
  listForShare M P instant s now share auth q listFails

/-- A listing shows only what is under the target of a share, for active rows of its bucket. -/
structure ConfinedTo (db : Db) (share : ShareLinkRecord) (listing : PrefixListResult) : Prop where
  object : ∀ r ∈ listing.objects, ActiveIn db share.bucketId r ∧ share.targetKey <+: r.originalFilename
  folder : ∀ f ∈ listing.folders, share.targetKey <+: f.pre ∧
    ∃ r, ActiveIn db share.bucketId r ∧ f.pre <+: r.originalFilename
  commonPrefixes : listing.commonPrefixes = listing.folders.map (·.pre)

/-- An answer to a list request: an error, or a listing that is confined to the share. -/
def AnswersWithin (db : Db) (share : ShareLinkRecord) :
    Except Response (Option PrefixListResult) → Prop
  | .error answer => answer.isFailure = true
  | .ok none => False
  | .ok (some listing) => ConfinedTo db share listing

theorem resolveListPrefix_under {share : ShareLinkRecord} {relative : Option Text} {p : Text}
    (h : resolveListPrefix share relative = .ok p) : share.targetKey <+: p := by
  unfold resolveListPrefix at h
  simp only at h
  split at h
  · cases h
  · split at h
    · cases h
      exact List.prefix_rfl
    · -- The joined prefix is checked against the root before its segments are.
      split_ifs at h with hoff hvalid
      cases h
      rw [Bool.not_eq_true', Bool.not_eq_false] at hoff
      exact startsWith_iff.mp hoff

/-- Whatever the request asks for, the prefix that is listed begins with the target. -/
theorem listPrefix_under {share : ShareLinkRecord} {pre p : Text}
    (h : listPrefix share pre = .ok p) : share.targetKey <+: p := by
  unfold listPrefix at h
  split at h
  · cases h
    exact List.prefix_rfl
  · split at h
    · split at h
      · split at h
        · rename_i hunder
          cases h
          exact startsWith_iff.mp hunder
        · cases h
      · cases h
    · exact resolveListPrefix_under h

theorem levelOf_slash_ne_broken (pre key : Text) : levelOf pre ['/'] key ≠ .broken := by
  intro hbroken
  have hplaced := placed_levelOf pre ['/'] key
  rw [hbroken] at hplaced
  cases hplaced with
  | broken rest i hkey hfind hwide => exact absurd hwide (by decide)

theorem unbroken_slash (db : Db) (bucketId : Option Int) (pre : Text) :
    Unbroken db bucketId pre ['/'] := fun r _ => levelOf_slash_ne_broken pre r.originalFilename

/-- A folder of a level is between the prefix and the key it is cut from. -/
theorem folder_between {pre delimiter key cp : Text} (h : levelOf pre delimiter key = .folder cp) :
    pre <+: cp ∧ cp <+: key := by
  have hplaced := placed_levelOf pre delimiter key
  rw [h] at hplaced
  cases hplaced with
  | folder rest i hkey =>
    refine ⟨List.prefix_append _ _, ?_⟩
    rw [hkey, List.prefix_append_right_inj]
    exact List.take_prefix _ _

theorem object_under {pre delimiter key : Text} (h : levelOf pre delimiter key = .object) :
    pre <+: key := by
  have hplaced := placed_levelOf pre delimiter key
  rw [h] at hplaced
  cases hplaced with
  | object hunder => exact hunder

/-- A level of a prefix under the target is confined to the share. -/
theorem confinedTo_level (P : Platform) (instant : Text → Int) (db : Db) {share : ShareLinkRecord}
    {pre : Text} (hpre : share.targetKey <+: pre) (offset limit : Int) :
    ∃ listing, listObjectsWithPrefix P instant db pre ['/'] none (some share.bucketId) offset limit =
      some listing ∧ ConfinedTo db share listing := by
  have hdelimiter : (['/'] : Text) ≠ [] := by decide
  refine ⟨_, listObjects_unbroken hdelimiter (unbroken_slash db _ pre) offset, ?_, ?_, rfl⟩
  · intro r hr
    have hr := List.mem_filter.mp (mem_slice hr)
    have hunder := object_under (beq_iff_eq.mp hr.2)
    exact ⟨(mem_prefixRows.mp hr.1).1, hpre.trans hunder⟩
  · intro f hf
    obtain ⟨cp, hcp, rfl⟩ := List.mem_map.mp (mem_slice hf)
    rw [mem_sortedSet, List.mem_filterMap] at hcp
    obtain ⟨r, hr, hlevel⟩ := hcp
    obtain ⟨hunder, hcovers⟩ := folder_between (pre?_eq_some.mp hlevel)
    exact ⟨hpre.trans hunder, r, (mem_prefixRows.mp hr).1, hcovers⟩

theorem ConfinedTo.hideMarkers {db : Db} {share : ShareLinkRecord} {listing : PrefixListResult}
    (h : ConfinedTo db share listing) : ConfinedTo db share (hideMarkers listing) where
  object r hr := h.object r (List.mem_of_mem_filter hr)
  folder := h.folder
  commonPrefixes := h.commonPrefixes

/-- Who is refused the use of a share gets an error response. -/
theorem authorizeShare_error {M : MediaCodec} {s : AppState} {now : Instant}
    {share : ShareLinkRecord} {auth : Option AccountRecord} {access : Option Text} {answer : Response}
    (h : authorizeShare M s now share auth access = .error answer) : answer.isFailure = true := by
  unfold authorizeShare at h
  simp only [failWith] at h
  repeat' split at h
  all_goals cases h
  all_goals rfl

theorem listForShare_within (M : MediaCodec) (P : Platform) (instant : Text → Int)
    (s : AppState) (now : Instant) (share : ShareLinkRecord) (auth : Option AccountRecord)
    (q : ShareListQuery) (listFails : Bool) :
    AnswersWithin s.db share (listForShare M P instant s now share auth q listFails) := by
  unfold listForShare
  cases hauth : authorizeShare M s now share auth q.access with
  | error answer => exact authorizeShare_error hauth
  | ok _ =>
    change AnswersWithin s.db share (if _ then _ else _)
    by_cases hkind : share.targetKind ≠ .folder
    · rw [if_pos hkind]
      rfl
    · rw [if_neg hkind]
      cases hpre : listPrefix share q.pre with
      | error msg => rfl
      | ok pre =>
        cases listFails with
        | true => rfl
        | false =>
          obtain ⟨listing, hlisting, hconfined⟩ :=
            confinedTo_level P instant s.db (listPrefix_under hpre) 0 0
          simp only [Bool.false_eq_true, if_false, hlisting, Option.map_some]
          exact hconfined.hideMarkers

/-- Every request to list a share is answered with an error, or with a listing that is
confined to the share: whichever way the share is found, and for every prefix. -/
theorem share_listing_confined (M : MediaCodec) (P : Platform) (instant : Text → Int)
    (s : AppState) (now : Instant) (q : ShareListQuery) (headers : Headers) (listFails : Bool) :
    let s' := (optionalAuth s now headers).2
    (∀ share auth,
      AnswersWithin s.db share (listForShare M P instant s now share auth q listFails)) ∧
    (∀ token, match loadShareByToken s' token with
      | .error answer =>
        shareListByToken M P instant s now token q headers listFails = .error answer
      | .ok share => AnswersWithin s'.db share
          (shareListByToken M P instant s now token q headers listFails)) ∧
    ∀ code, match loadShareByCode s' code with
      | .error answer =>
        shareListByCode M P instant s now code q headers listFails = .error answer
      | .ok share => AnswersWithin s'.db share
          (shareListByCode M P instant s now code q headers listFails) := by
  refine ⟨?_, ?_, ?_⟩
  · intro share auth
    exact listForShare_within M P instant s now share auth q listFails
  · intro token
    cases hload : loadShareByToken (optionalAuth s now headers).2 token with
    | error answer =>
      simp only [shareListByToken, hload]
      rfl
    | ok share =>
      simp only [shareListByToken, hload]
      exact listForShare_within M P instant _ now share _ q listFails
  · intro code
    cases hload : loadShareByCode (optionalAuth s now headers).2 code with
    | error answer =>
      simp only [shareListByCode, hload]
      rfl
    | ok share =>
      simp only [shareListByCode, hload]
      exact listForShare_within M P instant _ now share _ q listFails

end MyS3.ShareListings
