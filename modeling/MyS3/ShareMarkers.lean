import MyS3.ContentScope
import MyS3.LevelTotals

/-!
Markers of empty folders in the listing of a share. The listing of a level leaves out the
keys whose last segment is `.keep`. The handler of a share then leaves out every object
whose key ends in `.keep`, and does not count again.
-/

namespace MyS3.ShareMarkers

open Library.Strings Library.Tables Library.Like
open Models Database Engine Repository Listings Delimiters Http SessionAuth MediaAccess Shares
open ShareListings LevelTotals

/-- A share shows a level as the listing has it, and counts what it shows. -/
structure ShownAsListed (shown listing : PrefixListResult) : Prop where
  folders : shown.folders = listing.folders
  objects : shown.objects = listing.objects
  total : shown.total = listing.total
  counted : shown.total = shown.folders.length + shown.objects.length

/-- No object of the level has a longer name that ends in `.keep`. -/
def NoKeepSuffix (db : Db) (b : Int) (pre : Text) : Prop :=
  ∀ r, Candidate db (some b) pre r → ¬ HasDelimiter pre ['/'] r.originalFilename →
    keepMarker <:+ r.originalFilename → baseName r.originalFilename = keepMarker

/-- The objects of a level are the rows under it with no slash and no marker's name. -/
theorem levelOf_eq_object {pre key : Text} (h : pre <+: key) : levelOf pre ['/'] key = .object ↔
    ¬ HasDelimiter pre ['/'] key ∧ baseName key ≠ keepMarker := by
  have hplaced := placed_levelOf pre ['/'] key
  generalize levelOf pre ['/'] key = level at hplaced
  cases hplaced with
  | outside haway => exact absurd h haway
  | marker _ _ hkeep => simp [hkeep]
  | object _ hwhole hkeep => simp [hwhole, hkeep]
  | folder rest i hkey hfind =>
    have hdelim : HasDelimiter pre ['/'] key := hkey ▸ (cut_of_findText pre hfind).hasDelimiter
    simp [hdelim]
  | broken rest i hkey hfind hwide => exact absurd hwide (by decide)

theorem noKeepSuffix_iff {db : Db} {b : Int} {pre : Text} : NoKeepSuffix db b pre ↔
    ∀ r ∈ levelObjects db (some b) pre, ¬ keepMarker <:+ r.originalFilename := by
  unfold NoKeepSuffix
  constructor
  · intro h r hr hsuffix
    obtain ⟨hunder, hlevel⟩ := mem_levelObjects.mp hr
    have hcandidate := mem_rowsUnder.mp hunder
    obtain ⟨hwhole, hkeep⟩ := (levelOf_eq_object hcandidate.key).mp hlevel
    exact hkeep (h r hcandidate hwhole hsuffix)
  · intro h r hr hwhole hsuffix
    by_contra hkeep
    refine h r (mem_levelObjects.mpr ⟨mem_rowsUnder.mpr hr, ?_⟩) hsuffix
    exact (levelOf_eq_object hr.key).mpr ⟨hwhole, hkeep⟩

/-- Hiding the markers again changes nothing exactly when no object is taken for one. -/
theorem hideMarkers_shown_iff {listing : PrefixListResult}
    (htotal : listing.total = listing.folders.length + listing.objects.length) :
    ShownAsListed (hideMarkers listing) listing ↔
      ∀ r ∈ listing.objects, ¬ keepMarker <:+ r.originalFilename := by
  have hobjects : (hideMarkers listing).objects = listing.objects ↔
      ∀ r ∈ listing.objects, ¬ keepMarker <:+ r.originalFilename := by
    unfold hideMarkers
    simp only [List.filter_eq_self, stripSuffix_isNone]
  rw [← hobjects]
  constructor
  · exact fun h => h.objects
  · intro h
    refine ⟨rfl, h, rfl, ?_⟩
    rw [h]
    exact htotal

/-- A list request that is answered with a listing. -/
theorem listForShare_ok {M : MediaCodec} {P : Platform} {instant : Text → Int} {s : AppState}
    {now : Instant} {share : ShareLinkRecord} {auth : Option AccountRecord} {q : ShareListQuery}
    {listFails : Bool} {shown : PrefixListResult}
    (h : listForShare M P instant s now share auth q listFails = .ok (some shown)) :
    ∃ pre listing, listPrefix share q.pre = .ok pre ∧
      listObjectsWithPrefix P instant s.db pre ['/'] none (some share.bucketId) 0 0 =
        some listing ∧ shown = hideMarkers listing := by
  unfold listForShare at h
  cases hauth : authorizeShare M s now share auth q.access with
  | error answer =>
    rw [hauth] at h
    cases h
  | ok _ =>
    rw [hauth] at h
    change (if _ then _ else _) = _ at h
    by_cases hkind : share.targetKind ≠ .folder
    · rw [if_pos hkind] at h
      cases h
    rw [if_neg hkind] at h
    cases hpre : listPrefix share q.pre with
    | error msg =>
      rw [hpre] at h
      cases h
    | ok pre =>
      rw [hpre] at h
      cases listFails with
      | true => cases h
      | false =>
        have hmap : (listObjectsWithPrefix P instant s.db pre ['/'] none (some share.bucketId)
            0 0).map hideMarkers = some shown := Except.ok.inj h
        obtain ⟨listing, hlisting, rfl⟩ := Option.map_eq_some_iff.mp hmap
        exact ⟨pre, listing, rfl, hlisting, rfl⟩

/-- The listing of a share is that of the level, with its total, exactly when no object of
the level has a longer name that ends in `.keep`. -/
theorem share_shows_level_iff (M : MediaCodec) (P : Platform) (instant : Text → Int)
    (s : AppState) (now : Instant) (share : ShareLinkRecord) (auth : Option AccountRecord)
    (q : ShareListQuery) (listFails : Bool) (shown : PrefixListResult)
    (h : listForShare M P instant s now share auth q listFails = .ok (some shown)) :
    ∃ pre listing, listPrefix share q.pre = .ok pre ∧
      listObjectsWithPrefix P instant s.db pre ['/'] none (some share.bucketId) 0 0 =
        some listing ∧
      (ShownAsListed shown listing ↔ NoKeepSuffix s.db share.bucketId pre) := by
  obtain ⟨pre, listing, hpre, hlisting, rfl⟩ := listForShare_ok h
  obtain ⟨listing', hlisting', _, hobjects, htotal⟩ :=
    listObjects_whole P instant s.db (some share.bucketId) pre (le_refl 0) (le_refl 0)
  rw [hlisting] at hlisting'
  cases hlisting'
  refine ⟨pre, listing, hpre, hlisting, ?_⟩
  rw [hideMarkers_shown_iff htotal, noKeepSuffix_iff, hobjects]

/-- A public share of the folder `d/`. -/
def sharedFolder : ShareLinkRecord where
  id := 1
  token := "token".toList
  shortCode := none
  bucketId := 1
  targetKey := "d/".toList
  targetKind := .folder
  accessMode := .publicAccess
  expiresAt := none
  createdByAccountId := 1
  revokedAt := none

/-- The listing that the share has on a node with the given keys. -/
def sharedListing (keys : List Text) : Except Response (Option PrefixListResult) :=
  listForShare ContentScope.sampleCodec Platform.sample (fun _ => 0) (FolderPrefixes.holding keys)
    Instant.epoch sharedFolder none {} false

theorem share_shows_level_one_object :
    ∃ shown, sharedListing ["d/a".toList] = .ok (some shown) ∧
      ∃ pre listing, listPrefix sharedFolder [] = .ok pre ∧
        listObjectsWithPrefix Platform.sample (fun _ => 0)
          (FolderPrefixes.holding ["d/a".toList]).db pre ['/'] none (some 1) 0 0 = some listing ∧
        (ShownAsListed shown listing ↔
          NoKeepSuffix (FolderPrefixes.holding ["d/a".toList]).db 1 pre) := by
  obtain ⟨shown, hshown⟩ : ∃ shown, sharedListing ["d/a".toList] = .ok (some shown) := ⟨_, rfl⟩
  exact ⟨shown, hshown, share_shows_level_iff ContentScope.sampleCodec Platform.sample (fun _ => 0)
    _ Instant.epoch sharedFolder none {} false shown hshown⟩

/-- The share of a folder with the object `foo.keep` shows no object, and a total of one. -/
theorem share_hides_foo_keep :
    ∃ shown, sharedListing ["d/foo.keep".toList] = .ok (some shown) ∧
      ∃ listing, listObjectsWithPrefix Platform.sample (fun _ => 0)
          (FolderPrefixes.holding ["d/foo.keep".toList]).db "d/".toList ['/'] none (some 1) 0 0 =
          some listing ∧
        shown.objects = [] ∧ listing.objects.map (·.originalFilename) = ["d/foo.keep".toList] ∧
        shown.total = 1 ∧ ¬ ShownAsListed shown listing := by
  refine ⟨_, rfl, _, rfl, by decide, by decide, by decide, ?_⟩
  intro h
  have hcounted := h.counted
  revert hcounted
  decide

end MyS3.ShareMarkers
