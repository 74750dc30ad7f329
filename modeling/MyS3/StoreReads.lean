import MyS3.ArchiveEntries
import MyS3.ByteRanges
import MyS3.CrashRecovery
import MyS3.Revocation
import MyS3.StoreRefinement

/-!
What the routes that show objects tell of the store of versions. Whatever requests were
served before, at once and over crashes, a listing has one row for each live version of its
bucket, the recycle bin one for each version in the bin, and an archive one file for each key
of its folder, with the size, the ETag and the bytes of that version. The content route
reads the key without its bucket, so it serves a live version of the key in any bucket.
-/

namespace MyS3.StoreReads

open Library.Strings Library.Tables Library.Paths Library.Runs Library.VersionedStore
open Models Objects Database Engine Repository Http Keys S3Routes SessionAuth ContentRoutes
open FolderPrefixes Listings Requests ReadRoutes ArchiveEntries Blobs ByteRanges CrashRecovery
open Revocation RequestInvariants
open StoreRefinement hiding stored

/-- A row tells of a version: where it is, how long its content is, and the ETag of it. -/
def Tells (P : Platform) (s : AppState) (live : Bool) (r : ObjectRecord) : Prop :=
  ∃ data, view s r.id = some ⟨(r.bucketId, r.originalFilename), some data, live⟩ ∧
    (data.length : Int) = r.filesizeBytes ∧ P.digest r.etagType data = r.etag

/-- One row for each version at the places. -/
structure ListsExactly (P : Platform) (s : AppState) (live : Bool) (places : Set Place)
    (rows : List ObjectRecord) : Prop where
  tells : ∀ r ∈ rows, Tells P s live r ∧ (r.bucketId, r.originalFilename) ∈ places
  complete : ∀ id e, view s id = some e → e.live = live → e.place ∈ places →
    ∃ r ∈ rows, r.id = id
  distinct : rows.Pairwise fun a b => a.id ≠ b.id

/-- A page of a listing has some of these rows. -/
structure PageOf (P : Platform) (s : AppState) (b : Int) (result : PrefixListResult) : Prop where
  tells : ∀ r ∈ result.objects, Tells P s true r ∧ r.bucketId = b
  distinct : result.objects.Pairwise fun a b => a.id ≠ b.id

/-- The names that a folder archive has entries for. -/
structure Packed (pre name : Text) : Prop where
  object : baseName (pre ++ name) ≠ keepMarker
  named : name ≠ [] ∧ '\x00' ∉ name
  inside : ∀ seg ∈ split '/' name, seg ≠ ['.'] ∧ seg ≠ ['.', '.']

/-- One file for each key of the folder, with what that place holds. -/
structure Archives (s : AppState) (b : Int) (pre : Text) (entries : List (Text × Path)) :
    Prop where
  entry : ∀ name data, (∃ path, (name, path) ∈ entries ∧ s.disk path = some data) ↔
    Reads (view s) (b, pre ++ name) (some data) ∧ Packed pre name
  distinct : (entries.map (·.1)).Nodup

/-- What an answer says about the store. -/
inductive Shows (P : Platform) (s : AppState) (accountId : Int) : ReadRequest → ReadAnswer → Prop
  | objects {bucket : Option Text} {b : Int} {rows : List ObjectRecord}
      (hbucket : readableBucket s accountId bucket = .ok b)
      (hrows : ListsExactly P s true {k | k.1 = b} rows) :
      Shows P s accountId (.objects bucket) (.rows rows)
  | objectsList {pre delimiter : Text} {search bucket : Option Text} {offset : Int}
      {limit : Option Int} {b : Int} {page : Option PrefixListResult}
      (hbucket : readableBucket s accountId bucket = .ok b)
      (hpage : ∀ result, page = some result → PageOf P s b result) :
      Shows P s accountId (.objectsList pre delimiter search bucket offset limit) (.page page)
  | folderArchive {raw pre rawFormat : Text} {bucket : Option Text} {b : Int}
      {format : ArchiveFormat} {entries : List (Text × Path)}
      (hbucket : readableBucket s accountId bucket = .ok b)
      (hpre : normalizeFolderPrefix raw = .ok pre)
      (hentries : Archives s b pre entries) :
      Shows P s accountId (.folderArchive raw rawFormat bucket) (.archive format entries)
  | missing {rawKey key : Text} {bucket : Option Text} {b : Int}
      (hgrant : sessionGrant s accountId rawKey bucket = .ok (b, key))
      (hnone : ∀ v, ¬ Reads (view s) (b, key) v) :
      Shows P s accountId (.content rawKey bucket) (.content ⟨none, noSuchKey⟩)
  | content {rawKey key : Text} {bucket : Option Text} {b b' : Int} {v : Option Bytes}
      {data : Bytes} {served : Served}
      (hgrant : sessionGrant s accountId rawKey bucket = .ok (b, key))
      (hlive : Reads (view s) (b, key) v) (hread : Reads (view s) (b', key) (some data))
      (hdescribes : Describes data served.response) :
      Shows P s accountId (.content rawKey bucket) (.content served)
  | recycleBin {bucket : Option Text} {scope : Scope} {rows : List ObjectRecord}
      (hscope : recycleBinBucketFilter s accountId bucket = .ok scope)
      (hrows : ListsExactly P s false {k | scope.covers k.1 = true} rows) :
      Shows P s accountId (.recycleBin bucket) (.rows rows)

section shown

variable {P : Platform} {s : AppState}

theorem tells_of_intact (h : Intact P s) {r : ObjectRecord} (hr : r ∈ s.db.object.rows) :
    Tells P s r.deletedAt.isNone r := by
  obtain ⟨data, hdata, hlen, hdigest⟩ := (h r hr).2
  refine ⟨data, view_eq_some.mpr ⟨r, hr, rfl, ?_⟩, hlen, hdigest⟩
  unfold entryOf
  rw [hdata]

theorem tells_active (h : Intact P s) {r : ObjectRecord} (hr : r ∈ s.db.object.rows)
    (hactive : r.deletedAt = none) : Tells P s true r := by
  have htells := tells_of_intact h hr
  rw [hactive] at htells
  exact htells

/-- The rows of a query that selects by place, and by whether a row is recycled. -/
theorem listsExactly_of_rows (h : Intact P s) {live : Bool} {places : Set Place}
    {rows : List ObjectRecord} (hmem : ∀ r, r ∈ rows ↔ r ∈ s.db.object.rows ∧
      r.deletedAt.isNone = live ∧ (r.bucketId, r.originalFilename) ∈ places)
    (hdistinct : rows.Pairwise fun a b => a.id ≠ b.id) : ListsExactly P s live places rows := by
  refine ⟨?_, ?_, hdistinct⟩
  · intro r hr
    obtain ⟨hrow, hlive, hplace⟩ := (hmem r).mp hr
    have htells := tells_of_intact h hrow
    rw [hlive] at htells
    exact ⟨htells, hplace⟩
  · intro id e he hlive hplace
    obtain ⟨r, hrow, hid, rfl⟩ := view_eq_some.mp he
    exact ⟨r, (hmem r).mpr ⟨hrow, hlive, hplace⟩, hid⟩

/-- Selected rows in order have different ids. -/
theorem ids_distinct {p : ObjectRecord → Bool} {le : ObjectRecord → ObjectRecord → Prop}
    [DecidableRel le] :
    ((s.db.object.rows.filter p).insertionSort le).Pairwise fun a b => a.id ≠ b.id := by
  refine ((List.perm_insertionSort _ _).pairwise_iff fun h => Ne.symm h).mpr ?_
  exact s.db.object.id_unique.sublist List.filter_sublist

theorem listsExactly_bucket (h : Intact P s) (b : Int) :
    ListsExactly P s true {k | k.1 = b} (listObjectsInBucket s.db b) := by
  refine listsExactly_of_rows h (fun r => ?_) ids_distinct
  simp only [listObjectsInBucket, orderByUploadedDesc, List.mem_insertionSort, List.mem_filter,
    Bool.and_eq_true, beq_iff_eq, isActive_iff, Option.isNone_iff_eq_none, Set.mem_ofPred_eq]
  exact and_congr_right fun _ => and_comm

theorem listsExactly_bin (h : Intact P s) (scope : Scope) :
    ListsExactly P s false {k | scope.covers k.1 = true} (listDeletedObjects s.db scope) := by
  cases scope with
  | none =>
    refine listsExactly_of_rows h (fun r => ?_) ids_distinct
    simp [listDeletedObjects, Scope.covers, Option.isSome_iff_ne_none]
  | some ids =>
    refine listsExactly_of_rows h (fun r => ?_) (ids_distinct.sublist List.filter_sublist)
    simp [listDeletedObjects, Scope.covers, Option.isSome_iff_ne_none, and_assoc]

theorem pageOf_list (h : Intact P s) {instant : Text → Int} {pre delimiter : Text}
    {search : Option Text} {b : Int} {offset limit : Int} {result : PrefixListResult}
    (hpage : listObjectsWithPrefix P instant s.db pre delimiter search (some b) offset limit =
      some result) : PageOf P s b result := by
  obtain ⟨pattern, hsub⟩ := objects_sublist hpage
  constructor
  · intro r hr
    obtain ⟨hrow, hactive, hbucket, _⟩ := mem_rowsLike.mp (hsub.subset hr)
    exact ⟨tells_active h hrow hactive, hbucket⟩
  · exact ids_distinct.sublist hsub

theorem archives_folder (s : AppState) (b : Int) (pre : Text) :
    Archives s b pre (filterArchiveEntries s.config.storageRoot pre
      (listKeysUnderPrefix s.db b pre)) := by
  refine ⟨fun name data => ⟨?_, ?_⟩, names_nodup⟩
  · intro hentry
    obtain ⟨path, hmem, hdata⟩ := hentry
    obtain ⟨r, hactive, hname, rfl⟩ := mem_entries.mp hmem
    obtain ⟨hkey, hobject, hne, hnul, hinside⟩ := archiveEntry_eq_some.mp hname
    refine ⟨reads_iff.mpr ⟨r, getObjectByFilenameInBucket_eq_some.mpr
      ⟨hactive.1, hkey.symm, hactive.2.2, hactive.2.1⟩, hdata⟩, ?_, ⟨hne, hnul⟩, hinside⟩
    rw [hkey]
    exact hobject
  · intro hread
    obtain ⟨hread, hpacked⟩ := hread
    obtain ⟨r, hget, hdata⟩ := reads_iff.mp hread
    obtain ⟨hrow, hkey, hbucket, hactive⟩ := getObjectByFilenameInBucket_eq_some.mp hget
    refine ⟨_, mem_entries.mpr ⟨r, ⟨hrow, hactive, hbucket⟩, archiveEntry_eq_some.mpr
      ⟨hkey.symm, ?_, hpacked.named.1, hpacked.named.2, hpacked.inside⟩, rfl⟩, hdata⟩
    rw [hkey]
    exact hpacked.object

theorem shows_content (h : Intact P s) {q : Limit1 ObjectRecord} {accountId b : Int}
    {headers : Headers} {rawKey key : Text} {bucket : Option Text}
    (hgrant : sessionGrant s accountId rawKey bucket = .ok (b, key)) :
    Shows P s accountId (.content rawKey bucket)
      (.content (serveGranted P q s headers noSuchKey (.ok (b, key)))) := by
  simp only [serveGranted, getObjectKeyedWithHeaders]
  cases hget : getObjectByFilenameInBucket s.db key b with
  | none =>
    refine .missing hgrant fun v hread => ?_
    obtain ⟨r, hr, _⟩ := reads_iff.mp hread
    rw [hget] at hr
    cases hr
  | some r =>
    have hlive : Reads (view s) (b, key) (blobOf s r) := reads_iff.mpr ⟨r, hget, rfl⟩
    obtain ⟨hrow, hkey, _, hactive⟩ := getObjectByFilenameInBucket_eq_some.mp hget
    cases hpick : getObjectByFilename q s.db key with
    | none =>
      -- The bucket has the key, so the lookup without the bucket finds a row.
      have hempty := q.nonempty _ hpick
      have hmem := mem_activeByFilename.mpr ⟨hrow, hkey, hactive⟩
      rw [hempty] at hmem
      cases hmem
    | some record =>
      obtain ⟨hrecord, hname, hon⟩ := mem_activeByFilename.mp (q.mem _ _ hpick)
      obtain ⟨data, hdata, hlen, _⟩ := (h record hrecord).2
      have hread : Reads (view s) (record.bucketId, key) (some data) :=
        reads_iff.mpr ⟨record, getObjectByFilenameInBucket_eq_some.mpr
          ⟨hrecord, hname, rfl, hon⟩, hdata⟩
      exact .content hgrant hlive hread
        (describes_serveRecord P s record headers hdata hlen.symm)

theorem shows_of_intact (h : Intact P s) {q : Limit1 ObjectRecord} {instant : Text → Int}
    {accountId : Int} {headers : Headers} {req : ReadRequest} {scope : Scope}
    {answer : ReadAnswer} (hanswer : req.answer P q instant s accountId headers =
      .ok (scope, answer)) : Shows P s accountId req answer := by
  cases answers_of_ok hanswer with
  | objects hb => exact .objects hb (listsExactly_bucket h _)
  | objectsList hb => exact .objectsList hb fun result hpage => pageOf_list h hpage
  | folderArchive hpre hb => exact .folderArchive hb hpre (archives_folder s _ _)
  | content hgrant => exact shows_content h hgrant
  | recycleBin hscope => exact .recycleBin hscope (listsExactly_bin h scope)

end shown

/-- A node with one object and the session of its owner. -/
def withOwner : AppState :=
  { stored with db := { stored.db with
    account := [⟨1, "6f".toList, [], [], false, none⟩]
    accountRole := [⟨1, 1⟩]
    session := [⟨['t'], 1, 1⟩] } }

def emptied : AppState :=
  ((exec (step Platform.sample) ((idle withOwner).spawn deletion)
    (List.replicate 2 (.advance 0 calm))).getD node).shared.app

end MyS3.StoreReads
