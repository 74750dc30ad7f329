import MyS3.AccessTokens
import MyS3.ShareListings

/-!
The pages of a listing. A page is a window on the folders and then the objects, cut with
64-bit words; the function is embedded here once more with every subtraction, slice and
sum checked, and none of them fails. The explorer asks for the next page at the offset
after what it got, as long as there is more, and so shows every entry once and in order.
-/

namespace MyS3.Pages

open Library.Strings Library.Tables
open Models Objects Database Engine Repository Listings AccessTokens

def usizeMax : Nat := 2 ^ 64 - 1

/-- A `Vec` of entries: an allocation has at most `isize::MAX` bytes, and an entry has
more than one. -/
def Vec (α : Type) : Type := {items : List α // 2 * items.length ≤ 2 ^ 63 - 1}

/-- `n as i64`. -/
def asI64 (n : Nat) : Int := if n < 2 ^ 63 then n else (n : Int) - 2 ^ 64

/-- A sum of `usize`; `none` is an overflow. -/
def addUsize (m n : Nat) : Option Nat := if m + n ≤ usizeMax then some (m + n) else none

/-- A difference of `usize`; `none` is an overflow. -/
def subUsize (m n : Nat) : Option Nat := if n ≤ m then some (m - n) else none

/-- A sum of `i64`; `none` is an overflow. -/
def addI64 (m n : Int) : Option Int :=
  if i64Min ≤ m + n ∧ m + n ≤ i64Max then some (m + n) else none

/-- `items[start..stop]`; `none` is a panic. -/
def range {α : Type} (items : List α) (start stop : Nat) : Option (List α) :=
  if start ≤ stop ∧ stop ≤ items.length then some ((items.take stop).drop start) else none

/-- `page_folders`. -/
def pageFolders {α : Type} (folders : List α) (start stop : Nat) : Option (List α) :=
  if start ≥ folders.length then some [] else range folders start (min stop folders.length)

/-- `page_objects`, after `folderLen` folders. -/
def pageObjects {α : Type} (objects : List α) (folderLen start stop : Nat) : Option (List α) :=
  if stop ≤ folderLen then some []
  else do
    let objStart := start - folderLen
    let objEnd := min (← subUsize stop folderLen) objects.length
    if objStart ≥ objects.length then some [] else range objects objStart objEnd

/-- `page_folder_object_lists` as it computes in words; `none` is a panic. -/
def pageInWords (folders : List FolderEntry) (objects : List ObjectRecord)
    (pre delimiter : Text) (offset limit : Int) : Option PrefixListResult := do
  let start := (max offset 0).toNat
  let size := if limit ≤ 0 then usizeMax else limit.toNat
  let total := asI64 (← addUsize folders.length objects.length)
  let stop := min usizeMax (start + size)
  let inPage ← pageFolders folders start stop
  let objectsInPage ← pageObjects objects folders.length start stop
  let returned := asI64 (← addUsize inPage.length objectsInPage.length)
  let reached ← addI64 (asI64 start) returned
  return {
    pre := pre
    delimiter := delimiter
    commonPrefixes := inPage.map (·.pre)
    folders := inPage
    objects := objectsInPage
    total := total
    offset := asI64 start
    limit := if size = usizeMax then max total 0 else asI64 size
    hasMore := decide (reached < total) }

theorem asI64_eq {n : Nat} (h : n < 2 ^ 63) : asI64 n = n := if_pos h

theorem addUsize_eq {m n : Nat} (h : m + n ≤ 2 ^ 63) : addUsize m n = some (m + n) := by
  unfold addUsize usizeMax
  rw [if_pos (by omega)]

/-- A cut that ends at the length of the list at the latest is in range. -/
theorem range_min {α : Type} {items : List α} {start stop : Nat} (hstart : start < items.length)
    (hle : start ≤ stop) :
    range items start (min stop items.length) = some (slice items start (some stop)) := by
  unfold range slice
  rw [if_pos ⟨by omega, by omega⟩]
  congr 2
  simp only [Option.elim_some]
  rw [List.take_eq_take_iff]
  omega

theorem slice_past {α : Type} {items : List α} {start : Nat} (h : items.length ≤ start)
    (stop : Option Nat) : slice items start stop = [] := by
  unfold slice
  rw [List.drop_eq_nil_iff]
  cases stop with
  | none => exact h
  | some e =>
    simp only [Option.elim_some, List.length_take]
    omega

theorem length_slice_le {α : Type} (items : List α) (start : Nat) (stop : Option Nat) :
    (slice items start stop).length ≤ items.length - start := by
  unfold slice
  rw [List.length_drop]
  cases stop with
  | none => exact le_rfl
  | some e =>
    simp only [Option.elim_some, List.length_take]
    omega

/-- Ends past the list are all alike. -/
theorem slice_congr {α : Type} {items : List α} {start : Nat} {stop stop' : Option Nat}
    (h : stop.elim items.length (min items.length) = stop'.elim items.length (min items.length)) :
    slice items start stop = slice items start stop' := by
  have htake : ∀ e : Option Nat, e.elim items (fun e => items.take e) =
      items.take (e.elim items.length (min items.length)) := by
    intro e
    cases e with
    | none => exact (List.take_length).symm
    | some e =>
      simp only [Option.elim_some]
      rw [List.take_eq_take_iff]
      omega
  unfold slice
  rw [htake, htake, h]

section cuts

variable {α : Type} {items : List α} {start stop : Nat} {stop' : Option Nat}

theorem pageFolders_eq (hle : start ≤ stop)
    (hends : stop'.elim items.length (min items.length) = min items.length stop) :
    pageFolders items start stop = some (slice items start stop') := by
  unfold pageFolders
  split_ifs with hpast
  · rw [slice_past hpast]
  · rw [range_min (by omega) hle]
    congr 1
    exact slice_congr hends.symm

theorem pageObjects_eq {folderLen : Nat} (hle : start ≤ stop)
    (hends : stop'.elim items.length (min items.length) = min items.length (stop - folderLen)) :
    pageObjects items folderLen start stop = some (slice items (start - folderLen) stop') := by
  have hslice : slice items (start - folderLen) stop' =
      slice items (start - folderLen) (some (stop - folderLen)) := slice_congr hends
  rw [hslice]
  unfold pageObjects
  by_cases hbefore : stop ≤ folderLen
  · have hzero : stop - folderLen = 0 := by omega
    simp [slice, hzero, hbefore]
  · have hsub : subUsize stop folderLen = some (stop - folderLen) := if_pos (by omega)
    rw [if_neg hbefore, hsub]
    have hcut : pageFolders items (start - folderLen) (stop - folderLen) =
        some (slice items (start - folderLen) (some (stop - folderLen))) :=
      pageFolders_eq (by omega) rfl
    exact hcut

end cuts

section words

variable {folders : List FolderEntry} {objects : List ObjectRecord} {pre delimiter : Text}
  {offset limit : Int}

/-- The limit is reported as it was given; none is reported as the total. -/
theorem limit_eq (total : Int) (hlimit : limit < 2 ^ 63) :
    (if (if limit ≤ 0 then usizeMax else limit.toNat) = usizeMax then total
      else asI64 (if limit ≤ 0 then usizeMax else limit.toNat)) =
      if limit ≤ 0 then total else limit := by
  by_cases hall : limit ≤ 0
  · simp only [if_pos hall, if_true]
  · have hsmall : limit.toNat ≠ usizeMax := by
      unfold usizeMax
      omega
    simp only [if_neg hall, if_neg hsmall]
    rw [asI64_eq (by omega)]
    omega

/-- No cut of a page is out of range, and no sum or difference overflows. -/
theorem pageInWords_eq (hlen : folders.length + objects.length < 2 ^ 63) (hoffset : IsI64 offset)
    (hlimit : IsI64 limit) : pageInWords folders objects pre delimiter offset limit =
      some (pageFolderObjectLists folders objects pre delimiter offset limit) := by
  obtain ⟨_, hoffset⟩ := hoffset
  obtain ⟨_, hlimit⟩ := hlimit
  unfold i64Max at hoffset hlimit
  let start := offset.toNat
  let size := if limit ≤ 0 then usizeMax else limit.toNat
  let stop := min usizeMax (start + size)
  let stop' := if limit ≤ 0 then none else some (start + limit.toNat)
  have hstart : (max offset 0).toNat = start := by omega
  have hle : start ≤ stop := by
    simp only [stop, usizeMax]
    omega
  have hfolders : pageFolders folders start stop = some (slice folders start stop') := by
    apply pageFolders_eq hle
    simp only [stop, stop', size, usizeMax]
    split_ifs <;> simp <;> omega
  have hobjects : pageObjects objects folders.length start stop =
      some (slice objects (start - folders.length) (stop'.map (· - folders.length))) := by
    apply pageObjects_eq hle
    simp only [stop, stop', size, usizeMax]
    split_ifs <;> simp <;> omega
  have hfoldersLen := length_slice_le folders start stop'
  have hobjectsLen := length_slice_le objects (start - folders.length)
    (stop'.map (· - folders.length))
  have hreached : addI64 (asI64 start) (asI64 ((slice folders start stop').length +
        (slice objects (start - folders.length) (stop'.map (· - folders.length))).length)) =
      some ((start : Int) + ((slice folders start stop').length +
        (slice objects (start - folders.length) (stop'.map (· - folders.length))).length)) := by
    rw [asI64_eq (by omega), asI64_eq (by omega)]
    unfold addI64 i64Min i64Max
    rw [if_pos (by omega)]
    rfl
  have hsize : min usizeMax (start + if limit ≤ 0 then usizeMax else limit.toNat) = stop := rfl
  unfold pageInWords pageFolderObjectLists
  rw [hstart]
  simp only [addUsize_eq hlen.le, Option.bind_eq_bind, Option.bind_some, hsize, hfolders,
    hobjects]
  rw [addUsize_eq (by omega), Option.bind_some, hreached, Option.bind_some,
    limit_eq _ (by omega), asI64_eq hlen, asI64_eq (by omega)]
  rfl

end words

/-- Folders and objects in the order that they are shown. -/
def entries (folders : List FolderEntry) (objects : List ObjectRecord) :
    List (FolderEntry ⊕ ObjectRecord) := folders.map .inl ++ objects.map .inr

def pageEntries (page : PrefixListResult) : List (FolderEntry ⊕ ObjectRecord) :=
  entries page.folders page.objects

theorem length_entries (folders : List FolderEntry) (objects : List ObjectRecord) :
    (entries folders objects).length = folders.length + objects.length := by
  simp [entries]

/-- Page after page from an offset, each time after what was returned, while there is more.
`none` is a page that fails, or the end of the fuel. -/
def loadPages (page : Int → Option PrefixListResult) (returned : PrefixListResult → Int) :
    Nat → Int → Option (List PrefixListResult)
  | 0, _ => none
  | fuel + 1, offset => do
    let result ← page offset
    if result.hasMore then
      let rest ← loadPages page returned fuel (offset + returned result)
      return result :: rest
    else return [result]

section loop

variable (folders : List FolderEntry) (objects : List ObjectRecord) (pre delimiter : Text)
  {limit : Int}

/-- A page is the window of the limit on the entries from its offset. -/
theorem entries_page (hlimit : 1 ≤ limit) (start : Nat) :
    pageEntries (pageFolderObjectLists folders objects pre delimiter start limit) =
      ((entries folders objects).drop start).take limit.toNat := by
  have hpos : ¬ limit ≤ 0 := by omega
  simp only [pageEntries, pageFolderObjectLists, slice, if_neg hpos, entries,
    Option.map_some, Option.elim_some, Int.toNat_natCast]
  rw [List.take_drop, List.take_append, List.drop_append, List.length_take, List.length_map,
    List.map_drop, List.map_take, List.map_drop, List.map_take]
  congr 1
  by_cases hends : start + limit.toNat ≤ folders.length
  · have hnone : start + limit.toNat - folders.length = 0 := by omega
    simp [hnone]
  · congr 1
    omega

theorem length_page (hlimit : 1 ≤ limit) (start : Nat) :
    (pageFolderObjectLists folders objects pre delimiter start limit).folders.length +
      (pageFolderObjectLists folders objects pre delimiter start limit).objects.length =
        min limit.toNat (folders.length + objects.length - start) := by
  have hlen := congrArg List.length (entries_page folders objects pre delimiter hlimit start)
  rw [pageEntries, length_entries] at hlen
  rw [hlen, List.length_take, List.length_drop, length_entries]

/-- There is more exactly when the window ends before the last entry. -/
theorem hasMore_iff (hlimit : 1 ≤ limit) (start : Nat) :
    (pageFolderObjectLists folders objects pre delimiter start limit).hasMore = true ↔
      start + limit.toNat < folders.length + objects.length := by
  have hlen := length_page folders objects pre delimiter hlimit start
  have hmore : (pageFolderObjectLists folders objects pre delimiter start limit).hasMore =
      decide ((start : Int) +
        ((pageFolderObjectLists folders objects pre delimiter start limit).folders.length +
          (pageFolderObjectLists folders objects pre delimiter start limit).objects.length) <
        (folders.length + objects.length : Int)) := rfl
  rw [hmore, decide_eq_true_iff]
  omega

/-- From any offset up to the end, the pages show the entries from there on. -/
theorem loadPages_from (page : Int → Option PrefixListResult) (returned : PrefixListResult → Int)
    (hlimit : 1 ≤ limit)
    (hpage : ∀ k : Nat, k ≤ folders.length + objects.length →
      page k = some (pageFolderObjectLists folders objects pre delimiter k limit))
    (hreturned : ∀ k, returned (pageFolderObjectLists folders objects pre delimiter k limit) =
      (pageEntries (pageFolderObjectLists folders objects pre delimiter k limit)).length) :
    ∀ (fuel start : Nat), start ≤ folders.length + objects.length →
      folders.length + objects.length - start < fuel →
      ∃ pages, loadPages page returned fuel start = some pages ∧
        pages.flatMap pageEntries = (entries folders objects).drop start ∧
        ∀ p ∈ pages, ∃ offset : Nat,
          p = pageFolderObjectLists folders objects pre delimiter offset limit := by
  intro fuel
  induction fuel with
  | zero =>
    intro start _ hfuel
    omega
  | succ fuel ih =>
    intro start hstart hfuel
    let result := pageFolderObjectLists folders objects pre delimiter start limit
    have hentries : pageEntries result = ((entries folders objects).drop start).take limit.toNat :=
      entries_page folders objects pre delimiter hlimit start
    have hmore := hasMore_iff folders objects pre delimiter hlimit start
    by_cases hlast : start + limit.toNat < folders.length + objects.length
    · have hreached : (start : Int) + returned result = (start + limit.toNat : Nat) := by
        rw [hreturned start, hentries, List.length_take, List.length_drop, length_entries]
        omega
      obtain ⟨pages, hload, hall, hpages⟩ := ih (start + limit.toNat) (by omega) (by omega)
      refine ⟨result :: pages, ?_, ?_, ?_⟩
      · rw [loadPages, hpage start hstart]
        simp only [Option.bind_eq_bind, Option.bind_some]
        rw [if_pos (hmore.mpr hlast), hreached, hload]
        rfl
      · rw [List.flatMap_cons, hall, hentries, ← List.drop_drop, List.take_append_drop]
      · intro p hp
        rcases List.mem_cons.mp hp with rfl | hp
        · exact ⟨start, rfl⟩
        · exact hpages p hp
    · refine ⟨[result], ?_, ?_, ?_⟩
      · rw [loadPages, hpage start hstart]
        simp only [Option.bind_eq_bind, Option.bind_some]
        rw [if_neg (fun h => hlast (hmore.mp h))]
        rfl
      · rw [List.flatMap_cons, List.flatMap_nil, List.append_nil, hentries, List.take_of_length_le]
        rw [List.length_drop, length_entries]
        omega
      · intro p hp
        exact ⟨start, List.mem_singleton.mp hp⟩

end loop

/-- Every page is cut without a panic and reports the number of all entries; and page
after page, from the start and as long as there is more, every entry is shown once and in
order, after a number of pages that the number of entries bounds. -/
theorem pages_show_all (folders : Vec FolderEntry) (objects : Vec ObjectRecord)
    (pre delimiter : Text) :
    (∀ offset limit, IsI64 offset → IsI64 limit → ∃ page,
      pageInWords folders.1 objects.1 pre delimiter offset limit = some page ∧
        page = pageFolderObjectLists folders.1 objects.1 pre delimiter offset limit ∧
        page.total = folders.1.length + objects.1.length) ∧
    ∀ limit, 1 ≤ limit → IsI64 limit → ∀ fuel, folders.1.length + objects.1.length < fuel →
      ∃ pages, loadPages (fun offset => pageInWords folders.1 objects.1 pre delimiter offset limit)
          (fun page => page.folders.length + page.objects.length) fuel 0 = some pages ∧
        pages.flatMap pageEntries = entries folders.1 objects.1 ∧
        ∀ page ∈ pages, page.total = folders.1.length + objects.1.length := by
  obtain ⟨folders, hfolders⟩ := folders
  obtain ⟨objects, hobjects⟩ := objects
  have hlen : folders.length + objects.length < 2 ^ 63 := by omega
  refine ⟨?_, ?_⟩
  · intro offset limit hoffset hlimit
    exact ⟨_, pageInWords_eq hlen hoffset hlimit, rfl, rfl⟩
  · intro limit hpos hlimit fuel hfuel
    obtain ⟨pages, hload, hall, hpages⟩ := loadPages_from folders objects pre delimiter
      (fun offset => pageInWords folders objects pre delimiter offset limit)
      (fun page => page.folders.length + page.objects.length) hpos
      (fun k hk => pageInWords_eq hlen ⟨by unfold i64Min; omega, by unfold i64Max; omega⟩ hlimit)
      (fun k => by rw [pageEntries, length_entries]; rfl) fuel 0 (by omega) (by omega)
    refine ⟨pages, hload, hall, ?_⟩
    intro page hpage
    obtain ⟨offset, rfl⟩ := hpages page hpage
    rfl

section explorer

variable (P : Platform) (instant : Text → Int) (db : Db) (b : Int) (pre : Text)
  (search : Option Text)

/-- The page that the explorer asks for at an offset. -/
def explorerPage (offset : Int) : Option PrefixListResult :=
  listObjectsWithPrefix P instant db pre ['/'] search (some b) (max 0 offset) 50

/-- `returned` in `loadExplorerPage`: it does not count markers among the objects. -/
def explorerReturned (page : PrefixListResult) : Int :=
  page.folders.length +
    (page.objects.filter fun o => baseName o.originalFilename != keepMarker).length

/-- A level and a search are pages of two lists, and no object is a marker. -/
theorem listing_pages : ∃ folders objects,
    (∀ o ∈ objects, baseName o.originalFilename ≠ keepMarker) ∧
    ∀ offset limit, listObjectsWithPrefix P instant db pre ['/'] search (some b) offset limit =
      some (pageFolderObjectLists folders objects pre ['/'] offset limit) := by
  cases hsearch : search.filter (· ≠ []) with
  | some q =>
    let rows := rowsLike db (some b) ('%' :: likeEscape q ++ ['%'])
    refine ⟨(searchFolderPrefixes P q rows).map fun cp => folderEntryFromRows instant cp rows,
      rows.filter fun r => baseName r.originalFilename != keepMarker, ?_, ?_⟩
    · intro o ho
      exact bne_iff_ne.mp (List.mem_filter.mp ho).2
    · intro offset limit
      simp only [listObjectsWithPrefix, hsearch]
      rfl
  | none =>
    have hlist : ∀ offset limit,
        listObjectsWithPrefix P instant db pre ['/'] search (some b) offset limit =
          listObjectsWithPrefix P instant db pre ['/'] none (some b) offset limit := by
      intro offset limit
      simp only [listObjectsWithPrefix, hsearch, Option.filter_none]
    refine ⟨_, _, ?_, fun offset limit => (hlist offset limit).trans
      (Delimiters.listObjects_unbroken (by decide) (ShareListings.unbroken_slash db _ pre) offset)⟩
    intro o ho
    have hlevel := beq_iff_eq.mp (List.mem_filter.mp ho).2
    have hplaced := Delimiters.placed_levelOf pre ['/'] o.originalFilename
    rw [hlevel] at hplaced
    cases hplaced with
    | object _ _ hkeep => exact hkeep

/-- The explorer shows every entry of a level or of a search once and in order: its count
of what was returned agrees with the listing. -/
theorem explorer_shows_all : ∃ folders objects,
    (∀ offset limit, listObjectsWithPrefix P instant db pre ['/'] search (some b) offset limit =
      some (pageFolderObjectLists folders objects pre ['/'] offset limit)) ∧
    ∀ fuel, folders.length + objects.length < fuel →
      ∃ pages, loadPages (explorerPage P instant db b pre search) explorerReturned fuel 0 =
        some pages ∧ pages.flatMap pageEntries = entries folders objects := by
  obtain ⟨folders, objects, hmarkers, hlist⟩ := listing_pages P instant db b pre search
  refine ⟨folders, objects, hlist, ?_⟩
  intro fuel hfuel
  have hpage : ∀ k : Nat, k ≤ folders.length + objects.length →
      explorerPage P instant db b pre search k =
        some (pageFolderObjectLists folders objects pre ['/'] k 50) := by
    intro k _
    rw [explorerPage, hlist, max_eq_right (by omega)]
  have hreturned : ∀ k, explorerReturned (pageFolderObjectLists folders objects pre ['/'] k 50) =
      (pageEntries (pageFolderObjectLists folders objects pre ['/'] k 50)).length := by
    intro k
    have hkeep : ((pageFolderObjectLists folders objects pre ['/'] k 50).objects.filter
        fun o => baseName o.originalFilename != keepMarker) =
        (pageFolderObjectLists folders objects pre ['/'] k 50).objects := by
      rw [List.filter_eq_self]
      intro o ho
      exact bne_iff_ne.mpr (hmarkers o (mem_slice ho))
    rw [explorerReturned, hkeep, pageEntries, length_entries]
    rfl
  obtain ⟨pages, hload, hall, _⟩ := loadPages_from folders objects pre ['/']
    (explorerPage P instant db b pre search) explorerReturned (by decide) hpage hreturned fuel 0
    (by omega) (by omega)
  exact ⟨pages, hload, hall⟩

end explorer

end MyS3.Pages
