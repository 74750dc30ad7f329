import MyS3.AccessTokens
import MyS3.FolderPrefixes
import MyS3.Library.Xml

/-!
The body of the S3 listing, and what a reader of XML gets out of it. Escaping covers the
characters that XML uses for markup. A control character that XML does not allow at all
makes the whole document unreadable, and a carriage return is read as a line feed.
-/

namespace MyS3.ListDocument

open Library.Strings Library.Xml
open Models Objects Database Engine Repository Http Keys S3Routes MediaAccess AccessTokens

/-- `xml_escape` as the source has it: four replacements, one after the other. -/
theorem xmlEscape_eq_replace (t : Text) :
    xmlEscape t = replaceChar '"' "&quot;".toList (replaceChar '>' "&gt;".toList
      (replaceChar '<' "&lt;".toList (replaceChar '&' "&amp;".toList t))) := by
  unfold xmlEscape replaceChar
  rw [List.flatMap_assoc, List.flatMap_assoc, List.flatMap_assoc]
  refine List.flatMap_congr fun c _ => ?_
  unfold xmlEscapeChar
  by_cases hamp : c = '&'
  · subst hamp
    rfl
  by_cases hlt : c = '<'
  · subst hlt
    rfl
  by_cases hgt : c = '>'
  · subst hgt
    rfl
  by_cases hquot : c = '"'
  · subst hquot
    rfl
  simp only [hamp, hlt, hgt, hquot, if_false, List.flatMap_cons, List.flatMap_nil,
    List.append_nil]

/-- One `Contents` element. -/
def contentsText (e : ListEntry) : Text :=
  ["<Contents><Key>".toList, e.key, "</Key><Size>".toList, showInt e.size,
    "</Size><ETag>&quot;".toList, e.etag, "&quot;</ETag><LastModified>".toList, e.lastModified,
    "</LastModified></Contents>".toList].flatten

def headText : Text :=
  "<?xml version=\"1.0\" encoding=\"UTF-8\"?>\n".toList ++
    "<ListBucketResult xmlns=\"http://s3.amazonaws.com/doc/2006-03-01/\">\n".toList ++
      "  <Name>storage</Name>\n  <IsTruncated>false</IsTruncated>\n  ".toList

def footText : Text := "\n</ListBucketResult>".toList

/-- The body of the answer. -/
def bodyText (entries : List ListEntry) : Text :=
  headText ++ (entries.flatMap contentsText ++ footText)

/-- The text of an answer that lists. -/
def listBody : Response → Option Text
  | .listed entries => some (bodyText entries)
  | _ => none

theorem listBody_listObjectsRoute (P : Platform) (s : AppState) :
    listBody (listObjectsRoute P s false) =
      some (bodyText ((listObjects s.db).map (listEntry P))) := rfl

/-- What a `Contents` element tells of an object. -/
structure Listed where
  key : Option Text
  size : Option Text
  etag : Option Text
  deriving DecidableEq

def childText (name : String) (i : Item) : Option Text :=
  ((childrenNamed name.toList i).head?).map textOf

/-- The `Contents` elements of a document, in order. -/
def readContents (root : Item) : List Listed :=
  (childrenNamed "Contents".toList root).map fun i =>
    ⟨childText "Key" i, childText "Size" i, childText "ETag" i⟩

/-- The key, the size in decimal, which no other number has, and the quoted ETag. -/
def listed (key : Text) (size : Int) (etag : Text) : Listed :=
  ⟨some key, some (showInt size), some ('"' :: (etag ++ ['"']))⟩

/-- The body is well formed, and its elements tell exactly of the objects. -/
def TellsExactly (P : Platform) (objs : List ObjectRecord) : Prop :=
  ∃ root, readDocument (bodyText (objs.map (listEntry P))) = some root ∧
    readContents root = objs.map fun o => listed o.originalFilename o.filesizeBytes o.etag

/-- The text of a time in RFC 3339. -/
def IsStamp (t : Text) : Prop := ∀ c ∈ t, isDigit c = true ∨ c ∈ "+-.:T".toList

/-- XML has a way to write the text: its characters are allowed, and none is taken for a part
of a line end. -/
def IsPassed (t : Text) : Prop := ∀ c ∈ t, isChar c = true ∧ c ≠ '\r'

/-! ### Escaping -/

theorem stands_escape {t : Text} (h : ∀ c ∈ t, isChar c = true) :
    Stands (xmlEscape t) (t.map .char) := by
  rw [List.map_eq_flatMap]
  refine stands_flatMap t fun c hc => ?_
  unfold xmlEscapeChar
  split_ifs with hamp hlt hgt hquot
  · rw [hamp]
    exact stands_reference "amp".toList (forall_mem_of_all (by decide)) rfl
  · rw [hlt]
    exact stands_reference "lt".toList (forall_mem_of_all (by decide)) rfl
  · rw [hgt]
    exact stands_reference "gt".toList (forall_mem_of_all (by decide)) rfl
  · rw [hquot]
    exact stands_reference "quot".toList (forall_mem_of_all (by decide)) rfl
  · exact stands_char (h c hc) hlt hamp hgt

theorem head_escape (t : Text) : (xmlEscape t).head? = some '\n' ↔ t.head? = some '\n' := by
  cases t with
  | nil => exact iff_of_false (by decide) (by decide)
  | cons c rest =>
    have hhead : (xmlEscape (c :: rest)).head? = (xmlEscapeChar c).head? := by
      unfold xmlEscape xmlEscapeChar
      rw [List.flatMap_cons]
      split_ifs <;> rfl
    rw [hhead, List.head?_cons]
    unfold xmlEscapeChar
    split_ifs with hamp hlt hgt hquot
    · rw [hamp]
      decide
    · rw [hlt]
      decide
    · rw [hgt]
      decide
    · rw [hquot]
      decide
    · rfl

/-- Line ends are normalised in an escaped text as in the text. -/
theorem normalizeLineEnds_escape (t : Text) :
    normalizeLineEnds (xmlEscape t) = xmlEscape (normalizeLineEnds t) := by
  induction t with
  | nil => rfl
  | cons c rest ih =>
    have hcons : ∀ d u, xmlEscape (d :: u) = xmlEscapeChar d ++ xmlEscape u := fun _ _ => rfl
    by_cases hc : c = '\r'
    · subst hc
      have hfirst : xmlEscape ('\r' :: rest) = '\r' :: xmlEscape rest := rfl
      rw [hfirst]
      simp only [normalizeLineEnds, head_escape, ih]
      split_ifs <;> rfl
    · have hplain : '\r' ∉ xmlEscapeChar c := by
        unfold xmlEscapeChar
        split_ifs
        · decide
        · decide
        · decide
        · decide
        · simpa using Ne.symm hc
      rw [hcons, normalizeLineEnds_prepend hplain, normalizeLineEnds_cons hc, ih, hcons]

/-! ### The body -/

theorem isDigit_plain {c : Char} (h : isDigit c = true) :
    isChar c = true ∧ c ≠ '\r' ∧ c ≠ '<' ∧ c ≠ '&' ∧ c ≠ '>' := by
  simp only [isDigit, Bool.and_eq_true, decide_eq_true_eq] at h
  have hlow : 48 ≤ c.toNat := h.1
  have hhigh : c.toNat ≤ 57 := h.2
  have hne : ∀ d : Char, d.toNat < 48 ∨ 57 < d.toNat → c ≠ d := by
    intro d hd h'
    obtain rfl := h'
    omega
  exact ⟨isChar_iff.mpr (by omega), hne _ (by decide), hne _ (by decide), hne _ (by decide),
    hne _ (by decide)⟩

theorem IsStamp.plain {t : Text} (h : IsStamp t) {c : Char} (hc : c ∈ t) :
    isChar c = true ∧ c ≠ '\r' ∧ c ≠ '<' ∧ c ≠ '&' ∧ c ≠ '>' := by
  rcases h c hc with hdigit | hmark
  · exact isDigit_plain hdigit
  · exact forall_mem_of_all (p := fun c => isChar c = true ∧ c ≠ '\r' ∧ c ≠ '<' ∧ c ≠ '&' ∧
      c ≠ '>') (by decide) c hmark

theorem isStamp_showInt (n : Int) : IsStamp (showInt n) := by
  intro c hc
  rcases mem_showInt hc with rfl | hdigit
  · exact Or.inr (by decide)
  · exact Or.inl hdigit

theorem isName_of_alpha {name : Text} (hne : name ≠ []) (h : name.all (·.isAlpha) = true) :
    IsName name := by
  have hletter : ∀ c ∈ name, isNameStart c = true := by
    intro c hc
    simp [isNameStart, List.all_eq_true.mp h c hc]
  refine ⟨?_, fun c hc => by simp [isNameChar, hletter c hc]⟩
  cases name with
  | nil => exact absurd rfl hne
  | cons c rest => exact hletter c List.mem_cons_self

/-- A `Contents` element, with the texts of its children. -/
def contentsElement (key size etag lastModified : Text) : Text :=
  tagged "Contents".toList [] (tagged "Key".toList [] key ++ (tagged "Size".toList [] size ++
    (tagged "ETag".toList [] ("&quot;".toList ++ (etag ++ "&quot;".toList)) ++
      tagged "LastModified".toList [] lastModified)))

theorem contentsText_eq (e : ListEntry) :
    contentsText e = contentsElement e.key (showInt e.size) e.etag e.lastModified := by
  unfold contentsText contentsElement
  simp only [List.flatten_cons, List.flatten_nil, List.append_nil]
  simp [tagged, attributesText]

/-- The item that a `Contents` element is read as. -/
def contentsItem (key size etag lastModified : Text) : Item :=
  .element "Contents".toList [] [
    .element "Key".toList [] (key.map .char), .element "Size".toList [] (size.map .char),
    .element "ETag".toList [] (('"' :: (etag ++ ['"'])).map .char),
    .element "LastModified".toList [] (lastModified.map .char)]

def declared : Attributes :=
  [("version".toList, "1.0".toList), ("encoding".toList, "UTF-8".toList)]

def rootAttributes : Attributes :=
  [("xmlns".toList, "http://s3.amazonaws.com/doc/2006-03-01/".toList)]

/-- What stands before the entries. -/
def beforeEntries : Text :=
  "\n  ".toList ++ (tagged "Name".toList [] "storage".toList ++ ("\n  ".toList ++
    (tagged "IsTruncated".toList [] "false".toList ++ "\n  ".toList)))

theorem bodyText_eq (entries : List ListEntry) :
    bodyText entries = declaration declared ++ '\n' :: tagged "ListBucketResult".toList
      rootAttributes (beforeEntries ++ (entries.flatMap contentsText ++ "\n".toList)) := by
  unfold bodyText headText footText declared rootAttributes beforeEntries
  simp [declaration, tagged, attributesText]

/-! ### Reading it back -/

theorem IsStamp.reads {t : Text} (h : IsStamp t) : Reads t (t.map .char) :=
  reads_plain fun _ hc => h.plain hc

theorem reads_child (name : Text) {t : Text} {items : List Item} (hne : name ≠ [])
    (hname : name.all (·.isAlpha) = true) (h : Stands (normalizeLineEnds t) items) :
    Reads (tagged name [] t) [.element name [] items] := reads_tagged (isName_of_alpha hne hname) h

theorem stands_key {key : Text} (h : ∀ c ∈ key, isChar c = true) :
    Stands (normalizeLineEnds (xmlEscape key)) ((normalizeLineEnds key).map .char) := by
  rw [normalizeLineEnds_escape]
  exact stands_escape (isChar_normalizeLineEnds h)

theorem stands_etag {etag : Text} (h : ∀ c ∈ etag, isChar c = true) :
    Stands (normalizeLineEnds ("&quot;".toList ++ (xmlEscape etag ++ "&quot;".toList)))
      (('"' :: (normalizeLineEnds etag ++ ['"'])).map .char) := by
  have hquote : Stands "&quot;".toList [.char '"'] :=
    stands_reference "quot".toList (forall_mem_of_all (by decide)) rfl
  have hsame : normalizeLineEnds "&quot;".toList = "&quot;".toList := rfl
  have hitems : ('"' :: (normalizeLineEnds etag ++ ['"'])).map Item.char =
      [.char '"'] ++ ((normalizeLineEnds etag).map .char ++ [.char '"']) := by simp
  rw [normalizeLineEnds_prepend (by decide), normalizeLineEnds_append _ (by decide), hsame, hitems]
  exact hquote.append ((stands_key h).append hquote)

/-- A `Contents` element is read as the object, with its line ends normalised. -/
theorem reads_contents {key size etag lastModified : Text} (hkey : ∀ c ∈ key, isChar c = true)
    (hsize : IsStamp size) (hetag : ∀ c ∈ etag, isChar c = true) (hdate : IsStamp lastModified) :
    Reads (contentsElement (xmlEscape key) size (xmlEscape etag) lastModified)
      [contentsItem (normalizeLineEnds key) size (normalizeLineEnds etag) lastModified] := by
  have hall := (reads_child "Key".toList (by decide) (by decide) (stands_key hkey)).append
    ((reads_child "Size".toList (by decide) (by decide) hsize.reads.stands).append
      ((reads_child "ETag".toList (by decide) (by decide) (stands_etag hetag)).append
        (reads_child "LastModified".toList (by decide) (by decide) hdate.reads.stands)))
  exact reads_child "Contents".toList (by decide) (by decide) hall.stands

/-- The items before the entries, none of which is a `Contents` element. -/
theorem reads_beforeEntries : ∃ items, Reads beforeEntries items ∧
    ∀ name attributes, childrenNamed "Contents".toList (.element name attributes items) = [] := by
  have hspace : Reads "\n  ".toList ("\n  ".toList.map .char) :=
    reads_plain (forall_mem_of_all (by decide))
  have hname := reads_child "Name".toList (by decide) (by decide)
    (reads_plain (forall_mem_of_all (l := "storage".toList) (by decide))).stands
  have htruncated := reads_child "IsTruncated".toList (by decide) (by decide)
    (reads_plain (forall_mem_of_all (l := "false".toList) (by decide))).stands
  exact ⟨_, hspace.append (hname.append (hspace.append (htruncated.append hspace))),
    fun _ _ => rfl⟩

theorem arePlain_declared : ArePlain declared := by
  intro a ha
  rcases List.mem_pair.mp ha with rfl | rfl
  · exact ⟨isName_of_alpha (by decide) (by decide), forall_mem_of_all (by decide)⟩
  · exact ⟨isName_of_alpha (by decide) (by decide), forall_mem_of_all (by decide)⟩

theorem arePlain_rootAttributes : ArePlain rootAttributes := by
  intro a ha
  rw [List.mem_singleton.mp ha]
  exact ⟨isName_of_alpha (by decide) (by decide), forall_mem_of_all (by decide)⟩

/-- The element that an object is read as. -/
def objectItem (P : Platform) (o : ObjectRecord) : Item :=
  contentsItem (normalizeLineEnds o.originalFilename) (showInt o.filesizeBytes)
    (normalizeLineEnds o.etag) (P.columnToRfc3339 o.dateModified)

/-- Where XML allows all characters, the body is read as a root with an element for each
object, in order. -/
theorem readDocument_body {P : Platform} {objs : List ObjectRecord}
    (hdates : ∀ o ∈ objs, IsStamp (P.columnToRfc3339 o.dateModified))
    (hkeys : ∀ o ∈ objs, ∀ c ∈ o.originalFilename, isChar c = true)
    (hetags : ∀ o ∈ objs, ∀ c ∈ o.etag, isChar c = true) :
    ∃ before,
      (∀ name attributes, childrenNamed "Contents".toList (.element name attributes before) = []) ∧
      readDocument (bodyText (objs.map (listEntry P))) = some (.element "ListBucketResult".toList
        rootAttributes (before ++ (objs.map (objectItem P) ++ [.char '\n']))) := by
  have hentries : Reads ((objs.map (listEntry P)).flatMap contentsText)
      (objs.map (objectItem P)) := by
    rw [List.flatMap_map, List.map_eq_flatMap]
    refine reads_flatMap objs fun o ho => ?_
    rw [contentsText_eq]
    exact reads_contents (hkeys o ho) (isStamp_showInt _) (hetags o ho) (hdates o ho)
  have hend : Reads "\n".toList [.char '\n'] := reads_plain (forall_mem_of_all (by decide))
  obtain ⟨before, hbefore, hnone⟩ := reads_beforeEntries
  refine ⟨before, hnone, ?_⟩
  rw [bodyText_eq]
  exact readDocument_eq arePlain_declared rfl (by decide)
    (isName_of_alpha (by decide) (by decide)) arePlain_rootAttributes (by decide)
    (hbefore.append (hentries.append hend)).stands

theorem contents_of_item (key size etag lastModified : Text) :
    (⟨childText "Key" (contentsItem key size etag lastModified),
      childText "Size" (contentsItem key size etag lastModified),
      childText "ETag" (contentsItem key size etag lastModified)⟩ : Listed) =
      ⟨some key, some size, some ('"' :: (etag ++ ['"']))⟩ := by
  have hkey : childText "Key" (contentsItem key size etag lastModified) =
      some (textOf (.element "Key".toList [] (key.map .char))) := rfl
  have hsize : childText "Size" (contentsItem key size etag lastModified) =
      some (textOf (.element "Size".toList [] (size.map .char))) := rfl
  have hetag : childText "ETag" (contentsItem key size etag lastModified) =
      some (textOf (.element "ETag".toList [] (('"' :: (etag ++ ['"'])).map .char))) := rfl
  rw [hkey, hsize, hetag, textOf_chars, textOf_chars, textOf_chars]

/-- The `Contents` elements of the root tell of the objects with their line ends normalised. -/
theorem readContents_objects (P : Platform) (objs : List ObjectRecord) {before : List Item}
    (hnone : ∀ name attributes,
      childrenNamed "Contents".toList (.element name attributes before) = []) (name : Text)
    (attributes : Attributes) :
    readContents (.element name attributes (before ++ (objs.map (objectItem P) ++
        [.char '\n']))) =
      objs.map fun o => listed (normalizeLineEnds o.originalFilename) o.filesizeBytes
        (normalizeLineEnds o.etag) := by
  have hbefore := hnone name attributes
  unfold readContents
  unfold childrenNamed at hbefore ⊢
  simp only at hbefore ⊢
  rw [List.filter_append, List.filter_append, hbefore, List.nil_append, List.filter_eq_self.mpr,
    List.filter_cons_of_neg, List.filter_nil, List.append_nil, List.map_map]
  · exact List.map_congr_left fun o _ => contents_of_item _ _ _ _
  · simp
  · intro i hi
    obtain ⟨o, _, rfl⟩ := List.mem_map.mp hi
    rfl

/-- A character that XML does not allow is written as it is. -/
theorem mem_escape {c : Char} (hc : isChar c = false) {t : Text} (h : c ∈ t) :
    c ∈ xmlEscape t := by
  refine List.mem_flatMap.mpr ⟨c, h, ?_⟩
  unfold xmlEscapeChar
  split_ifs with hamp hlt hgt hquot
  · subst hamp
    cases hc
  · subst hlt
    cases hc
  · subst hgt
    cases hc
  · subst hquot
    cases hc
  · exact List.mem_singleton_self c

theorem mem_bodyText {P : Platform} {objs : List ObjectRecord} {o : ObjectRecord} (ho : o ∈ objs)
    {c : Char} (h : c ∈ xmlEscape o.originalFilename ∨ c ∈ xmlEscape o.etag) :
    c ∈ bodyText (objs.map (listEntry P)) := by
  refine List.mem_append_right _ (List.mem_append_left _ ?_)
  refine List.mem_flatMap.mpr ⟨listEntry P o, List.mem_map_of_mem ho, List.mem_flatten.mpr ?_⟩
  rcases h with hkey | hetag
  · exact ⟨_, List.mem_cons_of_mem _ List.mem_cons_self, hkey⟩
  · refine ⟨_, ?_, hetag⟩
    exact List.mem_of_getElem? (i := 5) rfl

/-- The text goes through the body unchanged exactly when it has no carriage return. -/
theorem isPassed_iff {t : Text} (h : ∀ c ∈ t, isChar c = true) :
    IsPassed t ↔ normalizeLineEnds t = t := by
  rw [normalizeLineEnds_eq_self_iff]
  constructor
  · intro hpassed hmem
    exact (hpassed _ hmem).2 rfl
  · intro hnone c hc
    refine ⟨h c hc, ?_⟩
    intro h'
    obtain rfl := h'
    exact hnone hc

theorem listed_inj {key key' etag etag' : Text} {size : Int} :
    listed key size etag = listed key' size etag' ↔ key = key' ∧ etag = etag' := by
  simp [listed]

/-- The body of the listing is well formed and tells exactly of the objects when every character
of their keys and ETags is one that XML allows, and none is a carriage return. -/
theorem list_body_exact_iff (P : Platform) (objs : List ObjectRecord)
    (hdates : ∀ o ∈ objs, IsStamp (P.columnToRfc3339 o.dateModified)) :
    TellsExactly P objs ↔ ∀ o ∈ objs, IsPassed o.originalFilename ∧ IsPassed o.etag := by
  have hexact : (∀ o ∈ objs, ∀ c ∈ o.originalFilename, isChar c = true) →
      (∀ o ∈ objs, ∀ c ∈ o.etag, isChar c = true) →
      (TellsExactly P objs ↔ ∀ o ∈ objs, IsPassed o.originalFilename ∧ IsPassed o.etag) := by
    intro hkeys hetags
    obtain ⟨before, hnone, hread⟩ := readDocument_body hdates hkeys hetags
    have hcontents := readContents_objects P objs hnone "ListBucketResult".toList rootAttributes
    have hall : TellsExactly P objs ↔
        (objs.map fun o => listed (normalizeLineEnds o.originalFilename) o.filesizeBytes
          (normalizeLineEnds o.etag)) =
        objs.map fun o => listed o.originalFilename o.filesizeBytes o.etag := by
      constructor
      · intro h
        obtain ⟨root, hroot, htells⟩ := h
        rw [hread, Option.some.injEq] at hroot
        rw [← hcontents, hroot, htells]
      · intro h
        exact ⟨_, hread, hcontents.trans h⟩
    rw [hall, List.map_inj_left]
    refine forall₂_congr fun o ho => ?_
    rw [listed_inj, isPassed_iff (hkeys o ho), isPassed_iff (hetags o ho)]
  constructor
  · intro h
    have hallowed : ∀ o ∈ objs, ∀ t, t = o.originalFilename ∨ t = o.etag →
        ∀ c ∈ t, isChar c = true := by
      intro o ho t ht c hc
      by_contra hnot
      obtain ⟨root, hread, _⟩ := h
      have hmem : c ∈ xmlEscape o.originalFilename ∨ c ∈ xmlEscape o.etag := by
        have hescape := mem_escape (Bool.not_eq_true _ ▸ hnot) hc
        rcases ht with rfl | rfl
        · exact Or.inl hescape
        · exact Or.inr hescape
      exact hnot (isChar_of_readDocument hread (mem_bodyText ho hmem))
    exact (hexact (fun o ho => hallowed o ho _ (Or.inl rfl))
      fun o ho => hallowed o ho _ (Or.inr rfl)).mp h
  · intro h
    exact (hexact (fun o ho c hc => ((h o ho).1 c hc).1)
      fun o ho c hc => ((h o ho).2 c hc).1).mpr h

/-- A platform that shows times of the database clock. -/
def clockPlatform : Platform :=
  { Platform.sample with
    columnToRfc3339 := fun t => t.map (fun c => if c = ' ' then 'T' else c) ++ "+00:00".toList }

def listing (key : Text) : List ObjectRecord := listObjects (FolderPrefixes.holding [key]).db

theorem isStamp_listing {key : Text}
    (h : ∀ o ∈ listing key, o.dateModified = "1970-01-01 00:00:00".toList) :
    ∀ o ∈ listing key, IsStamp (clockPlatform.columnToRfc3339 o.dateModified) := by
  intro o ho
  rw [h o ho]
  exact forall_mem_of_all (by decide)

theorem list_body_exact_ampersand : TellsExactly clockPlatform (listing "a<b&c".toList) := by
  refine (list_body_exact_iff clockPlatform (listing "a<b&c".toList)
    (isStamp_listing (by decide))).mpr ?_
  intro o ho
  rw [List.mem_singleton.mp ho]
  exact ⟨forall_mem_of_all (by decide), forall_mem_of_all (by decide)⟩

/-- The route accepts a key with a control character, and the body is no XML document from
then on. A carriage return in a key is read as a line feed. -/
theorem control_character_breaks_list :
    normalizeObjectKey ['a', '\x01', 'b'] = .ok ['a', '\x01', 'b'] ∧
      normalizeObjectKey ['a', '\r', 'b'] = .ok ['a', '\r', 'b'] ∧
      (listing ['a', '\x01', 'b']).map (·.originalFilename) = [['a', '\x01', 'b']] ∧
      readDocument (bodyText ((listing ['a', '\x01', 'b']).map (listEntry clockPlatform))) = none ∧
      ¬ TellsExactly clockPlatform (listing ['a', '\x01', 'b']) ∧
      ∃ root, readDocument (bodyText ((listing ['a', '\r', 'b']).map
          (listEntry clockPlatform))) = some root ∧
        (readContents root).map (·.key) = [some ['a', '\n', 'b']] := by
  have hnone : readDocument
      (bodyText ((listing ['a', '\x01', 'b']).map (listEntry clockPlatform))) = none := by
    rw [Option.eq_none_iff_forall_ne_some]
    intro root hread
    have hmem : '\x01' ∈ bodyText ((listing ['a', '\x01', 'b']).map (listEntry clockPlatform)) :=
      mem_bodyText List.mem_cons_self (Or.inl (by decide))
    exact absurd (isChar_of_readDocument hread hmem) (by decide)
  refine ⟨by decide, by decide, by decide, hnone, ?_, ?_⟩
  · intro h
    obtain ⟨root, hread, _⟩ := h
    rw [hnone] at hread
    cases hread
  · have hchars : ∀ o ∈ listing ['a', '\r', 'b'],
        (∀ c ∈ o.originalFilename, isChar c = true) ∧ ∀ c ∈ o.etag, isChar c = true := by
      intro o ho
      rw [List.mem_singleton.mp ho]
      exact ⟨forall_mem_of_all (by decide), forall_mem_of_all (by decide)⟩
    obtain ⟨before, hbefore, hread⟩ := readDocument_body
      (isStamp_listing (show ∀ o ∈ listing ['a', '\r', 'b'], _ from by decide))
      (fun o ho => (hchars o ho).1) fun o ho => (hchars o ho).2
    refine ⟨_, hread, ?_⟩
    rw [readContents_objects clockPlatform _ hbefore]
    decide

end MyS3.ListDocument
