import MyS3.Library.UriComponents

/-!
URLs with a query of form parameters. A URL is cut at its first `?`, and before that at the `#`
of a fragment; the query is cut at each `&` into parameters, and a parameter at its first `=`.
A plus sign stands for a blank, and the rest is decoded as in a path. A parameter that is
appended to a URL with its value encoded is read back as the last one, and changes neither the
path nor the parameters before it.
-/

namespace Library.FormQuery

open Library.Strings Library.Fields Library.Encodings Library.SigV4 Library.UriComponents

/-- What a client sends of a URL. -/
def withoutFragment (url : Text) : Text := url.takeWhile (· != '#')

def urlPath (url : Text) : Text := (withoutFragment url).takeWhile (· != '?')

def urlQuery (url : Text) : Text := ((withoutFragment url).dropWhile (· != '?')).tail

def plusToSpace (c : Char) : Char := if c = '+' then ' ' else c

def formDecode (t : Text) : Bytes := percentDecode (t.map plusToSpace)

/-- The value of a parameter without `=` is empty. -/
def formPair (part : Text) : Bytes × Bytes :=
  match splitOnce '=' part with
  | some (name, value) => (formDecode name, formDecode value)
  | none => (formDecode part, [])

/-- The parameters of a query, in order; an empty one is skipped. -/
def formPairs (query : Text) : List (Bytes × Bytes) :=
  ((split '&' query).filter (· ≠ [])).map formPair

def urlPairs (url : Text) : List (Bytes × Bytes) := formPairs (urlQuery url)

/-- A further parameter; its name and value are encoded. -/
def appendParam (url name value : Text) : Text :=
  url ++ (if '?' ∈ url then '&' else '?') :: (name ++ '=' :: value)

/-- The characters of an encoded text. -/
def isEncodedChar (c : Char) : Bool := isComponentChar c || c == '%'

/-- A text in which no character means anything but itself or a byte. -/
def Encoded (t : Text) : Prop := ∀ c ∈ t, isEncodedChar c = true

theorem encoded_of_all {t : Text} (h : t.all isEncodedChar = true) : Encoded t :=
  List.all_eq_true.mp h

theorem isEncodedChar_hexUpper (n : Nat) : isEncodedChar (hexUpper n) = true := by
  have hall : ∀ c ∈ "0123456789ABCDEF".toList, isEncodedChar c = true :=
    forall_mem_of_all (by decide)
  unfold hexUpper
  by_cases h : n < "0123456789ABCDEF".toList.length
  · rw [List.getD_eq_getElem _ _ h]
    exact hall _ (List.getElem_mem h)
  · rw [List.getD_eq_default _ _ (not_lt.mp h)]
    decide

theorem encoded_escape (n m : Nat) : Encoded ['%', hexUpper n, hexUpper m] := by
  intro c hc
  simp only [List.mem_cons, List.not_mem_nil, or_false] at hc
  rcases hc with rfl | rfl | rfl
  · decide
  · exact isEncodedChar_hexUpper n
  · exact isEncodedChar_hexUpper m

theorem encoded_uriByte (b : UInt8) : Encoded (uriByte b) := by
  unfold uriByte
  simp only
  split_ifs with hplain
  · intro c hc
    rw [List.mem_singleton.mp hc]
    unfold isEncodedChar isComponentChar
    rw [hplain]
    rfl
  · exact encoded_escape _ _

theorem encoded_escapeByte (b : UInt8) : Encoded (escapeByte b) := by
  unfold escapeByte
  simp only
  split_ifs with hplain
  · intro c hc
    rw [List.mem_singleton.mp hc]
    unfold isEncodedChar
    rw [hplain]
    rfl
  · exact encoded_escape _ _

theorem encoded_uriEncode (data : Bytes) : Encoded (uriEncode data) := by
  intro c hc
  obtain ⟨b, _, hb⟩ := List.mem_flatMap.mp hc
  exact encoded_uriByte b c hb

theorem encoded_encodeURIComponent (t : Text) : Encoded (encodeURIComponent t) := by
  intro c hc
  obtain ⟨b, _, hb⟩ := List.mem_flatMap.mp hc
  exact encoded_escapeByte b c hb

/-- A text of encoded segments between slashes. -/
def EncodedPath (t : Text) : Prop := ∀ c ∈ t, c = '/' ∨ isEncodedChar c = true

theorem encodedPath_of_all {t : Text} (h : (t.all fun c => c == '/' || isEncodedChar c) = true) :
    EncodedPath t := by
  intro c hc
  have hone := List.all_eq_true.mp h c hc
  rwa [Bool.or_eq_true, beq_iff_eq] at hone

theorem Encoded.path {t : Text} (h : Encoded t) : EncodedPath t := fun c hc => Or.inr (h c hc)

theorem EncodedPath.append {a b : Text} (ha : EncodedPath a) (hb : EncodedPath b) :
    EncodedPath (a ++ b) := by
  intro c hc
  rcases List.mem_append.mp hc with hc | hc
  · exact ha c hc
  · exact hb c hc

theorem encodedPath_intercalate {segments : List Text} (h : ∀ s ∈ segments, Encoded s) :
    EncodedPath (['/'].intercalate segments) := by
  intro c hc
  rcases mem_intercalate hc with hslash | ⟨s, hs, hc⟩
  · exact Or.inl hslash
  · exact Or.inr (h s hs c hc)

theorem EncodedPath.not_mem {t : Text} (h : EncodedPath t) {c : Char} (hslash : c ≠ '/')
    (hc : isEncodedChar c = false) : c ∉ t := by
  intro hmem
  have hencoded := (h c hmem).resolve_left hslash
  rw [hc] at hencoded
  cases hencoded

/-- None of the separators of a URL is in an encoded text. -/
theorem Encoded.not_mem {t : Text} (h : Encoded t) {c : Char} (hc : isEncodedChar c = false) :
    c ∉ t := by
  intro hmem
  rw [h c hmem] at hc
  cases hc

theorem takeWhile_ne_of_not_mem {c : Char} {t : Text} (h : c ∉ t) :
    t.takeWhile (· != c) = t := by
  rw [List.takeWhile_eq_self_iff]
  intro d hd
  rw [bne_iff_ne]
  exact fun heq => h (heq ▸ hd)

theorem dropWhile_ne_of_not_mem {c : Char} {t : Text} (h : c ∉ t) : t.dropWhile (· != c) = [] := by
  rw [List.dropWhile_eq_nil_iff]
  intro d hd
  rw [bne_iff_ne]
  exact fun heq => h (heq ▸ hd)

theorem takeWhile_ne_append {c : Char} {t : Text} (h : c ∉ t) (rest : Text) :
    (t ++ c :: rest).takeWhile (· != c) = t := by
  rw [List.takeWhile_append_of_pos, List.takeWhile_cons_of_neg, List.append_nil]
  · simp
  · intro d hd
    rw [bne_iff_ne]
    exact fun heq => h (heq ▸ hd)

theorem dropWhile_ne_append {c : Char} {t : Text} (h : c ∉ t) (rest : Text) :
    (t ++ c :: rest).dropWhile (· != c) = c :: rest := by
  rw [List.dropWhile_append_of_pos, List.dropWhile_cons_of_neg]
  · simp
  · intro d hd
    rw [bne_iff_ne]
    exact fun heq => h (heq ▸ hd)

theorem splitOnce_append {c : Char} {t rest : Text} (h : c ∉ t) :
    splitOnce c (t ++ c :: rest) = some (t, rest) := by
  unfold splitOnce
  rw [if_pos (by simp), takeWhile_ne_append h, dropWhile_ne_append h, List.tail_cons]

theorem withoutFragment_eq {url : Text} (h : '#' ∉ url) : withoutFragment url = url :=
  takeWhile_ne_of_not_mem h

/-- A URL without a query. -/
theorem url_plain {path : Text} (hhash : '#' ∉ path) (hquery : '?' ∉ path) :
    urlPath path = path ∧ urlPairs path = [] := by
  unfold urlPath urlPairs urlQuery
  rw [withoutFragment_eq hhash, takeWhile_ne_of_not_mem hquery, dropWhile_ne_of_not_mem hquery]
  exact ⟨rfl, rfl⟩

theorem urlPath_cut {path : Text} (rest : Text) (hhash : '#' ∉ path ++ '?' :: rest)
    (hquery : '?' ∉ path) : urlPath (path ++ '?' :: rest) = path := by
  unfold urlPath
  rw [withoutFragment_eq hhash, takeWhile_ne_append hquery]

theorem urlQuery_cut {path : Text} (rest : Text) (hhash : '#' ∉ path ++ '?' :: rest)
    (hquery : '?' ∉ path) : urlQuery (path ++ '?' :: rest) = rest := by
  unfold urlQuery
  rw [withoutFragment_eq hhash, dropWhile_ne_append hquery, List.tail_cons]

theorem formDecode_encoded {t : Text} (h : Encoded t) : formDecode t = percentDecode t := by
  have hplus : '+' ∉ t := h.not_mem (by decide)
  have hsame : ∀ c ∈ t, plusToSpace c = id c := by
    intro c hc
    exact if_neg fun (heq : c = '+') => hplus (heq ▸ hc)
  have hmap : t.map plusToSpace = t := (List.map_congr_left hsame).trans (List.map_id t)
  unfold formDecode
  rw [hmap]

theorem formPair_encoded {name value : Text} (hname : Encoded name) (hvalue : Encoded value) :
    formPair (name ++ '=' :: value) = (percentDecode name, percentDecode value) := by
  have hnoeq : '=' ∉ name := hname.not_mem (by decide)
  unfold formPair
  rw [splitOnce_append hnoeq]
  simp only [formDecode_encoded hname, formDecode_encoded hvalue]

theorem formPairs_append (a b : Text) : formPairs (a ++ '&' :: b) = formPairs a ++ formPairs b := by
  unfold formPairs split
  rw [List.splitOn_append_cons_self, List.filter_append, List.map_append]

theorem formPairs_single {name value : Text} (hname : Encoded name) (hvalue : Encoded value) :
    formPairs (name ++ '=' :: value) = [(percentDecode name, percentDecode value)] := by
  have hamp : '&' ∉ name ++ '=' :: value := by
    rw [List.mem_append, List.mem_cons, not_or, not_or]
    exact ⟨hname.not_mem (by decide), by decide, hvalue.not_mem (by decide)⟩
  unfold formPairs split
  rw [List.splitOn_eq_singleton hamp, List.filter_cons_of_pos (by simp), List.filter_nil,
    List.map_singleton, formPair_encoded hname hvalue]

/-- The two parts of a URL that has a query. -/
theorem exists_cut {url : Text} (h : '?' ∈ url) :
    ∃ path query, url = path ++ '?' :: query ∧ '?' ∉ path := by
  obtain ⟨path, query, heq, hpath⟩ := List.eq_append_cons_of_mem h
  exact ⟨path, query, heq, hpath⟩

theorem hash_appendParam {url name value : Text} (hhash : '#' ∉ url) (hname : Encoded name)
    (hvalue : Encoded value) : '#' ∉ appendParam url name value := by
  unfold appendParam
  simp only [List.mem_append, List.mem_cons, not_or]
  refine ⟨hhash, ?_, hname.not_mem (by decide), by decide, hvalue.not_mem (by decide)⟩
  split_ifs
  · decide
  · decide

/-- An appended parameter leaves the path as it is. -/
theorem urlPath_appendParam {url name value : Text} (hhash : '#' ∉ url) (hname : Encoded name)
    (hvalue : Encoded value) : urlPath (appendParam url name value) = urlPath url := by
  have hnew := hash_appendParam hhash hname hvalue
  unfold appendParam at hnew ⊢
  split_ifs at hnew ⊢ with hquery
  · obtain ⟨path, query, rfl, hpath⟩ := exists_cut hquery
    rw [urlPath_cut query hhash hpath]
    simp only [List.append_assoc, List.cons_append] at hnew ⊢
    exact urlPath_cut _ hnew hpath
  · rw [urlPath_cut _ hnew hquery, (url_plain hhash hquery).1]

/-- An appended parameter is read as the last one. -/
theorem urlPairs_appendParam {url name value : Text} (hhash : '#' ∉ url) (hname : Encoded name)
    (hvalue : Encoded value) : urlPairs (appendParam url name value) =
      urlPairs url ++ [(percentDecode name, percentDecode value)] := by
  have hnew := hash_appendParam hhash hname hvalue
  unfold urlPairs appendParam at *
  split_ifs at hnew ⊢ with hquery
  · obtain ⟨path, query, rfl, hpath⟩ := exists_cut hquery
    rw [urlQuery_cut query hhash hpath]
    simp only [List.append_assoc, List.cons_append] at hnew ⊢
    rw [urlQuery_cut _ hnew hpath, formPairs_append, formPairs_single hname hvalue]
  · have hplain : formPairs (urlQuery url) = [] := (url_plain hhash hquery).2
    rw [urlQuery_cut _ hnew hquery, hplain, formPairs_single hname hvalue, List.nil_append]

example : urlPairs "/a/b%20c?x=1+2&&y=%26#top".toList =
    [(utf8 ['x'], utf8 "1 2".toList), (utf8 ['y'], utf8 ['&'])] := by decide

end Library.FormQuery
