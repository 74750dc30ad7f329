import Mathlib.Data.Char
import Mathlib.Data.List.Lex
import Mathlib.Data.List.Sort
import MyS3.Library.Encodings
import MyS3.Library.Words

/-!
Signing of HTTP requests with AWS Signature Version 4, as a client does it. The
canonical request is a text of lines: no field of it holds a line break, so that it
determines the method, the path, the query, the headers, the list of signed headers
and the payload hash, and the string to sign determines the date and the scope.
SHA-256 and HMAC-SHA256 are parameters.
-/

namespace Library.SigV4

open Library.Strings Library.Fields Library.Encodings Library.Words

structure Hashes where
  sha256 : Bytes → Bytes
  /-- The key and then the message. -/
  hmacSha256 : Bytes → Bytes → Bytes
  hmac_length : ∀ key data, (hmacSha256 key data).length = 32

/-- Hash functions that read their values from tables. -/
def Hashes.tabulated (digests : List (Text × Bytes)) (macs : List ((Bytes × Text) × Bytes)) :
    Hashes where
  sha256 data := ((digests.find? fun e => utf8 e.1 == data).map (·.2)).getD []
  hmacSha256 key data :=
    (((macs.find? fun e => e.1.1 == key && utf8 e.1.2 == data).map (·.2)).filter
      (·.length = 32)).getD (List.replicate 32 0)
  hmac_length key data := by
    cases h : ((macs.find? fun e => e.1.1 == key && utf8 e.1.2 == data).map (·.2)).filter
        (·.length = 32) with
    | none => rfl
    | some out =>
      have hlen := (Option.filter_eq_some_iff.mp h).2
      simpa using hlen

/-- A request as an HTTP library hands it over. Header names are in lower case, and a
header value has one character for each byte. No part holds a line break. -/
structure Request where
  method : Text
  path : Text
  query : Option Text
  headers : List (Text × Text)
  body : Bytes
  method_line : '\n' ∉ method
  path_line : '\n' ∉ path
  query_line : '\n' ∉ query.getD []
  header_line : ∀ h ∈ headers, '\n' ∉ h.2

/-- All values of a header, in order. -/
def Request.values (r : Request) (name : Text) : List Text :=
  (r.headers.filter fun h => h.1 == name).map (·.2)

theorem Request.values_line {r : Request} {name v : Text} (h : v ∈ r.values name) : '\n' ∉ v := by
  obtain ⟨header, hmem, rfl⟩ := List.mem_map.mp h
  exact r.header_line header (List.mem_of_mem_filter hmem)

/-- The lines of a canonical request. -/
def canonicalText (method uri query : Text) (headers : List (Text × Text))
    (signedHeaders payloadHash : Text) : Text :=
  ['\n'].intercalate ([method, uri, query] ++ headers.map (fun h => h.1 ++ ':' :: h.2) ++
    [[], signedHeaders, payloadHash])

/-- Every field of a canonical request is free of line breaks. -/
structure Lines (method uri query : Text) (headers : List (Text × Text))
    (signedHeaders payloadHash : Text) : Prop where
  method : '\n' ∉ method
  uri : '\n' ∉ uri
  query : '\n' ∉ query
  name : ∀ h ∈ headers, '\n' ∉ h.1
  value : ∀ h ∈ headers, '\n' ∉ h.2
  signedHeaders : '\n' ∉ signedHeaders
  payloadHash : '\n' ∉ payloadHash

theorem Lines.forall_mem {m u q sh ph : Text} {hs : List (Text × Text)} (h : Lines m u q hs sh ph) :
    ∀ line ∈ [m, u, q] ++ hs.map (fun h => h.1 ++ ':' :: h.2) ++ [[], sh, ph], '\n' ∉ line := by
  intro line hline
  rcases List.mem_append.mp hline with hline | hline
  · rcases List.mem_append.mp hline with hline | hline
    · simp only [List.mem_cons, List.not_mem_nil, or_false] at hline
      rcases hline with rfl | rfl | rfl
      · exact h.method
      · exact h.uri
      · exact h.query
    · obtain ⟨header, hmem, rfl⟩ := List.mem_map.mp hline
      have hname := h.name header hmem
      have hvalue := h.value header hmem
      simp only [List.mem_append, List.mem_cons, not_or]
      exact ⟨hname, by decide, hvalue⟩
  · simp only [List.mem_cons, List.not_mem_nil, or_false] at hline
    rcases hline with rfl | rfl | rfl
    · exact List.not_mem_nil
    · exact h.signedHeaders
    · exact h.payloadHash

/-- A canonical request is read back line by line. -/
theorem canonicalText_inj {m u q sh ph m' u' q' sh' ph' : Text} {hs hs' : List (Text × Text)}
    (h : Lines m u q hs sh ph) (h' : Lines m' u' q' hs' sh' ph')
    (heq : canonicalText m u q hs sh ph = canonicalText m' u' q' hs' sh' ph') :
    m = m' ∧ u = u' ∧ q = q' ∧
      hs.map (fun h => h.1 ++ ':' :: h.2) = hs'.map (fun h => h.1 ++ ':' :: h.2) ∧
      sh = sh' ∧ ph = ph' := by
  have hlines := fields_inj h.forall_mem h'.forall_mem (by simp) (by simp) heq
  obtain ⟨hfront, hback⟩ := List.append_inj' hlines rfl
  simp only [List.cons_append, List.nil_append, List.cons.injEq, and_true, true_and] at hfront hback
  exact ⟨hfront.1, hfront.2.1, hfront.2.2.1, hfront.2.2.2, hback.1, hback.2⟩

def algorithm : Text := "AWS4-HMAC-SHA256".toList

def scopeText (date region service : Text) : Text :=
  date ++ '/' :: (region ++ '/' :: (service ++ "/aws4_request".toList))

def stringToSign (amzDate scope hash : Text) : Text :=
  algorithm ++ '\n' :: (amzDate ++ '\n' :: (scope ++ '\n' :: hash))

/-- The date, the scope and the hash are read back from the string to sign. -/
theorem stringToSign_inj {d d' s s' h h' : Text} (hd : '\n' ∉ d) (hd' : '\n' ∉ d')
    (hh : '\n' ∉ h) (hh' : '\n' ∉ h') (heq : stringToSign d s h = stringToSign d' s' h') :
    d = d' ∧ s = s' ∧ h = h' := by
  unfold stringToSign at heq
  obtain ⟨_, hrest⟩ := first_inj (by decide) (by decide) heq
  obtain ⟨hdate, hscope⟩ := first_inj hd hd' hrest
  have hlast : some (s, h) = some (s', h') := by
    rw [← rsplitOnce_append hh, ← rsplitOnce_append hh', hscope]
  simp only [Option.some.injEq, Prod.mk.injEq] at hlast
  exact ⟨hdate, hlast.1, hlast.2⟩

/-- For one date, the region and the service are read back from the scope. -/
theorem scopeText_inj {d r r' s s' : Text} (hr : '/' ∉ r) (hr' : '/' ∉ r') (hs : '/' ∉ s)
    (hs' : '/' ∉ s') (heq : scopeText d r s = scopeText d r' s') : r = r' ∧ s = s' := by
  unfold scopeText at heq
  have htail := (List.cons.inj (List.append_cancel_left heq)).2
  obtain ⟨hregion, hrest⟩ := first_inj hr hr' htail
  exact ⟨hregion, (first_inj hs hs' hrest).1⟩

/-- The key for one day, region and service. -/
def signingKey (H : Hashes) (secret date region service : Text) : Bytes :=
  H.hmacSha256 (H.hmacSha256 (H.hmacSha256 (H.hmacSha256 (utf8 ("AWS4".toList ++ secret))
    (utf8 date)) (utf8 region)) (utf8 service)) (utf8 "aws4_request".toList)

/-- Characters that stay as they are in an encoded path or query. -/
def isUnreserved (c : Char) : Bool :=
  ('A' ≤ c && c ≤ 'Z') || ('a' ≤ c && c ≤ 'z') || isDigit c || c ∈ ['-', '.', '_', '~']

def hexUpper (n : Nat) : Char := "0123456789ABCDEF".toList.getD n '0'

def hexValue (c : Char) : Option Nat :=
  "0123456789ABCDEF".toList.idxOf? (if 'a' ≤ c && c ≤ 'f' then c.toUpper else c)

def uriByte (b : UInt8) : Text :=
  let c := Char.ofNat b.toNat
  if isUnreserved c then [c] else ['%', hexUpper (b.toNat / 16), hexUpper (b.toNat % 16)]

def uriEncode (data : Bytes) : Text := data.flatMap uriByte

/-- The bytes that an encoded text stands for; a stray `%` stands for itself. -/
def percentDecode : Text → Bytes
  | '%' :: a :: b :: rest =>
    match hexValue a, hexValue b with
    | some x, some y => UInt8.ofNat (16 * x + y) :: percentDecode rest
    | _, _ => utf8 ['%'] ++ percentDecode (a :: b :: rest)
  | c :: rest => utf8 [c] ++ percentDecode rest
  | [] => []

/-- Every segment of the path encoded once. -/
def canonicalUri (path : Text) : Text :=
  ['/'].intercalate ((split '/' path).map fun segment => uriEncode (percentDecode segment))

/-- The encoded name and value of a parameter; the value is empty where there is no `=`. -/
def parameter (piece : Text) : Text × Text :=
  match splitOnce '=' piece with
  | some (name, value) => (uriEncode (percentDecode name), uriEncode (percentDecode value))
  | none => (uriEncode (percentDecode piece), [])

/-- By name, and by value under one name. -/
def ParameterLe (a b : Text × Text) : Prop := a.1 < b.1 ∨ a.1 = b.1 ∧ a.2 ≤ b.2

instance : DecidableRel ParameterLe := fun a b => by
  unfold ParameterLe
  infer_instance

/-- The parameters in order, each with its `=`. -/
def canonicalQuery (query : Text) : Text :=
  let pieces := (split '&' query).filter (· ≠ [])
  let sorted := (pieces.map parameter).insertionSort ParameterLe
  ['&'].intercalate (sorted.map fun e => e.1 ++ '=' :: e.2)

theorem newline_of_hexUpper (n : Nat) : hexUpper n ≠ '\n' := by
  have hall : ∀ c ∈ "0123456789ABCDEF".toList, c ≠ '\n' := forall_mem_of_all (by decide)
  by_cases h : n < "0123456789ABCDEF".toList.length
  · unfold hexUpper
    rw [List.getD_eq_getElem _ _ h]
    exact hall _ (List.getElem_mem h)
  · unfold hexUpper
    rw [List.getD_eq_default _ _ (not_lt.mp h)]
    decide

theorem newline_uriEncode (data : Bytes) : '\n' ∉ uriEncode data := by
  intro h
  obtain ⟨b, _, hb⟩ := List.mem_flatMap.mp h
  unfold uriByte at hb
  simp only at hb
  split_ifs at hb with hplain
  · rw [← List.mem_singleton.mp hb] at hplain
    exact absurd hplain (by decide)
  · simp only [List.mem_cons, List.not_mem_nil, or_false] at hb
    rcases hb with hb | hb | hb
    · exact absurd hb (by decide)
    · exact newline_of_hexUpper _ hb.symm
    · exact newline_of_hexUpper _ hb.symm

theorem hexValue_hexUpper {n : Nat} (h : n < 16) : hexValue (hexUpper n) = some n := by
  have hall : ∀ i : Fin 16, hexValue (hexUpper i) = some i.val := by decide
  exact hall ⟨n, h⟩

theorem percentDecode_cons {c : Char} (h : c ≠ '%') (rest : Text) :
    percentDecode (c :: rest) = utf8 [c] ++ percentDecode rest := by
  rw [percentDecode]
  intro a b tail heq
  exact absurd heq h

/-- A character that is not encoded is the byte it stands for. -/
theorem utf8_unreserved {b : UInt8} (h : isUnreserved (Char.ofNat b.toNat) = true) :
    Char.ofNat b.toNat ≠ '%' ∧ utf8 [Char.ofNat b.toNat] = [b] := by
  have hall : ∀ i : Fin 256, isUnreserved (Char.ofNat i) = true →
      Char.ofNat i ≠ '%' ∧ utf8 [Char.ofNat i] = [UInt8.ofNat i] := by decide +kernel
  have hb := hall ⟨b.toNat, b.toNat_lt⟩ h
  rwa [UInt8.ofNat_toNat] at hb

theorem percentDecode_uriByte (b : UInt8) (rest : Text) :
    percentDecode (uriByte b ++ rest) = b :: percentDecode rest := by
  unfold uriByte
  simp only
  split_ifs with hplain
  · obtain ⟨hpercent, hbyte⟩ := utf8_unreserved hplain
    rw [List.singleton_append, percentDecode_cons hpercent, hbyte, List.singleton_append]
  · have hb := b.toNat_lt
    have hvalue : 16 * (b.toNat / 16) + b.toNat % 16 = b.toNat := Nat.div_add_mod _ _
    simp only [List.cons_append, List.nil_append, percentDecode, hexValue_hexUpper
      (show b.toNat / 16 < 16 by omega), hexValue_hexUpper (Nat.mod_lt _ (by decide)), hvalue,
      UInt8.ofNat_toNat]

theorem percentDecode_uriEncode (data : Bytes) (rest : Text) :
    percentDecode (uriEncode data ++ rest) = data ++ percentDecode rest := by
  induction data with
  | nil => rfl
  | cons b data ih =>
    have hcons : uriEncode (b :: data) = uriByte b ++ uriEncode data := rfl
    rw [hcons, List.append_assoc, percentDecode_uriByte, ih, List.cons_append]

theorem percentDecode_segments (segments : List Text) :
    percentDecode (['/'].intercalate (segments.map fun s => uriEncode (utf8 s))) =
      utf8 (['/'].intercalate segments) := by
  induction segments with
  | nil => rfl
  | cons s rest ih =>
    cases rest with
    | nil =>
      have hencode := percentDecode_uriEncode (utf8 s) []
      rw [List.append_nil] at hencode
      rw [List.map_singleton, List.intercalate_singleton, List.intercalate_singleton, hencode]
      exact List.append_nil _
    | cons s' rest =>
      rw [List.map_cons, List.intercalate_cons_of_ne_nil (by simp),
        List.intercalate_cons_of_ne_nil (by simp), List.append_assoc, percentDecode_uriEncode]
      rw [List.singleton_append, percentDecode_cons (by decide), ih]
      simp [utf8]

theorem newline_canonicalUri (path : Text) : '\n' ∉ canonicalUri path := by
  intro h
  rcases mem_intercalate h with h | ⟨segment, hsegment, h⟩
  · exact absurd h (by decide)
  · obtain ⟨t, _, rfl⟩ := List.mem_map.mp hsegment
    exact newline_uriEncode _ h

theorem newline_canonicalQuery (query : Text) : '\n' ∉ canonicalQuery query := by
  intro h
  rcases mem_intercalate h with h | ⟨text, htext, h⟩
  · exact absurd h (by decide)
  · obtain ⟨e, he, rfl⟩ := List.mem_map.mp htext
    rw [List.mem_insertionSort] at he
    obtain ⟨piece, _, rfl⟩ := List.mem_map.mp he
    unfold parameter at h
    simp only [List.mem_append, List.mem_cons] at h
    split at h
    · rcases h with h | h | h
      · exact newline_uriEncode _ h
      · exact absurd h (by decide)
      · exact newline_uriEncode _ h
    · rcases h with h | h | h
      · exact newline_uriEncode _ h
      · exact absurd h (by decide)
      · exact List.not_mem_nil h

def isBlank (c : Char) : Bool := c == ' ' || c == '\t'

/-- A value without the white space at its ends, and with one blank for several. -/
def trimmedValue (v : Text) : Text :=
  compact (· == ' ') (trimEndMatches isBlank (trimStartMatches isBlank v))

/-- The values of one header name in one line. -/
def canonicalValue (values : List Text) : Text := [','].intercalate (values.map trimmedValue)

/-- Trimming at both ends only drops characters. -/
theorem mem_of_mem_trimmed {p : Char → Bool} {t : Text} {c : Char}
    (h : c ∈ trimEndMatches p (trimStartMatches p t)) : c ∈ t := by
  obtain ⟨before, after, _, _, ht⟩ := trimmed_parts p t
  rw [ht]
  exact List.mem_append_left _ (List.mem_append_right _ h)

theorem newline_canonicalValue {values : List Text} (h : ∀ v ∈ values, '\n' ∉ v) :
    '\n' ∉ canonicalValue values := by
  intro hmem
  rcases mem_intercalate hmem with hmem | ⟨text, htext, hmem⟩
  · exact absurd hmem (by decide)
  · obtain ⟨v, hv, rfl⟩ := List.mem_map.mp htext
    rcases mem_compact hmem with hmem | ⟨hmem, _⟩
    · exact absurd hmem (by decide)
    · exact h v hv (mem_of_mem_trimmed hmem)

def isScopeChar (c : Char) : Bool :=
  ('A' ≤ c && c ≤ 'Z') || ('a' ≤ c && c ≤ 'z') || isDigit c || c == '-'

/-- The characters of a header name in lower case. -/
def isNameChar (c : Char) : Bool :=
  ('a' ≤ c && c ≤ 'z') || isDigit c || c ∈ "!#$%&'*+-.^_|~".toList || c.toNat == 96

/-- What a client chooses when it signs a request. -/
structure Signing where
  amzDate : Text
  region : Text
  service : Text
  signedHeaders : List Text
  payloadHash : Text
  /-- What stands between the parts of the authorization header. -/
  separator : Text
  date_length : amzDate.length = 16
  date_chars : ∀ c ∈ amzDate, isScopeChar c = true
  region_chars : ∀ c ∈ region, isScopeChar c = true
  service_chars : ∀ c ∈ service, isScopeChar c = true
  payload_chars : ∀ c ∈ payloadHash, isScopeChar c = true
  signed_ne : signedHeaders ≠ []
  signed_chars : ∀ name ∈ signedHeaders, name ≠ [] ∧ ∀ c ∈ name, isNameChar c = true
  signed_sorted : signedHeaders.Pairwise (· < ·)
  separator_eq : separator = [','] ∨ separator = [',', ' ']

namespace Signing

def date (s : Signing) : Text := s.amzDate.take 8

def scope (s : Signing) : Text := scopeText s.date s.region s.service

def signedText (s : Signing) : Text := [';'].intercalate s.signedHeaders

end Signing

def canonicalHeaders (r : Request) (names : List Text) : List (Text × Text) :=
  names.map fun name => (name, canonicalValue (r.values name))

def canonicalRequest (r : Request) (s : Signing) : Text :=
  canonicalText r.method (canonicalUri r.path) (canonicalQuery (r.query.getD []))
    (canonicalHeaders r s.signedHeaders) s.signedText s.payloadHash

theorem Signing.newline_name (s : Signing) {name : Text} (h : name ∈ s.signedHeaders) :
    '\n' ∉ name := fun hmem => absurd ((s.signed_chars name h).2 _ hmem) (by decide)

theorem Signing.newline_signedText (s : Signing) : '\n' ∉ s.signedText := by
  intro h
  rcases mem_intercalate h with h | ⟨name, hname, h⟩
  · exact absurd h (by decide)
  · exact s.newline_name hname h

theorem canonicalRequest_lines (r : Request) (s : Signing) :
    Lines r.method (canonicalUri r.path) (canonicalQuery (r.query.getD []))
      (canonicalHeaders r s.signedHeaders) s.signedText s.payloadHash where
  method := r.method_line
  uri := newline_canonicalUri _
  query := newline_canonicalQuery _
  name := by
    intro h hmem
    obtain ⟨name, hname, rfl⟩ := List.mem_map.mp hmem
    exact s.newline_name hname
  value := by
    intro h hmem
    obtain ⟨name, _, rfl⟩ := List.mem_map.mp hmem
    exact newline_canonicalValue fun v hv => r.values_line hv
  signedHeaders := s.newline_signedText
  payloadHash := fun h => absurd (s.payload_chars _ h) (by decide)

/-- The string to sign of a client. -/
def toSign (H : Hashes) (r : Request) (s : Signing) : Text :=
  stringToSign s.amzDate s.scope (hexEncode (H.sha256 (utf8 (canonicalRequest r s))))

def signature (H : Hashes) (secret : Text) (r : Request) (s : Signing) : Text :=
  hexEncode (H.hmacSha256 (signingKey H secret s.date s.region s.service) (utf8 (toSign H r s)))

def authorization (H : Hashes) (accessKey secret : Text) (r : Request) (s : Signing) : Text :=
  algorithm ++ " Credential=".toList ++ accessKey ++ '/' :: s.scope ++ s.separator ++
    "SignedHeaders=".toList ++ s.signedText ++ s.separator ++ "Signature=".toList ++
    signature H secret r s

/-- The request carries the headers that its signature needs, and the signature. The payload
hash is the one that a header announces, and the hash of the body where none does. -/
structure Signed (H : Hashes) (accessKey secret : Text) (r : Request) (s : Signing) : Prop where
  authorization : r.values "authorization".toList = [authorization H accessKey secret r s]
  date : r.values "x-amz-date".toList = [s.amzDate]
  payload : r.values "x-amz-content-sha256".toList = [s.payloadHash] ∨
    r.values "x-amz-content-sha256".toList = [] ∧ s.payloadHash = hexEncode (H.sha256 r.body)
  host : "host".toList ∈ s.signedHeaders
  amz : ∀ h ∈ r.headers, startsWith "x-amz-".toList h.1 = true → h.1 ∈ s.signedHeaders
  present : ∀ name ∈ s.signedHeaders, r.values name ≠ []

end Library.SigV4
