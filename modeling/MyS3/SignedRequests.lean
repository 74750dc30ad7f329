import MyS3.AuthSigv4
import Mathlib.Data.Set.Function

/-!
What an accepted signature fixes, and which signed requests are accepted. Two requests
with one signature have the same lines in their canonical requests, because SHA-256 and
the HMAC of the derived keys tell the strings apart. A request that a client has signed
is accepted exactly when the server reads from it what the client wrote: the server
takes the query and the path as they stand, and one visible value for each header.
-/

namespace MyS3.SignedRequests

open Library.Strings Library.Fields Library.Encodings Library.Words Library.SigV4
open AuthSigv4

/-- Two requests that agree on everything that is signed. -/
structure SameSigned (r r' : Request) (parts parts' : AuthParts) : Prop where
  method : r.method = r'.method
  path : r.path = r'.path
  query : r.query.getD [] = r'.query.getD []
  signedHeaders : parts.signedHeaders = parts'.signedHeaders
  payloadHash : payloadHash r = payloadHash r'
  date : headerStr r "x-amz-date".toList = headerStr r' "x-amz-date".toList
  region : parts.region = parts'.region
  service : parts.service = parts'.service
  header : ∀ name ∈ split ';' parts.signedHeaders,
    compact isWhitespace (headerValue r name) = compact isWhitespace (headerValue r' name)

/-- Equal lines for equal names have equal values. -/
theorem header_of_lines {r r' : Request} {names : List Text}
    (h : (names.map fun name => (keyOf name, compact isWhitespace (headerValue r name))).map
        (fun h => h.1 ++ ':' :: h.2) =
      (names.map fun name => (keyOf name, compact isWhitespace (headerValue r' name))).map
        (fun h => h.1 ++ ':' :: h.2)) :
    ∀ name ∈ names,
      compact isWhitespace (headerValue r name) = compact isWhitespace (headerValue r' name) := by
  rw [List.map_map, List.map_map, List.map_inj_left] at h
  intro name hname
  exact (List.cons.inj (List.append_cancel_left (h name hname))).2

theorem sameSigned_of_canonical {r r' : Request} {sh sh' : Text} (hsh : '\n' ∉ sh)
    (hsh' : '\n' ∉ sh') (h : canonicalRequest r sh = canonicalRequest r' sh') :
    r.method = r'.method ∧ r.path = r'.path ∧ r.query.getD [] = r'.query.getD [] ∧ sh = sh' ∧
      payloadHash r = payloadHash r' ∧ ∀ name ∈ split ';' sh,
        compact isWhitespace (headerValue r name) =
          compact isWhitespace (headerValue r' name) := by
  rw [canonicalRequest_eq, canonicalRequest_eq] at h
  obtain ⟨hmethod, hpath, hquery, hheaders, hsigned, hpayload⟩ :=
    canonicalText_inj (serverHeaders_lines r hsh) (serverHeaders_lines r' hsh') h
  subst hsigned
  exact ⟨hmethod, hpath, hquery, rfl, hpayload, header_of_lines hheaders⟩

theorem newline_hexEncode (data : Bytes) : '\n' ∉ hexEncode data := fun h =>
  absurd (mem_hexEncode h) (by decide)

def sampleNames : List Text :=
  ["host".toList, "x-amz-content-sha256".toList, "x-amz-date".toList]

def sampleScope : Text := scopeText "20240229".toList "us-east-1".toList "s3".toList

/-- The lines of a GET under three signed headers. -/
def sampleLines (path query : String) : Text :=
  canonicalText "GET".toList path.toList query.toList
    (sampleNames.zip ["localhost:9000".toList, "UNSIGNED-PAYLOAD".toList,
      "20240229T000000Z".toList])
    ([';'].intercalate sampleNames) "UNSIGNED-PAYLOAD".toList

def sampleToSign (digest : Bytes) : Text :=
  stringToSign "20240229T000000Z".toList sampleScope (hexEncode digest)

def plainDigest : Bytes :=
  [48, 52, 103, 71, 46, 60, 191, 42, 241, 22, 123, 56, 83, 89, 182, 163, 100, 16, 172, 40, 164, 73,
   6, 169, 240, 6, 19, 237, 102, 116, 34, 169]

def sentDigest : Bytes :=
  [50, 203, 197, 65, 125, 81, 83, 101, 126, 202, 70, 86, 24, 133, 40, 81, 192, 132, 226, 192, 217,
   1, 107, 131, 128, 154, 141, 223, 33, 138, 217, 168]

def sortedDigest : Bytes :=
  [43, 107, 20, 188, 152, 133, 192, 97, 113, 227, 29, 215, 85, 204, 4, 141, 223, 105, 186, 159, 74,
   249, 218, 171, 128, 190, 43, 127, 112, 157, 173, 166]

def plainMac : Bytes :=
  [246, 90, 231, 3, 145, 232, 78, 86, 73, 178, 51, 152, 200, 190, 155, 183, 117, 121, 44, 252, 103,
   124, 213, 208, 69, 121, 132, 200, 35, 78, 189, 24]

def sortedMac : Bytes :=
  [55, 151, 221, 56, 30, 116, 236, 197, 123, 38, 2, 155, 85, 93, 231, 57, 252, 249, 229, 242, 54,
   187, 204, 141, 46, 225, 32, 218, 46, 65, 80, 150]

/-- The key for one day, region and service under the secret of a new node. -/
def sampleKey : Bytes :=
  [79, 24, 205, 195, 65, 133, 252, 2, 10, 75, 83, 243, 212, 227, 19, 112, 79, 11, 193, 21, 188, 48,
   4, 226, 33, 196, 60, 157, 82, 210, 27, 113]

def sampleHashes : Hashes :=
  .tabulated
    [(sampleLines "/storage/objects/a.txt" "", plainDigest),
      (sampleLines "/storage/objects" "prefix=a&delimiter=%2F", sentDigest),
      (sampleLines "/storage/objects" "delimiter=%2F&prefix=a", sortedDigest)]
    [((utf8 "AWS4minioadmin".toList, "20240229".toList),
        [216, 94, 210, 45, 239, 116, 71, 158, 32, 219, 168, 110, 153, 190, 57, 162, 67, 250, 128,
         210, 79, 245, 122, 71, 157, 85, 235, 119, 135, 82, 85, 170]),
      (([216, 94, 210, 45, 239, 116, 71, 158, 32, 219, 168, 110, 153, 190, 57, 162, 67, 250, 128,
         210, 79, 245, 122, 71, 157, 85, 235, 119, 135, 82, 85, 170],
          "us-east-1".toList),
        [28, 194, 62, 182, 118, 13, 135, 77, 205, 166, 54, 166, 154, 163, 250, 177, 123, 163, 236,
         115, 99, 115, 241, 149, 96, 52, 165, 45, 46, 149, 225, 16]),
      (([28, 194, 62, 182, 118, 13, 135, 77, 205, 166, 54, 166, 154, 163, 250, 177, 123, 163, 236,
         115, 99, 115, 241, 149, 96, 52, 165, 45, 46, 149, 225, 16],
          "s3".toList),
        [219, 45, 44, 75, 226, 104, 106, 25, 203, 239, 234, 11, 214, 116, 245, 77, 154, 158, 155,
         19, 237, 214, 51, 76, 42, 71, 26, 30, 159, 42, 199, 212]),
      (([219, 45, 44, 75, 226, 104, 106, 25, 203, 239, 234, 11, 214, 116, 245, 77, 154, 158, 155,
         19, 237, 214, 51, 76, 42, 71, 26, 30, 159, 42, 199, 212],
          "aws4_request".toList), sampleKey),
      ((sampleKey, sampleToSign plainDigest), plainMac),
      ((sampleKey, sampleToSign sentDigest),
        [8, 169, 236, 111, 102, 91, 58, 80, 30, 6, 126, 29, 72, 42, 3, 193, 131, 13, 155, 243, 95,
         79, 189, 201, 130, 142, 173, 169, 52, 84, 63, 29]),
      ((sampleKey, sampleToSign sortedDigest), sortedMac)]

def sampleKeys : KeyPair where
  awsAccessKeyId := "minioadmin".toList
  awsSecretAccessKey := "minioadmin".toList

def sampleSigning : Signing where
  amzDate := "20240229T000000Z".toList
  region := "us-east-1".toList
  service := "s3".toList
  signedHeaders := sampleNames
  payloadHash := "UNSIGNED-PAYLOAD".toList
  separator := [',', ' ']
  date_length := by decide
  date_chars := forall_mem_of_all (by decide)
  region_chars := forall_mem_of_all (by decide)
  service_chars := forall_mem_of_all (by decide)
  payload_chars := forall_mem_of_all (by decide)
  signed_ne := by decide
  signed_chars := by
    have hall : (sampleNames.all fun name => name != [] && name.all isNameChar) = true := by decide
    intro name hname
    simpa using List.all_eq_true.mp hall name hname
  signed_sorted := by decide
  separator_eq := Or.inr rfl

/-- The headers of a client, with the signature at the end of the authorization. -/
def sampleHeaders (mac : Bytes) : List (Text × Text) :=
  [("host".toList, "localhost:9000".toList),
    ("x-amz-content-sha256".toList, "UNSIGNED-PAYLOAD".toList),
    ("x-amz-date".toList, "20240229T000000Z".toList),
    ("authorization".toList, algorithm ++ " Credential=".toList ++ "minioadmin".toList ++
      '/' :: sampleScope ++ ", SignedHeaders=".toList ++ [';'].intercalate sampleNames ++
      ", Signature=".toList ++ hexEncode mac)]

theorem newline_sampleHeaders (mac : Bytes) :
    ∀ header ∈ sampleHeaders mac, '\n' ∉ header.2 := by
  unfold sampleHeaders
  rw [List.forall_mem_cons, List.forall_mem_cons, List.forall_mem_cons, List.forall_mem_singleton]
  refine ⟨by decide +kernel, by decide +kernel, by decide +kernel, ?_⟩
  rw [List.mem_append, not_or]
  exact ⟨by decide +kernel, newline_hexEncode mac⟩

def plainRequest : Request where
  method := "GET".toList
  path := "/storage/objects/a.txt".toList
  query := none
  headers := sampleHeaders plainMac
  body := []
  method_line := by decide
  path_line := by decide
  query_line := by decide
  header_line := newline_sampleHeaders _

/-- The same request with a header that is not signed. -/
def taggedRequest : Request where
  method := "GET".toList
  path := "/storage/objects/a.txt".toList
  query := none
  headers := ("user-agent".toList, "curl".toList) :: sampleHeaders plainMac
  body := []
  method_line := by decide
  path_line := by decide
  query_line := by decide
  header_line := by
    rw [List.forall_mem_cons]
    exact ⟨by decide, newline_sampleHeaders _⟩

/-- A listing whose parameters are not in the order of their names. -/
def listRequest : Request where
  method := "GET".toList
  path := "/storage/objects".toList
  query := some "prefix=a&delimiter=%2F".toList
  headers := sampleHeaders sortedMac
  body := []
  method_line := by decide
  path_line := by decide
  query_line := by decide
  header_line := newline_sampleHeaders _

def sampleParts : AuthParts where
  accessKey := "minioadmin".toList
  region := "us-east-1".toList
  service := "s3".toList
  signedHeaders := [';'].intercalate sampleNames
  signature := hexEncode plainMac

/-- Two accepted requests with one signature agree on everything that is signed, where the
hash functions tell apart the strings that are hashed. -/
theorem signature_binds_request (H : Hashes) (keys : KeyPair) (r r' : Request)
    (parts parts' : AuthParts) (amzDate amzDate' : Text)
    (h : validateSigv4 H keys r (authorizationOf r) = .ok ())
    (h' : validateSigv4 H keys r' (authorizationOf r') = .ok ())
    (hparts : parseAuthorization (authorizationOf r) = .ok parts)
    (hparts' : parseAuthorization (authorizationOf r') = .ok parts')
    (hdate : headerStr r "x-amz-date".toList = some amzDate)
    (hdate' : headerStr r' "x-amz-date".toList = some amzDate')
    (hsignature : parts.signature = parts'.signature)
    (hsha : Set.InjOn H.sha256 {utf8 (canonicalRequest r parts.signedHeaders),
      utf8 (canonicalRequest r' parts'.signedHeaders)})
    (hhmac : Set.InjOn (fun input : Bytes × Bytes => H.hmacSha256 input.1 input.2)
      {signingInput H keys r amzDate parts, signingInput H keys r' amzDate' parts'}) :
    SameSigned r r' parts parts' := by
  obtain ⟨_, _, hp, _, hd, hsig⟩ := validateSigv4_ok.mp h
  obtain ⟨_, _, hp', _, hd', hsig'⟩ := validateSigv4_ok.mp h'
  obtain rfl := Except.ok.inj (hp.symm.trans hparts)
  obtain rfl := Except.ok.inj (hp'.symm.trans hparts')
  obtain rfl := Option.some.inj (hd.symm.trans hdate)
  obtain rfl := Option.some.inj (hd'.symm.trans hdate')
  have hmac := hexEncode_inj (hsig.trans (hsignature.trans hsig'.symm))
  have hinput := Set.injOn_pair.mp hhmac hmac
  have hstring := utf8_inj (congrArg Prod.snd hinput)
  obtain ⟨hdates, hscope, hhash⟩ := stringToSign_inj (newline_headerStr hd)
    (newline_headerStr hd') (newline_hexEncode _) (newline_hexEncode _) hstring
  obtain ⟨hread, _⟩ := parsed_of_parse hp
  obtain ⟨hread', _⟩ := parsed_of_parse hp'
  rw [hdates] at hscope
  obtain ⟨hregion, hservice⟩ :=
    scopeText_inj hread.region hread'.region hread.service hread'.service hscope
  have hcanonical := utf8_inj (Set.injOn_pair.mp hsha (hexEncode_inj hhash))
  have hline : ∀ {q : Request} {parts : AuthParts}, Parsed (authorizationOf q) parts →
      '\n' ∉ parts.signedHeaders := fun hread hc =>
    newline_authorizationOf _ (hread.signedChars _ hc)
  obtain ⟨hmethod, hpath, hquery, hsigned, hpayload, hheader⟩ :=
    sameSigned_of_canonical (hline hread) (hline hread') hcanonical
  exact {
    method := hmethod
    path := hpath
    query := hquery
    signedHeaders := hsigned
    payloadHash := hpayload
    date := by rw [hd, hd', hdates]
    region := hregion
    service := hservice
    header := hheader }

/-- A header that is not signed may be added under an accepted signature. -/
theorem signature_binds_tagged : SameSigned plainRequest taggedRequest sampleParts sampleParts :=
  signature_binds_request sampleHashes sampleKeys plainRequest taggedRequest sampleParts
    sampleParts sampleSigning.amzDate sampleSigning.amzDate (by decide +kernel)
    (by decide +kernel) (by decide +kernel) (by decide +kernel) (by decide +kernel)
    (by decide +kernel) rfl (Set.injOn_pair.mpr fun _ => by decide +kernel)
    (Set.injOn_pair.mpr fun _ => by decide +kernel)

theorem headerStr_values (r : Request) (name : Text) :
    headerStr r name = (r.values name).head?.filter fun v => v.all isVisible := by
  unfold headerStr Request.values
  rw [List.head?_map, List.head?_filter]

theorem isWhitespace_of_isBlank {c : Char} (h : isBlank c = true) : isWhitespace c = true := by
  unfold isBlank at h
  simp only [Bool.or_eq_true, beq_iff_eq] at h
  rcases h with rfl | rfl
  · decide
  · decide

/-- A visible character is white space only as a blank or a tab. -/
theorem isWhitespace_visible {c : Char} (hc : isVisible c = true) (htab : c ≠ '\t') :
    isWhitespace c = (c == ' ') := by
  have hbound : 32 ≤ c.toNat ∧ c.toNat < 127 := by
    simpa [isVisible, htab] using hc
  rw [Bool.eq_iff_iff, beq_iff_eq]
  constructor
  · intro h
    simp only [isWhitespace, Bool.or_eq_true, Bool.and_eq_true, decide_eq_true_eq,
      beq_iff_eq] at h
    have hnat : c.toNat = ' '.toNat := by
      rw [show ' '.toNat = 32 from rfl]
      omega
    exact Char.toNat_inj.mp hnat
  · intro h'
    obtain rfl := h'
    decide

def nonBlank (t : Text) : Text := t.filter fun c => !isBlank c

theorem nonBlank_trimmedValue (v : Text) : nonBlank (trimmedValue v) = nonBlank v := by
  have hblank : ∀ t : Text, nonBlank t = nonBlank (t.filter fun c => !(c == ' ')) := by
    intro t
    unfold nonBlank
    rw [List.filter_filter]
    congr 1
    funext c
    cases h : c == ' ' <;> simp [isBlank, h]
  have hends : ∀ t : Text, (∀ c ∈ t, isBlank c = true) → nonBlank t = [] := by
    intro t ht
    unfold nonBlank
    rw [List.filter_eq_nil_iff]
    intro c hc
    simp [ht c hc]
  obtain ⟨before, after, hbefore, hafter, ht⟩ := trimmed_parts isBlank v
  unfold trimmedValue
  rw [hblank, filter_compact (by decide), ← hblank]
  conv_rhs => rw [ht]
  unfold nonBlank at *
  rw [List.filter_append, List.filter_append, hends before hbefore, hends after hafter,
    List.nil_append, List.append_nil]

theorem nonBlank_compact_length (x : Text) :
    (nonBlank (compact isWhitespace x)).length ≤ (nonBlank x).length := by
  have hsame : nonBlank (compact isWhitespace x) = x.filter fun c => !isWhitespace c := by
    rw [← filter_compact (p := isWhitespace) (by decide) x]
    unfold nonBlank
    apply List.filter_congr
    intro c hc
    rcases mem_compact hc with rfl | ⟨_, hspace⟩
    · decide
    · have hblank : isBlank c = false := by
        by_contra hb
        rw [isWhitespace_of_isBlank (Bool.not_eq_false _ ▸ hb)] at hspace
        cases hspace
      rw [hspace, hblank]
  rw [hsame]
  unfold nonBlank
  apply List.Sublist.length_le
  apply List.monotone_filter_right
  intro c hc
  by_contra hb
  have hblank : isBlank c = true := by simpa using hb
  rw [isWhitespace_of_isBlank hblank] at hc
  cases hc

theorem nonBlank_canonicalValue (v : Text) (rest : List Text) :
    (nonBlank v).length + rest.length ≤ (nonBlank (canonicalValue (v :: rest))).length := by
  unfold canonicalValue
  induction rest generalizing v with
  | nil => simp [nonBlank_trimmedValue]
  | cons w rest ih =>
    have hrest := ih w
    rw [List.map_cons, List.intercalate_cons_of_ne_nil (by simp)]
    have hsplit : nonBlank (trimmedValue v ++ [','] ++
        [','].intercalate ((w :: rest).map trimmedValue)) =
        nonBlank v ++ ',' :: nonBlank ([','].intercalate ((w :: rest).map trimmedValue)) := by
      rw [← nonBlank_trimmedValue v]
      simp [nonBlank, isBlank]
    rw [hsplit]
    simp only [List.length_append, List.length_cons]
    omega

/-- One visible value without a tab inside. -/
def PlainValue (values : List Text) : Prop :=
  ∃ v, values = [v] ∧ (∀ c ∈ v, isVisible c = true) ∧
    '\t' ∉ trimEndMatches isBlank (trimStartMatches isBlank v)

/-- The server compacts a visible value without tabs as the client does. -/
theorem compact_of_plain {v : Text} (hvisible : ∀ c ∈ v, isVisible c = true)
    (htab : '\t' ∉ trimEndMatches isBlank (trimStartMatches isBlank v)) :
    compact isWhitespace v = trimmedValue v := by
  unfold trimmedValue compact
  rw [← words_trim (p := isWhitespace) (q := isBlank) (fun c => isWhitespace_of_isBlank) v,
    words_congr]
  intro c hc
  exact isWhitespace_visible (hvisible c (mem_of_mem_trimmed hc)) fun heq => htab (heq ▸ hc)

/-- What the server reads from a header is what the client signed exactly for one visible
value without tabs. -/
theorem read_eq_iff {values : List Text} (hne : values ≠ []) :
    compact isWhitespace ((values.head?.filter fun v => v.all isVisible).getD []) =
      canonicalValue values ↔ PlainValue values := by
  obtain ⟨v, rest, rfl⟩ := List.exists_cons_of_ne_nil hne
  constructor
  · intro h
    have hlong := nonBlank_canonicalValue v rest
    rw [← h] at hlong
    have hshort := nonBlank_compact_length
      (((v :: rest).head?.filter fun v => v.all isVisible).getD [])
    by_cases hvisible : v.all isVisible = true
    · have hread : ((v :: rest).head?.filter fun v => v.all isVisible).getD [] = v := by
        simp [Option.filter, hvisible]
      rw [hread] at h hshort hlong
      have hrest : rest = [] := List.length_eq_zero_iff.mp (by omega)
      subst hrest
      refine ⟨v, rfl, List.all_eq_true.mp hvisible, fun htab => ?_⟩
      have hmem : '\t' ∈ trimmedValue v := mem_compact_of_mem (by decide) htab (by decide)
      rw [show canonicalValue [v] = trimmedValue v from List.intercalate_singleton] at h
      rw [← h] at hmem
      rcases mem_compact hmem with hc | ⟨_, hc⟩
      · exact absurd hc (by decide)
      · exact absurd hc (by decide)
    · have hread : ((v :: rest).head?.filter fun v => v.all isVisible).getD [] = [] := by
        simp [Option.filter, hvisible]
      rw [hread] at hshort hlong
      have hempty : nonBlank v = [] := List.length_eq_zero_iff.mp (by
        simp only [nonBlank, List.filter_nil, List.length_nil] at hshort
        unfold nonBlank at *
        omega)
      rw [List.all_eq_true, not_forall] at hvisible
      obtain ⟨c, hc⟩ := hvisible
      obtain ⟨hmem, hforeign⟩ := Classical.not_imp.mp hc
      unfold nonBlank at hempty
      rw [List.filter_eq_nil_iff] at hempty
      have hblank : isBlank c = true := by simpa using hempty c hmem
      unfold isBlank at hblank
      simp only [Bool.or_eq_true, beq_iff_eq] at hblank
      rcases hblank with rfl | rfl
      · exact absurd (by decide) hforeign
      · exact absurd (by decide) hforeign
  · intro h'
    obtain ⟨w, hw, hvisible, htab⟩ := h'
    obtain ⟨rfl, rfl⟩ := List.cons.inj hw
    have hread : ([v].head?.filter fun v => v.all isVisible).getD [] = v := by
      simp [Option.filter, List.all_eq_true.mpr hvisible]
    rw [hread, compact_of_plain hvisible htab]
    exact List.intercalate_singleton.symm

/-- A text that starts with a known word and ends without white space is not trimmed, nor
is it with a blank before it. -/
theorem trim_word (word : Text) {blank t : Text} {c : Char} (hblank : ∀ d ∈ blank, isWhitespace d = true)
    (hc : isWhitespace c = false) (hne : t ≠ []) (ht : ∀ d ∈ t, isWhitespace d = false) :
    trim (blank ++ (c :: word ++ t)) = c :: word ++ t := by
  have htrim : trim (c :: word ++ t) = c :: word ++ t := by
    apply trim_eq_self
    · intro d hd
      rw [← Option.some.inj hd]
      exact hc
    · intro d hd
      rw [List.getLast?_append_of_ne_nil _ hne] at hd
      exact ht d (List.mem_of_getLast? hd)
  have hstart : trimStartMatches isWhitespace (blank ++ (c :: word ++ t)) =
      trimStartMatches isWhitespace (c :: word ++ t) := by
    unfold trimStartMatches
    exact List.dropWhile_append_of_pos hblank
  calc trim (blank ++ (c :: word ++ t)) = trim (c :: word ++ t) := by
        unfold trim
        rw [hstart]
    _ = c :: word ++ t := htrim

theorem hexEncode_ne_nil {data : Bytes} (h : data.length = 32) : hexEncode data ≠ [] := by
  intro hnil
  have hlen := hexEncode_length data
  rw [hnil, h] at hlen
  cases hlen

theorem plain_of_bounds {c : Char} (hlow : 45 ≤ c.toNat) (hhigh : c.toNat ≤ 122) :
    isWhitespace c = false ∧ isVisible c = true ∧ c ≠ ',' := by
  have hvisible : isVisible c = true := by
    unfold isVisible
    simp only [Bool.or_eq_true, Bool.and_eq_true, decide_eq_true_eq]
    omega
  have hne : ∀ d : Char, d.toNat < 45 → c ≠ d := by
    intro d hd h
    obtain rfl := h
    omega
  refine ⟨?_, hvisible, hne _ (by decide)⟩
  rw [isWhitespace_visible hvisible (hne _ (by decide)), beq_eq_false_iff_ne]
  exact hne _ (by decide)

/-- A letter, a digit or a hyphen can be read, and none of them separates anything. -/
theorem scopeChar_plain {c : Char} (h : isScopeChar c = true) :
    isWhitespace c = false ∧ isVisible c = true ∧ c ≠ ',' := by
  unfold isScopeChar isDigit at h
  simp only [Bool.or_eq_true, Bool.and_eq_true, decide_eq_true_eq, beq_iff_eq] at h
  rcases h with ((h | h) | h) | rfl
  · exact plain_of_bounds (le_trans (by decide) (Char.le_def.mp h.1)) (le_trans h.2 (by decide))
  · exact plain_of_bounds (le_trans (by decide) (Char.le_def.mp h.1)) (le_trans h.2 (by decide))
  · exact plain_of_bounds (le_trans (by decide) (Char.le_def.mp h.1)) (le_trans h.2 (by decide))
  · decide

/-- A character of a header name can be read, is kept by lower-casing, and separates nothing. -/
theorem nameChar_plain {c : Char} (h : isNameChar c = true) :
    isWhitespace c = false ∧ isVisible c = true ∧ c ≠ ',' ∧ c ≠ ';' ∧ ¬ ('A' ≤ c ∧ c ≤ 'Z') := by
  have hmarks : ∀ d ∈ "!#$%&'*+-.^_|~".toList, isWhitespace d = false ∧ isVisible d = true ∧
      d ≠ ',' ∧ d ≠ ';' ∧ ¬ ('A' ≤ d ∧ d ≤ 'Z') := forall_mem_of_all (by decide)
  unfold isNameChar isDigit at h
  simp only [Bool.or_eq_true, Bool.and_eq_true, decide_eq_true_eq, beq_iff_eq] at h
  rcases h with ((h | h) | h) | h
  · have hlow : 97 ≤ c.toNat := h.1
    have hhigh : c.toNat ≤ 122 := h.2
    obtain ⟨hspace, hvisible, hcomma⟩ := plain_of_bounds (by omega) hhigh
    refine ⟨hspace, hvisible, hcomma, ?_, fun hupper => ?_⟩
    · intro h'
      obtain rfl := h'
      exact absurd hlow (by decide)
    · have hbound : c.toNat ≤ 90 := hupper.2
      omega
  · have hlow : 48 ≤ c.toNat := h.1
    have hhigh : c.toNat ≤ 57 := h.2
    obtain ⟨hspace, hvisible, hcomma⟩ := plain_of_bounds (c := c) (by omega) (by omega)
    refine ⟨hspace, hvisible, hcomma, ?_, fun hupper => ?_⟩
    · intro h'
      obtain rfl := h'
      exact absurd hhigh (by decide)
    · have hbound : 65 ≤ c.toNat := hupper.1
      omega
  · exact hmarks c h
  · have hc : c = Char.ofNat 96 := Char.toNat_inj.mp h
    rw [hc]
    decide

section Client

variable (H : Hashes) (keys : KeyPair) (r : Request) (s : Signing)

theorem signature_ne_nil : signature H keys.awsSecretAccessKey r s ≠ [] :=
  hexEncode_ne_nil (H.hmac_length _ _)

theorem signedText_ne_nil : s.signedText ≠ [] := by
  obtain ⟨name, hname⟩ := List.exists_mem_of_ne_nil _ s.signed_ne
  obtain ⟨c, hc⟩ := List.exists_mem_of_ne_nil _ (s.signed_chars name hname).1
  exact List.ne_nil_of_mem (mem_intercalate_of_mem hname hc)

theorem mem_signedText {c : Char} (h : c ∈ s.signedText) : c = ';' ∨ isNameChar c = true := by
  rcases mem_intercalate h with h | ⟨name, hname, h⟩
  · exact Or.inl h
  · exact Or.inr ((s.signed_chars name hname).2 c h)

/-- The characters of a scope are those of its parts, `/` and `_`. -/
theorem mem_scope {c : Char} (h : c ∈ s.scope) : isScopeChar c = true ∨ c = '/' ∨ c = '_' := by
  have hlast : ∀ d ∈ "/aws4_request".toList, isScopeChar d = true ∨ d = '/' ∨ d = '_' :=
    forall_mem_of_all (by decide)
  unfold Signing.scope scopeText at h
  simp only [List.mem_append, List.mem_cons] at h
  rcases h with h | rfl | h | rfl | h | h
  · exact Or.inl (s.date_chars c (List.mem_of_mem_take h))
  · exact Or.inr (Or.inl rfl)
  · exact Or.inl (s.region_chars c h)
  · exact Or.inr (Or.inl rfl)
  · exact Or.inl (s.service_chars c h)
  · exact hlast c h

theorem split_credential {key : Text} (hkey : '/' ∉ key) :
    split '/' (key ++ '/' :: s.scope) =
      [key, s.date, s.region, s.service, "aws4_request".toList] := by
  have hscope : ∀ {t : Text}, (∀ c ∈ t, isScopeChar c = true) → '/' ∉ t := fun h hmem =>
    absurd (h _ hmem) (by decide)
  have htext : key ++ '/' :: s.scope =
      ['/'].intercalate [key, s.date, s.region, s.service, "aws4_request".toList] := by
    simp [Signing.scope, scopeText, List.intercalate_cons_cons]
  rw [htext]
  apply List.splitOn_intercalate '/'
  · intro t ht
    simp only [List.mem_cons, List.not_mem_nil, or_false] at ht
    rcases ht with rfl | rfl | rfl | rfl | rfl
    · exact hkey
    · exact hscope fun c hc => s.date_chars c (List.mem_of_mem_take hc)
    · exact hscope s.region_chars
    · exact hscope s.service_chars
    · decide
  · simp

theorem read_credential (parts : AuthParts) {key : Text} (hkey : '/' ∉ key) :
    parts.read ("Credential=".toList ++ (key ++ '/' :: s.scope)) =
      { parts with accessKey := key, region := s.region, service := s.service } := by
  have hparts : "Credential=".toList ++ (key ++ '/' :: s.scope) =
      [] ++ ('C' :: ("redential=".toList ++ key ++ '/' :: (s.date ++ '/' :: (s.region ++
        '/' :: (s.service ++ ['/'])))) ++ "aws4_request".toList) := by
    simp [Signing.scope, scopeText]
  have htrim : trim ("Credential=".toList ++ (key ++ '/' :: s.scope)) =
      "Credential=".toList ++ (key ++ '/' :: s.scope) := by
    rw [hparts, trim_word _ (by simp) (by decide) (by decide) (forall_mem_of_all (by decide))]
    rfl
  unfold AuthParts.read
  simp only [htrim]
  rw [stripPrefix_eq_some.mpr (show "Credential=".toList ++ (key ++ '/' :: s.scope) = _ from rfl)]
  simp only [split_credential s hkey]
  rfl

/-- The separators of a client leave at most a blank before a part. -/
theorem separator_blank :
    ∃ blank, s.separator = ',' :: blank ∧ (∀ d ∈ blank, isWhitespace d = true) ∧ ',' ∉ blank := by
  rcases s.separator_eq with h | h
  · exact ⟨[], h, forall_mem_of_all (by decide), by decide⟩
  · exact ⟨[' '], h, forall_mem_of_all (by decide), by decide⟩

theorem read_signedHeaders (parts : AuthParts) {blank : Text}
    (hblank : ∀ d ∈ blank, isWhitespace d = true) :
    parts.read (blank ++ ("SignedHeaders=".toList ++ s.signedText)) =
      { parts with signedHeaders := s.signedText } := by
  have hspace : ∀ d ∈ s.signedText, isWhitespace d = false := by
    intro d hd
    rcases mem_signedText s hd with rfl | hname
    · decide
    · exact (nameChar_plain hname).1
  have htrim : trim (blank ++ ("SignedHeaders=".toList ++ s.signedText)) =
      "SignedHeaders=".toList ++ s.signedText :=
    trim_word "ignedHeaders=".toList hblank (by decide) (signedText_ne_nil s) hspace
  unfold AuthParts.read
  simp only [htrim]
  rw [show stripPrefix "Credential=".toList ("SignedHeaders=".toList ++ s.signedText) = none from rfl,
    stripPrefix_eq_some.mpr (show "SignedHeaders=".toList ++ s.signedText = _ from rfl)]

theorem read_signature (parts : AuthParts) {blank : Text}
    (hblank : ∀ d ∈ blank, isWhitespace d = true) :
    parts.read (blank ++ ("Signature=".toList ++ signature H keys.awsSecretAccessKey r s)) =
      { parts with signature := signature H keys.awsSecretAccessKey r s } := by
  have hspace : ∀ d ∈ hexAlphabet, isWhitespace d = false := forall_mem_of_all (by decide)
  have htrim : trim (blank ++ ("Signature=".toList ++ signature H keys.awsSecretAccessKey r s)) =
      "Signature=".toList ++ signature H keys.awsSecretAccessKey r s :=
    trim_word "ignature=".toList hblank (by decide) (signature_ne_nil H keys r s)
      fun d hd => hspace d (mem_hexEncode hd)
  unfold AuthParts.read
  simp only [htrim]
  rw [show stripPrefix "Credential=".toList ("Signature=".toList ++ _) = none from rfl,
    show stripPrefix "SignedHeaders=".toList ("Signature=".toList ++ _) = none from rfl,
    stripPrefix_eq_some.mpr (show "Signature=".toList ++ _ = _ from rfl)]

/-- The parts of the header that a client sends. -/
def clientParts : AuthParts where
  accessKey := keys.awsAccessKeyId
  region := s.region
  service := s.service
  signedHeaders := s.signedText
  signature := signature H keys.awsSecretAccessKey r s

theorem comma_scope : ',' ∉ s.scope := by
  intro h
  rcases mem_scope s h with h | h | h
  · exact (scopeChar_plain h).2.2 rfl
  · exact absurd h (by decide)
  · exact absurd h (by decide)

theorem comma_signedText : ',' ∉ s.signedText := by
  intro h
  rcases mem_signedText s h with h | h
  · exact absurd h (by decide)
  · exact (nameChar_plain h).2.2.1 rfl

/-- The header of a client is parsed for a key that holds neither `/` nor `,`. -/
theorem parse_client (hkey : keys.awsAccessKeyId ≠ []) (hslash : '/' ∉ keys.awsAccessKeyId)
    (hcomma : ',' ∉ keys.awsAccessKeyId) :
    parseAuthorization (authorization H keys.awsAccessKeyId keys.awsSecretAccessKey r s) =
      .ok (clientParts H keys r s) := by
  obtain ⟨blank, hseparator, hblank, hcommaBlank⟩ := separator_blank s
  let parts : List Text := ["Credential=".toList ++ (keys.awsAccessKeyId ++ '/' :: s.scope),
    blank ++ ("SignedHeaders=".toList ++ s.signedText),
    blank ++ ("Signature=".toList ++ signature H keys.awsSecretAccessKey r s)]
  have htext : "AWS4-HMAC-SHA256 ".toList ++ [','].intercalate parts =
      authorization H keys.awsAccessKeyId keys.awsSecretAccessKey r s := by
    have hbegin : algorithm ++ " Credential=".toList =
        "AWS4-HMAC-SHA256 ".toList ++ "Credential=".toList := rfl
    unfold authorization
    rw [hbegin, hseparator]
    simp only [parts, List.intercalate_cons_cons, List.intercalate_singleton, List.append_assoc,
      List.cons_append, List.nil_append]
  have hsplit : split ',' ([','].intercalate parts) = parts := by
    apply List.splitOn_intercalate ','
    · intro t ht
      simp only [parts, List.mem_cons, List.not_mem_nil, or_false] at ht
      rcases ht with rfl | rfl | rfl
      · simp only [List.mem_append, List.mem_cons, not_or]
        exact ⟨by decide, hcomma, by decide, comma_scope s⟩
      · simp only [List.mem_append, not_or]
        exact ⟨hcommaBlank, by decide, comma_signedText s⟩
      · simp only [List.mem_append, not_or]
        exact ⟨hcommaBlank, by decide, fun h => absurd (mem_hexEncode h) (by decide)⟩
    · simp [parts]
  have hread : parts.foldl AuthParts.read AuthParts.start = clientParts H keys r s := by
    simp only [parts, List.foldl_cons, List.foldl_nil]
    rw [read_credential s _ hslash, read_signedHeaders s _ hblank, read_signature H keys r s _ hblank]
    rfl
  have hsigned := signedText_ne_nil s
  have hsig := signature_ne_nil H keys r s
  unfold parseAuthorization
  rw [← htext, stripPrefix_eq_some.mpr rfl]
  simp only [hsplit, hread]
  rw [if_neg]
  simp [clientParts, hkey, hsigned, hsig]

theorem visible_authorization {c : Char}
    (hkey : ∀ d ∈ keys.awsAccessKeyId, isVisible d = true)
    (h : c ∈ authorization H keys.awsAccessKeyId keys.awsSecretAccessKey r s) :
    isVisible c = true := by
  have halgorithm : ∀ d ∈ algorithm ++ " Credential=".toList, isVisible d = true :=
    forall_mem_of_all (by decide)
  have hwords : ∀ d ∈ "SignedHeaders=".toList ++ "Signature=".toList ++ hexAlphabet,
      isVisible d = true := forall_mem_of_all (by decide)
  have hseparator : ∀ d ∈ s.separator, isVisible d = true := by
    rcases s.separator_eq with h | h
    · rw [h]
      exact forall_mem_of_all (by decide)
    · rw [h]
      exact forall_mem_of_all (by decide)
  have hscope : ∀ d ∈ s.scope, isVisible d = true := by
    intro d hd
    rcases mem_scope s hd with h | rfl | rfl
    · exact (scopeChar_plain h).2.1
    · decide
    · decide
  have hsigned : ∀ d ∈ s.signedText, isVisible d = true := by
    intro d hd
    rcases mem_signedText s hd with rfl | h
    · decide
    · exact (nameChar_plain h).2.1
  unfold authorization at h
  simp only [List.mem_append, List.mem_cons] at h
  rcases h with (((((((((h | h) | h) | rfl | h) | h) | h) | h) | h) | h) | h)
  · exact halgorithm c (List.mem_append_left _ h)
  · exact halgorithm c (List.mem_append_right _ h)
  · exact hkey c h
  · decide
  · exact hscope c h
  · exact hseparator c h
  · exact hwords c (List.mem_append_left _ (List.mem_append_left _ h))
  · exact hsigned c h
  · exact hseparator c h
  · exact hwords c (List.mem_append_left _ (List.mem_append_right _ h))
  · exact hwords c (List.mem_append_right _ (mem_hexEncode h))

theorem split_signedText : split ';' s.signedText = s.signedHeaders := by
  apply List.splitOn_intercalate ';' _ s.signed_ne
  intro name hname h
  exact (nameChar_plain ((s.signed_chars name hname).2 _ h)).2.2.2.1 rfl

/-- A name in lower case is looked up as it is. -/
theorem keyOf_name {name : Text} (h : ∀ c ∈ name, isNameChar c = true) : keyOf name = name := by
  have htrim : trim name = name := by
    apply trim_eq_self
    · intro c hc
      exact (nameChar_plain (h c (List.mem_of_head? hc))).1
    · intro c hc
      exact (nameChar_plain (h c (List.mem_of_getLast? hc))).1
  unfold keyOf asciiLower
  rw [htrim]
  conv_rhs => rw [← List.map_id name]
  apply List.map_congr_left
  intro c hc
  exact if_neg (nameChar_plain (h c hc)).2.2.2.2

/-- The server reads the signed headers under the names of the client. -/
theorem serverHeaders_signedText :
    serverHeaders r s.signedText = s.signedHeaders.map fun name =>
      (name, compact isWhitespace
        (((r.values name).head?.filter fun v => v.all isVisible).getD [])) := by
  unfold serverHeaders
  rw [split_signedText]
  apply List.map_congr_left
  intro name hname
  have hkey := keyOf_name (s.signed_chars name hname).2
  unfold headerValue
  rw [hkey, headerStr_values]

theorem headerStr_plain {name v : Text} (hvalues : r.values name = [v])
    (hv : ∀ c ∈ v, isScopeChar c = true) : headerStr r name = some v := by
  rw [headerStr_values, hvalues]
  have hvisible : v.all isVisible = true :=
    List.all_eq_true.mpr fun c hc => (scopeChar_plain (hv c hc)).2.1
  simp [Option.filter, hvisible]

/-- What the server has to read as the client signed it. -/
structure ReadAsSigned : Prop where
  key : keys.awsAccessKeyId ≠ []
  key_chars : ∀ c ∈ keys.awsAccessKeyId, isVisible c = true ∧ c ≠ '/' ∧ c ≠ ','
  path : canonicalUri r.path = r.path
  query : canonicalQuery (r.query.getD []) = r.query.getD []
  payload : r.values "x-amz-content-sha256".toList ≠ []
  header : ∀ name ∈ s.signedHeaders, PlainValue (r.values name)

variable {H keys r s}

theorem authorizationOf_client
    (hsigned : Signed H keys.awsAccessKeyId keys.awsSecretAccessKey r s)
    (hkey : ∀ d ∈ keys.awsAccessKeyId, isVisible d = true) :
    authorizationOf r = authorization H keys.awsAccessKeyId keys.awsSecretAccessKey r s := by
  have hvisible := List.all_eq_true.mpr fun c hc =>
    visible_authorization H keys r s (c := c) hkey hc
  unfold authorizationOf
  rw [headerStr_values, hsigned.authorization]
  simp [Option.filter, hvisible]

theorem visible_authorizationOf (r : Request) {c : Char} (h : c ∈ authorizationOf r) :
    isVisible c = true := by
  unfold authorizationOf at h
  cases hauth : headerStr r "authorization".toList with
  | none =>
    rw [hauth] at h
    cases h
  | some v =>
    rw [hauth] at h
    exact headerStr_visible hauth c h

/-- For a client that signed with the same canonical request, the server computes its
signature. -/
theorem signingInput_client
    (hcanonical : AuthSigv4.canonicalRequest r s.signedText = Library.SigV4.canonicalRequest r s) :
    signingInput H keys r s.amzDate (clientParts H keys r s) =
      (signingKey H keys.awsSecretAccessKey s.date s.region s.service, utf8 (toSign H r s)) := by
  unfold signingInput toSign
  simp only [show (clientParts H keys r s).signedHeaders = s.signedText from rfl, hcanonical]
  rfl

theorem payloadHash_client (hsigned : Signed H keys.awsAccessKeyId keys.awsSecretAccessKey r s)
    (hpayload : r.values "x-amz-content-sha256".toList ≠ []) : payloadHash r = s.payloadHash := by
  rcases hsigned.payload with hvalues | ⟨hnone, _⟩
  · unfold AuthSigv4.payloadHash
    rw [headerStr_plain r hvalues s.payload_chars]
    rfl
  · exact absurd hnone hpayload

/-- The canonical requests of the server and of the client are the same exactly when every
part is read as it was signed. -/
theorem canonical_eq_iff (hsigned : Signed H keys.awsAccessKeyId keys.awsSecretAccessKey r s) :
    AuthSigv4.canonicalRequest r s.signedText = Library.SigV4.canonicalRequest r s ↔
      canonicalUri r.path = r.path ∧ canonicalQuery (r.query.getD []) = r.query.getD [] ∧
        r.values "x-amz-content-sha256".toList ≠ [] ∧
        ∀ name ∈ s.signedHeaders, PlainValue (r.values name) := by
  rw [canonicalRequest_eq]
  unfold Library.SigV4.canonicalRequest
  constructor
  · intro h
    obtain ⟨_, hpath, hquery, hheaders, _, hpayload⟩ :=
      canonicalText_inj (serverHeaders_lines r s.newline_signedText) (canonicalRequest_lines r s) h
    refine ⟨hpath.symm, hquery.symm, ?_, ?_⟩
    · intro hnone
      rcases hsigned.payload with hvalues | ⟨_, hhash⟩
      · rw [hnone] at hvalues
        cases hvalues
      · have hmem : 'U' ∈ hexEncode (H.sha256 r.body) := by
          rw [← hhash, ← hpayload]
          unfold AuthSigv4.payloadHash
          rw [headerStr_values, hnone]
          decide
        exact absurd (mem_hexEncode hmem) (by decide)
    · intro name hname
      rw [serverHeaders_signedText, canonicalHeaders, List.map_map, List.map_map,
        List.map_inj_left] at hheaders
      have hvalue := (List.cons.inj (List.append_cancel_left (hheaders name hname))).2
      exact (read_eq_iff (hsigned.present name hname)).mp hvalue
  · intro h'
    obtain ⟨hpath, hquery, hpayload, hheader⟩ := h'
    have hheaders : serverHeaders r s.signedText = canonicalHeaders r s.signedHeaders := by
      rw [serverHeaders_signedText]
      apply List.map_congr_left
      intro name hname
      rw [(read_eq_iff (hsigned.present name hname)).mpr (hheader name hname)]
    rw [hpath, hquery, hheaders, payloadHash_client hsigned hpayload]

end Client

/-- A request that a client has signed is accepted where the server reads from it what the
client signed, and nowhere else as long as the hash functions tell the two readings apart. -/
theorem signed_request_accepted_iff (H : Hashes) (keys : KeyPair) (r : Request) (s : Signing)
    (hsigned : Signed H keys.awsAccessKeyId keys.awsSecretAccessKey r s) :
    (ReadAsSigned keys r s → validateSigv4 H keys r (authorizationOf r) = .ok ()) ∧
    (Set.InjOn H.sha256 {utf8 (AuthSigv4.canonicalRequest r s.signedText),
        utf8 (Library.SigV4.canonicalRequest r s)} →
      Set.InjOn (fun input : Bytes × Bytes => H.hmacSha256 input.1 input.2)
        {signingInput H keys r s.amzDate (clientParts H keys r s),
          (signingKey H keys.awsSecretAccessKey s.date s.region s.service,
            utf8 (toSign H r s))} →
      validateSigv4 H keys r (authorizationOf r) = .ok () → ReadAsSigned keys r s) := by
  have hdate := headerStr_plain r hsigned.date s.date_chars
  constructor
  · intro h
    have hauth := authorizationOf_client hsigned fun c hc => (h.key_chars c hc).1
    have hparts := parse_client H keys r s h.key (fun hc => (h.key_chars _ hc).2.1 rfl)
      (fun hc => (h.key_chars _ hc).2.2 rfl)
    have hcanonical := (canonical_eq_iff hsigned).mpr ⟨h.path, h.query, h.payload, h.header⟩
    rw [hauth, validateSigv4_ok]
    refine ⟨_, _, hparts, rfl, hdate, ?_⟩
    rw [signingInput_client hcanonical]
    rfl
  · intro hsha hhmac h
    obtain ⟨parts, amzDate, hparse, hkey, hread, hsig⟩ := validateSigv4_ok.mp h
    obtain ⟨hparsed, hne⟩ := parsed_of_parse hparse
    rw [hkey] at hne
    have hchars : ∀ c ∈ keys.awsAccessKeyId, isVisible c = true ∧ c ≠ '/' ∧ c ≠ ',' := by
      intro c hc
      rw [← hkey] at hc
      refine ⟨visible_authorizationOf r (hparsed.keyChars c hc), ?_, ?_⟩
      · intro h'
        obtain rfl := h'
        exact hparsed.keySlash hc
      · intro h'
        obtain rfl := h'
        exact hparsed.keyComma hc
    have hparts := parse_client H keys r s hne (fun hc => (hchars _ hc).2.1 rfl)
      (fun hc => (hchars _ hc).2.2 rfl)
    rw [authorizationOf_client hsigned fun c hc => (hchars c hc).1, hparts] at hparse
    obtain rfl := Except.ok.inj hparse
    rw [hdate] at hread
    obtain rfl := Option.some.inj hread
    have hinput := Set.injOn_pair.mp hhmac (hexEncode_inj hsig)
    have hstring := utf8_inj (congrArg Prod.snd hinput)
    have hdateLine := newline_headerStr hdate
    obtain ⟨_, _, hhash⟩ := stringToSign_inj hdateLine hdateLine (newline_hexEncode _)
      (newline_hexEncode _) hstring
    have hcanonical := utf8_inj (Set.injOn_pair.mp hsha (hexEncode_inj hhash))
    obtain ⟨hpath, hquery, hpayload, hheader⟩ := (canonical_eq_iff hsigned).mp hcanonical
    exact ⟨hne, hchars, hpath, hquery, hpayload, hheader⟩

theorem signed_plain : Signed sampleHashes sampleKeys.awsAccessKeyId
    sampleKeys.awsSecretAccessKey plainRequest sampleSigning where
  authorization := by decide +kernel
  date := by decide +kernel
  payload := by decide +kernel
  host := by decide +kernel
  amz := by decide +kernel
  present := by decide +kernel

theorem readAsSigned_plain : ReadAsSigned sampleKeys plainRequest sampleSigning where
  key := by decide +kernel
  key_chars := forall_mem_of_all (by decide +kernel)
  path := by decide +kernel
  query := by decide +kernel
  payload := by decide +kernel
  header := by
    rw [show sampleSigning.signedHeaders = sampleNames from rfl, sampleNames,
      List.forall_mem_cons, List.forall_mem_cons, List.forall_mem_singleton]
    refine ⟨⟨"localhost:9000".toList, by decide +kernel, ?_, by decide +kernel⟩,
      ⟨"UNSIGNED-PAYLOAD".toList, by decide +kernel, ?_, by decide +kernel⟩,
      ⟨"20240229T000000Z".toList, by decide +kernel, ?_, by decide +kernel⟩⟩
    · exact forall_mem_of_all (by decide +kernel)
    · exact forall_mem_of_all (by decide +kernel)
    · exact forall_mem_of_all (by decide +kernel)

/-- A download without parameters is read as it was signed. -/
theorem signed_plain_accepted :
    validateSigv4 sampleHashes sampleKeys plainRequest (authorizationOf plainRequest) = .ok () :=
  (signed_request_accepted_iff sampleHashes sampleKeys plainRequest sampleSigning signed_plain).1
    readAsSigned_plain

/-- A listing whose parameters are not sorted in the URL is refused, although a client has
signed it with their sorted form. -/
theorem signed_listing_refused :
    Signed sampleHashes sampleKeys.awsAccessKeyId sampleKeys.awsSecretAccessKey listRequest
      sampleSigning ∧
    validateSigv4 sampleHashes sampleKeys listRequest (authorizationOf listRequest) ≠ .ok () := by
  refine ⟨?_, by decide +kernel⟩
  constructor
  · decide +kernel
  · decide +kernel
  · decide +kernel
  · decide +kernel
  · decide +kernel
  · decide +kernel

end MyS3.SignedRequests
