import MyS3.Library.SigV4

/-!
The signature check of `server/auth_sigv4.rs`. The server takes the path and the query
as they stand in the request and reads the signed headers by name; the hash functions
are parameters. The text that it signs is again a text of lines, so that an accepted
signature fixes everything that went into it.
-/

namespace MyS3.AuthSigv4

open Library.Strings Library.Fields Library.Encodings Library.Words Library.SigV4

/-- The configured key pair. -/
structure KeyPair where
  awsAccessKeyId : Text
  awsSecretAccessKey : Text
  deriving DecidableEq

def mismatch : Text :=
  "The request signature we calculated does not match the signature you provided.".toList

structure AuthParts where
  accessKey : Text
  region : Text
  service : Text
  signedHeaders : Text
  signature : Text
  deriving DecidableEq

/-- One comma-separated part of the authorization header. -/
def AuthParts.read (parts : AuthParts) (part : Text) : AuthParts :=
  let part := trim part
  match stripPrefix "Credential=".toList part with
  | some cred =>
    let segs := split '/' cred
    { parts with
      accessKey := segs[0]?.getD []
      region := segs[2]?.getD "us-east-1".toList
      service := segs[3]?.getD "s3".toList }
  | none =>
    match stripPrefix "SignedHeaders=".toList part with
    | some sh => { parts with signedHeaders := sh }
    | none =>
      match stripPrefix "Signature=".toList part with
      | some sig => { parts with signature := sig }
      | none => parts

def AuthParts.start : AuthParts where
  accessKey := []
  region := "us-east-1".toList
  service := "s3".toList
  signedHeaders := []
  signature := []

def parseAuthorization (authorization : Text) : Except Text AuthParts :=
  match stripPrefix "AWS4-HMAC-SHA256 ".toList authorization with
  | none => .error "Invalid Authorization algorithm".toList
  | some rest =>
    let parts := (split ',' rest).foldl AuthParts.read AuthParts.start
    if parts.accessKey = [] ∨ parts.signedHeaders = [] ∨ parts.signature = [] then
      .error "Malformed Authorization header".toList
    else .ok parts

/-- A character that the library reads as text. -/
def isVisible (c : Char) : Bool := (32 ≤ c.toNat && c.toNat < 127) || c == '\t'

/-- The first value of a header, where it is text. -/
def headerStr (r : Request) (name : Text) : Option Text :=
  ((r.headers.find? fun h => h.1 == name).map (·.2)).filter fun v => v.all isVisible

def asciiLower (t : Text) : Text :=
  t.map fun c => if 'A' ≤ c ∧ c ≤ 'Z' then Char.ofNat (c.toNat + 32) else c

/-- The name under which a signed header is looked up. -/
def keyOf (name : Text) : Text := asciiLower (trim name)

/-- The lines of the signed headers; this never fails. -/
def buildCanonicalHeaders (r : Request) (signedHeaders : Text) : Text :=
  (split ';' signedHeaders).flatMap fun name =>
    let key := keyOf name
    let value :=
      if key = "host".toList then (headerStr r "host".toList).getD []
      else (headerStr r key).getD []
    key ++ ':' :: (compact isWhitespace value ++ ['\n'])

def hmacSha256 (H : Hashes) (key data : Bytes) : Bytes := H.hmacSha256 key data

def deriveSigningKey (H : Hashes) (secret date region service : Text) : Bytes :=
  let kDate := hmacSha256 H (utf8 ("AWS4".toList ++ secret)) (utf8 date)
  let kRegion := hmacSha256 H kDate (utf8 region)
  let kService := hmacSha256 H kRegion (utf8 service)
  hmacSha256 H kService (utf8 "aws4_request".toList)

def constantTimeEq (a b : Bytes) : Bool :=
  if a.length ≠ b.length then false
  else ((a.zip b).foldl (fun diff e => diff ||| (e.1 ^^^ e.2)) 0) == 0

def payloadHash (r : Request) : Text :=
  (headerStr r "x-amz-content-sha256".toList).getD "UNSIGNED-PAYLOAD".toList

def canonicalRequest (r : Request) (signedHeaders : Text) : Text :=
  r.method ++ '\n' :: (r.path ++ '\n' :: (r.query.getD [] ++ '\n' ::
    (buildCanonicalHeaders r signedHeaders ++ '\n' :: (signedHeaders ++ '\n' :: payloadHash r))))

/-- The key and the string that the server signs. -/
def signingInput (H : Hashes) (keys : KeyPair) (r : Request) (amzDate : Text)
    (parts : AuthParts) : Bytes × Bytes :=
  let dateStamp := amzDate.take 8
  let canonicalHash := hexEncode (H.sha256 (utf8 (canonicalRequest r parts.signedHeaders)))
  let scope := dateStamp ++ '/' :: (parts.region ++ '/' :: (parts.service ++
    "/aws4_request".toList))
  let stringToSign := "AWS4-HMAC-SHA256".toList ++ '\n' :: (amzDate ++ '\n' :: (scope ++
    '\n' :: canonicalHash))
  (deriveSigningKey H keys.awsSecretAccessKey dateStamp parts.region parts.service,
    utf8 stringToSign)

def validateSigv4 (H : Hashes) (keys : KeyPair) (r : Request) (authorization : Text) :
    Except Text Unit :=
  if startsWith "AWS4-HMAC-SHA256 ".toList authorization = false then .error mismatch
  else
    match parseAuthorization authorization with
    | .error e => .error e
    | .ok parts =>
      if parts.accessKey ≠ keys.awsAccessKeyId then .error mismatch
      else
        match headerStr r "x-amz-date".toList with
        | none => .error "Missing x-amz-date header".toList
        | some amzDate =>
          let input := signingInput H keys r amzDate parts
          let expected := hexEncode (hmacSha256 H input.1 input.2)
          if constantTimeEq (utf8 expected) (utf8 parts.signature) = false then .error mismatch
          else .ok ()

/-- The authorization that the middleware hands to the check. -/
def authorizationOf (r : Request) : Text := (headerStr r "authorization".toList).getD []

/-- What the middleware does with a request. -/
inductive Gate
  | next
  | error (code message : Text)
  deriving DecidableEq

def requireSigv4 (H : Hashes) (state : Option KeyPair) (authOptional : Bool) (r : Request) :
    Gate :=
  match state with
  | none => .error "InternalError".toList "Missing application state".toList
  | some keys =>
    if authOptional then .next
    else
      let auth := authorizationOf r
      if auth = [] then
        .error "AccessDenied".toList "Authorization header missing; SigV4 required".toList
      else
        match validateSigv4 H keys r auth with
        | .ok () => .next
        | .error message => .error "SignatureDoesNotMatch".toList message

/-- Where the middleware asks for a signature, it lets through what the check accepts. -/
theorem requireSigv4_next_iff {H : Hashes} {keys : KeyPair} {r : Request} :
    requireSigv4 H (some keys) false r = .next ↔
      authorizationOf r ≠ [] ∧ validateSigv4 H keys r (authorizationOf r) = .ok () := by
  simp only [requireSigv4, Bool.false_eq_true, if_false]
  by_cases hauth : authorizationOf r = []
  · simp [hauth]
  · rw [if_neg hauth]
    cases validateSigv4 H keys r (authorizationOf r) with
    | error e => simp
    | ok u => simp [hauth]

theorem constantTimeEq_iff {a b : Bytes} : constantTimeEq a b = true ↔ a = b := by
  have hfold : ∀ (x y : Bytes) (diff : UInt8), x.length = y.length →
      ((x.zip y).foldl (fun diff e => diff ||| (e.1 ^^^ e.2)) diff = 0 ↔ diff = 0 ∧ x = y) := by
    intro x
    induction x with
    | nil =>
      intro y diff hlen
      rw [List.length_eq_zero_iff.mp hlen.symm]
      simp
    | cons c rest ih =>
      intro y diff hlen
      cases y with
      | nil => cases hlen
      | cons d rest' =>
        simp only [List.zip_cons_cons, List.foldl_cons, List.cons.injEq]
        rw [ih rest' _ (Nat.succ.inj hlen), UInt8.or_eq_zero_iff, UInt8.xor_eq_zero_iff, and_assoc]
  unfold constantTimeEq
  split_ifs with hlen
  · constructor
    · intro h
      cases h
    · intro h'
      obtain rfl := h'
      exact absurd rfl hlen
  · rw [beq_iff_eq, hfold a b 0 (not_not.mp hlen)]
    simp

/-- When the check passes: the header parses, the access key is the configured one, the date
is there, and the signature is the one of the server. -/
theorem validateSigv4_ok {H : Hashes} {keys : KeyPair} {r : Request} {authorization : Text} :
    validateSigv4 H keys r authorization = .ok () ↔
      ∃ parts amzDate, parseAuthorization authorization = .ok parts ∧
        parts.accessKey = keys.awsAccessKeyId ∧ headerStr r "x-amz-date".toList = some amzDate ∧
        hexEncode (H.hmacSha256 (signingInput H keys r amzDate parts).1
          (signingInput H keys r amzDate parts).2) = parts.signature := by
  have hstart : ∀ {parts}, parseAuthorization authorization = .ok parts →
      startsWith "AWS4-HMAC-SHA256 ".toList authorization = true := by
    intro parts h
    unfold parseAuthorization at h
    cases hrest : stripPrefix "AWS4-HMAC-SHA256 ".toList authorization with
    | none =>
      rw [hrest] at h
      cases h
    | some rest => exact startsWith_iff.mpr ⟨rest, stripPrefix_eq_some.mp hrest⟩
  constructor
  · intro h
    unfold validateSigv4 at h
    split_ifs at h with hbegin
    cases hparts : parseAuthorization authorization with
    | error e =>
      rw [hparts] at h
      cases h
    | ok parts =>
      simp only [hparts] at h
      split_ifs at h with hkey
      cases hdate : headerStr r "x-amz-date".toList with
      | none =>
        rw [hdate] at h
        cases h
      | some amzDate =>
        simp only [hdate] at h
        split_ifs at h with hsig
        rw [Bool.not_eq_false, constantTimeEq_iff] at hsig
        exact ⟨parts, amzDate, rfl, not_not.mp hkey, rfl, utf8_inj hsig⟩
  · intro h'
    obtain ⟨parts, amzDate, hparts, hkey, hdate, hsig⟩ := h'
    unfold validateSigv4
    rw [hstart hparts, if_neg (by decide)]
    simp only [hparts, hdate]
    rw [if_neg (not_not.mpr hkey), if_neg]
    rw [Bool.not_eq_false, constantTimeEq_iff]
    exact congrArg utf8 hsig

/-- What holds of the parts whatever the header was. -/
structure Parsed (rest : Text) (parts : AuthParts) : Prop where
  keySlash : '/' ∉ parts.accessKey
  keyComma : ',' ∉ parts.accessKey
  keyChars : ∀ c ∈ parts.accessKey, c ∈ rest
  region : '/' ∉ parts.region
  service : '/' ∉ parts.service
  signedChars : ∀ c ∈ parts.signedHeaders, c ∈ rest

theorem mem_of_stripPrefix {pre part t : Text} (h : stripPrefix pre part = some t) {c : Char}
    (hc : c ∈ t) : c ∈ part := by
  rw [← stripPrefix_eq_some.mp h]
  exact List.mem_append_right _ hc

theorem slash_segment {t : Text} {i : Nat} {default : Text} (hdefault : '/' ∉ default) :
    '/' ∉ (split '/' t)[i]?.getD default := by
  cases hseg : (split '/' t)[i]? with
  | none => exact hdefault
  | some seg => exact not_mem_of_mem_split (List.mem_of_getElem? hseg)

theorem mem_segment {t : Text} {i : Nat} {c : Char} (h : c ∈ (split '/' t)[i]?.getD []) :
    c ∈ t := by
  cases hseg : (split '/' t)[i]? with
  | none =>
    rw [hseg] at h
    cases h
  | some seg =>
    rw [hseg] at h
    exact mem_of_mem_split (List.mem_of_getElem? hseg) h

theorem parsed_read {rest part : Text} {parts : AuthParts} (h : Parsed rest parts)
    (hcomma : ',' ∉ part) (hchars : ∀ c ∈ part, c ∈ rest) : Parsed rest (parts.read part) := by
  have htrim : ∀ c ∈ trim part, c ∈ part := fun c hc => mem_of_mem_trimmed hc
  unfold AuthParts.read
  simp only
  cases hcred : stripPrefix "Credential=".toList (trim part) with
  | some cred =>
    have hmem : ∀ c, c ∈ (split '/' cred)[0]?.getD [] → c ∈ part := fun c hc =>
      htrim c (mem_of_stripPrefix hcred (mem_segment hc))
    exact {
      keySlash := slash_segment List.not_mem_nil
      keyComma := fun hc => hcomma (hmem _ hc)
      keyChars := fun c hc => hchars c (hmem c hc)
      region := slash_segment (by decide)
      service := slash_segment (by decide)
      signedChars := h.signedChars }
  | none =>
    cases hsigned : stripPrefix "SignedHeaders=".toList (trim part) with
    | some sh =>
      exact { h with
        signedChars := fun c hc => hchars c (htrim c (mem_of_stripPrefix hsigned hc)) }
    | none =>
      cases hsig : stripPrefix "Signature=".toList (trim part) with
      | some sig => exact { h with }
      | none => exact h

theorem parsed_foldl {rest : Text} {parts : List Text} {start : AuthParts}
    (h : Parsed rest start) (hparts : ∀ part ∈ parts, ',' ∉ part ∧ ∀ c ∈ part, c ∈ rest) :
    Parsed rest (parts.foldl AuthParts.read start) := by
  induction parts generalizing start with
  | nil => exact h
  | cons part tail ih =>
    obtain ⟨hcomma, hchars⟩ := hparts part List.mem_cons_self
    exact ih (parsed_read h hcomma hchars) fun p hp => hparts p (List.mem_cons_of_mem _ hp)

theorem parsed_of_parse {authorization : Text} {parts : AuthParts}
    (h : parseAuthorization authorization = .ok parts) :
    Parsed authorization parts ∧ parts.accessKey ≠ [] := by
  unfold parseAuthorization at h
  cases hrest : stripPrefix "AWS4-HMAC-SHA256 ".toList authorization with
  | none =>
    rw [hrest] at h
    cases h
  | some rest =>
    simp only [hrest] at h
    split_ifs at h with hempty
    simp only [not_or] at hempty
    rw [← Except.ok.inj h]
    refine ⟨parsed_foldl ?_ fun part hpart => ⟨not_mem_of_mem_split hpart, fun c hc =>
      mem_of_stripPrefix hrest (mem_of_mem_split hpart hc)⟩, hempty.1⟩
    constructor <;> simp [AuthParts.start]

theorem headerStr_visible {r : Request} {name v : Text} (h : headerStr r name = some v) :
    ∀ c ∈ v, isVisible c = true := by
  unfold headerStr at h
  rw [Option.filter_eq_some_iff] at h
  exact List.all_eq_true.mp h.2

theorem newline_headerStr {r : Request} {name v : Text} (h : headerStr r name = some v) :
    '\n' ∉ v := fun hc => absurd (headerStr_visible h _ hc) (by decide)

/-- A signed header as the server reads it. -/
def headerValue (r : Request) (name : Text) : Text := (headerStr r (keyOf name)).getD []

theorem newline_headerValue (r : Request) (name : Text) : '\n' ∉ headerValue r name := by
  unfold headerValue
  cases h : headerStr r (keyOf name) with
  | none => exact List.not_mem_nil
  | some v => exact newline_headerStr h

theorem newline_keyOf {name : Text} (h : '\n' ∉ name) : '\n' ∉ keyOf name := by
  intro hmem
  obtain ⟨c, hc, hlower⟩ := List.mem_map.mp hmem
  split_ifs at hlower with hupper
  · have hall : ∀ n : Fin 26, Char.ofNat (n.val + 65 + 32) ≠ '\n' := by decide
    have hlow : 65 ≤ c.toNat := hupper.1
    have hhigh : c.toNat ≤ 90 := hupper.2
    have hne := hall ⟨c.toNat - 65, by omega⟩
    simp only at hne
    rw [show c.toNat - 65 + 65 = c.toNat by omega] at hne
    exact hne hlower
  · rw [hlower] at hc
    exact h (mem_of_mem_trimmed hc)

def serverHeaders (r : Request) (signedHeaders : Text) : List (Text × Text) :=
  (split ';' signedHeaders).map fun name =>
    (keyOf name, compact isWhitespace (headerValue r name))

/-- The server signs the lines of its canonical request. -/
theorem canonicalRequest_eq (r : Request) (signedHeaders : Text) :
    canonicalRequest r signedHeaders =
      canonicalText r.method r.path (r.query.getD []) (serverHeaders r signedHeaders)
        signedHeaders (payloadHash r) := by
  have hheaders : buildCanonicalHeaders r signedHeaders =
      ((serverHeaders r signedHeaders).map fun h => h.1 ++ ':' :: h.2).flatMap (· ++ ['\n']) := by
    unfold buildCanonicalHeaders serverHeaders
    rw [List.map_map, List.flatMap_map]
    congr 1
    funext name
    have hvalue : (if keyOf name = "host".toList then (headerStr r "host".toList).getD []
        else (headerStr r (keyOf name)).getD []) = headerValue r name := by
      split_ifs with hhost
      · unfold headerValue
        rw [hhost]
      · rfl
    simp only [hvalue, Function.comp, List.append_assoc, List.cons_append]
  unfold canonicalRequest canonicalText
  rw [hheaders, List.append_assoc, intercalate_append _ [r.method, r.path, r.query.getD []] (by simp),
    intercalate_append _ _ (List.cons_ne_nil _ _)]
  simp [List.append_assoc]

theorem serverHeaders_lines (r : Request) {signedHeaders : Text} (h : '\n' ∉ signedHeaders) :
    Lines r.method r.path (r.query.getD []) (serverHeaders r signedHeaders) signedHeaders
      (payloadHash r) where
  method := r.method_line
  uri := r.path_line
  query := r.query_line
  name := by
    intro header hmem
    obtain ⟨name, hname, rfl⟩ := List.mem_map.mp hmem
    exact newline_keyOf fun hc => h (mem_of_mem_split hname hc)
  value := by
    intro header hmem hc
    obtain ⟨name, _, rfl⟩ := List.mem_map.mp hmem
    rcases mem_compact hc with hc | ⟨hc, _⟩
    · exact absurd hc (by decide)
    · exact newline_headerValue r name hc
  signedHeaders := h
  payloadHash := by
    unfold AuthSigv4.payloadHash
    cases hhash : headerStr r "x-amz-content-sha256".toList with
    | none => decide
    | some v => exact newline_headerStr hhash

theorem newline_authorizationOf (r : Request) : '\n' ∉ authorizationOf r := by
  unfold authorizationOf
  cases h : headerStr r "authorization".toList with
  | none => exact List.not_mem_nil
  | some v => exact newline_headerStr h

end MyS3.AuthSigv4
