import MyS3.Library.FormQuery
import MyS3.ShareListings
import MyS3.ShareUrls

/-!
The URLs of media links and of the requests that follow them. A URL carries the key, the name of
the link or the bucket, and the access token, each encoded; the router and the query extractor of
a content route read them back, or the share page does and asks with a URL of its own.
-/

namespace MyS3.MediaUrls

open Library.Strings Library.Encodings Library.SigV4 Library.UriComponents Library.FormQuery
open Models Keys Http SessionAuth MediaAccess ContentRoutes ShareListings CoveringShares
open ShareCreation ShareRequests ShareLinks ShareUrls

def appendAccessQuery (pathAndMaybeQuery access : Text) : Text :=
  appendParam pathAndMaybeQuery "access".toList (uriEncode (asBytes access))

/-- The `url` of an answer, which is also its `path`. -/
def linkUrl (link : MediaLinkResponse) : Text :=
  match link.access with
  | some tok => appendAccessQuery link.path tok
  | none => link.path

/-- How many bytes one replacement character stands for: the longest beginning of a character, or
one byte. -/
def badLength : Bytes → Nat
  | [] => 0
  | b :: rest =>
    let inRange (lo hi : Nat) (data : Bytes) :=
      data.head?.any fun c => lo ≤ c.toNat && c.toNat ≤ hi
    let lead := b.toNat
    if lead < 0xe0 then 1
    else if lead < 0xf0 then
      let lo := if lead = 0xe0 then 0xa0 else 0x80
      let hi := if lead = 0xed then 0x9f else 0xbf
      if inRange lo hi rest then 2 else 1
    else if lead < 0xf5 then
      let lo := if lead = 0xf0 then 0x90 else 0x80
      let hi := if lead = 0xf4 then 0x8f else 0xbf
      if inRange lo hi rest then if inRange 0x80 0xbf rest.tail then 3 else 2 else 1
    else 1

/-- The first character of the bytes, with its length. -/
def firstChar (data : Bytes) : Option (Char × Nat) :=
  [1, 2, 3, 4].findSome? fun n =>
    match fromUtf8 (data.take n) with
    | some [c] => some (c, n)
    | _ => none

def replaceBad : Nat → Bytes → Text
  | 0, _ => []
  | _, [] => []
  | n + 1, b :: rest =>
    match firstChar (b :: rest) with
    | some (c, k) => c :: replaceBad n ((b :: rest).drop k)
    | none => Char.ofNat 0xfffd :: replaceBad n ((b :: rest).drop (badLength (b :: rest)))

/-- `from_utf8_lossy`: bytes that are no character are replaced. -/
def fromUtf8Lossy (data : Bytes) : Text := (fromUtf8 data).getD (replaceBad data.length data)

/-- The parameters of a URL, as texts. -/
def queryPairs (url : Text) : List (Text × Text) :=
  (urlPairs url).map fun e => (fromUtf8Lossy e.1, fromUtf8Lossy e.2)

def badQuery {α : Type} (message : Text) : Except Response α :=
  .error (.failure .badRequest
    (.message ("Failed to deserialize query string: ".toList ++ message)))

/-- The parameters that a route knows. Others are ignored, and none may come twice. -/
def readFields (known : List Text) (seen : List (Text × Text)) :
    List (Text × Text) → Except Response (List (Text × Text))
  | [] => .ok seen
  | (name, value) :: rest =>
    if !known.contains name then readFields known seen rest
    else if seen.any fun e => e.1 == name then
      badQuery ("duplicate field `".toList ++ name ++ "`".toList)
    else readFields known (seen ++ [(name, value)]) rest

/-- `AccessQuery`. -/
def accessQuery (pairs : List (Text × Text)) : Except Response (Option Text) := do
  let fields ← readFields ["access".toList] [] pairs
  return fields.lookup "access".toList

/-- `MediaContentQuery`: the bucket and the access token. -/
def mediaContentQuery (pairs : List (Text × Text)) : Except Response (Option Text × Text) := do
  let fields ← readFields ["bucket".toList, "access".toList] [] pairs
  match fields.lookup "access".toList with
  | none => badQuery "missing field `access`".toList
  | some access => return (fields.lookup "bucket".toList, access)

def shareListQuery (pairs : List (Text × Text)) : Except Response ShareListQuery := do
  let fields ← readFields ["prefix".toList, "access".toList] [] pairs
  return ⟨(fields.lookup "prefix".toList).getD [], fields.lookup "access".toList⟩

/-- A route of a link, with its parameters. -/
inductive Endpoint
  | media (rawKey : Text)
  | content (name : ShareName) (rawKey : Text)
  | listing (name : ShareName)
  deriving DecidableEq

/-- A parameter of a path, which is not empty. -/
def pathParam (raw : Text) : Option Text :=
  if raw = [] then none else fromUtf8 (percentDecode raw)

/-- What follows the name of a link in a path. -/
def shareEndpoint (mk : Text → ShareName) (rest : Text) : Option Endpoint := do
  let (segment, sub) ← splitOnce '/' rest
  let name ← pathParam segment
  match stripPrefix "content/".toList sub with
  | some rawKey => return .content (mk name) (← pathParam rawKey)
  | none => if sub = "list".toList then return .listing (mk name) else none

/-- The route of a path; `none` is another route, or a parameter that is not UTF-8. -/
def endpointOf (path : Text) : Option Endpoint :=
  match stripPrefix "/api/v1/media/content/".toList path with
  | some rawKey => (pathParam rawKey).map .media
  | none =>
    match stripPrefix "/api/v1/shares/by-token/".toList path with
    | some rest => shareEndpoint .token rest
    | none => (stripPrefix "/api/v1/shares/by-code/".toList path).bind (shareEndpoint .code)

/-- What the share page reads from its URL. -/
structure SharePage where
  name : ShareName
  /-- The first `access` parameter; the page has none when it is empty. -/
  accessToken : Option Text
  deriving DecidableEq

def openPage (url : Text) : Option SharePage :=
  (parseSharePath (urlPath url)).map fun name =>
    ⟨name, ((queryPairs url).lookup "access".toList).filter (· ≠ [])⟩

def withAccess (page : SharePage) (url : Text) : Text :=
  match page.accessToken with
  | none => url
  | some tok => appendParam url "access".toList (encodeURIComponent tok)

/-- `encodeKeyPath` of the page, whose encoding keeps more characters than the server's. -/
def pageKeyPath (key : Text) : Text := ['/'].intercalate ((split '/' key).map encodeURIComponent)

def contentUrl (page : SharePage) (key : Text) : Text :=
  withAccess page (apiBase page.name ++ "/content/".toList ++ pageKeyPath key)

/-- The URL that `loadFolder` fetches. -/
def listUrl (page : SharePage) (browsePrefix : Text) : Text :=
  withAccess page (apiBase page.name ++ "/list?prefix=".toList ++ encodeURIComponent browsePrefix)

theorem fromUtf8Lossy_asBytes (t : Text) : fromUtf8Lossy (asBytes t) = t := by
  unfold fromUtf8Lossy
  rw [fromUtf8_asBytes, Option.getD_some]

example : fromUtf8Lossy [0x61, 0xe2, 0x82, 0x62, 0xff] =
    ['a', Char.ofNat 0xfffd, 'b', Char.ofNat 0xfffd] := by decide +kernel

theorem queryPairs_appendParam {url name value : Text} (hhash : '#' ∉ url) (hname : Encoded name)
    (hvalue : Encoded value) : queryPairs (appendParam url name value) = queryPairs url ++
      [(fromUtf8Lossy (percentDecode name), fromUtf8Lossy (percentDecode value))] := by
  unfold queryPairs
  rw [urlPairs_appendParam hhash hname hvalue, List.map_append, List.map_singleton]

/-- An encoding of texts that is undone by a router. -/
structure Encoding (enc : Text → Text) : Prop where
  encoded : ∀ t, Encoded (enc t)
  decoded : ∀ t, percentDecode (enc t) = asBytes t

theorem encoding_server : Encoding fun t => uriEncode (asBytes t) where
  encoded t := encoded_uriEncode _
  decoded t := by
    have h := percentDecode_uriEncode (asBytes t) []
    rwa [List.append_nil, show percentDecode [] = [] from rfl, List.append_nil] at h

theorem encoding_page : Encoding encodeURIComponent where
  encoded := encoded_encodeURIComponent
  decoded := percentDecode_encodeURIComponent

/-- A URL with an access token, where there is one. -/
def withToken (enc : Text → Text) (url : Text) : Option Text → Text
  | some tok => appendParam url "access".toList (enc tok)
  | none => url

/-- The token is read back behind the other parameters. -/
theorem read_withToken {enc : Text → Text} (henc : Encoding enc) {url : Text} (hhash : '#' ∉ url)
    (access : Option Text) : urlPath (withToken enc url access) = urlPath url ∧
      queryPairs (withToken enc url access) =
        queryPairs url ++ (access.map fun tok => ("access".toList, tok)).toList := by
  have hname : Encoded "access".toList := encoded_of_all (by decide)
  cases access with
  | none => exact ⟨rfl, (List.append_nil _).symm⟩
  | some tok =>
    refine ⟨urlPath_appendParam hhash hname (henc.encoded tok), ?_⟩
    unfold withToken
    rw [queryPairs_appendParam hhash hname (henc.encoded tok), henc.decoded, fromUtf8Lossy_asBytes]
    rfl

theorem linkUrl_eq (link : MediaLinkResponse) :
    linkUrl link = withToken (fun t => uriEncode (asBytes t)) link.path link.access := by
  unfold linkUrl withToken
  cases link.access <;> rfl

theorem withAccess_eq (page : SharePage) (url : Text) :
    withAccess page url = withToken encodeURIComponent url page.accessToken := by
  unfold withAccess withToken
  cases page.accessToken <;> rfl

theorem accessQuery_token (access : Option Text) :
    accessQuery (access.map fun tok => ("access".toList, tok)).toList = .ok access := by
  cases access <;> rfl

/-- A path without a query, as text that needs no encoding. -/
theorem queryPairs_path {path : Text} (h : EncodedPath path) :
    urlPath path = path ∧ queryPairs path = [] := by
  obtain ⟨hpath, hpairs⟩ := url_plain (h.not_mem (c := '#') (by decide) (by decide))
    (h.not_mem (c := '?') (by decide) (by decide))
  unfold queryPairs
  rw [hpairs]
  exact ⟨hpath, rfl⟩

theorem pathParam_eq {raw t : Text} (hdecode : fromUtf8 (percentDecode raw) = some t)
    (hne : t ≠ []) : pathParam raw = some t := by
  unfold pathParam
  rw [if_neg, hdecode]
  rintro rfl
  have hempty : fromUtf8 [] = some [] := fromUtf8_asBytes []
  exact hne (Option.some.inj (hdecode.symm.trans hempty))

theorem pathParam_component {t : Text} (h : t ≠ []) : pathParam (encodeURIComponent t) = some t :=
  pathParam_eq (decode_component t) h

theorem pathParam_keyPath {key : Text} (h : key ≠ []) : pathParam (encodeKeyPath key) = some key :=
  pathParam_eq (decode_encodeKeyPath key) h

theorem pathParam_pageKeyPath {key : Text} (h : key ≠ []) :
    pathParam (pageKeyPath key) = some key := by
  refine pathParam_eq ?_ h
  have hsegments := percentDecode_components (split '/' key)
  unfold split at hsegments
  rw [List.intercalate_splitOn] at hsegments
  unfold pageKeyPath split
  rw [hsegments]
  exact fromUtf8_asBytes key

theorem shareEndpoint_content {mk : Text → ShareName} {segment raw name key : Text}
    (hslash : '/' ∉ segment) (hname : pathParam segment = some name)
    (hkey : pathParam raw = some key) :
    shareEndpoint mk (segment ++ "/content/".toList ++ raw) = some (.content (mk name) key) := by
  have hsplit : splitOnce '/' (segment ++ "/content/".toList ++ raw) =
      some (segment, "content/".toList ++ raw) := by
    rw [List.append_assoc]
    exact splitOnce_append hslash
  have hstrip : stripPrefix "content/".toList ("content/".toList ++ raw) = some raw :=
    stripPrefix_eq_some.mpr rfl
  unfold shareEndpoint
  simp only [hsplit, hname, hstrip, hkey, Option.bind_eq_bind, Option.bind_some, Option.pure_def]

theorem shareEndpoint_listing {mk : Text → ShareName} {segment name : Text}
    (hslash : '/' ∉ segment) (hname : pathParam segment = some name) :
    shareEndpoint mk (segment ++ "/list".toList) = some (.listing (mk name)) := by
  have hsplit : splitOnce '/' (segment ++ "/list".toList) = some (segment, "list".toList) :=
    splitOnce_append hslash
  unfold shareEndpoint
  simp only [hsplit, hname, Option.bind_eq_bind, Option.bind_some]
  rfl

theorem endpointOf_token (rest : Text) :
    endpointOf ("/api/v1/shares/by-token/".toList ++ rest) = shareEndpoint .token rest := by
  have hmedia : stripPrefix "/api/v1/media/content/".toList
      ("/api/v1/shares/by-token/".toList ++ rest) = none := rfl
  have hstrip : stripPrefix "/api/v1/shares/by-token/".toList
      ("/api/v1/shares/by-token/".toList ++ rest) = some rest := stripPrefix_eq_some.mpr rfl
  unfold endpointOf
  rw [hmedia, hstrip]

theorem endpointOf_code (rest : Text) :
    endpointOf ("/api/v1/shares/by-code/".toList ++ rest) = shareEndpoint .code rest := by
  have hmedia : stripPrefix "/api/v1/media/content/".toList
      ("/api/v1/shares/by-code/".toList ++ rest) = none := rfl
  have hstrip : stripPrefix "/api/v1/shares/by-code/".toList
      ("/api/v1/shares/by-code/".toList ++ rest) = some rest := stripPrefix_eq_some.mpr rfl
  unfold endpointOf
  rw [hmedia, stripPrefix_byToken, hstrip]
  rfl

theorem endpointOf_media {raw key : Text} (h : pathParam raw = some key) :
    endpointOf ("/api/v1/media/content/".toList ++ raw) = some (.media key) := by
  have hstrip : stripPrefix "/api/v1/media/content/".toList
      ("/api/v1/media/content/".toList ++ raw) = some raw := stripPrefix_eq_some.mpr rfl
  unfold endpointOf
  rw [hstrip]
  simp only [h, Option.map_some]

/-- A text that `random_share_code` can draw. -/
def Drawn (t : Text) : Prop := t ≠ [] ∧ ∀ c ∈ t, c ∈ shareCharset

/-- The token and the code of a link are drawn. -/
def DrawnNames (share : ShareLinkRecord) : Prop :=
  Drawn share.token ∧ ∀ code, share.shortCode = some code → Drawn code

theorem drawn_randomShareCode (draw : Nat → Fin shareCharset.length) {len : Nat} (hlen : 0 < len) :
    Drawn (randomShareCode draw len) :=
  ⟨(plain_randomShareCode draw hlen).ne_nil, fun _ => mem_randomShareCode⟩

theorem lasting_drawnNames : Lasting DrawnNames where
  same h hsame := by
    unfold DrawnNames
    rw [← hsame.field (·.token) fun _ => rfl, ← hsame.field (·.shortCode) fun _ => rfl]
    exact h
  made now req id rng attempt := by
    refine ⟨drawn_randomShareCode _ (by decide), fun code hcode => ?_⟩
    have hcode' : shortCodeAt rng req attempt = some code := hcode
    unfold shortCodeAt at hcode'
    split_ifs at hcode'
    rw [← Option.some.inj hcode']
    exact drawn_randomShareCode _ (by decide)

theorem Drawn.encoded {t : Text} (h : Drawn t) : Encoded t := by
  have hall : ∀ c ∈ shareCharset, isEncodedChar c = true := forall_mem_of_all (by decide)
  exact fun c hc => hall c (h.2 c hc)

theorem Drawn.plain {t : Text} (h : Drawn t) : Plain t := by
  have hall : ∀ c ∈ shareCharset, c ≠ '/' ∧ c ≠ '%' := forall_mem_of_all (by decide)
  exact ⟨h.1, fun hc => (hall _ (h.2 _ hc)).1 rfl, fun hc => (hall _ (h.2 _ hc)).2 rfl⟩

theorem Drawn.pathParam {t : Text} (h : Drawn t) : pathParam t = some t := by
  refine pathParam_eq ?_ h.1
  rw [percentDecode_plain h.plain.percent]
  exact fromUtf8_asBytes t

theorem endpointOf_shareContent {share : ShareLinkRecord} (h : DrawnNames share) {key : Text}
    (hkey : key ≠ []) : endpointOf (shareContentPath share key) =
      some (.content (nameOf share) key) := by
  have hraw := pathParam_keyPath hkey
  unfold shareContentPath shareContentBase nameOf
  cases hcode : share.shortCode with
  | none =>
    simp only [List.append_assoc]
    rw [endpointOf_token, ← List.append_assoc]
    exact shareEndpoint_content h.1.plain.slash h.1.pathParam hraw
  | some code =>
    have hdrawn := h.2 code hcode
    simp only [List.append_assoc]
    rw [endpointOf_code, ← List.append_assoc]
    exact shareEndpoint_content hdrawn.plain.slash hdrawn.pathParam hraw

theorem encodedPath_encodeKeyPath (key : Text) : EncodedPath (encodeKeyPath key) := by
  refine encodedPath_intercalate fun s hs => ?_
  obtain ⟨segment, _, rfl⟩ := List.mem_map.mp hs
  exact encoded_uriEncode _

theorem encodedPath_shareContentPath {share : ShareLinkRecord} (h : DrawnNames share) (key : Text) :
    EncodedPath (shareContentPath share key) := by
  have hkey := encodedPath_encodeKeyPath key
  unfold shareContentPath shareContentBase
  cases hcode : share.shortCode with
  | none =>
    simp only
    exact (((encodedPath_of_all (by decide)).append h.1.encoded.path).append
      (encodedPath_of_all (by decide))).append hkey
  | some code =>
    simp only
    exact (((encodedPath_of_all (by decide)).append (h.2 code hcode).encoded.path).append
      (encodedPath_of_all (by decide))).append hkey

/-- The text of a name is not empty. -/
def Named : ShareName → Prop
  | .token t => t ≠ []
  | .code t => t ≠ []

theorem named_nameOf {share : ShareLinkRecord} (h : DrawnNames share) : Named (nameOf share) := by
  unfold nameOf
  cases hcode : share.shortCode with
  | none => exact h.1.1
  | some code => exact (h.2 code hcode).1

theorem encodedPath_apiBase (name : ShareName) : EncodedPath (apiBase name) := by
  cases name with
  | code code => exact (encodedPath_of_all (by decide)).append (encoded_encodeURIComponent code).path
  | token token => exact (encodedPath_of_all (by decide)).append (encoded_encodeURIComponent token).path

theorem endpointOf_apiContent {name : ShareName} (hname : Named name) {key : Text}
    (hkey : key ≠ []) : endpointOf (apiBase name ++ "/content/".toList ++ pageKeyPath key) =
      some (.content name key) := by
  have hraw := pathParam_pageKeyPath hkey
  cases name with
  | code code =>
    unfold apiBase
    simp only [List.append_assoc]
    rw [endpointOf_code, ← List.append_assoc]
    exact shareEndpoint_content (slash_encodeURIComponent code) (pathParam_component hname) hraw
  | token token =>
    unfold apiBase
    simp only [List.append_assoc]
    rw [endpointOf_token, ← List.append_assoc]
    exact shareEndpoint_content (slash_encodeURIComponent token) (pathParam_component hname) hraw

theorem endpointOf_apiListing {name : ShareName} (hname : Named name) :
    endpointOf (apiBase name ++ "/list".toList) = some (.listing name) := by
  cases name with
  | code code =>
    unfold apiBase
    simp only [List.append_assoc]
    rw [endpointOf_code]
    exact shareEndpoint_listing (slash_encodeURIComponent code) (pathParam_component hname)
  | token token =>
    unfold apiBase
    simp only [List.append_assoc]
    rw [endpointOf_token]
    exact shareEndpoint_listing (slash_encodeURIComponent token) (pathParam_component hname)

/-- The page under the URL of a folder link knows the link and has its access token. -/
theorem openPage_linkUrl {share : ShareLinkRecord} (h : DrawnNames share)
    {link : MediaLinkResponse} (hpath : link.path = sharePagePath share)
    (hne : ∀ tok, link.access = some tok → tok ≠ []) :
    openPage (linkUrl link) = some ⟨nameOf share, link.access⟩ := by
  have hparse : parseSharePath (sharePagePath share) = some (nameOf share) := by
    unfold sharePagePath nameOf
    cases hcode : share.shortCode with
    | none => exact parseSharePath_token h.1.plain
    | some code => exact parseSharePath_code (h.2 code hcode).plain
  have hencoded : EncodedPath (sharePagePath share) := by
    unfold sharePagePath
    cases hcode : share.shortCode with
    | none => exact (encodedPath_of_all (by decide)).append h.1.encoded.path
    | some code => exact (encodedPath_of_all (by decide)).append (h.2 code hcode).encoded.path
  obtain ⟨hplain, hpairs⟩ := queryPairs_path hencoded
  have hhash : '#' ∉ link.path := hpath ▸ hencoded.not_mem (by decide) (by decide)
  obtain ⟨hurl, hquery⟩ := read_withToken encoding_server hhash link.access
  unfold openPage
  rw [linkUrl_eq, hurl, hquery, hpath, hplain, hparse, hpairs, Option.map_some, List.nil_append]
  congr 2
  cases haccess : link.access with
  | none => rfl
  | some tok =>
    have hkeep : decide (tok ≠ []) = true := decide_eq_true (hne tok haccess)
    change Option.filter _ (some tok) = _
    rw [Option.filter_some, if_pos hkeep]

/-- What the route reads from the URL of a personal link. -/
theorem read_personal (bucketName key tok : Text) :
    urlPath (appendAccessQuery (personalContentPath bucketName key) tok) =
        "/api/v1/media/content/".toList ++ encodeKeyPath key ∧
      queryPairs (appendAccessQuery (personalContentPath bucketName key) tok) =
        [("bucket".toList, bucketName), ("access".toList, tok)] := by
  have hencoded : EncodedPath ("/api/v1/media/content/".toList ++ encodeKeyPath key) :=
    (encodedPath_of_all (by decide)).append (encodedPath_encodeKeyPath key)
  have hpathHash := hencoded.not_mem (c := '#') (by decide) (by decide)
  have hpathQuery := hencoded.not_mem (c := '?') (by decide) (by decide)
  have hname : Encoded "bucket".toList := encoded_of_all (by decide)
  have hvalue := encoding_server.encoded bucketName
  have hpersonal : personalContentPath bucketName key =
      appendParam ("/api/v1/media/content/".toList ++ encodeKeyPath key) "bucket".toList
        (uriEncode (asBytes bucketName)) := by
    unfold personalContentPath appendParam
    rw [if_neg hpathQuery]
    simp only [List.append_assoc]
    rfl
  have hhash : '#' ∉ personalContentPath bucketName key := by
    rw [hpersonal]
    exact hash_appendParam hpathHash hname hvalue
  obtain ⟨hplain, hnone⟩ := queryPairs_path hencoded
  obtain ⟨hpath, hpairs⟩ := read_withToken encoding_server hhash (some tok)
  constructor
  · refine hpath.trans ?_
    rw [hpersonal, urlPath_appendParam hpathHash hname hvalue, hplain]
  · refine hpairs.trans ?_
    rw [hpersonal, queryPairs_appendParam hpathHash hname hvalue, hnone,
      encoding_server.decoded, fromUtf8Lossy_asBytes]
    rfl

theorem shareListQuery_token (pre : Text) (access : Option Text) :
    shareListQuery (("prefix".toList, pre) ::
      (access.map fun tok => ("access".toList, tok)).toList) = .ok ⟨pre, access⟩ := by
  cases access <;> rfl

/-- What the route reads from the URL that the page asks for the content of a key with. -/
theorem read_contentUrl (page : SharePage) (hname : Named page.name) {key : Text} (hkey : key ≠ []) :
    endpointOf (urlPath (contentUrl page key)) = some (.content page.name key) ∧
      accessQuery (queryPairs (contentUrl page key)) = .ok page.accessToken := by
  have hencoded : EncodedPath (apiBase page.name ++ "/content/".toList ++ pageKeyPath key) := by
    refine ((encodedPath_apiBase page.name).append (encodedPath_of_all (by decide))).append
      (encodedPath_intercalate fun s hs => ?_)
    obtain ⟨segment, _, rfl⟩ := List.mem_map.mp hs
    exact encoded_encodeURIComponent segment
  obtain ⟨hplain, hnone⟩ := queryPairs_path hencoded
  obtain ⟨hpath, hpairs⟩ := read_withToken encoding_page (hencoded.not_mem (c := '#') (by decide)
    (by decide)) page.accessToken
  unfold contentUrl
  rw [withAccess_eq, hpath, hplain, hpairs, hnone, List.nil_append, accessQuery_token]
  exact ⟨endpointOf_apiContent hname hkey, rfl⟩

/-- What the route reads from the URL that the page asks for a listing with. -/
theorem read_listUrl (page : SharePage) (hname : Named page.name) (browsePrefix : Text) :
    endpointOf (urlPath (listUrl page browsePrefix)) = some (.listing page.name) ∧
      shareListQuery (queryPairs (listUrl page browsePrefix)) =
        .ok ⟨browsePrefix, page.accessToken⟩ := by
  have hencoded : EncodedPath (apiBase page.name ++ "/list".toList) :=
    (encodedPath_apiBase page.name).append (encodedPath_of_all (by decide))
  have hhash := hencoded.not_mem (c := '#') (by decide) (by decide)
  have hlabel : Encoded "prefix".toList := encoded_of_all (by decide)
  have hvalue := encoded_encodeURIComponent browsePrefix
  have hlist : apiBase page.name ++ "/list?prefix=".toList ++ encodeURIComponent browsePrefix =
      appendParam (apiBase page.name ++ "/list".toList) "prefix".toList
        (encodeURIComponent browsePrefix) := by
    unfold appendParam
    rw [if_neg (hencoded.not_mem (by decide) (by decide))]
    simp only [List.append_assoc]
    rfl
  obtain ⟨hplain, hnone⟩ := queryPairs_path hencoded
  obtain ⟨hpath, hpairs⟩ := read_withToken encoding_page (hash_appendParam hhash hlabel hvalue)
    page.accessToken
  unfold listUrl
  rw [withAccess_eq, hlist, hpath, hpairs, urlPath_appendParam hhash hlabel hvalue, hplain,
    queryPairs_appendParam hhash hlabel hvalue, hnone, encoding_page.decoded, fromUtf8Lossy_asBytes]
  exact ⟨endpointOf_apiListing hname, shareListQuery_token browsePrefix page.accessToken⟩

end MyS3.MediaUrls
