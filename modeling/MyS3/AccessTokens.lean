import MyS3.Library.Fields
import MyS3.MediaAccess

/-!
Minting and checking of access tokens. A token is checked by its signature and then
split at its dots; no field holds one, so the grant that was minted is read back, and
two grants never share a signed payload.
-/

namespace MyS3.AccessTokens

open Library.Strings Library.Fields Library.Encodings Library.Timestamps
open Models Http MediaAccess

/-- A signed 64-bit integer. -/
def IsI64 (n : Int) : Prop := i64Min ≤ n ∧ n ≤ i64Max

instance (n : Int) : Decidable (IsI64 n) := by
  unfold IsI64
  infer_instance

def expOf : MediaGrant → Int
  | .share _ _ exp => exp
  | .personal _ _ _ exp => exp

/-- The ids and the expiry are 64-bit. -/
def InRange : MediaGrant → Prop
  | .share shareId bucketId exp => IsI64 shareId ∧ IsI64 bucketId ∧ IsI64 exp
  | .personal accountId bucketId _ exp => IsI64 accountId ∧ IsI64 bucketId ∧ IsI64 exp

/-- What is signed for a grant. -/
def payloadOf (M : MediaCodec) : MediaGrant → Text
  | .share shareId bucketId exp => sharePayload shareId bucketId exp
  | .personal accountId bucketId key exp => personalPayload M accountId bucketId key exp

def fieldsOf (M : MediaCodec) : MediaGrant → List Text
  | .share shareId bucketId exp =>
    ["v1".toList, "s".toList, showInt shareId, showInt bucketId, showInt exp]
  | .personal accountId bucketId key exp =>
    ["v1".toList, "p".toList, showInt accountId, showInt bucketId, M.encode (asBytes key),
      showInt exp]

def tokenOf (M : MediaCodec) (config : Config) (grant : MediaGrant) : Text :=
  payloadOf M grant ++ '.' :: sign M (mediaSecret config) (payloadOf M grant)

theorem payloadOf_eq (M : MediaCodec) (grant : MediaGrant) :
    payloadOf M grant = ['.'].intercalate (fieldsOf M grant) := by
  cases grant <;> rfl

theorem isDigit_toDigits {n : Nat} {c : Char} (h : c ∈ Nat.toDigits 10 n) : isDigit c = true := by
  have hdigit := Nat.isDigit_of_mem_toDigits (by decide) (by decide) h
  simpa [isDigit, Char.isDigit, Char.le_def, ge_iff_le] using hdigit

theorem digitsValue_toDigits (n : Nat) : digitsValue (Nat.toDigits 10 n) = n :=
  Nat.ofDigitChars_ten_toDigits

theorem parseDigits_toDigits (n : Nat) : parseDigits (Nat.toDigits 10 n) = some n := by
  unfold parseDigits
  rw [if_pos, digitsValue_toDigits]
  exact ⟨Nat.toDigits_ne_nil, List.all_eq_true.mpr fun c hc => isDigit_toDigits hc⟩

/-- A digit is neither a sign, nor a dot, nor white space. -/
theorem isDigit_ne {c d : Char} (h : isDigit c = true) (hd : isDigit d = false) : c ≠ d := by
  intro h'
  obtain rfl := h'
  rw [h] at hd
  cases hd

theorem parseI64_showInt {n : Int} (h : IsI64 n) : parseI64 (showInt n) = some n := by
  obtain ⟨hmin, hmax⟩ := h
  unfold i64Min at hmin
  unfold i64Max at hmax
  by_cases hneg : n < 0
  · simp only [showInt, hneg, if_true, parseI64, List.head?_cons, List.tail_cons,
      parseDigits_toDigits, Option.bind_eq_bind, Option.bind_some, Option.pure_def, Option.map_some]
    rw [show -((n.natAbs : Nat) : Int) = n by omega]
    simp [Option.filter]
    omega
  · obtain ⟨c, rest, hdigits⟩ := List.exists_cons_of_ne_nil
      (Nat.toDigits_ne_nil (n := n.natAbs) (b := 10))
    have hc : isDigit c = true := isDigit_toDigits (by rw [hdigits]; exact List.mem_cons_self)
    have hminus : c ≠ '-' := isDigit_ne hc (by decide)
    have hplus : c ≠ '+' := isDigit_ne hc (by decide)
    have hparse := parseDigits_toDigits n.natAbs
    rw [hdigits] at hparse
    simp only [showInt, hneg, if_false, parseI64, hdigits, List.head?_cons, Option.some.injEq,
      hminus, hplus, hparse, Option.bind_eq_bind, Option.bind_some, Option.pure_def,
      Option.map_some]
    rw [show ((n.natAbs : Nat) : Int) = n by omega]
    simp [Option.filter]
    omega

theorem mem_showInt {n : Int} {c : Char} (h : c ∈ showInt n) : c = '-' ∨ isDigit c = true := by
  unfold showInt at h
  split_ifs at h
  · rcases List.mem_cons.mp h with rfl | h
    · exact Or.inl rfl
    · exact Or.inr (isDigit_toDigits h)
  · exact Or.inr (isDigit_toDigits h)

theorem dot_not_mem_showInt (n : Int) : '.' ∉ showInt n := by
  intro h
  rcases mem_showInt h with h | h
  · exact absurd h (by decide)
  · exact absurd h (by decide)

theorem showInt_inj {n m : Int} (h : showInt n = showInt m) : n = m := by
  have hvalue : ∀ a b : Nat, Nat.toDigits 10 a = Nat.toDigits 10 b → a = b := by
    intro a b hab
    rw [← digitsValue_toDigits a, hab, digitsValue_toDigits]
  have hminus : ∀ a b : Nat, '-' :: Nat.toDigits 10 a ≠ Nat.toDigits 10 b := by
    intro a b hab
    have hmem : '-' ∈ Nat.toDigits 10 b := hab ▸ List.mem_cons_self
    exact isDigit_ne (isDigit_toDigits hmem) (by decide) rfl
  unfold showInt at h
  split_ifs at h with hn hm hm
  · have := hvalue _ _ (List.cons.inj h).2
    omega
  · exact absurd h (hminus _ _)
  · exact absurd h.symm (hminus _ _)
  · have := hvalue _ _ h
    omega

section Standard

variable (hmac : Bytes → Bytes → Bytes)

theorem dot_not_mem_fields {grant : MediaGrant} :
    ∀ f ∈ fieldsOf (.standard hmac) grant, '.' ∉ f := by
  have hkey : ∀ data : Bytes, '.' ∉ base64Encode data := fun data h =>
    absurd (mem_base64Encode h) (by decide)
  intro f hf
  cases grant with
  | share shareId bucketId exp =>
    simp only [fieldsOf, List.mem_cons, List.not_mem_nil, or_false] at hf
    rcases hf with rfl | rfl | rfl | rfl | rfl
    · decide
    · decide
    · exact dot_not_mem_showInt _
    · exact dot_not_mem_showInt _
    · exact dot_not_mem_showInt _
  | personal accountId bucketId key exp =>
    simp only [fieldsOf, List.mem_cons, List.not_mem_nil, or_false] at hf
    rcases hf with rfl | rfl | rfl | rfl | rfl | rfl
    · decide
    · decide
    · exact dot_not_mem_showInt _
    · exact dot_not_mem_showInt _
    · exact hkey _
    · exact dot_not_mem_showInt _

theorem split_payloadOf (grant : MediaGrant) :
    split '.' (payloadOf (.standard hmac) grant) = fieldsOf (.standard hmac) grant := by
  rw [payloadOf_eq]
  apply List.splitOn_intercalate '.' (dot_not_mem_fields hmac)
  cases grant <;> simp [fieldsOf]

/-- The grant is read back from its payload until it expires. -/
theorem parseGrant_payloadOf {grant : MediaGrant} (hrange : InRange grant) (now : Instant) :
    parseGrant (.standard hmac) now (payloadOf (.standard hmac) grant) =
      if expOf grant < nowUnix now then .error "access token expired".toList else .ok grant := by
  unfold parseGrant
  rw [split_payloadOf]
  cases grant with
  | share shareId bucketId exp =>
    obtain ⟨hshare, hbucket, hi64⟩ := hrange
    have hfields : fieldsOf (.standard hmac) (.share shareId bucketId exp) =
        [['v', '1'], ['s'], showInt shareId, showInt bucketId, showInt exp] := rfl
    simp only [hfields, parseI64_showInt hshare, parseI64_showInt hbucket,
      parseI64_showInt hi64, orError, bind, Except.bind]
    rfl
  | personal accountId bucketId key exp =>
    obtain ⟨haccount, hbucket, hi64⟩ := hrange
    have hdecode : (MediaCodec.standard hmac).decode
        ((MediaCodec.standard hmac).encode (asBytes key)) = some (asBytes key) :=
      base64Decode_encode _
    have hfields : fieldsOf (.standard hmac) (.personal accountId bucketId key exp) =
        [['v', '1'], ['p'], showInt accountId, showInt bucketId,
          (MediaCodec.standard hmac).encode (asBytes key), showInt exp] := rfl
    simp only [hfields, parseI64_showInt haccount, parseI64_showInt hbucket,
      parseI64_showInt hi64, orError, hdecode, fromUtf8_asBytes, bind, Except.bind]
    rfl

/-- A token begins with a letter and ends in a hexadecimal digit or the dot. -/
theorem trim_signed (grant : MediaGrant) {sig : Text} (hsig : ∀ c ∈ sig, c ∈ hexAlphabet) :
    trim (payloadOf (.standard hmac) grant ++ '.' :: sig) =
      payloadOf (.standard hmac) grant ++ '.' :: sig := by
  apply trim_eq_self
  · intro c hc
    have hhead : (payloadOf (.standard hmac) grant ++ '.' :: sig).head? = some 'v' := by
      cases grant <;> rfl
    rw [hhead] at hc
    rw [← Option.some.inj hc]
    decide
  · intro c hc
    have hmem : c ∈ '.' :: sig := by
      rw [List.getLast?_append_of_ne_nil _ (List.cons_ne_nil _ _)] at hc
      exact List.mem_of_getLast? hc
    have hall : ∀ x ∈ '.' :: hexAlphabet, isWhitespace x = false := forall_mem_of_all (by decide)
    rcases List.mem_cons.mp hmem with rfl | hc
    · decide
    · exact hall c (List.mem_cons_of_mem _ (hsig c hc))

/-- A payload followed by any hexadecimal signature is cut at the last dot. -/
theorem verifyAccessToken_signed (config : Config) (now : Instant) (grant : MediaGrant)
    {sig : Text} (hsig : ∀ c ∈ sig, c ∈ hexAlphabet) :
    verifyAccessToken (.standard hmac) config now (payloadOf (.standard hmac) grant ++ '.' :: sig) =
      if verifySig (.standard hmac) (mediaSecret config) (payloadOf (.standard hmac) grant) sig then
        parseGrant (.standard hmac) now (payloadOf (.standard hmac) grant)
      else .error "invalid access token signature".toList := by
  have hdot : '.' ∉ sig := fun h => absurd (hsig _ h) (by decide)
  unfold verifyAccessToken
  simp only [trim_signed hmac grant hsig]
  rw [if_neg (by simp), rsplitOnce_append hdot]

theorem mem_sign {secret payload : Text} {c : Char} (h : c ∈ sign (.standard hmac) secret payload) :
    c ∈ hexAlphabet := mem_hexEncode h

/-- What was minted is verified and read back until it expires. -/
theorem verifyAccessToken_tokenOf (config : Config) {grant : MediaGrant} (hrange : InRange grant)
    (now : Instant) :
    verifyAccessToken (.standard hmac) config now (tokenOf (.standard hmac) config grant) =
      if expOf grant < nowUnix now then .error "access token expired".toList else .ok grant := by
  unfold tokenOf
  rw [verifyAccessToken_signed hmac config now grant fun c => mem_sign hmac]
  simp only [verifySig, beq_self_eq_true, if_true]
  exact parseGrant_payloadOf hmac hrange now

/-- Two grants that differ have different payloads. -/
theorem payloadOf_inj {g g' : MediaGrant}
    (h : payloadOf (.standard hmac) g = payloadOf (.standard hmac) g') : g = g' := by
  have hfields : fieldsOf (.standard hmac) g = fieldsOf (.standard hmac) g' := by
    rw [← split_payloadOf, ← split_payloadOf, h]
  cases g with
  | share shareId bucketId exp =>
    cases g' with
    | share shareId' bucketId' exp' =>
      simp only [fieldsOf, List.cons.injEq, and_true, true_and] at hfields
      obtain ⟨hshare, hbucket, hexp⟩ := hfields
      rw [showInt_inj hshare, showInt_inj hbucket, showInt_inj hexp]
    | personal accountId bucketId' key exp' => simp [fieldsOf] at hfields
  | personal accountId bucketId key exp =>
    cases g' with
    | share shareId bucketId' exp' => simp [fieldsOf] at hfields
    | personal accountId' bucketId' key' exp' =>
      simp only [fieldsOf, List.cons.injEq, and_true, true_and] at hfields
      obtain ⟨haccount, hbucket, hcode, hexp⟩ := hfields
      have hkey : key = key' := by
        have hdecode := congrArg base64Decode hcode
        rw [show (MediaCodec.standard hmac).encode = base64Encode from rfl, base64Decode_encode,
          base64Decode_encode, Option.some.injEq] at hdecode
        have hutf8 := congrArg fromUtf8 hdecode
        rw [fromUtf8_asBytes, fromUtf8_asBytes] at hutf8
        exact Option.some.inj hutf8
      rw [showInt_inj haccount, showInt_inj hbucket, hkey, showInt_inj hexp]

/-- The signature of one payload is refused for another, where the HMAC tells them apart. -/
theorem verifyAccessToken_foreign (config : Config) (now : Instant) {g g' : MediaGrant}
    (hinj : Set.InjOn (hmac (asBytes (mediaSecret config)))
      {asBytes (payloadOf (.standard hmac) g), asBytes (payloadOf (.standard hmac) g')})
    (hne : g ≠ g') :
    verifyAccessToken (.standard hmac) config now (payloadOf (.standard hmac) g' ++
      '.' :: sign (.standard hmac) (mediaSecret config) (payloadOf (.standard hmac) g)) =
        .error "invalid access token signature".toList := by
  rw [verifyAccessToken_signed hmac config now g' fun c => mem_sign hmac, if_neg]
  intro hverify
  have hhex : hexEncode (hmac (asBytes (mediaSecret config)) (asBytes (payloadOf _ g'))) =
      hexEncode (hmac (asBytes (mediaSecret config)) (asBytes (payloadOf _ g))) :=
    beq_iff_eq.mp hverify
  have hbytes := hinj (by simp) (by simp) (hexEncode_inj hhex)
  have htext := congrArg fromUtf8 hbytes
  rw [fromUtf8_asBytes, fromUtf8_asBytes] at htext
  exact hne (payloadOf_inj hmac (Option.some.inj htext)).symm

/-- A call of one of the two minting functions. -/
inductive MintCall
  | personal (accountId bucketId : Int) (key : Text)
  | share (link : ShareLinkRecord)

/-- The ids of a call are 64-bit. -/
def MintCall.InRange : MintCall → Prop
  | .personal accountId bucketId _ => IsI64 accountId ∧ IsI64 bucketId
  | .share link => IsI64 link.id ∧ IsI64 link.bucketId

/-- The token of a call, with the second in which it expires. -/
def MintCall.mint (M : MediaCodec) (config : Config) (now : Instant) :
    MintCall → Except Text (Text × Int)
  | .personal accountId bucketId key => .ok (mintPersonalToken M config now accountId bucketId key)
  | .share link => do
    let (token, exp) ← mintShareToken M config now link
    .ok (token, exp / nanosPerSec)

/-- The fields that a call puts into its token. -/
def MintCall.grant (exp : Int) : MintCall → MediaGrant
  | .personal accountId bucketId key => .personal accountId bucketId key exp
  | .share link => .share link.id link.bucketId exp

theorem expOf_grant (call : MintCall) (exp : Int) : expOf (call.grant exp) = exp := by
  cases call <;> rfl

/-- When the token of a share expires. -/
def shareExpiry (now : Instant) (link : ShareLinkRecord) : Int :=
  match link.expiresAt with
  | some e =>
    if e < now.nanos + shareTokenMaxSecs * nanosPerSec then e
    else now.nanos + shareTokenMaxSecs * nanosPerSec
  | none => now.nanos + shareTokenMaxSecs * nanosPerSec

theorem shareExpiry_le (now : Instant) (link : ShareLinkRecord) :
    shareExpiry now link ≤ now.nanos + shareTokenMaxSecs * nanosPerSec := by
  unfold shareExpiry
  split
  · split_ifs with hlt
    · exact hlt.le
    · exact le_refl _
  · exact le_refl _

theorem mintShareToken_eq (M : MediaCodec) (config : Config) (now : Instant)
    (link : ShareLinkRecord) :
    mintShareToken M config now link =
      if shareExpiry now link ≤ now.nanos then .error "share already expired".toList
      else .ok (tokenOf M config (.share link.id link.bucketId
        (shareExpiry now link / nanosPerSec)), shareExpiry now link) := rfl

/-- A share token lasts a week at most, and is not minted for a share that is over. -/
theorem mintShareToken_ok {M : MediaCodec} {config : Config} {now : Instant}
    {link : ShareLinkRecord} {token : Text} {exp : Int}
    (h : mintShareToken M config now link = .ok (token, exp)) :
    token = tokenOf M config (.share link.id link.bucketId (exp / nanosPerSec)) ∧
      now.nanos < exp ∧ exp ≤ now.nanos + shareTokenMaxSecs * nanosPerSec := by
  rw [mintShareToken_eq] at h
  split_ifs at h with hpast
  obtain ⟨rfl, rfl⟩ := Prod.mk.inj (Except.ok.inj h)
  exact ⟨rfl, not_le.mp hpast, shareExpiry_le now link⟩

/-- A token carries the fields of its call; its expiry lies in the coming week. -/
theorem mint_ok {M : MediaCodec} {config : Config} {now : Instant} {call : MintCall}
    {token : Text} {exp : Int} (h : call.mint M config now = .ok (token, exp)) :
    token = tokenOf M config (call.grant exp) ∧ now.nanos / nanosPerSec ≤ exp ∧
      exp ≤ now.nanos / nanosPerSec + shareTokenMaxSecs := by
  cases call with
  | personal accountId bucketId key =>
    simp only [MintCall.mint, mintPersonalToken, Except.ok.injEq, Prod.mk.injEq] at h
    obtain ⟨htoken, rfl⟩ := h
    refine ⟨htoken.symm, ?_, ?_⟩
    · unfold personalTtlSecs
      omega
    · unfold personalTtlSecs shareTokenMaxSecs
      omega
  | share link =>
    cases hmint : mintShareToken M config now link with
    | error e =>
      simp only [MintCall.mint, hmint] at h
      cases h
    | ok pair =>
      obtain ⟨t, e⟩ := pair
      obtain ⟨htoken, hafter, hweek⟩ := mintShareToken_ok hmint
      simp only [MintCall.mint, hmint] at h
      obtain ⟨rfl, rfl⟩ := Prod.mk.inj (Except.ok.inj h)
      refine ⟨htoken, ?_, ?_⟩
      · unfold nanosPerSec
        omega
      · unfold nanosPerSec shareTokenMaxSecs at *
        omega

theorem inRange_grant {M : MediaCodec} {config : Config} {now : Instant} {call : MintCall}
    {token : Text} {exp : Int} (hids : call.InRange)
    (h : call.mint M config now = .ok (token, exp)) : InRange (call.grant exp) := by
  obtain ⟨_, hlow, hhigh⟩ := mint_ok h
  have hmin := now.lower
  have hmax := now.upper
  have hexp : IsI64 exp := by
    unfold minSecs maxSecs nanosPerSec shareTokenMaxSecs at *
    unfold IsI64 i64Min i64Max
    omega
  cases call with
  | personal accountId bucketId key => exact ⟨hids.1, hids.2, hexp⟩
  | share link => exact ⟨hids.1, hids.2, hexp⟩

/-- A minted token carries the fields of its call and gives them back until it expires.
Calls with different fields sign different payloads, and the signature of one is refused
for the other. The clock is not before 1970, where it would panic. -/
theorem minted_token_verifies (config : Config) (call call' : MintCall) (now now' later : Instant)
    {token token' : Text} {exp exp' : Int} (hids : call.InRange) (hclock : 0 ≤ now.nanos)
    (hmint : call.mint (.standard hmac) config now = .ok (token, exp))
    (hmint' : call'.mint (.standard hmac) config now' = .ok (token', exp'))
    (hlater : later.nanos / nanosPerSec ≤ exp) :
    token = tokenOf (.standard hmac) config (call.grant exp) ∧
    token' = tokenOf (.standard hmac) config (call'.grant exp') ∧
    verifyAccessToken (.standard hmac) config later token = .ok (call.grant exp) ∧
    (call.grant exp ≠ call'.grant exp' →
      payloadOf (.standard hmac) (call.grant exp) ≠
        payloadOf (.standard hmac) (call'.grant exp') ∧
      (Set.InjOn (hmac (asBytes (mediaSecret config)))
          {asBytes (payloadOf (.standard hmac) (call.grant exp)),
            asBytes (payloadOf (.standard hmac) (call'.grant exp'))} →
        verifyAccessToken (.standard hmac) config later
          (payloadOf (.standard hmac) (call'.grant exp') ++ '.' ::
            sign (.standard hmac) (mediaSecret config)
              (payloadOf (.standard hmac) (call.grant exp))) =
          .error "invalid access token signature".toList)) := by
  obtain ⟨htoken, hlow, _⟩ := mint_ok hmint
  have hunix : nowUnix later ≤ expOf (call.grant exp) := by
    rw [expOf_grant]
    unfold nowUnix
    unfold nanosPerSec at *
    omega
  refine ⟨htoken, (mint_ok hmint').1, ?_, fun hne => ⟨fun heq => hne (payloadOf_inj hmac heq),
    fun hinj => verifyAccessToken_foreign hmac config later hinj hne⟩⟩
  rw [htoken, verifyAccessToken_tokenOf hmac config (inRange_grant hids hmint) later]
  exact if_neg (not_lt.mpr hunix)

end Standard

/-- HMAC-SHA256 at two payloads under the secret of a new node. -/
def sampleHmac (secret payload : Bytes) : Bytes :=
  if secret = asBytes "mys3-media-link:minioadmin".toList then
    if payload = asBytes "v1.p.1.1.aw.86400".toList then
      [139, 32, 22, 245, 224, 45, 74, 92, 133, 154, 39, 215, 70, 84, 247, 214, 158, 36, 225, 23, 86,
      42, 219, 116, 216, 110, 150, 69, 197, 45, 185, 229]
    else if payload = asBytes "v1.s.1.1.604800".toList then
      [81, 223, 199, 42, 210, 53, 34, 155, 246, 247, 123, 201, 190, 28, 217, 111, 161, 215, 30, 66,
      208, 64, 49, 192, 39, 94, 57, 149, 213, 168, 172, 209]
    else []
  else []

def sampleShare : ShareLinkRecord where
  id := 1
  token := "token".toList
  shortCode := none
  bucketId := 1
  targetKey := ['k']
  targetKind := .file
  accessMode := .publicAccess
  expiresAt := none
  createdByAccountId := 1
  revokedAt := none

/-- A link to the key `k` and a link to a share of it, both minted at once. -/
theorem minted_token_verifies_sample :
    let config := (AppState.migrated "node".toList).config
    verifyAccessToken (.standard sampleHmac) config Instant.epoch
        (mintPersonalToken (.standard sampleHmac) config Instant.epoch 1 1 ['k']).1 =
      .ok (.personal 1 1 ['k'] 86400) ∧
    verifyAccessToken (.standard sampleHmac) config Instant.epoch
        (sharePayload 1 1 604800 ++ '.' :: sign (.standard sampleHmac) (mediaSecret config)
          (personalPayload (.standard sampleHmac) 1 1 ['k'] 86400)) =
      .error "invalid access token signature".toList := by
  have h := minted_token_verifies sampleHmac (AppState.migrated "node".toList).config
    (.personal 1 1 ['k']) (.share sampleShare) Instant.epoch Instant.epoch Instant.epoch
    ⟨by decide, by decide⟩ (by decide) rfl rfl (by decide)
  refine ⟨h.2.2.1, (h.2.2.2 (by decide)).2 ?_⟩
  rw [Set.injOn_pair]
  intro heq
  exact absurd heq (by decide)

end MyS3.AccessTokens
