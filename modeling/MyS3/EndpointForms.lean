import MyS3.Library.Fields
import MyS3.PeerEndpoints

/-!
The endpoints that are accepted for a peer. An endpoint is read again as it was made, but it is
a host and a port that can be dialled only if the host that was given has no white space, no
colon outside brackets, and a port of 16 bits.
-/

namespace MyS3.EndpointForms

open Library.Strings Library.Fields
open PeerEndpoints

/-- The part of an input that names the host and the port. -/
def authority (raw : Text) : Text :=
  trim ((split '/' (withoutScheme (trim raw))).head?.getD [])

def Digits (port : Text) : Prop := port ≠ [] ∧ port.all isDigit = true

/-- A host between brackets. -/
def Bracketed (host : Text) : Prop := ∃ inner, host = '[' :: (inner ++ [']'])

def NoBlanks (t : Text) : Prop := ∀ c ∈ t, isWhitespace c = false

/-- A host and a port that can be dialled. -/
structure HostPort (host port : Text) : Prop where
  nonempty : host ≠ []
  blanks : NoBlanks host
  slash : '/' ∉ host
  colon : ':' ∈ host → Bracketed host
  digits : Digits port
  range : digitsValue port ≤ 65535

def Endpoint (endpoint : Text) : Prop :=
  ∃ host port, endpoint = host ++ ':' :: port ∧ HostPort host port

/-- What is said of a host and a port in an input that can be dialled. -/
structure Dialable (hostport : Text) : Prop where
  blanks : NoBlanks hostport
  colons : hostport.head? = some '[' ∨ hostport.count ':' ≤ 1
  range : ∀ host port, hostport = host ++ ':' :: port → port.all isDigit = true →
    digitsValue port ≤ 65535

/-- How a host and a port are read. -/
inductive Reads : Text → Text → Text → Prop
  | bracketed {inner port : Text} (hinner : ']' ∉ inner) (hport : Digits port) :
      Reads ('[' :: (inner ++ [']']) ++ ':' :: port) ('[' :: (inner ++ [']'])) port
  | bracketedHost {inner : Text} (hinner : ']' ∉ inner) :
      Reads ('[' :: (inner ++ [']'])) ('[' :: (inner ++ [']'])) defaultPort
  | plain {host port : Text} (hhead : host.head? ≠ some '[') (hhost : host ≠ [])
      (hport : Digits port) : Reads (host ++ ':' :: port) host port
  | plainHost {host : Text} (hhead : host.head? ≠ some '[') (hhost : host ≠ [])
      (hcolon : ':' ∉ host) : Reads host host defaultPort

theorem colon_of_digits {port : Text} (h : port.all isDigit = true) : ':' ∉ port := by
  intro hmem
  have hdigit := List.all_eq_true.mp h ':' hmem
  exact absurd hdigit (by decide)

theorem digits_of_not {port : Text} (h : ¬ (port = [] || !port.all isDigit) = true) :
    Digits port := by
  simp only [Bool.or_eq_true, decide_eq_true_eq, Bool.not_eq_true', not_or, Bool.not_eq_false] at h
  exact h

theorem reads_of_split {hostport host port : Text} (hne : hostport ≠ [])
    (h : splitHostPort hostport = .ok (host, port)) : Reads hostport host port := by
  unfold splitHostPort at h
  split_ifs at h with hhead
  · cases hfind : findText [']'] hostport with
    | none => simp [hfind] at h
    | some last =>
      obtain ⟨before, rest, hrest, hbefore, hlast⟩ := eq_append_of_findText hfind
      -- The bracket that opens the host is not the one that closes it.
      obtain ⟨inner, rfl⟩ : ∃ inner, before = '[' :: inner := by
        cases before with
        | nil =>
          rw [hrest] at hhead
          cases hhead
        | cons c inner =>
          rw [hrest] at hhead
          exact ⟨inner, by rw [← Option.some.inj hhead]⟩
      have hinner : ']' ∉ inner := fun hmem => hbefore (List.mem_cons_of_mem _ hmem)
      have hlen : last + 1 = ('[' :: (inner ++ [']'])).length := by
        rw [← hlast]
        simp
      have hform : hostport = '[' :: (inner ++ [']']) ++ rest := by simpa using hrest
      simp only [hfind, hlen] at h
      rw [hform, List.take_left, List.drop_left] at h
      cases hstrip : stripPrefix [':'] rest with
      | none =>
        rw [hstrip] at h
        simp only at h
        split_ifs at h with hnil
        cases h
        rw [hform, hnil, List.append_nil]
        exact .bracketedHost hinner
      | some port =>
        rw [hstrip] at h
        simp only at h
        split_ifs at h with hbad
        cases h
        rw [hform, ← stripPrefix_eq_some.mp hstrip]
        exact .bracketed hinner (digits_of_not hbad)
  · cases hsplit : rsplitOnce ':' hostport with
    | none =>
      rw [hsplit] at h
      cases h
      exact .plainHost hhead hne (rsplitOnce_eq_none.mp hsplit)
    | some parts =>
      obtain ⟨before, after⟩ := parts
      obtain ⟨rfl, _⟩ := rsplitOnce_eq_some hsplit
      rw [hsplit] at h
      simp only at h
      split_ifs at h with hbad
      cases h
      rw [Bool.or_assoc, Bool.or_eq_true, not_or, decide_eq_true_eq] at hbad
      refine .plain ?_ hbad.1 (digits_of_not hbad.2)
      intro hbracket
      apply hhead
      rw [List.head?_append, hbracket]
      rfl

/-- An endpoint is split into the host and the port that it was made from. -/
theorem splitHostPort_endpoint {hostport host port : Text} (h : Reads hostport host port) :
    splitHostPort (host ++ ':' :: port) = .ok (host, port) := by
  have hplain : ∀ {host port : Text}, host.head? ≠ some '[' → host ≠ [] → Digits port →
      splitHostPort (host ++ ':' :: port) = .ok (host, port) := by
    intro host port hhead hhost hport
    have hfirst : (host ++ ':' :: port).head? = host.head? := by
      rw [List.head?_append, Option.or_of_isSome]
      rwa [List.isSome_head?]
    unfold splitHostPort
    rw [hfirst, if_neg hhead, rsplitOnce_append (colon_of_digits hport.2)]
    simp [hhost, hport.1, hport.2]
  have hbracketed : ∀ {inner port : Text}, ']' ∉ inner → Digits port →
      splitHostPort ('[' :: (inner ++ [']']) ++ ':' :: port) =
        .ok ('[' :: (inner ++ [']']), port) := by
    intro inner port hinner hport
    have hfind : findText [']'] ('[' :: (inner ++ [']']) ++ ':' :: port) =
        some (inner.length + 1) := by
      have hbefore : ']' ∉ '[' :: inner := by simpa using hinner
      simpa using findText_append hbefore (':' :: port)
    have hlen : inner.length + 1 + 1 = ('[' :: (inner ++ [']'])).length := by simp
    have hstrip : stripPrefix [':'] (':' :: port) = some port := stripPrefix_eq_some.mpr rfl
    have hhead : ('[' :: (inner ++ [']']) ++ ':' :: port).head? = some '[' := rfl
    unfold splitHostPort
    rw [if_pos hhead, hfind]
    simp only [hlen]
    rw [List.take_left, List.drop_left, hstrip]
    simp [hport.1, hport.2]
  have hdefault : Digits defaultPort := ⟨by decide, by decide⟩
  cases h with
  | bracketed hinner hport => exact hbracketed hinner hport
  | bracketedHost hinner => exact hbracketed hinner hdefault
  | plain hhead hhost hport => exact hplain hhead hhost hport
  | plainHost hhead hhost => exact hplain hhead hhost hdefault

namespace Reads

variable {hostport host port : Text}

theorem host_prefix (h : Reads hostport host port) : host <+: hostport := by
  cases h with
  | bracketed => exact List.prefix_append _ _
  | bracketedHost => exact List.prefix_refl _
  | plain => exact List.prefix_append _ _
  | plainHost => exact List.prefix_refl _

theorem host_ne (h : Reads hostport host port) : host ≠ [] := by
  cases h with
  | bracketed => exact List.cons_ne_nil _ _
  | bracketedHost => exact List.cons_ne_nil _ _
  | plain _ hhost _ => exact hhost
  | plainHost _ hhost _ => exact hhost

theorem port_digits (h : Reads hostport host port) : Digits port := by
  cases h with
  | bracketed _ hport => exact hport
  | bracketedHost => exact ⟨by decide, by decide⟩
  | plain _ _ hport => exact hport
  | plainHost => exact ⟨by decide, by decide⟩

end Reads

theorem isWhitespace_digit {c : Char} (h : isDigit c = true) : isWhitespace c = false := by
  simp only [isDigit, Bool.and_eq_true, decide_eq_true_eq] at h
  have hlow : 48 ≤ c.toNat := h.1
  have hhigh : c.toNat ≤ 57 := h.2
  simp only [isWhitespace, Bool.or_eq_false_iff, Bool.and_eq_false_iff, decide_eq_false_iff_not,
    beq_eq_false_iff_ne]
  omega

theorem authority_ends (raw : Text) :
    (∀ c, (authority raw).head? = some c → isWhitespace c = false) ∧ '/' ∉ authority raw := by
  refine ⟨fun c hc => head_trim hc, fun hslash => ?_⟩
  unfold authority at hslash
  cases hsplit : (split '/' (withoutScheme (trim raw))).head? with
  | none =>
    rw [hsplit] at hslash
    exact absurd hslash (by decide)
  | some first =>
    rw [hsplit, Option.getD_some] at hslash
    have hmem : '/' ∈ first := by
      refine (List.dropWhile_suffix isWhitespace).subset (List.IsPrefix.subset ?_ hslash)
      exact trimEndMatches_prefix _ _
    exact not_mem_of_mem_splitOn (List.mem_of_head? hsplit) hmem

/-- An accepted input is a host and a port, with a node id made from the host. -/
theorem accepted {raw endpoint id : Text} (h : parsePeerEndpoint raw = .ok (endpoint, id)) :
    ∃ host port, Reads (authority raw) host port ∧ endpoint = host ++ ':' :: port ∧
      id = suggestedId host ∧ suggestedId host ≠ "node-".toList := by
  unfold parsePeerEndpoint at h
  simp only at h
  split_ifs at h with htrimmed hempty
  cases hsplit : splitHostPort (authority raw) with
  | error msg =>
    unfold authority at hsplit
    rw [hsplit] at h
    cases h
  | ok parts =>
    obtain ⟨host, port⟩ := parts
    have hreads := reads_of_split hempty hsplit
    unfold authority at hsplit
    rw [hsplit] at h
    simp only at h
    split_ifs at h with hhost hid
    cases h
    exact ⟨host, port, hreads, rfl, rfl, hid⟩

/-- An endpoint is read again as the host and the port that it was made from. -/
theorem parse_endpoint {raw host port : Text} (h : Reads (authority raw) host port)
    (hid : suggestedId host ≠ "node-".toList) :
    parsePeerEndpoint (host ++ ':' :: port) = .ok (host ++ ':' :: port, suggestedId host) := by
  obtain ⟨hstart, hslash⟩ := authority_ends raw
  obtain ⟨hport, hdigits⟩ := h.port_digits
  have hhead : (host ++ ':' :: port).head? = (authority raw).head? := by
    obtain ⟨rest, hrest⟩ := h.host_prefix
    obtain ⟨c, tail, hhost⟩ := List.exists_cons_of_ne_nil h.host_ne
    rw [← hrest, hhost]
    rfl
  have htrim : trim (host ++ ':' :: port) = host ++ ':' :: port := by
    apply trim_eq_self
    · intro c hc
      rw [hhead] at hc
      exact hstart c hc
    · intro c hc
      rw [List.getLast?_append_of_ne_nil _ (List.cons_ne_nil _ _),
        List.getLast?_cons_of_ne_nil hport] at hc
      exact isWhitespace_digit (List.all_eq_true.mp hdigits c (List.mem_of_getLast? hc))
  have hnoslash : '/' ∉ host ++ ':' :: port := by
    rw [List.mem_append, List.mem_cons, not_or, not_or]
    refine ⟨fun hmem => hslash (h.host_prefix.subset hmem), by decide, fun hmem => ?_⟩
    exact absurd (List.all_eq_true.mp hdigits '/' hmem) (by decide)
  have hscheme : withoutScheme (host ++ ':' :: port) = host ++ ':' :: port := by
    have hnone : ∀ scheme : Text, '/' ∈ scheme → stripPrefix scheme (host ++ ':' :: port) = none :=
      fun scheme hmem => stripPrefix_eq_none.mpr fun hpre => hnoslash (hpre.subset hmem)
    unfold withoutScheme
    rw [hnone _ (by decide), hnone _ (by decide), hnone _ (by decide)]
    rfl
  have hsplit : split '/' (host ++ ':' :: port) = [host ++ ':' :: port] :=
    List.splitOn_eq_singleton hnoslash
  have hne : host ++ ':' :: port ≠ [] := by simp
  unfold parsePeerEndpoint
  simp only [htrim, if_neg hne, hscheme, hsplit, List.head?_cons, Option.getD_some,
    splitHostPort_endpoint h, if_neg h.host_ne, if_neg hid]

/-- The port of an endpoint follows its last colon. -/
theorem endpoint_iff {host port : Text} (hport : Digits port) :
    Endpoint (host ++ ':' :: port) ↔ HostPort host port := by
  constructor
  · intro h
    obtain ⟨host', port', heq, hform⟩ := h
    have hlast := rsplitOnce_append (t := host) (colon_of_digits hport.2)
    rw [heq, rsplitOnce_append (colon_of_digits hform.digits.2)] at hlast
    cases hlast
    exact hform
  · exact fun h => ⟨host, port, rfl, h⟩

theorem noBlanks_endpoint {host port : Text} (hport : Digits port) :
    NoBlanks (host ++ ':' :: port) ↔ NoBlanks host := by
  constructor
  · exact fun h c hc => h c (List.mem_append_left _ hc)
  · intro h c hc
    rcases List.mem_append.mp hc with hc | hc
    · exact h c hc
    · rcases List.mem_cons.mp hc with rfl | hc
      · decide
      · exact isWhitespace_digit (List.all_eq_true.mp hport.2 c hc)

/-- What is said of the ports after the colons of an endpoint is said of its port. -/
theorem range_endpoint {host port : Text} (hport : Digits port) :
    (∀ before after, host ++ ':' :: port = before ++ ':' :: after → after.all isDigit = true →
      digitsValue after ≤ 65535) ↔ digitsValue port ≤ 65535 := by
  constructor
  · exact fun h => h host port rfl hport.2
  · intro h before after heq hafter
    have hlast := rsplitOnce_append (t := host) (colon_of_digits hport.2)
    rw [heq, rsplitOnce_append (colon_of_digits hafter)] at hlast
    cases hlast
    exact h

/-- A host and a port can be dialled exactly when what they were read from says so. -/
theorem hostPort_iff {hostport host port : Text} (h : Reads hostport host port)
    (hslash : '/' ∉ hostport) : HostPort host port ↔ Dialable hostport := by
  have hhost : '/' ∉ host := fun hmem => hslash (h.host_prefix.subset hmem)
  have hdefault : digitsValue defaultPort ≤ 65535 := by decide
  have hform : HostPort host port ↔
      NoBlanks host ∧ (':' ∈ host → Bracketed host) ∧ digitsValue port ≤ 65535 :=
    ⟨fun hp => ⟨hp.blanks, hp.colon, hp.range⟩,
      fun hp => ⟨h.host_ne, hp.1, hhost, hp.2.1, h.port_digits, hp.2.2⟩⟩
  have hdialable : Dialable hostport ↔ NoBlanks hostport ∧
      (hostport.head? = some '[' ∨ hostport.count ':' ≤ 1) ∧
      ∀ before after, hostport = before ++ ':' :: after → after.all isDigit = true →
        digitsValue after ≤ 65535 :=
    ⟨fun hd => ⟨hd.blanks, hd.colons, hd.range⟩, fun hd => ⟨hd.1, hd.2.1, hd.2.2⟩⟩
  rw [hform, hdialable]
  cases h with
  | @bracketed inner port hinner hport =>
    rw [noBlanks_endpoint hport, range_endpoint hport]
    refine and_congr_right fun _ => and_congr_left fun _ => ?_
    exact iff_of_true (fun _ => ⟨inner, rfl⟩) (Or.inl rfl)
  | @bracketedHost inner hinner =>
    refine and_congr_right fun _ => and_congr (iff_of_true (fun _ => ⟨inner, rfl⟩) (Or.inl rfl)) ?_
    refine iff_of_true hdefault fun before after heq hafter => ?_
    -- The last character is a bracket, which is no digit.
    have hlast := congrArg List.getLast? heq
    rw [List.getLast?_append_of_ne_nil _ (List.cons_ne_nil _ _), ← List.cons_append,
      List.getLast?_concat] at hlast
    have hmem := List.mem_of_getLast? hlast.symm
    rcases List.mem_cons.mp hmem with hcolon | hmem
    · cases hcolon
    · exact absurd (List.all_eq_true.mp hafter ']' hmem) (by decide)
  | plain hhead hne hport =>
    rw [noBlanks_endpoint hport, range_endpoint hport]
    refine and_congr_right fun _ => and_congr_left fun _ => ?_
    have hfirst : ¬ (host ++ ':' :: port).head? = some '[' := by
      rwa [List.head?_append, Option.or_of_isSome (by rwa [List.isSome_head?])]
    have hcount : (host ++ ':' :: port).count ':' = host.count ':' + 1 := by
      rw [List.count_append, List.count_cons_self,
        List.count_eq_zero_of_not_mem (colon_of_digits hport.2)]
    rw [or_iff_right hfirst, hcount]
    constructor
    · intro hcolon
      have hnone : ':' ∉ host := by
        intro hmem
        obtain ⟨inner, hbracketed⟩ := hcolon hmem
        exact hhead (by rw [hbracketed]; rfl)
      rw [List.count_eq_zero_of_not_mem hnone]
    · intro hle hmem
      have hpos := List.count_pos_iff.mpr hmem
      omega
  | plainHost hhead hne hcolon =>
    refine and_congr_right fun _ => and_congr ?_ ?_
    · refine iff_of_true (fun hmem => absurd hmem hcolon) (Or.inr ?_)
      rw [List.count_eq_zero_of_not_mem hcolon]
      exact Nat.zero_le 1
    · refine iff_of_true hdefault fun before after heq => ?_
      exact absurd (heq ▸ by simp) hcolon

/-- An accepted input gives an endpoint that can be dialled, and that is read again as itself,
exactly when its host has no white space, no colon outside brackets and a port of 16 bits. -/
theorem accepted_endpoint_iff (raw endpoint id : Text)
    (h : parsePeerEndpoint raw = .ok (endpoint, id)) :
    (Endpoint endpoint ∧ parsePeerEndpoint endpoint = .ok (endpoint, id)) ↔
      Dialable (authority raw) := by
  obtain ⟨host, port, hreads, rfl, rfl, hid⟩ := accepted h
  rw [and_iff_left (parse_endpoint hreads hid), endpoint_iff hreads.port_digits]
  exact hostPort_iff hreads (authority_ends raw).2

theorem accepted_endpoint_iff_v6 :
    (Endpoint "[fe80::1]:9000".toList ∧
        parsePeerEndpoint "[fe80::1]:9000".toList =
          .ok ("[fe80::1]:9000".toList, "node-fe80--1".toList)) ↔
      Dialable (authority "http://[fe80::1]:9000/peer".toList) :=
  accepted_endpoint_iff "http://[fe80::1]:9000/peer".toList _ _ (by decide)

/-- A host with a blank, an address without brackets, whose end is taken for the port, and a
port of 17 bits. -/
theorem accepted_not_dialable :
    (parsePeerEndpoint "db a".toList = .ok ("db a:50051".toList, "node-db-a".toList) ∧
        ¬ Endpoint "db a:50051".toList) ∧
      (parsePeerEndpoint "fe80::1".toList = .ok ("fe80::1".toList, "node-fe80".toList) ∧
        ¬ Endpoint "fe80::1".toList) ∧
      parsePeerEndpoint "db:99999".toList = .ok ("db:99999".toList, "node-db".toList) ∧
        ¬ Endpoint "db:99999".toList := by
  refine ⟨⟨by decide, ?_⟩, ⟨by decide, ?_⟩, by decide, ?_⟩
  · intro h
    have hform : HostPort "db a".toList "50051".toList :=
      (endpoint_iff ⟨by decide, by decide⟩).mp h
    exact absurd (hform.blanks ' ' (by decide)) (by decide)
  · intro h
    have hform : HostPort "fe80:".toList "1".toList := (endpoint_iff ⟨by decide, by decide⟩).mp h
    obtain ⟨inner, hinner⟩ := hform.colon (by decide)
    cases hinner
  · intro h
    have hform : HostPort "db".toList "99999".toList := (endpoint_iff ⟨by decide, by decide⟩).mp h
    exact absurd hform.range (by decide)

end MyS3.EndpointForms
