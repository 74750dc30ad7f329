import MyS3.CoveringShares
import MyS3.Library.Words

/-!
Normalized keys, normalized again. A key is trimmed and then loses its leading slashes, so
that white space behind those slashes becomes the start of the key; the next time it is
trimmed away. Links to a key go through the same function once more.
-/

namespace MyS3.KeyForms

open Library.Strings Library.Encodings Library.SigV4 Library.Words
open Keys CoveringShares MediaAccess

/-- White space, slashes, and white space again. -/
def BlankAfterSlashes (raw : Text) : Prop :=
  ∃ before slashes c rest, raw = before ++ slashes ++ c :: rest ∧
    (∀ x ∈ before, isWhitespace x = true) ∧ slashes ≠ [] ∧ (∀ x ∈ slashes, x = '/') ∧
    isWhitespace c = true

/-- The path of a key, decoded by the router and normalized by the handler, is the key. -/
def RoutedBack (key : Text) : Prop :=
  ∃ raw, fromUtf8 (percentDecode (encodeKeyPath key)) = some raw ∧
    normalizeObjectKey raw = .ok key

/-- The text that both normal forms are made from. -/
def strip (raw : Text) : Text := trimStartMatches (· == '/') (trim raw)

/-- A text that does not begin or end like this is stripped of nothing, but for its blanks
at the start. -/
structure Ended (t : Text) : Prop where
  nonempty : t ≠ []
  head : ∀ c, t.head? = some c → c ≠ '/'
  last : ∀ c, t.getLast? = some c → isWhitespace c = false

/-- A text that ends with no white space loses only its start. -/
theorem strip_suffix {t : Text} (h : ∀ c, t.getLast? = some c → isWhitespace c = false) :
    strip t <:+ t := by
  have hstart : trimStartMatches isWhitespace t <:+ t := List.dropWhile_suffix _
  have hend : trim t = trimStartMatches isWhitespace t := by
    unfold trim trimEndMatches
    have hlast : ∀ c, (trimStartMatches isWhitespace t).reverse.head? = some c →
        isWhitespace c = false := by
      intro c hc
      rw [List.head?_reverse] at hc
      obtain ⟨before, hbefore⟩ := hstart
      apply h
      rw [← hbefore, List.getLast?_append, hc]
      rfl
    have hkeep : (trimStartMatches isWhitespace t).reverse.dropWhile isWhitespace =
        (trimStartMatches isWhitespace t).reverse := trimStartMatches_eq_self hlast
    rw [hkeep, List.reverse_reverse]
  unfold strip
  rw [hend]
  exact (List.dropWhile_suffix _).trans hstart

theorem strip_cons_blank {c : Char} (h : isWhitespace c = true) (t : Text) :
    strip (c :: t) = strip t := by
  unfold strip trim trimStartMatches
  rw [List.dropWhile_cons_of_pos h]

/-- Stripping once more does nothing exactly when there is no white space at the start. -/
theorem strip_eq_self_iff {t : Text} (h : Ended t) :
    strip t = t ↔ ∀ c, t.head? = some c → isWhitespace c = false := by
  constructor
  · intro hstrip c hc
    rw [← Bool.not_eq_true]
    intro hblank
    cases t with
    | nil => cases hc
    | cons c' rest =>
      cases hc
      have hlast : ∀ c, rest.getLast? = some c → isWhitespace c = false := by
        intro d hd
        apply h.last
        rw [List.getLast?_cons, hd]
        rfl
      have hle := (strip_suffix hlast).length_le
      rw [← strip_cons_blank hblank, hstrip, List.length_cons] at hle
      omega
  · intro hhead
    unfold strip
    rw [trim_eq_self hhead h.last]
    exact trimStartMatches_eq_self fun c hc => by simpa using h.head c hc

/-- What is stripped ends as it should. -/
theorem ended_strip {raw : Text} (h : strip raw ≠ []) : Ended (strip raw) where
  nonempty := h
  head c hc := by
    have hnot := head_trimStartMatches hc
    simpa using hnot
  last c hc := by
    obtain ⟨before, hbefore⟩ := List.dropWhile_suffix (· == '/') (l := trim raw)
    apply getLast_trim (t := raw)
    rw [← hbefore, List.getLast?_append]
    change (strip raw).getLast?.or _ = _
    rw [hc]
    rfl

theorem normalizeObjectKey_eq {raw key : Text} : normalizeObjectKey raw = .ok key ↔
    strip raw = key ∧ key ≠ [] ∧ validSegments key = true := by
  unfold normalizeObjectKey
  simp only
  change (if strip raw = [] then _ else if validSegments (strip raw) = true then
    Except.ok (strip raw) else _) = _ ↔ _
  split_ifs with hempty hvalid
  · constructor
    · intro h
      cases h
    · intro h'
      obtain ⟨rfl, hne, _⟩ := h'
      exact absurd hempty hne
  · constructor
    · intro h
      cases h
      exact ⟨rfl, hempty, hvalid⟩
    · intro h'
      obtain ⟨rfl, _, _⟩ := h'
      rfl
  · constructor
    · intro h
      cases h
    · intro h'
      obtain ⟨rfl, _, hvalid'⟩ := h'
      exact absurd hvalid' hvalid

theorem normalizeFolderPrefix_eq {raw pre : Text} : normalizeFolderPrefix raw = .ok pre ↔
    trimEndMatches (· == '/') (strip raw) ++ ['/'] = pre ∧
      trimEndMatches (· == '/') (strip raw) ≠ [] ∧
      validSegments (trimEndMatches (· == '/') (strip raw)) = true := by
  unfold normalizeFolderPrefix
  simp only
  change (if (strip raw = [] || strip raw = ['/']) = true then _ else
    if trimEndMatches (· == '/') (strip raw) = [] then _ else
      if validSegments (trimEndMatches (· == '/') (strip raw)) = true then
        Except.ok (trimEndMatches (· == '/') (strip raw) ++ ['/']) else _) = _ ↔ _
  split_ifs with hnone hempty hvalid
  · have hempty : trimEndMatches (· == '/') (strip raw) = [] := by
      simp only [Bool.or_eq_true, decide_eq_true_eq] at hnone
      rcases hnone with h | h <;> rw [h] <;> rfl
    simp [hempty]
  · simp [hempty]
  · simp [hempty, hvalid]
  · simp [hvalid]

/-- The stripped text begins with white space when the raw text has it behind slashes. -/
theorem blank_iff {raw : Text} (hne : strip raw ≠ []) :
    (∃ c, (strip raw).head? = some c ∧ isWhitespace c = true) ↔ BlankAfterSlashes raw := by
  constructor
  · intro h
    obtain ⟨c, hc, hblank⟩ := h
    obtain ⟨before, after, hbefore, _, hraw⟩ := trimmed_parts isWhitespace raw
    change raw = before ++ trim raw ++ after at hraw
    obtain ⟨rest, hrest⟩ := List.head?_eq_some_iff.mp hc
    have htrim : trim raw = (trim raw).takeWhile (· == '/') ++ strip raw :=
      List.takeWhile_append_dropWhile.symm
    refine ⟨before, (trim raw).takeWhile (· == '/'), c, rest ++ after, ?_, hbefore, ?_, ?_, hblank⟩
    · rw [hrest] at htrim
      conv_lhs => rw [hraw, htrim]
      simp
    · intro hnone
      rw [hnone, List.nil_append, hrest] at htrim
      have hhead := head_trim (t := raw) (c := c) (by rw [htrim]; rfl)
      rw [hhead] at hblank
      cases hblank
    · intro x hx
      simpa using List.mem_takeWhile_imp hx
  · intro h
    obtain ⟨before, slashes, c, rest, hraw, hbefore, hslashes, hall, hblank⟩ := h
    have hslash : ∀ x ∈ slashes, (x == '/') = true := fun x hx => beq_iff_eq.mpr (hall x hx)
    have hstart : trimStartMatches isWhitespace raw = slashes ++ c :: rest := by
      unfold trimStartMatches
      rw [hraw, List.append_assoc, List.dropWhile_append_of_pos hbefore]
      cases slashes with
      | nil => exact absurd rfl hslashes
      | cons x more =>
        have hx : isWhitespace x = false := by
          rw [hall x List.mem_cons_self]
          decide
        rw [List.cons_append, List.dropWhile_cons_of_neg (by simp [hx])]
    have hprefix : trim raw <+: slashes ++ c :: rest := by
      unfold trim
      rw [hstart]
      exact trimEndMatches_prefix _ _
    have hinside : ¬ trim raw <+: slashes := by
      intro h
      obtain ⟨more, hmore⟩ := h
      apply hne
      unfold strip trimStartMatches
      rw [List.dropWhile_eq_nil_iff]
      intro x hx
      exact hslash x (hmore ▸ List.mem_append_left _ hx)
    obtain ⟨tail, htail⟩ := (List.prefix_or_prefix_of_prefix hprefix
      (List.prefix_append slashes (c :: rest))).resolve_left hinside
    rw [← htail, List.prefix_append_right_inj] at hprefix
    have hstrip : strip raw = tail.dropWhile (· == '/') := by
      unfold strip trimStartMatches
      rw [← htail, List.dropWhile_append_of_pos hslash]
    have hc : (c == '/') = false := by
      rw [beq_eq_false_iff_ne]
      intro h
      obtain rfl := h
      revert hblank
      decide
    cases tail with
    | nil => exact absurd hstrip hne
    | cons d more =>
      obtain ⟨rfl, _⟩ := List.cons_prefix_cons.mp hprefix
      refine ⟨d, ?_, hblank⟩
      rw [hstrip, List.dropWhile_cons_of_neg (by simp [hc])]
      rfl

/-- A text of this kind begins with no white space, or the raw text had it behind slashes. -/
theorem plain_iff {raw : Text} {t : Text} (hne : strip raw ≠ [])
    (hhead : t.head? = (strip raw).head?) :
    (∀ c, t.head? = some c → isWhitespace c = false) ↔ ¬ BlankAfterSlashes raw := by
  rw [← blank_iff hne, hhead]
  simp only [not_exists, not_and, Bool.not_eq_true]

theorem routedBack_iff {key : Text} : RoutedBack key ↔ normalizeObjectKey key = .ok key := by
  unfold RoutedBack
  rw [decode_encodeKeyPath]
  simp

section folder

variable {raw core : Text}

theorem ended_folder (hcore : core <+: strip raw) (hne : core ≠ []) : Ended (core ++ ['/']) where
  nonempty := by simp
  head c hc := by
    obtain ⟨x, rest, rfl⟩ := List.exists_cons_of_ne_nil hne
    obtain ⟨more, hmore⟩ := hcore
    have hstrip : strip raw ≠ [] := by
      rw [← hmore]
      simp
    apply (ended_strip hstrip).head
    rw [← hmore]
    exact hc
  last c hc := by
    rw [List.getLast?_append] at hc
    cases hc
    decide

/-- A folder prefix is its own normal form exactly when nothing is stripped of it. -/
theorem normalizeFolderPrefix_again (hended : Ended (core ++ ['/'])) (hne : core ≠ [])
    (hvalid : validSegments core = true) (htrim : trimEndMatches (· == '/') core = core) :
    normalizeFolderPrefix (core ++ ['/']) = .ok (core ++ ['/']) ↔
      strip (core ++ ['/']) = core ++ ['/'] := by
  have hsuffix : strip (core ++ ['/']) <:+ core ++ ['/'] := strip_suffix hended.last
  rw [normalizeFolderPrefix_eq]
  constructor
  · intro h
    obtain ⟨hsame, hnonempty, _⟩ := h
    have hlast : ∃ rest, strip (core ++ ['/']) = rest ++ ['/'] := by
      obtain ⟨before, hbefore⟩ := hsuffix
      rcases List.eq_nil_or_concat (strip (core ++ ['/'])) with hnil | ⟨rest, c, hrest⟩
      · rw [hnil] at hnonempty
        exact absurd rfl hnonempty
      · rw [List.concat_eq_append] at hrest
        rw [hrest, ← List.append_assoc] at hbefore
        rw [hrest, (List.append_inj' hbefore rfl).2]
        exact ⟨rest, rfl⟩
    obtain ⟨rest, hrest⟩ := hlast
    -- The end of the stripped text is cut off once more, so that no character is missing.
    rw [hrest, trimEndMatches_append (by decide)] at hsame
    have hshorter := trimEndMatches_prefix (· == '/') rest
    have hle := hshorter.length_le
    have hlen := congrArg List.length hsame
    rw [hrest] at hsuffix ⊢
    refine hsuffix.eq_of_length_le ?_
    simp only [List.length_append, List.length_singleton] at hlen ⊢
    omega
  · intro hstrip
    have hcut : trimEndMatches (· == '/') (strip (core ++ ['/'])) = core := by
      rw [hstrip, trimEndMatches_append (by decide), htrim]
    rw [hcut]
    exact ⟨rfl, hne, hvalid⟩

end folder

/-- A key or a folder prefix is normalized to itself, and a key is reached by its link,
exactly when the raw text had no white space right behind its leading slashes. -/
theorem normalized_again_iff (raw : Text) :
    (∀ key, normalizeObjectKey raw = .ok key →
      (normalizeObjectKey key = .ok key ∧ RoutedBack key ↔ ¬ BlankAfterSlashes raw)) ∧
    ∀ pre, normalizeFolderPrefix raw = .ok pre →
      (normalizeFolderPrefix pre = .ok pre ↔ ¬ BlankAfterSlashes raw) := by
  refine ⟨?_, ?_⟩
  · intro key h
    obtain ⟨rfl, hne, hvalid⟩ := normalizeObjectKey_eq.mp h
    rw [routedBack_iff, and_self_iff, normalizeObjectKey_eq, ← plain_iff hne rfl,
      ← strip_eq_self_iff (ended_strip hne)]
    exact and_iff_left ⟨hne, hvalid⟩
  · intro pre h
    obtain ⟨rfl, hne, hvalid⟩ := normalizeFolderPrefix_eq.mp h
    have hprefix := trimEndMatches_prefix (· == '/') (strip raw)
    have hended := ended_folder hprefix hne
    obtain ⟨c, rest, hcore⟩ := List.exists_cons_of_ne_nil hne
    obtain ⟨more, hmore⟩ := hprefix
    have hstrip : strip raw = c :: (rest ++ more) := by
      rw [← hmore, hcore]
      rfl
    have hhead : (trimEndMatches (· == '/') (strip raw) ++ ['/']).head? = (strip raw).head? := by
      rw [hcore, hstrip]
      rfl
    rw [normalizeFolderPrefix_again hended hne hvalid (trimEndMatches_idem _ _),
      strip_eq_self_iff hended]
    exact plain_iff (by simp [hstrip]) hhead

/-- `/ a` is normalized to a key that begins with a blank, which is then normalized to `a`,
by itself and through its link; and so is the folder. -/
theorem blank_after_slash_lost :
    normalizeObjectKey "/ a".toList = .ok " a".toList ∧
      normalizeObjectKey " a".toList = .ok "a".toList ∧ ¬ RoutedBack " a".toList ∧
      normalizeFolderPrefix "/ a/".toList = .ok " a/".toList ∧
      normalizeFolderPrefix " a/".toList = .ok "a/".toList := by
  refine ⟨by decide, by decide, ?_, by decide, by decide⟩
  rw [routedBack_iff]
  decide

end MyS3.KeyForms
