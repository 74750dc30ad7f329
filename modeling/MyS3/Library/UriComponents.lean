import MyS3.Library.SigV4

/-!
The encoding of a text as one component of a URI, as ECMAScript has it: letters, digits and nine
marks stay, every other byte of the UTF-8 text is escaped. Decoding gives the text back, the
encoded text has no slash, and it is empty only for the empty text.
-/

namespace Library.UriComponents

open Library.Strings Library.Encodings Library.SigV4

/-- `!`, the apostrophe, the two brackets and `*`. -/
def isMark (c : Char) : Bool := [33, 39, 40, 41, 42].contains c.toNat

def isComponentChar (c : Char) : Bool := isUnreserved c || isMark c

def escapeByte (b : UInt8) : Text :=
  let c := Char.ofNat b.toNat
  if isComponentChar c then [c] else ['%', hexUpper (b.toNat / 16), hexUpper (b.toNat % 16)]

def encodeURIComponent (t : Text) : Text := (utf8 t).flatMap escapeByte

/-- Every `%` is followed by two hexadecimal digits. -/
def wellEscaped : Text → Bool
  | '%' :: a :: b :: rest => (hexValue a).isSome && (hexValue b).isSome && wellEscaped rest
  | '%' :: _ => false
  | _ :: rest => wellEscaped rest
  | [] => true

/-- A character that stays is the byte it stands for, and neither `%` nor a slash. -/
theorem utf8_component {b : UInt8} (h : isComponentChar (Char.ofNat b.toNat) = true) :
    Char.ofNat b.toNat ≠ '%' ∧ Char.ofNat b.toNat ≠ '/' ∧ utf8 [Char.ofNat b.toNat] = [b] := by
  have hall : ∀ i : Fin 256, isComponentChar (Char.ofNat i) = true →
      Char.ofNat i ≠ '%' ∧ Char.ofNat i ≠ '/' ∧ utf8 [Char.ofNat i] = [UInt8.ofNat i] := by
    decide +kernel
  have hb := hall ⟨b.toNat, b.toNat_lt⟩ h
  rwa [UInt8.ofNat_toNat] at hb

theorem percentDecode_escapeByte (b : UInt8) (rest : Text) :
    percentDecode (escapeByte b ++ rest) = b :: percentDecode rest := by
  unfold escapeByte
  simp only
  split_ifs with hplain
  · obtain ⟨hpercent, _, hbyte⟩ := utf8_component hplain
    rw [List.singleton_append, percentDecode_cons hpercent, hbyte, List.singleton_append]
  · have hb := b.toNat_lt
    have hvalue : 16 * (b.toNat / 16) + b.toNat % 16 = b.toNat := Nat.div_add_mod _ _
    simp only [List.cons_append, List.nil_append, percentDecode, hexValue_hexUpper
      (show b.toNat / 16 < 16 by omega), hexValue_hexUpper (Nat.mod_lt _ (by decide)), hvalue,
      UInt8.ofNat_toNat]

theorem percentDecode_escapeBytes (data : Bytes) (rest : Text) :
    percentDecode (data.flatMap escapeByte ++ rest) = data ++ percentDecode rest := by
  induction data with
  | nil => rfl
  | cons b data ih =>
    rw [List.flatMap_cons, List.append_assoc, percentDecode_escapeByte, ih, List.cons_append]

theorem percentDecode_encodeURIComponent (t : Text) :
    percentDecode (encodeURIComponent t) = utf8 t := by
  have h := percentDecode_escapeBytes (utf8 t) []
  rwa [List.append_nil, show percentDecode [] = [] from rfl, List.append_nil] at h

/-- The segments of a path, each encoded, are decoded together. -/
theorem percentDecode_components (segments : List Text) :
    percentDecode (['/'].intercalate (segments.map encodeURIComponent)) =
      utf8 (['/'].intercalate segments) := by
  induction segments with
  | nil => rfl
  | cons s rest ih =>
    cases rest with
    | nil =>
      rw [List.map_singleton, List.intercalate_singleton, List.intercalate_singleton,
        percentDecode_encodeURIComponent]
    | cons s' rest =>
      have hsegment := percentDecode_escapeBytes (utf8 s)
      rw [List.map_cons, List.intercalate_cons_of_ne_nil (by simp),
        List.intercalate_cons_of_ne_nil (by simp), List.append_assoc, encodeURIComponent, hsegment,
        List.singleton_append, percentDecode_cons (by decide), ih]
      simp [utf8]

theorem hexUpper_ne_slash (n : Nat) : hexUpper n ≠ '/' := by
  have hall : ∀ c ∈ "0123456789ABCDEF".toList, c ≠ '/' := forall_mem_of_all (by decide)
  unfold hexUpper
  by_cases h : n < "0123456789ABCDEF".toList.length
  · rw [List.getD_eq_getElem _ _ h]
    exact hall _ (List.getElem_mem h)
  · rw [List.getD_eq_default _ _ (not_lt.mp h)]
    decide

theorem slash_encodeURIComponent (t : Text) : '/' ∉ encodeURIComponent t := by
  intro h
  obtain ⟨b, _, hb⟩ := List.mem_flatMap.mp h
  unfold escapeByte at hb
  simp only at hb
  split_ifs at hb with hplain
  · exact (utf8_component hplain).2.1 (List.mem_singleton.mp hb).symm
  · simp only [List.mem_cons, List.not_mem_nil, or_false] at hb
    rcases hb with hb | hb | hb
    · exact absurd hb (by decide)
    · exact hexUpper_ne_slash _ hb.symm
    · exact hexUpper_ne_slash _ hb.symm

theorem encodeURIComponent_ne_nil {t : Text} (h : t ≠ []) : encodeURIComponent t ≠ [] := by
  intro hnil
  have hdecode := percentDecode_encodeURIComponent t
  rw [hnil] at hdecode
  have hempty : utf8 [] = utf8 t := hdecode
  exact h (utf8_inj hempty).symm

/-- A text without `%` is not decoded. -/
theorem percentDecode_plain {t : Text} (h : '%' ∉ t) : percentDecode t = utf8 t := by
  induction t with
  | nil => rfl
  | cons c rest ih =>
    rw [List.mem_cons, not_or] at h
    rw [percentDecode_cons (Ne.symm h.1), ih h.2]
    simp [utf8]

theorem wellEscaped_plain {t : Text} (h : '%' ∉ t) : wellEscaped t = true := by
  induction t with
  | nil => rfl
  | cons c rest ih =>
    rw [List.mem_cons, not_or] at h
    unfold wellEscaped
    split
    · rename_i heq
      cases heq
      exact absurd rfl h.1
    · rename_i heq
      cases heq
      exact absurd rfl h.1
    · rename_i heq
      cases heq
      exact ih h.2
    · rfl

example : encodeURIComponent "a b!/é".toList = "a%20b!%2F%C3%A9".toList := by decide

end Library.UriComponents
