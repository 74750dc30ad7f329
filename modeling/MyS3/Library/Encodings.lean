import Mathlib.Data.List.GetD
import MyS3.Library.Strings

/-!
Bytes as text: lower-case hexadecimal, and base64 with the alphabet for URLs and
without padding. Decoding base64 refuses a length that no bytes have, a foreign
character, and a last character whose unused bits are set, so that every text has
one decoding at most.
-/

namespace Library.Encodings

open Library.Strings

/-- The UTF-8 of a text. -/
def utf8 (t : Text) : Bytes := t.flatMap String.utf8EncodeChar

theorem utf8_inj {s t : Text} (h : utf8 s = utf8 t) : s = t := by
  have hencode : s.utf8Encode = t.utf8Encode := by
    apply ByteArray.ext
    rw [List.utf8Encode, List.utf8Encode, List.data_toByteArray, List.data_toByteArray]
    exact congrArg List.toArray h
  have hdecode := congrArg (fun b : ByteArray => b.utf8Decode?.map Array.toList) hencode
  simpa using hdecode

def hexAlphabet : Text := "0123456789abcdef".toList

def hexDigit (n : Nat) : Char := hexAlphabet.getD n '0'

def hexEncode (data : Bytes) : Text :=
  data.flatMap fun b => [hexDigit (b.toNat / 16), hexDigit (b.toNat % 16)]

theorem hexDigit_mem (n : Nat) : hexDigit n ∈ hexAlphabet := by
  by_cases h : n < hexAlphabet.length
  · unfold hexDigit
    rw [List.getD_eq_getElem _ _ h]
    exact List.getElem_mem h
  · unfold hexDigit
    rw [List.getD_eq_default _ _ (not_lt.mp h)]
    decide

theorem hexDigit_inj {n m : Nat} (hn : n < 16) (hm : m < 16) (h : hexDigit n = hexDigit m) :
    n = m := by
  have hall : ∀ x y : Fin 16, hexDigit x.val = hexDigit y.val → x = y := by decide
  exact congrArg Fin.val (hall ⟨n, hn⟩ ⟨m, hm⟩ h)

theorem mem_hexEncode {data : Bytes} {c : Char} (h : c ∈ hexEncode data) : c ∈ hexAlphabet := by
  obtain ⟨b, _, hc⟩ := List.mem_flatMap.mp h
  simp only [List.mem_cons, List.not_mem_nil, or_false] at hc
  rcases hc with rfl | rfl
  · exact hexDigit_mem _
  · exact hexDigit_mem _

theorem hexEncode_length (data : Bytes) : (hexEncode data).length = 2 * data.length := by
  induction data with
  | nil => rfl
  | cons b rest ih =>
    simp only [hexEncode, List.flatMap_cons, List.length_append, List.length_cons] at *
    simp only [List.length_nil]
    omega

theorem byte_eq_of_hexDigits {a b : UInt8} (hhigh : hexDigit (a.toNat / 16) = hexDigit (b.toNat / 16))
    (hlow : hexDigit (a.toNat % 16) = hexDigit (b.toNat % 16)) : a = b := by
  have ha := a.toNat_lt
  have hb := b.toNat_lt
  have h1 := hexDigit_inj (by omega) (by omega) hhigh
  have h2 := hexDigit_inj (by omega) (by omega) hlow
  apply UInt8.toNat_inj.mp
  omega

/-- Distinct bytes have distinct hexadecimal texts. -/
theorem hexEncode_inj {a b : Bytes} (h : hexEncode a = hexEncode b) : a = b := by
  induction a generalizing b with
  | nil =>
    have hlen := congrArg List.length h
    rw [hexEncode_length, hexEncode_length, List.length_nil] at hlen
    exact (List.length_eq_zero_iff.mp (by omega)).symm
  | cons x rest ih =>
    cases b with
    | nil =>
      have hlen := congrArg List.length h
      simp [hexEncode_length] at hlen
    | cons y rest' =>
      simp only [hexEncode, List.flatMap_cons, List.cons_append, List.nil_append,
        List.cons.injEq] at h
      obtain ⟨hhigh, hlow, hrest⟩ := h
      rw [byte_eq_of_hexDigits hhigh hlow, ih hrest]

/-- `A` to `Z`, `a` to `z`, `0` to `9`, `-` and `_`. -/
def base64Alphabet : Text :=
  "ABCDEFGHIJKLMNOPQRSTUVWXYZabcdefghijklmnopqrstuvwxyz0123456789-_".toList

def base64Digit (n : Nat) : Char := base64Alphabet.getD n 'A'

def base64Value (c : Char) : Option Nat := base64Alphabet.idxOf? c

def base64Encode : Bytes → Text
  | [] => []
  | [a] => [base64Digit (a.toNat / 4), base64Digit (a.toNat % 4 * 16)]
  | [a, b] =>
    [base64Digit (a.toNat / 4), base64Digit (a.toNat % 4 * 16 + b.toNat / 16),
      base64Digit (b.toNat % 16 * 4)]
  | a :: b :: c :: rest =>
    base64Digit (a.toNat / 4) :: base64Digit (a.toNat % 4 * 16 + b.toNat / 16) ::
      base64Digit (b.toNat % 16 * 4 + c.toNat / 64) :: base64Digit (c.toNat % 64) ::
        base64Encode rest

def base64Decode : Text → Option Bytes
  | [] => some []
  | [_] => none
  | [x, y] => do
    let a ← base64Value x
    let b ← base64Value y
    if b % 16 = 0 then some [UInt8.ofNat (a * 4 + b / 16)] else none
  | [x, y, z] => do
    let a ← base64Value x
    let b ← base64Value y
    let c ← base64Value z
    if c % 4 = 0 then
      some [UInt8.ofNat (a * 4 + b / 16), UInt8.ofNat (b % 16 * 16 + c / 4)]
    else none
  | x :: y :: z :: w :: rest => do
    let a ← base64Value x
    let b ← base64Value y
    let c ← base64Value z
    let d ← base64Value w
    let bytes ← base64Decode rest
    some (UInt8.ofNat (a * 4 + b / 16) :: UInt8.ofNat (b % 16 * 16 + c / 4) ::
      UInt8.ofNat (c % 4 * 64 + d) :: bytes)

set_option maxRecDepth 2000 in
theorem base64Value_digit {n : Nat} (h : n < 64) : base64Value (base64Digit n) = some n := by
  have hall : ∀ x : Fin 64, base64Value (base64Digit x.val) = some x.val := by decide
  exact hall ⟨n, h⟩

theorem base64Digit_mem (n : Nat) : base64Digit n ∈ base64Alphabet := by
  by_cases h : n < base64Alphabet.length
  · unfold base64Digit
    rw [List.getD_eq_getElem _ _ h]
    exact List.getElem_mem h
  · unfold base64Digit
    rw [List.getD_eq_default _ _ (not_lt.mp h)]
    decide

theorem ofNat_eq_of_toNat {b : UInt8} {n : Nat} (h : n = b.toNat) : UInt8.ofNat n = b := by
  rw [h, UInt8.ofNat_toNat]

theorem base64Decode_encode (data : Bytes) : base64Decode (base64Encode data) = some data := by
  induction data using base64Encode.induct with
  | case1 => rfl
  | case2 a =>
    have ha := a.toNat_lt
    simp only [base64Encode, base64Decode, base64Value_digit (show a.toNat / 4 < 64 by omega),
      base64Value_digit (show a.toNat % 4 * 16 < 64 by omega), Option.bind_eq_bind,
      Option.bind_some]
    rw [if_pos (by omega), ofNat_eq_of_toNat (b := a) (by omega)]
  | case3 a b =>
    have ha := a.toNat_lt
    have hb := b.toNat_lt
    simp only [base64Encode, base64Decode, base64Value_digit (show a.toNat / 4 < 64 by omega),
      base64Value_digit (show a.toNat % 4 * 16 + b.toNat / 16 < 64 by omega),
      base64Value_digit (show b.toNat % 16 * 4 < 64 by omega), Option.bind_eq_bind,
      Option.bind_some]
    rw [if_pos (by omega), ofNat_eq_of_toNat (b := a) (by omega),
      ofNat_eq_of_toNat (b := b) (by omega)]
  | case4 a b c rest ih =>
    have ha := a.toNat_lt
    have hb := b.toNat_lt
    have hc := c.toNat_lt
    simp only [base64Encode, base64Decode, base64Value_digit (show a.toNat / 4 < 64 by omega),
      base64Value_digit (show a.toNat % 4 * 16 + b.toNat / 16 < 64 by omega),
      base64Value_digit (show b.toNat % 16 * 4 + c.toNat / 64 < 64 by omega),
      base64Value_digit (show c.toNat % 64 < 64 by omega), ih, Option.bind_eq_bind,
      Option.bind_some]
    rw [ofNat_eq_of_toNat (b := a) (by omega), ofNat_eq_of_toNat (b := b) (by omega),
      ofNat_eq_of_toNat (b := c) (by omega)]

theorem mem_base64Encode {data : Bytes} {c : Char} (h : c ∈ base64Encode data) :
    c ∈ base64Alphabet := by
  induction data using base64Encode.induct with
  | case1 => cases h
  | case2 a =>
    simp only [base64Encode, List.mem_cons, List.not_mem_nil, or_false] at h
    rcases h with rfl | rfl <;> exact base64Digit_mem _
  | case3 a b =>
    simp only [base64Encode, List.mem_cons, List.not_mem_nil, or_false] at h
    rcases h with rfl | rfl | rfl <;> exact base64Digit_mem _
  | case4 a b d rest ih =>
    simp only [base64Encode, List.mem_cons] at h
    rcases h with rfl | rfl | rfl | rfl | h
    · exact base64Digit_mem _
    · exact base64Digit_mem _
    · exact base64Digit_mem _
    · exact base64Digit_mem _
    · exact ih h

end Library.Encodings
