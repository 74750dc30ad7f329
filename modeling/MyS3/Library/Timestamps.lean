import Mathlib.Data.Char
import Mathlib.Data.Nat.Log
import Mathlib.Tactic.NormNum
import MyS3.Library.Calendar

/-!
Texts of instants and their bytewise order. `currentTimestamp` separates date
and time by a space; `rfc3339` separates them by the letter T and may carry a
fraction and an offset. The order of two such texts is settled by the first
character where they differ, and between the two formats on one date that
character is the separator.
-/

namespace Library.Timestamps

open Library.Strings Library.Calendar

/-- Bytewise comparison of texts; a proper prefix comes first. -/
def textLe : Text → Text → Bool
  | [], _ => true
  | _ :: _, [] => false
  | a :: s, b :: t => if a < b then true else if a = b then textLe s t else false

/-- The texts differ, and at the first difference the left character is smaller. -/
def Before (u v : Text) : Prop :=
  ∃ (p r r' : Text) (a b : Char), a < b ∧ u = p ++ a :: r ∧ v = p ++ b :: r'

theorem Before.append {u v : Text} (h : Before u v) (x y : Text) : Before (u ++ x) (v ++ y) := by
  obtain ⟨p, r, r', a, b, hab, rfl, rfl⟩ := h
  exact ⟨p, r ++ x, r' ++ y, a, b, hab, by simp, by simp⟩

theorem Before.prepend {u v : Text} (h : Before u v) (x : Text) : Before (x ++ u) (x ++ v) := by
  obtain ⟨p, r, r', a, b, hab, rfl, rfl⟩ := h
  exact ⟨x ++ p, r, r', a, b, hab, by simp, by simp⟩

theorem Before.cons {u v : Text} (h : Before u v) (c : Char) : Before (c :: u) (c :: v) :=
  h.prepend [c]

theorem before_cons {a b : Char} (h : a < b) (s t : Text) : Before (a :: s) (b :: t) :=
  ⟨[], s, t, a, b, h, rfl, rfl⟩

theorem textLe_append (p s t : Text) : textLe (p ++ s) (p ++ t) = textLe s t := by
  induction p with
  | nil => rfl
  | cons c rest ih => simp [textLe, ih]

theorem Before.textLe_eq_true {u v : Text} (h : Before u v) : textLe u v = true := by
  obtain ⟨p, r, r', a, b, hab, rfl, rfl⟩ := h
  simp [textLe_append, textLe, hab]

theorem Before.textLe_eq_false {u v : Text} (h : Before u v) : textLe v u = false := by
  obtain ⟨p, r, r', a, b, hab, rfl, rfl⟩ := h
  simp [textLe_append, textLe, not_lt_of_gt hab, ne_of_gt hab]

def digit (n : Nat) : Char := Char.ofNat (48 + n)

theorem digit_lt {a b : Nat} (hab : a < b) (hb : b < 10) : digit a < digit b := by
  have h : ∀ x y : Fin 10, x < y → digit x.val < digit y.val := by decide
  exact h ⟨a, by omega⟩ ⟨b, hb⟩ hab

/-- The last `k` decimal digits of a number. -/
def pad : Nat → Nat → Text
  | 0, _ => []
  | k + 1, n => pad k (n / 10) ++ [digit (n % 10)]

theorem pad_before (k : Nat) {n m : Nat} (hnm : n < m) (hm : m < 10 ^ k) :
    Before (pad k n) (pad k m) := by
  induction k generalizing n m with
  | zero => simp at hm; omega
  | succ k ih =>
    rw [Nat.pow_succ] at hm
    by_cases h : n / 10 < m / 10
    · exact (ih h (by omega)).append _ _
    · have heq : n / 10 = m / 10 := by omega
      have hlast : Before [digit (n % 10)] [digit (m % 10)] :=
        before_cons (digit_lt (by omega) (by omega)) [] []
      simp only [pad, heq]
      exact hlast.prepend _

/-- A padded number begins with a digit, and every digit follows the minus sign. -/
theorem pad_head (k n : Nat) : ∃ c rest, pad (k + 1) n = c :: rest ∧ '-' < c := by
  induction k generalizing n with
  | zero =>
    have h : ∀ x : Fin 10, '-' < digit x.val := by decide
    exact ⟨digit (n % 10), [], rfl, h ⟨n % 10, Nat.mod_lt _ (by decide)⟩⟩
  | succ k ih =>
    obtain ⟨c, rest, hpad, hc⟩ := ih (n / 10)
    exact ⟨c, rest ++ [digit (n % 10)], by rw [pad, hpad]; rfl, hc⟩

/-- Years outside four digits are written with a sign. -/
def yearText (y : Int) : Text :=
  if y < 0 then '-' :: pad (max 4 (Nat.log 10 y.natAbs + 1)) y.natAbs
  else if y ≤ 9999 then pad 4 y.toNat
  else '+' :: pad (Nat.log 10 y.toNat + 1) y.toNat

def dateText (d : Date) : Text :=
  yearText d.year ++ '-' :: (pad 2 d.month.toNat ++ '-' :: pad 2 d.day.toNat)

/-- Hours, minutes and seconds of a second of the day. -/
def timeText (second : Int) : Text :=
  pad 2 (second / 3600).toNat ++
    ':' :: (pad 2 (second / 60 % 60).toNat ++ ':' :: pad 2 (second % 60).toNat)

/-- Fractional digits in groups of three, as many as the fraction needs. -/
def fractionText (nanos : Nat) : Text :=
  if nanos = 0 then []
  else if nanos % 1000000 = 0 then '.' :: pad 3 (nanos / 1000000)
  else if nanos % 1000 = 0 then '.' :: pad 6 (nanos / 1000)
  else '.' :: pad 9 nanos

def nanosPerSec : Int := 1000000000

def secsPerDay : Int := 86400

/-- The text `YYYY-MM-DD HH:MM:SS` of a whole second in UTC. -/
def currentTimestamp (secs : Int) : Text :=
  dateText (civil (secs / secsPerDay)) ++ ' ' :: timeText (secs % secsPerDay)

/-- The RFC 3339 text of an instant in nanoseconds, with a zero offset. -/
def rfc3339 (nanos : Int) : Text :=
  let secs := nanos / nanosPerSec
  dateText (civil (secs / secsPerDay)) ++
    'T' :: (timeText (secs % secsPerDay) ++
      (fractionText (nanos % nanosPerSec).toNat ++ "+00:00".toList))

example : currentTimestamp 1709251199 = "2024-02-29 23:59:59".toList := by decide

example : rfc3339 1709164800000000000 = "2024-02-29T00:00:00+00:00".toList := by decide

/-- The first second of year zero, and the first one after year 9999. -/
def minSecs : Int := -62167219200

def maxSecs : Int := 253402300800

private theorem civil_year_mono {a b : Int} (h : a ≤ b) : (civil a).year ≤ (civil b).year := by
  rcases lt_or_eq_of_le h with hlt | rfl
  · have hd := civil_lt hlt
    unfold Date.lt at hd
    omega
  · exact le_refl _

theorem civil_year_nonneg {days : Int} (h : minSecs / secsPerDay ≤ days) :
    0 ≤ (civil days).year := by
  have hm := civil_year_mono h
  have h0 : (civil (minSecs / secsPerDay)).year = 0 := by decide
  omega

theorem civil_year_neg {days : Int} (h : days < minSecs / secsPerDay) :
    (civil days).year < 0 := by
  have hm := civil_year_mono (show days ≤ minSecs / secsPerDay - 1 by omega)
  have h0 : (civil (minSecs / secsPerDay - 1)).year = -1 := by decide
  omega

theorem civil_year_le {days : Int} (h : days < maxSecs / secsPerDay) :
    (civil days).year ≤ 9999 := by
  have hm := civil_year_mono (show days ≤ maxSecs / secsPerDay - 1 by omega)
  have h0 : (civil (maxSecs / secsPerDay - 1)).year = 9999 := by decide
  omega

/-- A year before zero begins with a minus sign, which precedes every digit. -/
theorem yearText_neg_before {y y' : Int} (hy : y < 0) (h0 : 0 ≤ y') (h1 : y' ≤ 9999) :
    Before (yearText y) (yearText y') := by
  obtain ⟨c, rest, hpad, hc⟩ := pad_head 3 y'.toNat
  have hpos : yearText y' = pad 4 y'.toNat := by simp [yearText, not_lt.mpr h0, h1]
  rw [hpos, hpad]
  simp only [yearText, hy, if_true]
  exact before_cons hc _ _

/-- Earlier dates with four-digit years have earlier texts. -/
theorem dateText_before {a b : Int} (hab : a < b) (ha : minSecs / secsPerDay ≤ a)
    (hb : b < maxSecs / secsPerDay) : Before (dateText (civil a)) (dateText (civil b)) := by
  have hya := civil_year_nonneg ha
  have hyb := civil_year_le hb
  have hya' := civil_year_le (hab.trans hb)
  have hyb' := civil_year_nonneg (ha.trans hab.le)
  obtain ⟨hma, hma', hda, hda'⟩ := civil_valid a
  obtain ⟨hmb, hmb', hdb, hdb'⟩ := civil_valid b
  have htext : ∀ d : Date, 0 ≤ d.year → d.year ≤ 9999 → yearText d.year = pad 4 d.year.toNat := by
    intro d h0 h1
    simp [yearText, not_lt.mpr h0, h1]
  unfold dateText
  rw [htext _ hya hya', htext _ hyb' hyb]
  rcases civil_lt hab with hy | ⟨hy, hm | ⟨hm, hd⟩⟩
  · have hlt : (civil a).year.toNat < (civil b).year.toNat := by omega
    exact (pad_before 4 hlt (by norm_num; omega)).append _ _
  · have hlt : (civil a).month.toNat < (civil b).month.toNat := by omega
    rw [hy]
    exact (((pad_before 2 hlt (by norm_num; omega)).append _ _).cons '-').prepend _
  · have hlt : (civil a).day.toNat < (civil b).day.toNat := by omega
    rw [hy, hm]
    exact ((((pad_before 2 hlt (by norm_num; omega)).cons '-').prepend _).cons '-').prepend _

/-- Between the two formats only the dates decide: on one date the space comes
before the letter T, whatever the times are. -/
theorem textLe_currentTimestamp_rfc3339 {secs nanos : Int} (h0 : minSecs ≤ secs)
    (h1 : secs < maxSecs) (hn : nanos < maxSecs * nanosPerSec) :
    textLe (currentTimestamp secs) (rfc3339 nanos) = true ↔
      secs / secsPerDay ≤ nanos / nanosPerSec / secsPerDay := by
  have hlow : minSecs / secsPerDay ≤ secs / secsPerDay := by
    unfold minSecs secsPerDay at *
    omega
  have hhigh : secs / secsPerDay < maxSecs / secsPerDay := by
    unfold maxSecs secsPerDay at *
    omega
  have hn' : nanos / nanosPerSec / secsPerDay < maxSecs / secsPerDay := by
    unfold maxSecs secsPerDay nanosPerSec at *
    omega
  unfold currentTimestamp rfc3339
  simp only
  rcases lt_trichotomy (secs / secsPerDay) (nanos / nanosPerSec / secsPerDay) with h | h | h
  · have hb := (dateText_before h hlow hn').append (' ' :: timeText (secs % secsPerDay))
      ('T' :: (timeText (nanos / nanosPerSec % secsPerDay) ++
        (fractionText (nanos % nanosPerSec).toNat ++ "+00:00".toList)))
    simp only [hb.textLe_eq_true, true_iff]
    exact h.le
  · rw [h, textLe_append]
    have hsep := before_cons (show ' ' < 'T' by decide) (timeText (secs % secsPerDay))
      (timeText (nanos / nanosPerSec % secsPerDay) ++
        (fractionText (nanos % nanosPerSec).toNat ++ "+00:00".toList))
    simp only [hsep.textLe_eq_true, true_iff]
    exact le_refl _
  · refine iff_of_false ?_ (not_le.mpr h)
    rw [Bool.not_eq_true]
    by_cases hneg : nanos / nanosPerSec / secsPerDay < minSecs / secsPerDay
    · exact (((yearText_neg_before (civil_year_neg hneg) (civil_year_nonneg hlow)
        (civil_year_le hhigh)).append _ _).append _ _).textLe_eq_false
    · exact ((dateText_before h (not_lt.mp hneg) hhigh).append _ _).textLe_eq_false

end Library.Timestamps
