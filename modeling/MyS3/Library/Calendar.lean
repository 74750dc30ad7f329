import Mathlib.Data.Int.SuccPred
import Mathlib.Order.Monotone.Basic
import MyS3.Library.Strings

/-!
The proleptic Gregorian calendar and the two ISO 8601 texts of an instant that
databases and clients write. Days are counted from 1970-01-01. Years run from
March, so that a leap day ends its year, and each level of the count (four
centuries, century, four years, year) is a division whose last part is longer.
Dates compare in the order of their days, and fixed-width texts in the order
of the numbers they show.
-/

namespace Library.Calendar

open Library.Strings

/-- A calendar date; months and days count from one. -/
structure Date where
  year : Int
  month : Int
  day : Int
  deriving DecidableEq, Repr

/-- Days before March 1 of the given March year of a 400-year era. -/
def daysBeforeYear (yoe : Int) : Int := 365 * yoe + yoe / 4 - yoe / 100

/-- Days before the given month of a March year, March being month zero. -/
def daysBeforeMonth (mp : Int) : Int := (153 * mp + 2) / 5

/-- The March year of an era that contains the given day of the era. -/
def yearOfEra (doe : Int) : Int :=
  let century := min (doe / 36524) 3
  let dayOfCentury := doe - century * 36524
  let quad := dayOfCentury / 1461
  let dayOfQuad := dayOfCentury - quad * 1461
  let year := min (dayOfQuad / 365) 3
  100 * century + 4 * quad + year

/-- The day number counted from March 1 of year zero. -/
def marchDay (days : Int) : Int := days + 719468

def era (days : Int) : Int := marchDay days / 146097

def dayOfEra (days : Int) : Int := marchDay days % 146097

def dayOfYear (days : Int) : Int := dayOfEra days - daysBeforeYear (yearOfEra (dayOfEra days))

def monthIndex (days : Int) : Int := (5 * dayOfYear days + 2) / 153

def marchYear (days : Int) : Int := 400 * era days + yearOfEra (dayOfEra days)

def civil (days : Int) : Date :=
  let mp := monthIndex days
  { year := marchYear days + (if mp < 10 then 0 else 1)
    month := if mp < 10 then mp + 3 else mp - 9
    day := dayOfYear days - daysBeforeMonth mp + 1 }

example : civil 0 = ⟨1970, 1, 1⟩ := by decide

example : civil 19782 = ⟨2024, 2, 29⟩ := by decide

example : civil (-719528) = ⟨0, 1, 1⟩ := by decide

example : civil 2932896 = ⟨9999, 12, 31⟩ := by decide

/-- Days of the given date since 1970-01-01. -/
def daysFromCivil (d : Date) : Int :=
  let mp := if 2 < d.month then d.month - 3 else d.month + 9
  let y := if 2 < d.month then d.year else d.year - 1
  146097 * (y / 400) + daysBeforeYear (y % 400) + daysBeforeMonth mp + d.day - 1 - 719468

/-- First day of a March year, counted from March 1 of year zero. -/
def yearStart (y : Int) : Int := 146097 * (y / 400) + daysBeforeYear (y % 400)

theorem yearStart_succ (y : Int) : yearStart y + 365 ≤ yearStart (y + 1) := by
  unfold yearStart daysBeforeYear
  by_cases h : y % 400 = 399
  · have hdiv : (y + 1) / 400 = y / 400 + 1 := by omega
    have hmod : (y + 1) % 400 = 0 := by omega
    rw [h, hdiv, hmod]
    omega
  · have hdiv : (y + 1) / 400 = y / 400 := by omega
    have hmod : (y + 1) % 400 = y % 400 + 1 := by omega
    rw [hdiv, hmod]
    omega

theorem yearStart_mono {a b : Int} (h : a ≤ b) : yearStart a ≤ yearStart b := by
  have hmono : Monotone yearStart := monotone_int_of_le_succ fun n => by
    have := yearStart_succ n
    omega
  exact hmono h

private theorem daysBeforeYear_parts (c q r : Int) (hq : 0 ≤ q) (hq' : q ≤ 24)
    (hr : 0 ≤ r) (hr' : r ≤ 3) :
    daysBeforeYear (100 * c + 4 * q + r) = 36524 * c + 1461 * q + 365 * r := by
  have h4 : (100 * c + 4 * q + r) / 4 = 25 * c + q := by omega
  have h100 : (100 * c + 4 * q + r) / 100 = c := by omega
  unfold daysBeforeYear
  rw [h4, h100]
  omega

/-- The four-level count of a day of the era, with the bounds of each level. -/
private theorem yearOfEra_parts (doe : Int) (h0 : 0 ≤ doe) (h1 : doe < 146097) :
    ∃ c q r : Int, yearOfEra doe = 100 * c + 4 * q + r ∧
      0 ≤ c ∧ c ≤ 3 ∧ 0 ≤ q ∧ q ≤ 24 ∧ 0 ≤ r ∧ r ≤ 3 ∧
      36524 * c + 1461 * q + 365 * r ≤ doe ∧
      doe ≤ 36524 * c + 1461 * q + 365 * r + 365 ∧
      (r < 3 → doe < 36524 * c + 1461 * q + 365 * r + 365) ∧
      (q = 24 → c < 3 → doe < 36524 * (c + 1)) := by
  refine ⟨min (doe / 36524) 3, (doe - min (doe / 36524) 3 * 36524) / 1461,
    min ((doe - min (doe / 36524) 3 * 36524 -
      (doe - min (doe / 36524) 3 * 36524) / 1461 * 1461) / 365) 3, rfl, ?_⟩
  generalize hc : min (doe / 36524) 3 = c
  have hc0 : 0 ≤ c ∧ c ≤ 3 ∧ 36524 * c ≤ doe ∧ doe ≤ 36524 * c + 36524 ∧
    (c < 3 → doe < 36524 * (c + 1)) := by omega
  clear hc
  generalize hq : (doe - c * 36524) / 1461 = q
  have hq0 : 0 ≤ q ∧ q ≤ 24 ∧ 1461 * q ≤ doe - c * 36524 ∧
    doe - c * 36524 < 1461 * q + 1461 := by omega
  clear hq
  generalize hr : min ((doe - c * 36524 - q * 1461) / 365) 3 = r
  omega

theorem yearOfEra_bounds (doe : Int) (h0 : 0 ≤ doe) (h1 : doe < 146097) :
    0 ≤ yearOfEra doe ∧ yearOfEra doe ≤ 399 := by
  obtain ⟨c, q, r, hy, h⟩ := yearOfEra_parts doe h0 h1
  omega

theorem dayOfEra_bounds (days : Int) : 0 ≤ dayOfEra days ∧ dayOfEra days < 146097 := by
  unfold dayOfEra
  omega

theorem dayOfYear_bounds (days : Int) : 0 ≤ dayOfYear days ∧ dayOfYear days ≤ 365 := by
  obtain ⟨h0, h1⟩ := dayOfEra_bounds days
  obtain ⟨c, q, r, hy, hc, hc', hq, hq', hr, hr', h⟩ := yearOfEra_parts _ h0 h1
  unfold dayOfYear
  rw [hy, daysBeforeYear_parts c q r hq hq' hr hr']
  omega

theorem monthIndex_bounds (days : Int) : 0 ≤ monthIndex days ∧ monthIndex days ≤ 11 := by
  have h := dayOfYear_bounds days
  unfold monthIndex
  omega

theorem marchYear_div (days : Int) : marchYear days / 400 = era days := by
  obtain ⟨h0, h1⟩ := dayOfEra_bounds days
  have hy := yearOfEra_bounds _ h0 h1
  unfold marchYear
  omega

theorem marchYear_mod (days : Int) : marchYear days % 400 = yearOfEra (dayOfEra days) := by
  obtain ⟨h0, h1⟩ := dayOfEra_bounds days
  have hy := yearOfEra_bounds _ h0 h1
  unfold marchYear
  omega

/-- A day is its March year's first day plus the day of that year. -/
theorem yearStart_add_dayOfYear (days : Int) :
    yearStart (marchYear days) + dayOfYear days = marchDay days := by
  unfold yearStart
  rw [marchYear_div, marchYear_mod]
  unfold dayOfYear era dayOfEra
  omega

/-- A day precedes the next March year. -/
theorem marchDay_lt_succ (days : Int) : marchDay days < yearStart (marchYear days + 1) := by
  obtain ⟨h0, h1⟩ := dayOfEra_bounds days
  have hdoe : marchDay days = 146097 * era days + dayOfEra days := by
    unfold era dayOfEra
    omega
  obtain ⟨c, q, r, hy, hc, hc', hq, hq', hr, hr', hlow, hhigh, hshort, hcent⟩ :=
    yearOfEra_parts _ h0 h1
  have hmarch : marchYear days = 400 * era days + (100 * c + 4 * q + r) := by
    unfold marchYear
    rw [hy]
  unfold yearStart
  by_cases hlast : c = 3 ∧ q = 24 ∧ r = 3
  · have hdiv : (marchYear days + 1) / 400 = era days + 1 := by omega
    have hmod : (marchYear days + 1) % 400 = 0 := by omega
    rw [hdiv, hmod]
    unfold daysBeforeYear
    omega
  · have hdiv : (marchYear days + 1) / 400 = era days := by omega
    have hmod : (marchYear days + 1) % 400 = 100 * c + 4 * q + r + 1 := by omega
    rw [hdiv, hmod]
    -- the year after the last of a part opens the next part
    by_cases hr3 : r = 3
    · by_cases hq24 : q = 24
      · have hnext : 100 * c + 4 * q + r + 1 = 100 * (c + 1) + 4 * 0 + 0 := by omega
        rw [hnext, daysBeforeYear_parts (c + 1) 0 0] <;> omega
      · have hnext : 100 * c + 4 * q + r + 1 = 100 * c + 4 * (q + 1) + 0 := by omega
        rw [hnext, daysBeforeYear_parts c (q + 1) 0] <;> omega
    · have hnext : 100 * c + 4 * q + r + 1 = 100 * c + 4 * q + (r + 1) := by omega
      rw [hnext, daysBeforeYear_parts c q (r + 1)] <;> omega

theorem civil_valid (days : Int) : 1 ≤ (civil days).month ∧ (civil days).month ≤ 12 ∧
    1 ≤ (civil days).day ∧ (civil days).day ≤ 31 := by
  have h := dayOfYear_bounds days
  have hm := monthIndex_bounds days
  have hmp : monthIndex days = (5 * dayOfYear days + 2) / 153 := rfl
  unfold civil daysBeforeMonth
  simp only
  omega

/-- Dates compare by year, then month, then day. -/
def Date.lt (a b : Date) : Prop :=
  a.year < b.year ∨ a.year = b.year ∧ (a.month < b.month ∨ a.month = b.month ∧ a.day < b.day)

/-- Later days have later dates. -/
theorem civil_lt {a b : Int} (h : a < b) : (civil a).lt (civil b) := by
  have hyear : marchYear a ≤ marchYear b := by
    by_contra hgt
    have hmono := yearStart_mono (show marchYear b + 1 ≤ marchYear a by omega)
    have ha := yearStart_add_dayOfYear a
    have hdoy := dayOfYear_bounds a
    have hb := marchDay_lt_succ b
    unfold marchDay at *
    omega
  have ha := yearStart_add_dayOfYear a
  have hb := yearStart_add_dayOfYear b
  have hma := monthIndex_bounds a
  have hmb := monthIndex_bounds b
  have hia : monthIndex a = (5 * dayOfYear a + 2) / 153 := rfl
  have hib : monthIndex b = (5 * dayOfYear b + 2) / 153 := rfl
  unfold marchDay at ha hb
  unfold Date.lt civil
  simp only
  rcases lt_or_eq_of_le hyear with hlt | heq
  · split_ifs <;> omega
  · have hdoy : dayOfYear a < dayOfYear b := by
      rw [heq] at ha
      omega
    have hmonth : monthIndex a ≤ monthIndex b := by omega
    rcases lt_or_eq_of_le hmonth with hm | hm
    · split_ifs <;> omega
    · rw [hm]
      split_ifs <;> omega

end Library.Calendar
