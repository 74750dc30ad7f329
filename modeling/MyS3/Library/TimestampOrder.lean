import MyS3.Library.Timestamps

/-!
The bytewise order of the texts of instants. It is a linear order; within one of the two
formats it is the order of the instants, also where fractions have different lengths, and
between the formats it is that of the dates, the space coming first on one date.
-/

namespace Library.Timestamps

open Library.Strings Library.Calendar

theorem textLe_total (u v : Text) : textLe u v = true ∨ textLe v u = true := by
  induction u generalizing v with
  | nil => exact Or.inl rfl
  | cons a s ih =>
    cases v with
    | nil => exact Or.inr rfl
    | cons b t =>
      simp only [textLe]
      rcases lt_trichotomy a b with h | h | h
      · exact Or.inl (if_pos h)
      · subst h
        simpa using ih t
      · exact Or.inr (if_pos h)

theorem textLe_trans {u v w : Text} (huv : textLe u v = true) (hvw : textLe v w = true) :
    textLe u w = true := by
  induction u generalizing v w with
  | nil => rfl
  | cons a s ih =>
    cases v with
    | nil => cases huv
    | cons b t =>
      cases w with
      | nil => cases hvw
      | cons c r =>
        simp only [textLe] at huv hvw ⊢
        rcases lt_trichotomy a b with hab | hab | hab
        · rcases lt_trichotomy b c with hbc | hbc | hbc
          · rw [if_pos (hab.trans hbc)]
          · rw [if_pos (hbc ▸ hab)]
          · simp [not_lt_of_gt hbc, ne_of_gt hbc] at hvw
        · subst hab
          rcases lt_trichotomy a c with hbc | hbc | hbc
          · rw [if_pos hbc]
          · subst hbc
            simp only [lt_irrefl, if_false, if_true] at huv hvw ⊢
            exact ih huv hvw
          · simp [not_lt_of_gt hbc, ne_of_gt hbc] at hvw
        · simp [not_lt_of_gt hab, ne_of_gt hab] at huv

/-- The digits of a number are those of its higher part and of its lower part. -/
theorem pad_add (k j n : Nat) : pad (k + j) n = pad k (n / 10 ^ j) ++ pad j n := by
  induction j generalizing n with
  | zero => simp [pad]
  | succ j ih =>
    rw [← Nat.add_assoc, pad, ih, pad, List.append_assoc, Nat.div_div_eq_div_mul, ← Nat.pow_succ']

theorem plus_lt_digit (k n : Nat) (rest tail : Text) :
    Before ('+' :: tail) (pad (k + 1) n ++ rest) := by
  obtain ⟨c, digits, hpad, hc⟩ := pad_head k n
  rw [hpad]
  exact before_cons (lt_trans (by decide) hc) _ _

/-- A fraction of some digits. -/
def fractionOf (k v : Nat) : Text := if k = 0 then [] else '.' :: pad k v

/-- A fraction is written with a number of digits that it needs no more than. -/
theorem fractionText_eq {nanos : Nat} (h : nanos < 10 ^ 9) :
    ∃ k v, k ≤ 9 ∧ v < 10 ^ k ∧ fractionText nanos = fractionOf k v ∧ nanos = v * 10 ^ (9 - k) := by
  unfold fractionText
  split_ifs with h0 h3 h6
  · exact ⟨0, 0, by omega, by omega, rfl, by omega⟩
  · exact ⟨3, nanos / 1000000, by omega, by omega, rfl, by omega⟩
  · exact ⟨6, nanos / 1000, by omega, by omega, rfl, by omega⟩
  · exact ⟨9, nanos, by omega, h, rfl, by omega⟩

/-- A number with more digits, cut to fewer of them. -/
theorem cut_lt {k j v u : Nat} (hkj : k + j ≤ 9)
    (h : v * 10 ^ (9 - (k + j)) < u * 10 ^ (9 - k)) : v / 10 ^ j < u := by
  have hpow : 10 ^ (9 - k) = 10 ^ j * 10 ^ (9 - (k + j)) := by
    rw [← Nat.pow_add]
    congr 1
    omega
  rw [hpow, ← Nat.mul_assoc] at h
  exact (Nat.div_lt_iff_lt_mul (by positivity)).mpr (Nat.lt_of_mul_lt_mul_right h)

theorem le_cut {k j v u : Nat} (hkj : k + j ≤ 9)
    (h : v * 10 ^ (9 - k) < u * 10 ^ (9 - (k + j))) : v * 10 ^ j < u ∧ v ≤ u / 10 ^ j := by
  have hpow : 10 ^ (9 - k) = 10 ^ j * 10 ^ (9 - (k + j)) := by
    rw [← Nat.pow_add]
    congr 1
    omega
  rw [hpow, ← Nat.mul_assoc] at h
  have hlt := Nat.lt_of_mul_lt_mul_right h
  exact ⟨hlt, (Nat.le_div_iff_mul_le (by positivity)).mpr hlt.le⟩

/-- Fractional digits before a plus sign compare as numbers, whatever their lengths. -/
theorem digits_before {k l v u : Nat} (hk : k ≤ 9) (hl : l ≤ 9) (hu : u < 10 ^ l)
    (h : v * 10 ^ (9 - k) < u * 10 ^ (9 - l)) (tail : Text) :
    Before (pad k v ++ '+' :: tail) (pad l u ++ '+' :: tail) := by
  by_cases hle : k ≤ l
  · obtain ⟨j, rfl⟩ := Nat.exists_eq_add_of_le hle
    obtain ⟨hstrict, hcut⟩ := le_cut hl h
    rw [pad_add, List.append_assoc]
    rcases Nat.lt_or_eq_of_le hcut with hlt | heq
    · have hsmall : u / 10 ^ j < 10 ^ k := by
        rw [Nat.div_lt_iff_lt_mul (by positivity), ← Nat.pow_add]
        exact hu
      exact (pad_before k hlt hsmall).append _ _
    · -- The shorter one is over, and its plus sign comes before every digit.
      rw [heq]
      cases j with
      | zero =>
        rw [Nat.pow_zero, Nat.div_one] at heq
        omega
      | succ j => exact (plus_lt_digit j u _ _).prepend _
  · obtain ⟨j, rfl⟩ := Nat.exists_eq_add_of_le (Nat.le_of_not_le hle)
    rw [pad_add, List.append_assoc]
    exact (pad_before l (cut_lt hk h) hu).append _ _

/-- Fractions before a plus sign compare as numbers. -/
theorem fraction_before {a b : Nat} (hab : a < b) (hb : b < 10 ^ 9) (tail : Text) :
    Before (fractionText a ++ '+' :: tail) (fractionText b ++ '+' :: tail) := by
  obtain ⟨k, v, hk, hv, htext, ha⟩ := fractionText_eq (hab.trans hb)
  obtain ⟨l, u, hl, hu, htext', hb'⟩ := fractionText_eq hb
  rw [htext, htext']
  unfold fractionOf
  by_cases hl0 : l = 0
  · subst hl0
    omega
  rw [if_neg hl0]
  by_cases hk0 : k = 0
  · rw [if_pos hk0]
    exact before_cons (by decide) _ _
  · rw [if_neg hk0]
    exact (digits_before hk hl hu (by omega) tail).cons '.'

theorem timeText_before {s t : Int} (h0 : 0 ≤ s) (hst : s < t) (ht : t < secsPerDay) :
    Before (timeText s) (timeText t) := by
  unfold secsPerDay at ht
  unfold timeText
  by_cases hhour : (s / 3600).toNat < (t / 3600).toNat
  · exact (pad_before 2 hhour (by omega)).append _ _
  have hh : (s / 3600).toNat = (t / 3600).toNat := by omega
  rw [hh]
  refine Before.prepend (Before.cons ?_ ':') _
  by_cases hminute : (s / 60 % 60).toNat < (t / 60 % 60).toNat
  · exact (pad_before 2 hminute (by omega)).append _ _
  have hm : (s / 60 % 60).toNat = (t / 60 % 60).toNat := by omega
  rw [hm]
  refine Before.prepend (Before.cons ?_ ':') _
  exact pad_before 2 (by omega) (by omega)

section order

variable {a b : Int}

theorem day_bounds (h0 : minSecs ≤ a) (h1 : a < maxSecs) :
    minSecs / secsPerDay ≤ a / secsPerDay ∧ a / secsPerDay < maxSecs / secsPerDay := by
  unfold minSecs maxSecs secsPerDay at *
  omega

/-- The texts of two seconds, with what follows the time, by what follows it. -/
theorem seconds_before (h0 : minSecs ≤ a) (h1 : b < maxSecs) (hab : a < b) (sep : Char)
    (x y : Text) :
    Before (dateText (civil (a / secsPerDay)) ++ sep :: (timeText (a % secsPerDay) ++ x))
      (dateText (civil (b / secsPerDay)) ++ sep :: (timeText (b % secsPerDay) ++ y)) := by
  obtain ⟨hlow, _⟩ := day_bounds h0 (hab.trans h1)
  obtain ⟨_, hhigh⟩ := day_bounds (h0.trans hab.le) h1
  have hmod : ∀ n : Int, 0 ≤ n % secsPerDay ∧ n % secsPerDay < secsPerDay := by
    intro n
    unfold secsPerDay
    omega
  by_cases hday : a / secsPerDay < b / secsPerDay
  · exact (dateText_before hday hlow hhigh).append _ _
  · have hsame : a / secsPerDay = b / secsPerDay := by
      unfold secsPerDay at *
      omega
    rw [hsame]
    refine Before.prepend (Before.cons (Before.append ?_ x y) sep) _
    refine timeText_before (hmod a).1 ?_ (hmod b).2
    unfold secsPerDay at *
    omega

theorem currentTimestamp_before (h0 : minSecs ≤ a) (h1 : b < maxSecs) (hab : a < b) :
    Before (currentTimestamp a) (currentTimestamp b) := by
  have h := seconds_before h0 h1 hab ' ' [] []
  rwa [List.append_nil, List.append_nil] at h

theorem rfc3339_before (h0 : minSecs * nanosPerSec ≤ a) (h1 : b < maxSecs * nanosPerSec)
    (hab : a < b) : Before (rfc3339 a) (rfc3339 b) := by
  have hlow : minSecs ≤ a / nanosPerSec := by
    unfold nanosPerSec at *
    omega
  have hhigh : b / nanosPerSec < maxSecs := by
    unfold nanosPerSec at *
    omega
  unfold rfc3339
  by_cases hsec : a / nanosPerSec < b / nanosPerSec
  · exact seconds_before hlow hhigh hsec 'T' _ _
  · have hsame : a / nanosPerSec = b / nanosPerSec := by
      unfold nanosPerSec at *
      omega
    simp only [hsame]
    refine Before.prepend (Before.cons (Before.prepend ?_ _) 'T') _
    refine fraction_before ?_ ?_ "00:00".toList
    · unfold nanosPerSec at *
      omega
    · unfold nanosPerSec
      omega

theorem textLe_of_le {f : Int → Text} (hbefore : a < b → Before (f a) (f b)) (hab : a ≤ b) :
    textLe (f a) (f b) = true := by
  rcases lt_or_eq_of_le hab with h | rfl
  · exact (hbefore h).textLe_eq_true
  · rcases textLe_total (f a) (f a) with h | h
    · exact h
    · exact h

theorem textLe_currentTimestamp (ha : minSecs ≤ a ∧ a < maxSecs) (hb : minSecs ≤ b ∧ b < maxSecs) :
    textLe (currentTimestamp a) (currentTimestamp b) = true ↔ a ≤ b := by
  constructor
  · intro h
    by_contra hlt
    rw [(currentTimestamp_before hb.1 ha.2 (not_le.mp hlt)).textLe_eq_false] at h
    cases h
  · exact textLe_of_le (currentTimestamp_before ha.1 hb.2)

theorem textLe_rfc3339 (ha : minSecs * nanosPerSec ≤ a ∧ a < maxSecs * nanosPerSec)
    (hb : minSecs * nanosPerSec ≤ b ∧ b < maxSecs * nanosPerSec) :
    textLe (rfc3339 a) (rfc3339 b) = true ↔ a ≤ b := by
  constructor
  · intro h
    by_contra hlt
    rw [(rfc3339_before hb.1 ha.2 (not_le.mp hlt)).textLe_eq_false] at h
    cases h
  · exact textLe_of_le (rfc3339_before ha.1 hb.2)

/-- Of two texts with the same date, or with an earlier date where the space is, the one with
the space comes first. -/
theorem space_before_letter {secs nanos : Int} (hs : minSecs ≤ secs)
    (hn : nanos < maxSecs * nanosPerSec)
    (h : secs / secsPerDay ≤ nanos / nanosPerSec / secsPerDay) :
    Before (currentTimestamp secs) (rfc3339 nanos) := by
  have hlow : minSecs / secsPerDay ≤ secs / secsPerDay := by
    unfold minSecs secsPerDay at *
    omega
  have hhigh : nanos / nanosPerSec / secsPerDay < maxSecs / secsPerDay := by
    unfold maxSecs secsPerDay nanosPerSec at *
    omega
  rcases lt_or_eq_of_le h with hlt | heq
  · exact (dateText_before hlt hlow hhigh).append _ _
  · unfold currentTimestamp rfc3339
    rw [heq]
    exact (before_cons (by decide) _ _).prepend _

/-- The text with the letter T comes first only where its date is an earlier one. -/
theorem textLe_rfc3339_currentTimestamp {secs nanos : Int} (hs : minSecs ≤ secs ∧ secs < maxSecs)
    (hn : minSecs * nanosPerSec ≤ nanos ∧ nanos < maxSecs * nanosPerSec) :
    textLe (rfc3339 nanos) (currentTimestamp secs) = true ↔
      nanos / nanosPerSec / secsPerDay < secs / secsPerDay := by
  constructor
  · intro h
    by_contra hle
    rw [(space_before_letter hs.1 hn.2 (not_lt.mp hle)).textLe_eq_false] at h
    cases h
  · intro h
    have hlow : minSecs / secsPerDay ≤ nanos / nanosPerSec / secsPerDay := by
      unfold minSecs secsPerDay nanosPerSec at *
      omega
    exact ((dateText_before h hlow (day_bounds hs.1 hs.2).2).append _ _).textLe_eq_true

end order

end Library.Timestamps
