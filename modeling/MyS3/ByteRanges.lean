import MyS3.S3Routes

/-!
Byte ranges of a read. A range header is parsed in 64-bit words, whose subtraction wraps
around; no header makes it do so. What a range selects of a file is a set of positions, and
the answer holds the bytes at exactly these positions.
-/

namespace MyS3.ByteRanges

open Library.Strings
open Models Database Engine Http S3Routes

/-- `str::parse::<u64>`. -/
def parseWord (t : Text) : Option UInt64 := (parseU64 t).map UInt64.ofNat

/-- `parse_bytes_range` in machine words. -/
def bytesRangeInWords (rangeVal : Text) (fileLen : UInt64) : Option (UInt64 × UInt64) :=
  (stripPrefix "bytes=".toList (trim rangeVal)).bind fun rest =>
    let unit := trim ((split ',' (trim rest)).headD [])
    if fileLen = 0 then none
    else
      match stripPrefix ['-'] unit with
      | some suffix =>
        (parseWord suffix).bind fun n =>
          if n = 0 then none else some (fileLen - min n fileLen, fileLen - 1)
      | none =>
        (splitOnce '-' unit).bind fun parts =>
          (parseWord parts.1).bind fun start =>
            if fileLen ≤ start then none
            else
              let last :=
                if parts.2 = [] then some (fileLen - 1)
                else (parseWord parts.2).map fun n => min n (fileLen - 1)
              last.bind fun last => if last < start then none else some (start, last)

/-- A single range; its numbers are written in digits. -/
inductive RangeSpec
  | between (first last : Text)
  | onwards (first : Text)
  | suffix (length : Text)

/-- A number that fits in 64 bits. -/
def IsWord (t : Text) : Prop := t ≠ [] ∧ (∀ c ∈ t, isDigit c = true) ∧ digitsValue t < 2 ^ 64

namespace RangeSpec

def text : RangeSpec → Text
  | between first last => first ++ '-' :: last
  | onwards first => first ++ ['-']
  | suffix length => '-' :: length

def WellFormed : RangeSpec → Prop
  | between first last => IsWord first ∧ IsWord last ∧ digitsValue first ≤ digitsValue last
  | onwards first => IsWord first
  | suffix length => IsWord length

/-- The positions of a file that a range selects. -/
def Selects (fileLen i : Nat) : RangeSpec → Prop
  | between first last => i < fileLen ∧ digitsValue first ≤ i ∧ i ≤ digitsValue last
  | onwards first => i < fileLen ∧ digitsValue first ≤ i
  | suffix length => i < fileLen ∧ fileLen ≤ i + digitsValue length

end RangeSpec

theorem parseU64_lt {t : Text} {n : Nat} (h : parseU64 t = some n) : n < 2 ^ 64 := by
  unfold parseU64 at h
  simpa using (Option.filter_eq_some_iff.mp h).2

theorem parseWord_toNat (t : Text) : (parseWord t).map UInt64.toNat = parseU64 t := by
  unfold parseWord
  cases h : parseU64 t with
  | none => rfl
  | some n =>
    rw [Option.map_some, Option.map_some, UInt64.toNat_ofNat_of_lt' (parseU64_lt h)]

theorem toNat_min (a b : UInt64) : (min a b).toNat = min a.toNat b.toNat := by
  change (if a ≤ b then a else b).toNat = _
  by_cases h : a ≤ b
  · rw [if_pos h, min_eq_left (UInt64.le_iff_toNat_le.mp h)]
  · have hle := mt UInt64.le_iff_toNat_le.mpr h
    rw [if_neg h, min_eq_right (by omega)]

theorem toNat_eq_zero {n : UInt64} : n.toNat = 0 ↔ n = 0 := by
  rw [← UInt64.toNat_inj, UInt64.toNat_zero]

theorem toNat_sub_one {n : UInt64} (h : n ≠ 0) : (n - 1).toNat = n.toNat - 1 := by
  have hpos : n.toNat ≠ 0 := mt toNat_eq_zero.mp h
  rw [UInt64.toNat_sub_of_le]
  · rfl
  · rw [UInt64.le_iff_toNat_le, UInt64.toNat_one]
    omega

theorem toNat_sub_min (n fileLen : UInt64) :
    (fileLen - min n fileLen).toNat = fileLen.toNat - min n.toNat fileLen.toNat := by
  rw [UInt64.toNat_sub_of_le, toNat_min]
  rw [UInt64.le_iff_toNat_le, toNat_min]
  exact min_le_right _ _

def toNats (r : UInt64 × UInt64) : Nat × Nat := (r.1.toNat, r.2.toNat)

/-- What follows a number that is parsed. -/
theorem bind_parseWord {α β : Type} {f : UInt64 → Option α} {g : Nat → Option β} {m : α → β}
    (h : ∀ n, (f n).map m = g n.toNat) (t : Text) :
    ((parseWord t).bind f).map m = (parseU64 t).bind g := by
  rw [← parseWord_toNat]
  cases parseWord t with
  | none => rfl
  | some n => exact h n

/-- No subtraction of the parser wraps around. -/
theorem bytesRangeInWords_toNat (rangeVal : Text) (fileLen : UInt64) :
    (bytesRangeInWords rangeVal fileLen).map toNats = parseBytesRange rangeVal fileLen.toNat := by
  unfold bytesRangeInWords parseBytesRange
  cases stripPrefix "bytes=".toList (trim rangeVal) with
  | none => rfl
  | some rest =>
    simp only [Option.bind_some, toNat_eq_zero]
    by_cases hzero : fileLen = 0
    · simp only [if_pos hzero, Option.map_none]
    · simp only [if_neg hzero]
      cases stripPrefix ['-'] (trim ((split ',' (trim rest)).headD [])) with
      | some suffix =>
        refine bind_parseWord (fun n => ?_) suffix
        by_cases hn : n = 0
        · simp [hn]
        · rw [if_neg hn, if_neg (mt toNat_eq_zero.mp hn), Option.map_some, toNats, toNat_sub_min,
            toNat_sub_one hzero]
      | none =>
        cases splitOnce '-' (trim ((split ',' (trim rest)).headD [])) with
        | none => rfl
        | some parts =>
          simp only [Option.bind_some]
          refine bind_parseWord (fun start => ?_) parts.1
          simp only [UInt64.le_iff_toNat_le, UInt64.lt_iff_toNat_lt]
          by_cases hstart : fileLen.toNat ≤ start.toNat
          · simp only [if_pos hstart, Option.map_none]
          · simp only [if_neg hstart]
            have hends : ∀ last : UInt64,
                (if last.toNat < start.toNat then none else some (start, last)).map toNats =
                  if last.toNat < start.toNat then none else some (start.toNat, last.toNat) := by
              intro last
              split_ifs <;> rfl
            by_cases hempty : parts.2 = []
            · simp only [if_pos hempty, Option.bind_some]
              rw [← toNat_sub_one hzero]
              exact hends _
            · simp only [if_neg hempty, Option.bind_map]
              refine bind_parseWord (fun n => ?_) parts.2
              simp only [Function.comp_apply]
              rw [← toNat_sub_one hzero, ← toNat_min]
              exact hends _

/-- What is parsed is a part of the file. -/
theorem parseBytesRange_bounds {rangeVal : Text} {fileLen start last : Nat}
    (h : parseBytesRange rangeVal fileLen = some (start, last)) :
    start ≤ last ∧ last < fileLen := by
  unfold parseBytesRange at h
  obtain ⟨rest, _, h⟩ := Option.bind_eq_some_iff.mp h
  simp only at h
  split_ifs at h with hzero
  split at h
  · obtain ⟨n, _, h⟩ := Option.bind_eq_some_iff.mp h
    split_ifs at h with hn
    simp only [Option.some.injEq, Prod.mk.injEq] at h
    omega
  · obtain ⟨parts, _, h⟩ := Option.bind_eq_some_iff.mp h
    obtain ⟨first, _, h⟩ := Option.bind_eq_some_iff.mp h
    split_ifs at h with hfirst
    all_goals
      obtain ⟨final, hfinal, h⟩ := Option.bind_eq_some_iff.mp h
      split_ifs at h with horder
      simp only [Option.some.injEq, Prod.mk.injEq] at h
    · simp only [Option.some.injEq] at hfinal
      omega
    · obtain ⟨n, _, hfinal⟩ := Option.map_eq_some_iff.mp hfinal
      omega

section digits

variable {t : Text}

theorem digit_range {c : Char} (h : isDigit c = true) : 48 ≤ c.toNat ∧ c.toNat ≤ 57 := by
  unfold isDigit at h
  rw [Bool.and_eq_true, decide_eq_true_eq, decide_eq_true_eq] at h
  exact h

theorem ne_of_digit {c d : Char} (h : isDigit c = true) (hd : isDigit d = false) : c ≠ d := by
  intro h'
  obtain rfl := h'
  rw [h] at hd
  cases hd

theorem not_mem_digits {d : Char} (h : ∀ c ∈ t, isDigit c = true) (hd : isDigit d = false) :
    d ∉ t := fun hmem => ne_of_digit (h d hmem) hd rfl

theorem digit_not_whitespace {c : Char} (h : isDigit c = true) : isWhitespace c = false := by
  obtain ⟨hlow, hhigh⟩ := digit_range h
  simp only [isWhitespace, Bool.or_eq_false_iff, Bool.and_eq_false_iff, decide_eq_false_iff_not,
    beq_eq_false_iff_ne]
  omega

theorem parseU64_of_isWord (h : IsWord t) : parseU64 t = some (digitsValue t) := by
  obtain ⟨hne, hdigits, hsmall⟩ := h
  have hplus : ¬ t.head? = some '+' := by
    intro hhead
    exact not_mem_digits hdigits (by decide) (List.mem_of_mem_head? hhead)
  have hall : t.all isDigit = true := List.all_eq_true.mpr hdigits
  unfold parseU64 parseDigits
  rw [if_neg hplus, if_pos ⟨hne, hall⟩, Option.filter_some, if_pos (by simpa using hsmall)]

theorem trim_of_no_whitespace (h : ∀ c ∈ t, isWhitespace c = false) : trim t = t :=
  trim_eq_self (fun c hc => h c (List.mem_of_mem_head? hc))
    fun c hc => h c (List.mem_of_mem_getLast? hc)

theorem splitOnce_digits {rest : Text} (h : ∀ c ∈ t, isDigit c = true) :
    splitOnce '-' (t ++ '-' :: rest) = some (t, rest) := by
  have hkeep : ∀ c ∈ t, (c != '-') = true := fun c hc => bne_iff_ne.mpr (ne_of_digit (h c hc) rfl)
  unfold splitOnce
  rw [if_pos (by simp), List.takeWhile_append_of_pos hkeep, List.dropWhile_append_of_pos hkeep]
  simp

end digits

/-- The characters of a range. -/
theorem mem_text {spec : RangeSpec} (h : spec.WellFormed) {c : Char} (hc : c ∈ spec.text) :
    c = '-' ∨ isDigit c = true := by
  cases spec with
  | between first last =>
    rcases List.mem_append.mp hc with hc | hc
    · exact Or.inr (h.1.2.1 c hc)
    · exact (List.mem_cons.mp hc).imp_right (h.2.1.2.1 c)
  | onwards first =>
    rcases List.mem_append.mp hc with hc | hc
    · exact Or.inr (h.2.1 c hc)
    · exact Or.inl (List.mem_singleton.mp hc)
  | suffix length => exact (List.mem_cons.mp hc).imp_right (h.2.1 c)

/-- The unit that the parser cuts out of a header is the range of the header. -/
theorem parsed_unit {spec : RangeSpec} (h : spec.WellFormed) :
    stripPrefix "bytes=".toList (trim ("bytes=".toList ++ spec.text)) = some spec.text ∧
      trim ((split ',' (trim spec.text)).headD []) = spec.text := by
  have hspace : ∀ c ∈ spec.text, isWhitespace c = false := by
    intro c hc
    rcases mem_text h hc with rfl | hc
    · rfl
    · exact digit_not_whitespace hc
  have hcomma : ',' ∉ spec.text := by
    intro hc
    rcases mem_text h hc with hc | hc
    · cases hc
    · cases hc
  have hunit : ∀ c ∈ "bytes=".toList ++ spec.text, isWhitespace c = false := by
    intro c hc
    rcases List.mem_append.mp hc with hc | hc
    · exact forall_mem_of_all (p := fun c => isWhitespace c = false) (by decide) c hc
    · exact hspace c hc
  have htrim := trim_of_no_whitespace hspace
  constructor
  · rw [trim_of_no_whitespace hunit]
    exact stripPrefix_eq_some.mpr rfl
  · rw [htrim]
    unfold split
    rw [List.splitOn_eq_singleton hcomma]
    exact htrim

theorem stripPrefix_digits {t rest : Text} (h : IsWord t) :
    stripPrefix ['-'] (t ++ rest) = none := by
  rw [stripPrefix_eq_none]
  obtain ⟨hne, hdigits, _⟩ := h
  obtain ⟨c, tail, rfl⟩ := List.exists_cons_of_ne_nil hne
  intro hpre
  have hc : '-' = c := (List.cons_prefix_cons.mp hpre).1
  exact ne_of_digit (hdigits c List.mem_cons_self) rfl hc.symm

/-- What the code makes of a range of a file that is not empty. -/
def cut (spec : RangeSpec) (fileLen : Nat) : Option (Nat × Nat) :=
  match spec with
  | .between first last =>
    if fileLen ≤ digitsValue first then none
    else some (digitsValue first, min (digitsValue last) (fileLen - 1))
  | .onwards first =>
    if fileLen ≤ digitsValue first then none else some (digitsValue first, fileLen - 1)
  | .suffix length =>
    if digitsValue length = 0 then none
    else some (fileLen - min (digitsValue length) fileLen, fileLen - 1)

theorem parseBytesRange_text {spec : RangeSpec} (h : spec.WellFormed) {fileLen : Nat}
    (hlen : 0 < fileLen) :
    parseBytesRange ("bytes=".toList ++ spec.text) fileLen = cut spec fileLen := by
  obtain ⟨hrest, hunit⟩ := parsed_unit h
  unfold parseBytesRange
  rw [hrest, Option.bind_some]
  simp only [hunit, if_neg hlen.ne']
  cases spec with
  | between first last =>
    obtain ⟨hfirst, hlast, hle⟩ := h
    simp only [RangeSpec.text, stripPrefix_digits hfirst, splitOnce_digits hfirst.2.1,
      Option.bind_some, parseU64_of_isWord hfirst, parseU64_of_isWord hlast, if_neg hlast.1,
      Option.map_some, cut]
    split_ifs with hover horder
    · rfl
    · omega
    · rfl
  | onwards first =>
    simp only [RangeSpec.text, stripPrefix_digits h, splitOnce_digits h.2.1, Option.bind_some,
      parseU64_of_isWord h, if_true, cut]
    split_ifs with hover horder
    · rfl
    · omega
    · rfl
  | suffix length =>
    have hstrip : stripPrefix ['-'] ('-' :: length) = some length := stripPrefix_eq_some.mpr rfl
    simp only [RangeSpec.text, hstrip, parseU64_of_isWord h, Option.bind_some, cut]

/-- The positions that a range selects are those between the ends that the parser finds, and
there are none where it finds no ends. -/
theorem selects_iff_of_cut {spec : RangeSpec} {fileLen start last : Nat} (hlen : 0 < fileLen)
    (hcut : cut spec fileLen = some (start, last)) (i : Nat) :
    spec.Selects fileLen i ↔ start ≤ i ∧ i ≤ last := by
  cases spec with
  | between first last =>
    unfold cut at hcut
    simp only at hcut
    split_ifs at hcut with hover
    simp only [Option.some.injEq, Prod.mk.injEq] at hcut
    simp only [RangeSpec.Selects]
    omega
  | onwards first =>
    unfold cut at hcut
    simp only at hcut
    split_ifs at hcut with hover
    simp only [Option.some.injEq, Prod.mk.injEq] at hcut
    simp only [RangeSpec.Selects]
    omega
  | suffix length =>
    unfold cut at hcut
    simp only at hcut
    split_ifs at hcut with hzero
    simp only [Option.some.injEq, Prod.mk.injEq] at hcut
    simp only [RangeSpec.Selects]
    omega

theorem not_selects_of_cut {spec : RangeSpec} {fileLen : Nat} (hcut : cut spec fileLen = none)
    (i : Nat) : ¬ spec.Selects fileLen i := by
  cases spec with
  | between first last =>
    unfold cut at hcut
    simp only at hcut
    split_ifs at hcut with hover
    simp only [RangeSpec.Selects]
    omega
  | onwards first =>
    unfold cut at hcut
    simp only at hcut
    split_ifs at hcut with hover
    simp only [RangeSpec.Selects]
    omega
  | suffix length =>
    unfold cut at hcut
    simp only at hcut
    split_ifs at hcut with hzero
    simp only [RangeSpec.Selects]
    omega

/-- An answer holds the bytes that its headers name: all of the file, or the part of it
between two positions. -/
inductive Describes (data : Bytes) : Response → Prop
  | whole (h : ContentHeaders) (hlength : h.contentLength = data.length)
      (hrange : h.contentRange = none) : Describes data (.content .ok h data)
  | part (h : ContentHeaders) (before body after : Bytes) (start last : Nat)
      (hrange : h.contentRange = some (start, last, data.length)) (hle : start ≤ last)
      (hlt : last < data.length) (hdata : data = before ++ body ++ after)
      (hstart : before.length = start) (hlast : start + body.length = last + 1)
      (hlength : h.contentLength = body.length) :
      Describes data (.content .partialContent h body)
  | unsatisfiable : Describes data (.unsatisfiable data.length)

theorem describes_serveRecord (P : Platform) (s : AppState) (record : ObjectRecord)
    (headers : Headers) {data : Bytes}
    (hblob : openRead s.config.storageRoot s.disk record.filepath = some data)
    (hlen : record.filesizeBytes = data.length) :
    Describes data (serveRecord P s record headers) := by
  have hfile : record.filesizeBytes.toNat = data.length := by omega
  unfold serveRecord
  simp only [hfile, hblob]
  split_ifs
  · exact .unsatisfiable
  · split
    · rename_i start last hrange
      obtain ⟨range, _, hrange⟩ := Option.bind_eq_some_iff.mp hrange
      obtain ⟨hle, hlt⟩ := parseBytesRange_bounds hrange
      have hbody : ((data.drop start).take (last - start + 1)).length = last - start + 1 := by
        rw [List.length_take, List.length_drop]
        omega
      refine .part _ (data.take start) _ (data.drop (start + (last - start + 1))) start last rfl
        hle hlt ?_ ?_ ?_ hbody.symm
      · rw [List.append_assoc, ← List.drop_drop, List.take_append_drop, List.take_append_drop]
      · rw [List.length_take]
        omega
      · rw [hbody]
        omega
    · exact .whole _ rfl rfl

end MyS3.ByteRanges
