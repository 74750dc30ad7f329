import Mathlib.Algebra.Group.Int.Defs
import Mathlib.Algebra.Group.Nat.Defs
import Mathlib.Data.List.Basic
import Mathlib.Data.List.Infix

/-!
Text as a list of characters, with the string operations of a systems language:
trimming, prefixes, segments between separators, and the parsing of bounded
integers. White space is the Unicode property, not the ASCII one.
-/

namespace Library.Strings

abbrev Text := List Char

abbrev Bytes := List UInt8

/-- The code points with the Unicode property `White_Space`. -/
def isWhitespace (c : Char) : Bool :=
  (0x9 ≤ c.toNat && c.toNat ≤ 0xd) || c.toNat == 0x20 || c.toNat == 0x85 ||
    c.toNat == 0xa0 || c.toNat == 0x1680 || (0x2000 ≤ c.toNat && c.toNat ≤ 0x200a) ||
    c.toNat == 0x2028 || c.toNat == 0x2029 || c.toNat == 0x202f || c.toNat == 0x205f ||
    c.toNat == 0x3000

def trimStartMatches (p : Char → Bool) (t : Text) : Text := t.dropWhile p

def trimEndMatches (p : Char → Bool) (t : Text) : Text := (t.reverse.dropWhile p).reverse

def trim (t : Text) : Text := trimEndMatches isWhitespace (trimStartMatches isWhitespace t)

/-- `trim_start_matches("./")`. -/
def trimDotSlash : Text → Text
  | '.' :: '/' :: rest => trimDotSlash rest
  | t => t

def startsWith (pre t : Text) : Bool := pre.isPrefixOf t

def stripPrefix (pre t : Text) : Option Text := pre.isPrefixOf? t

/-- The segments between separators; an empty text has one empty segment. -/
def split (c : Char) (t : Text) : List Text := t.splitOn c

/-- The text before and after the last separator. -/
def rsplitOnce (c : Char) (t : Text) : Option (Text × Text) :=
  if c ∈ t then
    some ((t.reverse.dropWhile (· != c)).tail.reverse,
      (t.reverse.takeWhile (· != c)).reverse)
  else none

/-- The text before and after the first separator. -/
def splitOnce (c : Char) (t : Text) : Option (Text × Text) :=
  if c ∈ t then some (t.takeWhile (· != c), (t.dropWhile (· != c)).tail) else none

/-- Every occurrence of a character replaced by a text. -/
def replaceChar (c : Char) (new t : Text) : Text := t.flatMap fun d => if d = c then new else [d]

def stripSuffix (suf t : Text) : Option Text := (stripPrefix suf.reverse t.reverse).map List.reverse

/-- Where a text first occurs in another. -/
def findText (d : Text) : Text → Option Nat
  | [] => if d = [] then some 0 else none
  | c :: rest => if startsWith d (c :: rest) then some 0 else (findText d rest).map (· + 1)

def isDigit (c : Char) : Bool := '0' ≤ c && c ≤ '9'

def digitValue (c : Char) : Nat := c.toNat - '0'.toNat

def digitsValue (t : Text) : Nat := t.foldl (fun n c => 10 * n + digitValue c) 0

/-- A nonempty run of decimal digits. -/
def parseDigits (t : Text) : Option Nat :=
  if t ≠ [] ∧ t.all isDigit then some (digitsValue t) else none

/-- An unsigned 64-bit integer, with an optional plus sign. -/
def parseU64 (t : Text) : Option Nat :=
  (parseDigits (if t.head? = some '+' then t.tail else t)).filter (· < 2 ^ 64)

/-- A signed 64-bit integer, with an optional sign. -/
def parseI64 (t : Text) : Option Int :=
  if t.head? = some '-' then
    ((parseDigits t.tail).map fun n => -(n : Int)).filter (-(2 ^ 63) ≤ ·)
  else
    ((parseDigits (if t.head? = some '+' then t.tail else t)).map fun n => (n : Int)).filter
      (· < 2 ^ 63)

/-- The signed 64-bit integers. -/
def i64Min : Int := -(2 ^ 63)

def i64Max : Int := 2 ^ 63 - 1

/-- Clamp a mathematical result into the signed 64-bit integers. -/
def saturate (n : Int) : Int := max i64Min (min i64Max n)

/-- Checking each character of a text, which `decide` alone would try on all characters. -/
theorem forall_mem_of_all {α : Type*} {p : α → Prop} [DecidablePred p] {l : List α}
    (h : (l.all fun a => decide (p a)) = true) : ∀ a ∈ l, p a := by
  simpa using h

theorem trimStartMatches_eq_self {p : Char → Bool} {t : Text}
    (h : ∀ c, t.head? = some c → p c = false) : trimStartMatches p t = t := by
  cases t with
  | nil => rfl
  | cons c rest => simp [trimStartMatches, h c rfl]

theorem trimEndMatches_eq_self {p : Char → Bool} {t : Text}
    (h : ∀ c, t.getLast? = some c → p c = false) : trimEndMatches p t = t := by
  unfold trimEndMatches
  have hrev : t.reverse.dropWhile p = t.reverse := trimStartMatches_eq_self (by simpa using h)
  rw [hrev, List.reverse_reverse]

theorem trim_eq_self {t : Text} (hhead : ∀ c, t.head? = some c → isWhitespace c = false)
    (hlast : ∀ c, t.getLast? = some c → isWhitespace c = false) : trim t = t := by
  unfold trim
  rw [trimStartMatches_eq_self hhead]
  unfold trimEndMatches
  have hrev : t.reverse.dropWhile isWhitespace = t.reverse :=
    trimStartMatches_eq_self (by simpa using hlast)
  rw [hrev, List.reverse_reverse]

theorem trimEndMatches_prefix (p : Char → Bool) (t : Text) : trimEndMatches p t <+: t := by
  have h := List.reverse_prefix.mpr (List.dropWhile_suffix p (l := t.reverse))
  rwa [List.reverse_reverse] at h

theorem trimEndMatches_append {p : Char → Bool} {c : Char} (h : p c = true) (t : Text) :
    trimEndMatches p (t ++ [c]) = trimEndMatches p t := by
  simp [trimEndMatches, List.reverse_append, h]

/-- White space at the end of a text is trimmed. -/
theorem trim_append_whitespace {c : Char} (h : isWhitespace c = true) (t : Text) :
    trim (t ++ [c]) = trim t := by
  unfold trim trimStartMatches
  rw [List.dropWhile_append]
  split_ifs with hempty
  · rw [List.isEmpty_iff.mp hempty]
    simp [trimEndMatches, h]
  · exact trimEndMatches_append h _

theorem head_trimStartMatches {p : Char → Bool} {t : Text} {c : Char}
    (h : (trimStartMatches p t).head? = some c) : p c = false := by
  have hnot := List.head?_dropWhile_not p t
  rw [show t.dropWhile p = trimStartMatches p t from rfl, h] at hnot
  exact hnot

theorem trimEndMatches_idem (p : Char → Bool) (t : Text) :
    trimEndMatches p (trimEndMatches p t) = trimEndMatches p t := by
  have hstart : (t.reverse.dropWhile p).dropWhile p = t.reverse.dropWhile p :=
    trimStartMatches_eq_self fun _ hc => head_trimStartMatches hc
  unfold trimEndMatches
  rw [List.reverse_reverse, hstart]

/-- Trimmed text begins and ends with no white space. -/
theorem head_trim {t : Text} {c : Char} (h : (trim t).head? = some c) : isWhitespace c = false := by
  obtain ⟨rest, hrest⟩ := trimEndMatches_prefix isWhitespace (trimStartMatches isWhitespace t)
  apply head_trimStartMatches (t := t)
  rw [← hrest, List.head?_append, show trimEndMatches _ _ = trim t from rfl, h]
  rfl

theorem getLast_trim {t : Text} {c : Char} (h : (trim t).getLast? = some c) :
    isWhitespace c = false := by
  unfold trim trimEndMatches at h
  rw [List.getLast?_reverse] at h
  exact head_trimStartMatches h

theorem trim_trim (t : Text) : trim (trim t) = trim t :=
  trim_eq_self (fun _ hc => head_trim hc) fun _ hc => getLast_trim hc

theorem not_mem_of_mem_splitOn {α : Type*} [BEq α] [LawfulBEq α] {c : α} {t s : List α}
    (h : s ∈ t.splitOn c) : c ∉ s := by
  induction t generalizing s with
  | nil =>
    rw [List.splitOn_nil] at h
    simp at h
    simp [h]
  | cons x rest ih =>
    rw [List.splitOn_cons_eq_if_modifyHead] at h
    by_cases hx : (x == c) = true
    · rw [if_pos hx] at h
      rcases List.mem_cons.mp h with rfl | h
      · simp
      · exact ih h
    · rw [if_neg hx] at h
      cases hsp : rest.splitOn c with
      | nil => exact absurd hsp (List.splitOn_ne_nil c rest)
      | cons head tail =>
        rw [hsp] at h ih
        simp only [List.modifyHead_cons, List.mem_cons] at h
        rcases h with rfl | h
        · have hhead := ih List.mem_cons_self
          simp only [beq_iff_eq] at hx
          simp [hhead, Ne.symm hx]
        · exact ih (List.mem_cons_of_mem _ h)

theorem not_mem_of_mem_split {c : Char} {t s : Text} (h : s ∈ split c t) : c ∉ s :=
  not_mem_of_mem_splitOn h

theorem startsWith_iff {pre t : Text} : startsWith pre t = true ↔ pre <+: t :=
  List.isPrefixOf_iff_prefix

theorem stripPrefix_eq_some {pre t rest : Text} : stripPrefix pre t = some rest ↔ pre ++ rest = t :=
  List.isPrefixOf?_eq_some_iff_append_eq

theorem stripPrefix_eq_none {pre t : Text} : stripPrefix pre t = none ↔ ¬ pre <+: t := by
  rw [Option.eq_none_iff_forall_not_mem]
  constructor
  · intro h hpre
    obtain ⟨rest, hrest⟩ := hpre
    exact h rest (stripPrefix_eq_some.mpr hrest)
  · intro h rest hrest
    exact h ⟨rest, stripPrefix_eq_some.mp hrest⟩

theorem stripSuffix_isNone {suf t : Text} : (stripSuffix suf t).isNone = true ↔ ¬ suf <:+ t := by
  unfold stripSuffix
  rw [Option.isNone_map, Option.isNone_iff_eq_none, stripPrefix_eq_none, List.reverse_prefix]

theorem findText_eq_some {d t : Text} {i : Nat} (h : findText d t = some i) : d <+: t.drop i := by
  induction t generalizing i with
  | nil =>
    unfold findText at h
    split_ifs at h with hd
    simp [hd]
  | cons c rest ih =>
    unfold findText at h
    split_ifs at h with hstart
    · rw [← Option.some.inj h]
      exact startsWith_iff.mp hstart
    · obtain ⟨j, hj, rfl⟩ := Option.map_eq_some_iff.mp h
      exact ih hj

theorem findText_eq_none {d t : Text} (h : findText d t = none) : ¬ d <:+: t := by
  induction t with
  | nil =>
    unfold findText at h
    split_ifs at h with hd
    simpa using hd
  | cons c rest ih =>
    unfold findText at h
    split_ifs at h with hstart
    rw [List.infix_cons_iff, not_or, ← startsWith_iff]
    exact ⟨hstart, ih (Option.map_eq_none_iff.mp h)⟩

/-- Nothing was found before the first occurrence. -/
theorem findText_first {d t : Text} {i j : Nat} (h : findText d t = some i) (hj : j < i) :
    ¬ d <+: t.drop j := by
  induction t generalizing i j with
  | nil =>
    unfold findText at h
    split_ifs at h
    cases h
    omega
  | cons c rest ih =>
    unfold findText at h
    split_ifs at h with hstart
    · cases h
      omega
    · obtain ⟨k, hk, rfl⟩ := Option.map_eq_some_iff.mp h
      cases j with
      | zero => exact fun hpre => hstart (startsWith_iff.mpr hpre)
      | succ j => exact ih hk (by omega)

theorem not_mem_of_findText {c : Char} {t : Text} (h : findText [c] t = none) : c ∉ t := by
  intro hmem
  exact findText_eq_none h ((List.singleton_infix_iff c t).mpr hmem)

/-- A character is found where it first stands. -/
theorem findText_append {c : Char} {before : Text} (h : c ∉ before) (rest : Text) :
    findText [c] (before ++ c :: rest) = some before.length := by
  induction before with
  | nil => simp [findText, startsWith, List.isPrefixOf]
  | cons d before ih =>
    rw [List.mem_cons, not_or] at h
    have hstart : startsWith [c] (d :: (before ++ c :: rest)) = false := by
      simp [startsWith, List.isPrefixOf, h.1]
    rw [List.cons_append, findText, hstart, ih h.2]
    rfl

/-- The text before a character that was found does not hold it. -/
theorem eq_append_of_findText {c : Char} {t : Text} {i : Nat} (h : findText [c] t = some i) :
    ∃ before rest, t = before ++ c :: rest ∧ c ∉ before ∧ before.length = i := by
  obtain ⟨rest, hrest⟩ := findText_eq_some h
  have hlt : i < t.length := by
    by_contra hle
    rw [List.drop_eq_nil_of_le (Nat.le_of_not_lt hle)] at hrest
    cases hrest
  refine ⟨t.take i, rest, ?_, ?_, List.length_take_of_le (Nat.le_of_lt hlt)⟩
  · rw [← List.singleton_append, hrest, List.take_append_drop]
  · intro hmem
    obtain ⟨j, hj, hget⟩ := List.mem_iff_getElem.mp hmem
    rw [List.length_take, Nat.lt_min] at hj
    refine findText_first h hj.1 ⟨t.drop (j + 1), ?_⟩
    rw [List.drop_eq_getElem_cons hj.2, ← hget, List.getElem_take]
    rfl

/-- The first part of a text, through the character that was found. -/
theorem mem_take_of_findText {c : Char} {t : Text} {i : Nat} (h : findText [c] t = some i) :
    c ∈ t.take (i + 1) := by
  obtain ⟨rest, hrest⟩ := findText_eq_some h
  have hget : t[i]? = some c := by
    rw [← List.head?_drop, ← hrest]
    rfl
  rw [List.take_add_one, hget]
  simp

end Library.Strings
