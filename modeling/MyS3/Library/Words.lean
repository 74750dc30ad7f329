import Mathlib.Data.List.TakeWhile
import MyS3.Library.Fields

/-!
The words of a text: its maximal runs of characters that are not white space, for a
choice of what white space is. Joining the words with single blanks forgets how much
white space stood between them, and nothing else.
-/

namespace Library.Words

open Library.Strings Library.Fields

def words (p : Char → Bool) (t : Text) : List Text := (t.splitOnP p).filter (· ≠ [])

/-- The words with one blank between them. -/
def compact (p : Char → Bool) (t : Text) : Text := [' '].intercalate (words p t)

theorem flatten_filter_ne_nil (ws : List Text) :
    (ws.filter (· ≠ [])).flatten = ws.flatten := by
  induction ws with
  | nil => rfl
  | cons w rest ih =>
    cases w with
    | nil => simpa using ih
    | cons c w => simpa using ih

theorem flatten_splitOnP (p : Char → Bool) (t : Text) :
    (t.splitOnP p).flatten = t.filter (fun c => !p c) := by
  induction t with
  | nil => rfl
  | cons c rest ih =>
    rw [List.splitOnP_cons_eq_if_modifyHead]
    by_cases hc : p c = true
    · simp [hc, ih]
    · obtain ⟨w, ws, hws⟩ := List.exists_cons_of_ne_nil (List.splitOnP_ne_nil p rest)
      rw [hws, List.flatten_cons] at ih
      simp [hc, hws, ih]

theorem flatten_words (p : Char → Bool) (t : Text) :
    (words p t).flatten = t.filter (fun c => !p c) := by
  unfold words
  rw [flatten_filter_ne_nil, flatten_splitOnP]

theorem filter_intercalate {p : Char → Bool} (hp : p ' ' = true) (ws : List Text) :
    ([' '].intercalate ws).filter (fun c => !p c) = ws.flatten.filter (fun c => !p c) := by
  induction ws with
  | nil => rfl
  | cons w rest ih =>
    by_cases hrest : rest = []
    · subst hrest
      simp
    · rw [List.intercalate_cons_of_ne_nil hrest, List.filter_append, List.filter_append, ih,
        List.flatten_cons, List.filter_append]
      simp [hp]

/-- Compaction keeps every character that is not white space, in order. -/
theorem filter_compact {p : Char → Bool} (hp : p ' ' = true) (t : Text) :
    (compact p t).filter (fun c => !p c) = t.filter (fun c => !p c) := by
  unfold compact
  rw [filter_intercalate hp, flatten_words, List.filter_filter]
  simp

theorem mem_compact {p : Char → Bool} {t : Text} {c : Char} (h : c ∈ compact p t) :
    c = ' ' ∨ c ∈ t ∧ p c = false := by
  rcases mem_intercalate h with h | ⟨w, hw, hc⟩
  · exact Or.inl h
  · have hmem : c ∈ (words p t).flatten := List.mem_flatten.mpr ⟨w, hw, hc⟩
    rw [flatten_words, List.mem_filter] at hmem
    exact Or.inr ⟨hmem.1, by simpa using hmem.2⟩

theorem mem_compact_of_mem {p : Char → Bool} (hp : p ' ' = true) {t : Text} {c : Char} (h : c ∈ t)
    (hc : p c = false) : c ∈ compact p t := by
  have hmem : c ∈ (compact p t).filter fun c => !p c := by
    rw [filter_compact hp]
    exact List.mem_filter.mpr ⟨h, by simp [hc]⟩
  exact List.mem_of_mem_filter hmem

/-- White space before a text adds no word. -/
theorem words_append_left {p : Char → Bool} {s : Text} (hs : ∀ c ∈ s, p c = true) (t : Text) :
    words p (s ++ t) = words p t := by
  induction s with
  | nil => rfl
  | cons c rest ih =>
    have htail := ih fun d hd => hs d (List.mem_cons_of_mem _ hd)
    unfold words at *
    rw [List.cons_append, List.splitOnP_cons_eq_if_modifyHead, if_pos (hs c List.mem_cons_self)]
    simpa using htail

/-- White space after a text adds no word. -/
theorem words_append_right {p : Char → Bool} {s : Text} (hs : ∀ c ∈ s, p c = true) (t : Text) :
    words p (t ++ s) = words p t := by
  cases s with
  | nil => rw [List.append_nil]
  | cons c rest =>
    have hrest : words p rest = [] := by
      have h := words_append_left (fun d hd => hs d (List.mem_cons_of_mem _ hd)) []
      rw [List.append_nil] at h
      rw [h]
      rfl
    unfold words at *
    rw [List.splitOnP_append_cons _ _ (hs c List.mem_cons_self), List.filter_append, hrest,
      List.append_nil]

theorem words_congr {p q : Char → Bool} {t : Text} (h : ∀ c ∈ t, p c = q c) :
    words p t = words q t := by
  have hsplit : t.splitOnP p = t.splitOnP q := by
    induction t with
    | nil => rfl
    | cons c rest ih =>
      rw [List.splitOnP_cons_eq_if_modifyHead, List.splitOnP_cons_eq_if_modifyHead,
        h c List.mem_cons_self, ih fun d hd => h d (List.mem_cons_of_mem _ hd)]
  unfold words
  rw [hsplit]

/-- A text is its white space at both ends around the trimmed text. -/
theorem trimmed_parts (p : Char → Bool) (t : Text) :
    ∃ before after, (∀ c ∈ before, p c = true) ∧ (∀ c ∈ after, p c = true) ∧
      t = before ++ trimEndMatches p (trimStartMatches p t) ++ after := by
  refine ⟨t.takeWhile p, ((t.dropWhile p).reverse.takeWhile p).reverse,
    fun c hc => List.mem_takeWhile_imp hc,
    fun c hc => List.mem_takeWhile_imp (List.mem_reverse.mp hc), ?_⟩
  unfold trimEndMatches trimStartMatches
  rw [List.append_assoc, ← List.reverse_append, List.takeWhile_append_dropWhile,
    List.reverse_reverse, List.takeWhile_append_dropWhile]

/-- Trimming loses no word. -/
theorem words_trim {p q : Char → Bool} (h : ∀ c, q c = true → p c = true) (t : Text) :
    words p (trimEndMatches q (trimStartMatches q t)) = words p t := by
  obtain ⟨before, after, hbefore, hafter, ht⟩ := trimmed_parts q t
  conv_rhs => rw [ht]
  rw [words_append_right (fun c hc => h c (hafter c hc)),
    words_append_left (fun c hc => h c (hbefore c hc))]

end Library.Words
