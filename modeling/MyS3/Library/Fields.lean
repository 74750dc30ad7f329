import MyS3.Library.Strings

/-!
Texts that are put together from fields with a separator between them. Fields that do
not hold the separator are read back from the text, so that two such texts are equal
only when their fields are: from the front, from the back, or all of them at once.
-/

namespace Library.Fields

open Library.Strings

variable {α : Type*}

/-- The fields are read back from the whole text. -/
theorem fields_inj [DecidableEq α] {sep : α} {xs ys : List (List α)} (hx : ∀ f ∈ xs, sep ∉ f)
    (hy : ∀ f ∈ ys, sep ∉ f) (hxs : xs ≠ []) (hys : ys ≠ [])
    (h : [sep].intercalate xs = [sep].intercalate ys) : xs = ys := by
  rw [← List.splitOn_intercalate sep hx hxs, ← List.splitOn_intercalate sep hy hys, h]

/-- The first field is read back, and the rest after it. -/
theorem first_inj {sep : α} {a b x y : List α} (ha : sep ∉ a) (hb : sep ∉ b)
    (h : a ++ sep :: x = b ++ sep :: y) : a = b ∧ x = y := by
  induction a generalizing b with
  | nil =>
    cases b with
    | nil => exact ⟨rfl, by simpa using h⟩
    | cons c rest =>
      simp only [List.nil_append, List.cons_append, List.cons.injEq] at h
      exact absurd (h.1 ▸ List.mem_cons_self) hb
  | cons c rest ih =>
    cases b with
    | nil =>
      simp only [List.nil_append, List.cons_append, List.cons.injEq] at h
      exact absurd (h.1 ▸ List.mem_cons_self) ha
    | cons d rest' =>
      simp only [List.cons_append, List.cons.injEq] at h
      obtain ⟨hhead, htail⟩ := h
      have hrest := ih (fun hmem => ha (List.mem_cons_of_mem _ hmem))
        (fun hmem => hb (List.mem_cons_of_mem _ hmem)) htail
      exact ⟨by rw [hhead, hrest.1], hrest.2⟩

/-- The first fields, each with its separator, and then the others. -/
theorem intercalate_append (sep : α) (xs : List (List α)) {ys : List (List α)} (hys : ys ≠ []) :
    [sep].intercalate (xs ++ ys) = xs.flatMap (· ++ [sep]) ++ [sep].intercalate ys := by
  induction xs with
  | nil => rfl
  | cons x rest ih =>
    rw [List.cons_append, List.intercalate_cons_of_ne_nil (by simp [hys]), ih, List.flatMap_cons]
    simp only [List.append_assoc]

theorem mem_intercalate {sep : α} {xs : List (List α)} {c : α}
    (h : c ∈ [sep].intercalate xs) : c = sep ∨ ∃ f ∈ xs, c ∈ f := by
  induction xs with
  | nil => cases h
  | cons x rest ih =>
    by_cases hrest : rest = []
    · subst hrest
      exact Or.inr ⟨x, List.mem_cons_self, by simpa using h⟩
    · rw [List.intercalate_cons_of_ne_nil hrest, List.mem_append, List.mem_append] at h
      rcases h with (h | h) | h
      · exact Or.inr ⟨x, List.mem_cons_self, h⟩
      · exact Or.inl (List.mem_singleton.mp h)
      · rcases ih h with h | ⟨f, hf, h⟩
        · exact Or.inl h
        · exact Or.inr ⟨f, List.mem_cons_of_mem _ hf, h⟩

theorem mem_intercalate_of_mem {sep : List α} {xs : List (List α)} {f : List α} {c : α}
    (hf : f ∈ xs) (hc : c ∈ f) : c ∈ sep.intercalate xs := by
  induction xs with
  | nil => cases hf
  | cons x rest ih =>
    by_cases hrest : rest = []
    · subst hrest
      rw [List.mem_singleton.mp hf] at hc
      simpa using hc
    · rw [List.intercalate_cons_of_ne_nil hrest, List.mem_append, List.mem_append]
      rcases List.mem_cons.mp hf with rfl | hf
      · exact Or.inl (Or.inl hc)
      · exact Or.inr (ih hf)

/-- Every character of a segment is one of the text. -/
theorem mem_of_mem_split {c x : Char} {t s : Text} (h : s ∈ split c t) (hx : x ∈ s) : x ∈ t := by
  have hmem : x ∈ [c].intercalate (t.splitOn c) := mem_intercalate_of_mem h hx
  rwa [List.intercalate_splitOn] at hmem

/-- The last field is what `rsplitOnce` cuts off. -/
theorem rsplitOnce_append {c : Char} {t last : Text} (h : c ∉ last) :
    rsplitOnce c (t ++ c :: last) = some (t, last) := by
  have hall : ∀ x ∈ last.reverse, (x != c) = true := by
    intro x hx
    have hne : x ≠ c := fun heq => h (heq ▸ List.mem_reverse.mp hx)
    simpa using hne
  unfold rsplitOnce
  rw [if_pos (by simp)]
  simp only [List.reverse_append, List.reverse_cons, List.append_assoc, List.cons_append,
    List.nil_append]
  rw [List.dropWhile_append_of_pos hall, List.takeWhile_append_of_pos hall]
  simp

theorem rsplitOnce_eq_some {c : Char} {t a b : Text} (h : rsplitOnce c t = some (a, b)) :
    t = a ++ c :: b ∧ c ∉ b := by
  have hmem : c ∈ t := by
    by_contra hnot
    rw [rsplitOnce, if_neg hnot] at h
    cases h
  obtain ⟨back, front, hback, hlast⟩ :=
    List.eq_append_cons_of_mem (List.mem_reverse.mpr hmem)
  have ht : t = front.reverse ++ c :: back.reverse := by
    rw [← List.reverse_reverse t, hback]
    simp
  have hnot : c ∉ back.reverse := fun h => hlast (List.mem_reverse.mp h)
  rw [ht, rsplitOnce_append hnot] at h
  cases h
  exact ⟨ht, hnot⟩

theorem rsplitOnce_eq_none {c : Char} {t : Text} : rsplitOnce c t = none ↔ c ∉ t := by
  unfold rsplitOnce
  split_ifs with h
  · exact iff_of_false (fun h => by cases h) (not_not_intro h)
  · exact iff_of_true rfl h

end Library.Fields
