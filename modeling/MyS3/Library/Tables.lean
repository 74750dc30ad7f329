import Mathlib.Data.List.Pairwise
import Mathlib.Logic.Function.Basic

/-!
Tables with unique indexes. A table is a list of rows; an index is a partial
key, and `none` leaves a row outside the index, as a partial index does.
The rules say which row operations keep an index unique, and what a lookup
through a unique index returns.
-/

namespace Library.Tables

variable {α κ ι : Type*}

/-- A row may be added when every other one allows it. -/
theorem pairwise_append_row {R : α → α → Prop} {rows : List α} {row : α} (h : rows.Pairwise R)
    (hrow : ∀ r ∈ rows, R r row) : (rows ++ [row]).Pairwise R := by
  refine List.pairwise_append.mpr ⟨h, List.pairwise_singleton _ _, ?_⟩
  intro a ha b hb
  rw [List.mem_singleton.mp hb]
  exact hrow a ha

/-- The ids stay below the sequence when the row that is added takes its next value. -/
theorem lt_append_row {g : α → Int} {rows : List α} {row : α} {next : Int}
    (h : ∀ r ∈ rows, g r < next) (hrow : g row = next) : ∀ r ∈ rows ++ [row], g r < next + 1 := by
  intro r hr
  rcases List.mem_append.mp hr with hr | hr
  · have := h r hr
    omega
  · rw [List.mem_singleton.mp hr]
    omega

/-- No two rows of the table carry the same index key. -/
def UniqueOn (key : α → Option κ) (rows : List α) : Prop :=
  rows.Pairwise fun a b => key a = none ∨ key a ≠ key b

instance [DecidableEq κ] (key : α → Option κ) (rows : List α) :
    Decidable (UniqueOn key rows) := by
  unfold UniqueOn
  infer_instance

theorem UniqueOn.nil (key : α → Option κ) : UniqueOn key [] := List.Pairwise.nil

/-- Two rows of a unique index with one key are one row. -/
theorem UniqueOn.eq_of_mem {key : α → Option κ} {rows : List α}
    (h : UniqueOn key rows) {a b : α} (ha : a ∈ rows) (hb : b ∈ rows)
    (hk : key a ≠ none) (hab : key a = key b) : a = b := by
  induction rows with
  | nil => simp at ha
  | cons c rest ih =>
    obtain ⟨hc, hrest⟩ := List.pairwise_cons.mp h
    rcases List.mem_cons.mp ha with rfl | ha' <;> rcases List.mem_cons.mp hb with rfl | hb'
    · rfl
    · rcases hc b hb' with hn | hne
      · exact absurd hn hk
      · exact absurd hab hne
    · rcases hc a ha' with hn | hne
      · exact absurd (hab.trans hn) hk
      · exact absurd hab.symm hne
    · exact ih hrest ha' hb'

theorem UniqueOn.filter {key : α → Option κ} {rows : List α} (h : UniqueOn key rows)
    (p : α → Bool) : UniqueOn key (rows.filter p) :=
  List.Pairwise.filter p h

/-- A row whose key is free may be added. -/
theorem UniqueOn.append_row {key : α → Option κ} {rows : List α} (h : UniqueOn key rows)
    {row : α} (hfree : ∀ r ∈ rows, key r = none ∨ key r ≠ key row) :
    UniqueOn key (rows ++ [row]) := pairwise_append_row h hfree

/-- An update that only drops rows from the index, or keeps their key, is safe. -/
theorem UniqueOn.map {key : α → Option κ} {rows : List α} (h : UniqueOn key rows)
    (f : α → α) (hf : ∀ a, key (f a) = none ∨ key (f a) = key a) :
    UniqueOn key (rows.map f) := by
  refine List.Pairwise.map f ?_ h
  intro a b hab
  rcases hf a with ha | ha
  · exact Or.inl ha
  · rcases hf b with hb | hb
    · by_cases hn : key (f a) = none
      · exact Or.inl hn
      · exact Or.inr (by rwa [hb])
    · rw [ha, hb]
      exact hab

/-- The update of one row, as `UPDATE … WHERE id = ?` performs it. -/
def updateRows (p : α → Bool) (f : α → α) (rows : List α) : List α :=
  rows.map fun r => if p r then f r else r

theorem mem_updateRows {p : α → Bool} {f : α → α} {rows : List α} {r : α} :
    r ∈ updateRows p f rows ↔
      (r ∈ rows ∧ p r = false) ∨ ∃ a ∈ rows, p a = true ∧ f a = r := by
  unfold updateRows
  rw [List.mem_map]
  constructor
  · intro h
    obtain ⟨a, ha, rfl⟩ := h
    by_cases hp : p a = true
    · exact Or.inr ⟨a, ha, hp, by simp [hp]⟩
    · rw [Bool.not_eq_true] at hp
      exact Or.inl (by simp [hp, ha])
  · intro h
    rcases h with ⟨hr, hp⟩ | ⟨a, ha, hp, rfl⟩
    · exact ⟨r, hr, by simp [hp]⟩
    · exact ⟨a, ha, by simp [hp]⟩

/-- Giving one row a key that no row has keeps an index unique. -/
theorem UniqueOn.update_fresh {key : α → Option κ} {rows : List α} {p : α → Bool} {f : α → α}
    {k : κ} (h : UniqueOn key rows) (hone : rows.Pairwise fun a b => ¬ (p a = true ∧ p b = true))
    (hf : ∀ r ∈ rows, p r = true → key (f r) = some k) (hfree : ∀ r ∈ rows, key r ≠ some k) :
    UniqueOn key (updateRows p f rows) := by
  unfold UniqueOn updateRows
  rw [List.pairwise_map]
  refine (h.and hone).imp_of_mem ?_
  intro a b ha hb h'
  obtain ⟨hkey, hpair⟩ := h'
  by_cases hpa : p a = true
  · have hpb : ¬ p b = true := fun hpb => hpair ⟨hpa, hpb⟩
    rw [if_pos hpa, if_neg hpb, hf a ha hpa]
    exact Or.inr (hfree b hb).symm
  · rw [if_neg hpa]
    by_cases hpb : p b = true
    · rw [if_pos hpb, hf b hb hpb]
      exact Or.inr (hfree a ha)
    · rw [if_neg hpb]
      exact hkey

/-- An update changes nothing exactly when it changes none of its rows. -/
theorem updateRows_eq_self_iff {p : α → Bool} {f : α → α} {rows : List α} :
    updateRows p f rows = rows ↔ ∀ a ∈ rows, p a = true → f a = a := by
  have hid : updateRows p f rows = rows ↔ updateRows p f rows = rows.map id := by rw [List.map_id]
  rw [hid, updateRows, List.map_inj_left]
  refine forall₂_congr fun a _ => ?_
  by_cases hp : p a = true
  · simp [hp]
  · simp [hp]

theorem updateRows_of_none {p : α → Bool} {f : α → α} {rows : List α}
    (h : ∀ r ∈ rows, p r = false) : updateRows p f rows = rows := by
  rw [updateRows_eq_self_iff]
  intro r hr hp
  rw [h r hr] at hp
  cases hp

/-- A search that passes over a row before and after its update finds the same. -/
theorem find_updateRows {p s : α → Bool} {f : α → α} {rows : List α}
    (h : ∀ r ∈ rows, p r = true → s r = false ∧ s (f r) = false) :
    (updateRows p f rows).find? s = rows.find? s := by
  induction rows with
  | nil => rfl
  | cons r rest ih =>
    have hrest := ih fun a ha => h a (List.mem_cons_of_mem _ ha)
    unfold updateRows at hrest ⊢
    rw [List.map_cons]
    cases hp : p r with
    | false => simp only [Bool.false_eq_true, if_false, List.find?_cons, hrest]
    | true =>
      obtain ⟨hs, hs'⟩ := h r List.mem_cons_self hp
      simp only [if_true, List.find?_cons, hs, hs', hrest]

/-- A column that the update keeps is read the same through it. -/
theorem map_updateRows {β : Type*} (g : α → β) {p : α → Bool} {f : α → α}
    (hg : ∀ a, g (f a) = g a) (rows : List α) :
    (updateRows p f rows).map g = rows.map g := by
  unfold updateRows
  rw [List.map_map]
  apply List.map_congr_left
  intro r _
  by_cases hp : p r = true <;> simp [hp, hg]

/-- A row is still there after the update, up to the columns that the update sets. -/
theorem exists_updateRows {β : Type*} (g : α → β) (p : α → Bool) {f : α → α}
    (hg : ∀ a, g (f a) = g a) {rows : List α} {r : α} (hr : r ∈ rows) :
    ∃ u ∈ updateRows p f rows, g u = g r := by
  have hmem : g r ∈ (updateRows p f rows).map g := by
    rw [map_updateRows g hg]
    exact List.mem_map_of_mem hr
  obtain ⟨u, hu, heq⟩ := List.mem_map.mp hmem
  exact ⟨u, hu, heq⟩

/-- Distinctness of a column, read off the list of its values. -/
theorem pairwise_ne_of_map_eq {β : Type*} {g : α → β} {rows rows' : List α}
    (h : rows.Pairwise fun a b => g a ≠ g b) (he : rows'.map g = rows.map g) :
    rows'.Pairwise fun a b => g a ≠ g b := by
  have h' : (rows.map g).Pairwise (· ≠ ·) := List.pairwise_map.mpr h
  rw [← he] at h'
  exact List.pairwise_map.mp h'

/-- Two rows that agree on a distinct column are one row. -/
theorem eq_of_pairwise_ne {β : Type*} {g : α → β} {rows : List α}
    (h : rows.Pairwise fun a b => g a ≠ g b) {a b : α} (ha : a ∈ rows) (hb : b ∈ rows)
    (hab : g a = g b) : a = b := by
  have hu : UniqueOn (fun r => some (g r)) rows :=
    h.imp fun hne => Or.inr (by simpa using hne)
  exact hu.eq_of_mem ha hb (by simp) (by simp [hab])

/-- A lookup through a unique column finds the row that carries the value. -/
theorem find_eq_of_unique {p : α → Bool} {rows : List α} {a : α} (ha : a ∈ rows)
    (hp : p a = true) (hu : ∀ b ∈ rows, p b = true → b = a) : rows.find? p = some a := by
  cases hf : rows.find? p with
  | none => simpa [hp] using List.find?_eq_none.mp hf a ha
  | some b => rw [hu b (List.mem_of_find?_eq_some hf) (List.find?_some hf)]

/-- A lookup by a unique column finds exactly the row with the value. -/
theorem find_key_eq_some {β : Type*} [BEq β] [LawfulBEq β] {g : α → β} {rows : List α}
    (h : rows.Pairwise fun a b => g a ≠ g b) {k : β} {a : α} :
    (rows.find? fun r => g r == k) = some a ↔ a ∈ rows ∧ g a = k := by
  constructor
  · intro hfind
    have hfound := List.find?_some hfind
    exact ⟨List.mem_of_find?_eq_some hfind, beq_iff_eq.mp hfound⟩
  · intro h'
    obtain ⟨ha, rfl⟩ := h'
    refine find_eq_of_unique ha (beq_self_eq_true (g a)) ?_
    intro b hb hkey
    exact eq_of_pairwise_ne h hb ha (beq_iff_eq.mp hkey)

/-- A filter that only one row of a table passes. -/
theorem filter_eq_singleton {β : Type*} {g : α → β} {rows : List α} {p : α → Bool} {a : α}
    (h : rows.Pairwise fun a b => g a ≠ g b) (ha : a ∈ rows) (hp : p a = true)
    (hu : ∀ b ∈ rows, p b = true → b = a) : rows.filter p = [a] := by
  induction rows with
  | nil => cases ha
  | cons c rest ih =>
    obtain ⟨hc, hrest⟩ := List.pairwise_cons.mp h
    by_cases hpc : p c = true
    · obtain rfl := hu c List.mem_cons_self hpc
      have hnil : rest.filter p = [] := by
        rw [List.filter_eq_nil_iff]
        intro b hb hpb
        exact hc b hb (congrArg g (hu b (List.mem_cons_of_mem _ hb) hpb).symm)
      rw [List.filter_cons_of_pos hpc, hnil]
    · rcases List.mem_cons.mp ha with rfl | ha
      · exact absurd hp hpc
      · rw [List.filter_cons_of_neg hpc]
        exact ih hrest ha fun b hb => hu b (List.mem_cons_of_mem _ hb)

/-- An unordered `LIMIT 1` query: it returns some row of a nonempty result. -/
structure Limit1 (α : Type*) where
  pick : List α → Option α
  mem : ∀ rows r, pick rows = some r → r ∈ rows
  nonempty : ∀ rows, pick rows = none → rows = []

/-- The pick that returns the first row. -/
def Limit1.first : Limit1 α where
  pick rows := rows.head?
  mem _ _ h := List.mem_of_head? h
  nonempty _ h := List.head?_eq_none_iff.mp h

/-- The pick that returns the last row. -/
def Limit1.last : Limit1 α where
  pick rows := rows.getLast?
  mem _ _ h := List.mem_of_getLast? h
  nonempty _ h := List.getLast?_eq_none_iff.mp h

/-- Some `LIMIT 1` query returns the given row of a result. -/
def Limit1.prefer [DecidableEq α] (a : α) : Limit1 α where
  pick rows := if a ∈ rows then some a else rows.head?
  mem rows r h := by
    by_cases ha : a ∈ rows
    · have hr : a = r := by simpa [ha] using h
      exact hr ▸ ha
    · exact List.mem_of_head? (by simpa [ha] using h)
  nonempty rows h := by
    by_cases ha : a ∈ rows
    · simp [ha] at h
    · exact List.head?_eq_none_iff.mp (by simpa [ha] using h)

theorem Limit1.pick_prefer [DecidableEq α] {a : α} {rows : List α} (ha : a ∈ rows) :
    (Limit1.prefer a).pick rows = some a := by
  simp [Limit1.prefer, ha]

theorem Limit1.pick_nil (q : Limit1 α) : q.pick [] = none := by
  cases h : q.pick [] with
  | none => rfl
  | some r => simpa using q.mem _ _ h

/-- When all matching rows are one row, every `LIMIT 1` returns it. -/
theorem Limit1.pick_eq_of_unique (q : Limit1 α) {rows : List α} {a : α} (ha : a ∈ rows)
    (hu : ∀ b ∈ rows, b = a) : q.pick rows = some a := by
  cases h : q.pick rows with
  | none => simp [q.nonempty _ h] at ha
  | some r => rw [hu r (q.mem _ _ h)]

end Library.Tables
