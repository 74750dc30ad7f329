import MyS3.Library.Tables
import Mathlib.Algebra.Order.Group.Int
import Mathlib.Algebra.BigOperators.Group.List.Basic
import Mathlib.Algebra.Ring.Int.Defs
import Mathlib.Tactic.SplitIfs

/-!
Sums over the rows of a table that pass a filter, as SELECT SUM … WHERE computes them: how
inserts, updates and deletes change them, and what they are when at most one row passes.
-/

namespace Library.Totals

open Library.Tables

variable {α : Type*} {size : α → Int} {p q : α → Bool} {rows : List α}

def total (size : α → Int) (p : α → Bool) (rows : List α) : Int :=
  ((rows.filter p).map size).sum

@[simp] theorem total_nil (size : α → Int) (p : α → Bool) : total size p [] = 0 := rfl

theorem total_cons (size : α → Int) (p : α → Bool) (r : α) (rows : List α) :
    total size p (r :: rows) = (if p r then size r else 0) + total size p rows := by
  unfold total
  rw [List.filter_cons]
  split_ifs <;> simp

theorem total_append (size : α → Int) (p : α → Bool) (rows more : List α) :
    total size p (rows ++ more) = total size p rows + total size p more := by
  unfold total
  rw [List.filter_append, List.map_append, List.sum_append]

theorem total_singleton (size : α → Int) (p : α → Bool) (r : α) :
    total size p [r] = if p r then size r else 0 := by
  rw [total_cons, total_nil, add_zero]

theorem total_nonneg (hsize : ∀ r ∈ rows, 0 ≤ size r) : 0 ≤ total size p rows := by
  induction rows with
  | nil => exact le_refl _
  | cons r rest ih =>
    have hrest := ih fun r hr => hsize r (List.mem_cons_of_mem _ hr)
    have hr := hsize r List.mem_cons_self
    rw [total_cons]
    split_ifs <;> omega

theorem total_delete_le (hsize : ∀ r ∈ rows, 0 ≤ size r) :
    total size p (rows.filter q) ≤ total size p rows := by
  induction rows with
  | nil => exact le_refl _
  | cons r rest ih =>
    have hrest := ih fun r hr => hsize r (List.mem_cons_of_mem _ hr)
    have hr := hsize r List.mem_cons_self
    rw [List.filter_cons]
    split_ifs
    · rw [total_cons, total_cons]
      omega
    · rw [total_cons]
      split_ifs <;> omega

/-- An update of one row adds at most what that row brings in. -/
theorem total_update_le {f : α → α} {bound : Int} (hsize : ∀ r ∈ rows, 0 ≤ size r)
    (hsame : ∀ r, size (f r) = size r) (hone : rows.Pairwise fun a b => ¬ (q a = true ∧ q b = true))
    (hbound : 0 ≤ bound)
    (h : ∀ r ∈ rows, q r = true → p (f r) = true → p r = true ∨ size r ≤ bound) :
    total size p (updateRows q f rows) ≤ total size p rows + bound := by
  induction rows with
  | nil => simpa [updateRows] using hbound
  | cons r rest ih =>
    obtain ⟨hr, hrest⟩ := List.pairwise_cons.mp hone
    have hcons : updateRows q f (r :: rest) = (if q r then f r else r) :: updateRows q f rest := rfl
    have hpos := hsize r List.mem_cons_self
    rw [hcons, total_cons, total_cons]
    by_cases hq : q r = true
    · have hrest : updateRows q f rest = rest :=
        updateRows_of_none fun a ha => by simpa [hq] using hr a ha
      have hcase := h r List.mem_cons_self hq
      rw [if_pos hq, hrest, hsame]
      split_ifs with hpf hp
      · omega
      · rcases hcase hpf with hp' | hle
        · exact absurd hp' hp
        · omega
      · omega
      · omega
    · have := ih (fun a ha => hsize a (List.mem_cons_of_mem _ ha)) hrest
        fun a ha => h a (List.mem_cons_of_mem _ ha)
      rw [if_neg hq]
      omega

/-- The rows that pass a filter, with and without a second one. -/
theorem total_split (size : α → Int) (p q : α → Bool) (rows : List α) :
    total size p rows =
      total size (fun r => p r && q r) rows + total size (fun r => p r && !q r) rows := by
  induction rows with
  | nil => rfl
  | cons r rest ih =>
    rw [total_cons, total_cons, total_cons, ih]
    cases hp : p r <;> cases hq : q r <;> simp <;> omega

theorem total_one (p : α → Bool) (rows : List α) :
    total (fun _ => 1) p rows = ((rows.filter p).length : Int) := by
  simp [total]

theorem total_congr (h : ∀ r ∈ rows, p r = q r) : total size p rows = total size q rows := by
  unfold total
  rw [List.filter_congr h]

theorem total_perm {rows' : List α} (h : rows.Perm rows') :
    total size p rows = total size p rows' := ((h.filter p).map size).sum_eq

/-- The totals of the groups that a key puts the rows in make the total of those rows. -/
theorem sum_totals {κ : Type*} [BEq κ] [LawfulBEq κ] (size : α → Int) (group : α → Option κ)
    {keys : List κ} (hkeys : keys.Nodup) (rows : List α) :
    (keys.map fun k => total size (fun r => group r == some k) rows).sum =
      total size (fun r => (group r).any fun k => keys.contains k) rows := by
  induction keys with
  | nil => simp [total]
  | cons k keys ih =>
    obtain ⟨hk, hrest⟩ := List.nodup_cons.mp hkeys
    rw [List.map_cons, List.sum_cons, ih hrest,
      total_split size (fun r => (group r).any fun j => (k :: keys).contains j)
        (fun r => group r == some k)]
    congr 1
    · apply total_congr
      intro r _
      by_cases h : group r = some k <;> simp [h]
    · apply total_congr
      intro r _
      cases h : group r with
      | none => rfl
      | some k' =>
        have hne : k' ∈ keys → k' ≠ k := fun hmem heq => hk (heq ▸ hmem)
        grind

/-- At most one row passes. -/
theorem total_unique (hone : rows.Pairwise fun a b => ¬ (p a = true ∧ p b = true)) :
    total size p rows = (rows.find? p).elim 0 size := by
  induction rows with
  | nil => rfl
  | cons r rest ih =>
    obtain ⟨hr, hrest⟩ := List.pairwise_cons.mp hone
    rw [total_cons, List.find?_cons]
    by_cases hp : p r = true
    · have hnone : rest.filter p = [] := by
        rw [List.filter_eq_nil_iff]
        exact fun a ha hpa => hr a ha ⟨hp, hpa⟩
      simp [hp, total, hnone]
    · rw [Bool.not_eq_true] at hp
      simp [hp, ih hrest]

end Library.Totals
