import Mathlib.Data.List.TakeDrop

/-!
Logs that only grow, with a key for each entry. Who has read a log up to some length knows
the latest entry of a key up to there; it is the entry that is looked at or a later one.
-/

namespace Library.Logs

variable {κ α : Type*} [DecidableEq κ]

/-- The last entry of a key. -/
def latest (k : κ) (log : List (κ × α)) : Option α :=
  ((log.filter fun e => e.1 == k).getLast?).map (·.2)

theorem latest_concat_self (k : κ) (x : α) (log : List (κ × α)) :
    latest k (log ++ [(k, x)]) = some x := by
  simp [latest]

theorem latest_concat_ne {j k : κ} (h : j ≠ k) (x : α) (log : List (κ × α)) :
    latest k (log ++ [(j, x)]) = latest k log := by
  simp [latest, h]

/-- An entry of the key is the latest one, or a later one is. -/
theorem latest_of_getElem? {k : κ} {x : α} {log : List (κ × α)} {n : Nat}
    (h : log[n]? = some (k, x)) : ∃ y, latest k log = some y ∧ (k, y) ∈ log.drop n := by
  have hmem : (k, x) ∈ (log.drop n).filter fun e => e.1 == k := by
    refine List.mem_filter.mpr ⟨List.mem_of_getElem? (i := 0) ?_, beq_self_eq_true k⟩
    rw [List.getElem?_drop]
    exact h
  obtain ⟨e, he⟩ := Option.ne_none_iff_exists'.mp
    (mt List.getLast?_eq_none_iff.mp (List.ne_nil_of_mem hmem))
  obtain ⟨hin, hkey⟩ := List.mem_filter.mp (List.mem_of_getLast? he)
  obtain ⟨j, y⟩ := e
  obtain rfl : j = k := by simpa using hkey
  refine ⟨y, ?_, hin⟩
  unfold latest
  conv_lhs => rw [← List.take_append_drop n log, List.filter_append]
  rw [List.getLast?_append, he]
  rfl

/-- Who reads the log when the entry is there reads it or a later one. -/
theorem latest_take_of_getElem? {k : κ} {x : α} {log : List (κ × α)} {n v : Nat}
    (h : log[n]? = some (k, x)) (hv : n < v) :
    ∃ y, latest k (log.take v) = some y ∧ (k, y) ∈ log.drop n := by
  obtain ⟨y, hy, hmem⟩ := latest_of_getElem?
    (show (log.take v)[n]? = some (k, x) by rw [List.getElem?_take_of_lt hv, h])
  refine ⟨y, hy, ?_⟩
  rw [List.drop_take] at hmem
  exact List.mem_of_mem_take hmem

end Library.Logs
