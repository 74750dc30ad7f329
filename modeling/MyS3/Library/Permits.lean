import Mathlib.Algebra.BigOperators.Group.List.Basic
import Mathlib.Algebra.GroupWithZero.Nat
import Mathlib.Tactic.SplitIfs

/-!
Permits of a semaphore that tasks take one by one and give back together. A task may hold
several, and wait for one more while it holds some. When every permit is held by a task
that waits for one more, none of them is ever given back by a task that goes on.
-/

namespace Library.Permits

variable {τ : Type*} {held : τ → Nat} {waits : τ → Prop}

/-- The permits that are out. -/
def taken (held : τ → Nat) (ts : List τ) : Nat := (ts.map held).sum

/-- Every one of the `n` permits is held by a task that waits for one more. -/
structure Stuck (held : τ → Nat) (waits : τ → Prop) (n : Nat) (ts : List τ) : Prop where
  taken : taken held ts = n
  waits : ∀ t ∈ ts, 0 < held t → waits t

theorem taken_cons (t : τ) (ts : List τ) : taken held (t :: ts) = held t + taken held ts := rfl

theorem taken_append (ts more : List τ) :
    taken held (ts ++ more) = taken held ts + taken held more := by
  simp [taken]

theorem taken_replicate (k : Nat) (t : τ) : taken held (List.replicate k t) = k * held t := by
  simp [taken]

/-- What a task gives back and takes, the pool of permits sees. -/
theorem taken_set {ts : List τ} {i : Nat} {t : τ} (hi : ts[i]? = some t) (u : τ) :
    taken held (ts.set i u) + held t = taken held ts + held u := by
  induction ts generalizing i with
  | nil => cases hi
  | cons a rest ih =>
    cases i with
    | zero =>
      have ha : a = t := by simpa using hi
      rw [List.set_cons_zero, taken_cons, taken_cons, ha]
      omega
    | succ j =>
      have hrest := ih (i := j) (by simpa using hi)
      rw [List.set_cons_succ, taken_cons, taken_cons]
      omega

/-- Holders of one permit each are at least as many as the permits that are out. -/
theorem taken_le_countP {p : τ → Bool} {ts : List τ} (hone : ∀ t ∈ ts, held t ≤ 1)
    (hp : ∀ t ∈ ts, 0 < held t → p t = true) : taken held ts ≤ ts.countP p := by
  induction ts with
  | nil => exact Nat.le_refl 0
  | cons t rest ih =>
    have hrest := ih (fun a ha => hone a (List.mem_cons_of_mem t ha))
      (fun a ha => hp a (List.mem_cons_of_mem t ha))
    have ht := hone t List.mem_cons_self
    have hpt := hp t List.mem_cons_self
    rw [taken_cons, List.countP_cons]
    by_cases hpos : 0 < held t
    · rw [if_pos (hpt hpos)]
      omega
    · omega

/-- Fewer holders than permits are never stuck, if who waits holds at most one. -/
theorem not_stuck_of_countP_lt {p : τ → Bool} {n : Nat} {ts : List τ}
    (hone : ∀ t, waits t → held t ≤ 1) (hp : ∀ t, waits t → p t = true)
    (hlt : ts.countP p < n) : ¬ Stuck held waits n ts := by
  intro h
  have hheld : ∀ t ∈ ts, held t ≤ 1 := by
    intro t ht
    by_cases hpos : 0 < held t
    · exact hone t (h.waits t ht hpos)
    · omega
  have hle : taken held ts ≤ ts.countP p :=
    taken_le_countP hheld fun t ht hpos => hp t (h.waits t ht hpos)
  have htaken := h.taken
  omega

/-- As many waiters with one permit each as there are permits. -/
theorem stuck_replicate {n : Nat} {t : τ} (hheld : held t = 1) (hwaits : waits t) :
    Stuck held waits n (List.replicate n t) where
  taken := by rw [taken_replicate, hheld, Nat.mul_one]
  waits a ha _ := by
    rw [List.eq_of_mem_replicate ha]
    exact hwaits

end Library.Permits
