import Mathlib.Tactic.SplitIfs

/-!
Tasks that make calls which may fail. A task is over, or it makes its next call; when the
call fails it changes nothing and the task goes on as after a failure. A task that is left
alone makes its calls with nobody in between.
-/

namespace Library.Calls

variable {σ τ : Type*}

structure Machine (σ τ : Type*) where
  isOver : τ → Bool
  /-- What a task is after its call has failed. -/
  onFailure : τ → τ
  call : σ → τ → σ × τ

namespace Machine

/-- One call, or its failure; `none` when the task is over. -/
def step (m : Machine σ τ) (fails : Bool) (s : σ) (t : τ) : Option (σ × τ) :=
  if m.isOver t then none
  else if fails then some (s, m.onFailure t)
  else some (m.call s t)

/-- The calls of a task, at most so many; `fails` tells which of them fail. -/
def alone (m : Machine σ τ) (fails : τ → Bool) : Nat → σ → τ → σ × τ
  | 0, s, t => (s, t)
  | n + 1, s, t =>
    match m.step (fails t) s t with
    | none => (s, t)
    | some r => m.alone fails n r.1 r.2

end Machine

variable {m : Machine σ τ} {fails : τ → Bool} {s : σ} {t : τ} {n : Nat}

theorem alone_over (hover : m.isOver t = true) : m.alone fails n s t = (s, t) := by
  cases n with
  | zero => rfl
  | succ n => simp only [Machine.alone, Machine.step, hover, if_true]

theorem alone_fails (hover : m.isOver t = false) (hfails : fails t = true) :
    m.alone fails (n + 1) s t = m.alone fails n s (m.onFailure t) := by
  simp only [Machine.alone, Machine.step, hover, hfails, Bool.false_eq_true, if_false, if_true]

theorem alone_call (hover : m.isOver t = false) (hfails : fails t = false) :
    m.alone fails (n + 1) s t = m.alone fails n (m.call s t).1 (m.call s t).2 := by
  simp only [Machine.alone, Machine.step, hover, hfails, Bool.false_eq_true, if_false]

/-- A call with a known outcome. -/
theorem alone_call_eq {s' : σ} {t' : τ} (hover : m.isOver t = false) (hfails : fails t = false)
    (hcall : m.call s t = (s', t')) : m.alone fails (n + 1) s t = m.alone fails n s' t' := by
  rw [alone_call hover hfails, hcall]

/-- The last call of a task has a known outcome. -/
theorem alone_last {s' : σ} {t' : τ} (hover : m.isOver t = false) (hfails : fails t = false)
    (hcall : m.call s t = (s', t')) (hlast : m.isOver t' = true) :
    m.alone fails (n + 1) s t = (s', t') := by
  rw [alone_call_eq hover hfails hcall, alone_over hlast]

/-- A failure that ends the task. -/
theorem alone_failed (hover : m.isOver t = false) (hfails : fails t = true)
    (hlast : m.isOver (m.onFailure t) = true) :
    m.alone fails (n + 1) s t = (s, m.onFailure t) := by
  rw [alone_fails hover hfails, alone_over hlast]

/-- A task whose calls and failures go down in rank is over after as many calls. -/
theorem alone_isOver {rank : τ → Nat}
    (hcall : ∀ s t, m.isOver t = false → rank (m.call s t).2 < rank t)
    (hfailure : ∀ t, m.isOver t = false → rank (m.onFailure t) < rank t) (h : rank t ≤ n) :
    m.isOver (m.alone fails n s t).2 = true := by
  induction n generalizing s t with
  | zero =>
    cases hover : m.isOver t with
    | true => exact hover
    | false =>
      have := hcall s t hover
      omega
  | succ n ih =>
    cases hover : m.isOver t with
    | true => rw [alone_over hover, hover]
    | false =>
      cases hfails : fails t with
      | true =>
        rw [alone_fails hover hfails]
        have := hfailure t hover
        exact ih (by omega)
      | false =>
        rw [alone_call hover hfails]
        have := hcall s t hover
        exact ih (by omega)

end Library.Calls
