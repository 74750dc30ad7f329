import Mathlib.Logic.Relation
import Mathlib.Data.Option.Basic
import Mathlib.Tactic.SplitIfs

/-!
Runs of a labelled transition system with an executable step. An action that
is not enabled has no successor. `Run` carries a condition that each action
meets in the state where it is taken; the unconditional runs are those whose
condition is trivial.
-/

namespace Library.Runs

variable {σ α : Type*}

/-- Finite runs whose actions all meet `ok` in the state they are taken in. -/
inductive Run (step : σ → α → Option σ) (ok : σ → α → Prop) : σ → σ → Prop
  | refl (s : σ) : Run step ok s s
  | tail {s t u : σ} (a : α) : Run step ok s t → ok t a → step t a = some u → Run step ok s u

/-- Every action is allowed. -/
def anyAction : σ → α → Prop := fun _ _ => True

variable {step : σ → α → Option σ} {ok : σ → α → Prop}

/-- What each allowed action preserves, every run preserves. -/
theorem Run.invariant {inv : σ → Prop}
    (hstep : ∀ s a t, inv s → ok s a → step s a = some t → inv t)
    {s t : σ} (h : Run step ok s t) (hs : inv s) : inv t := by
  induction h with
  | refl => exact hs
  | tail a _ hok hnext ih => exact hstep _ a _ ih hok hnext

theorem Run.mono {ok' : σ → α → Prop} (himp : ∀ s a, ok s a → ok' s a)
    {s t : σ} (h : Run step ok s t) : Run step ok' s t := by
  induction h with
  | refl => exact Run.refl _
  | tail a _ hok hnext ih => exact Run.tail a ih (himp _ a hok) hnext

theorem Run.trans {s t u : σ} (h : Run step ok s t) (h' : Run step ok t u) :
    Run step ok s u := by
  induction h' with
  | refl => exact h
  | tail a _ hok hnext ih => exact Run.tail a ih hok hnext

/-- A property held in a state of the run, this one or an earlier one. -/
def Once (step : σ → α → Option σ) (ok : σ → α → Prop) (P : σ → Prop) (s t : σ) : Prop :=
  ∃ u, Run step ok s u ∧ Run step ok u t ∧ P u

theorem Once.now {P : σ → Prop} {s t : σ} (h : Run step ok s t) (hP : P t) :
    Once step ok P s t := ⟨t, h, Run.refl t, hP⟩

/-- What held once still did after more steps. -/
theorem Once.later {P : σ → Prop} {s t u : σ} (h : Once step ok P s t) (h' : Run step ok t u) :
    Once step ok P s u := by
  obtain ⟨v, hv, hvt, hP⟩ := h
  exact ⟨v, hv, hvt.trans h', hP⟩

theorem Once.mono {P Q : σ → Prop} (himp : ∀ u, P u → Q u) {s t : σ}
    (h : Once step ok P s t) : Once step ok Q s t := by
  obtain ⟨u, hu, hut, hP⟩ := h
  exact ⟨u, hu, hut, himp u hP⟩

/-- Execute a list of actions in order. -/
def exec (step : σ → α → Option σ) : σ → List α → Option σ
  | s, [] => some s
  | s, a :: rest => (step s a).bind fun t => exec step t rest

/-- Executing actions that are allowed wherever an invariant of theirs holds. -/
theorem run_of_exec_of_invariant {J : σ → Prop} {s t : σ} {actions : List α} (hs : J s)
    (hinv : ∀ a ∈ actions, ∀ s t, J s → step s a = some t → J t)
    (hok : ∀ a ∈ actions, ∀ s, J s → ok s a) (h : exec step s actions = some t) :
    Run step ok s t := by
  induction actions generalizing s with
  | nil =>
    rw [← Option.some.inj h]
    exact Run.refl s
  | cons a rest ih =>
    obtain ⟨u, hu, hrest⟩ := Option.bind_eq_some_iff.mp h
    have hfirst := Run.tail a (Run.refl s) (hok a List.mem_cons_self s hs) hu
    refine Run.trans hfirst (ih (hinv a List.mem_cons_self s u hs hu) ?_ ?_ hrest)
    · exact fun b hb => hinv b (List.mem_cons_of_mem a hb)
    · exact fun b hb => hok b (List.mem_cons_of_mem a hb)

/-- Executing actions that are allowed in every state. -/
theorem run_of_exec_of_ok {s t : σ} {actions : List α} (hok : ∀ a ∈ actions, ∀ s, ok s a)
    (h : exec step s actions = some t) : Run step ok s t :=
  run_of_exec_of_invariant (J := fun _ => True) trivial (fun _ _ _ _ _ _ => trivial)
    (fun a ha s _ => hok a ha s) h

theorem run_of_exec {s t : σ} {actions : List α} (h : exec step s actions = some t) :
    Run step anyAction s t := run_of_exec_of_ok (fun _ _ _ => trivial) h

/-- Execute a list of actions as long as each passes a check. -/
def execIf (step : σ → α → Option σ) (check : σ → α → Bool) : σ → List α → Option σ
  | s, [] => some s
  | s, a :: rest =>
    if check s a then (step s a).bind fun t => execIf step check t rest else none

theorem run_of_execIf (check : σ → α → Bool) {s t : σ} {actions : List α}
    (hok : ∀ a ∈ actions, ∀ s, check s a = true → ok s a)
    (h : execIf step check s actions = some t) : Run step ok s t := by
  induction actions generalizing s with
  | nil =>
    rw [← Option.some.inj h]
    exact Run.refl s
  | cons a rest ih =>
    unfold execIf at h
    split_ifs at h with hcheck
    obtain ⟨u, hu, hrest⟩ := Option.bind_eq_some_iff.mp h
    have hfirst := Run.tail a (Run.refl s) (hok a List.mem_cons_self s hcheck) hu
    exact Run.trans hfirst (ih (fun b hb => hok b (List.mem_cons_of_mem a hb)) hrest)

section total

variable {next : σ → α → σ} {P I : σ → Prop}

/-- Every event of a list meets a condition in the state that it finds. -/
def AllSteps (next : σ → α → σ) (ok : σ → α → Prop) : σ → List α → Prop
  | _, [] => True
  | s, a :: rest => ok s a ∧ AllSteps next ok (next s a) rest

/-- A property holds before and after every event of a list. -/
def EveryState (next : σ → α → σ) (P : σ → Prop) : σ → List α → Prop
  | s, [] => P s
  | s, a :: rest => P s ∧ EveryState next P (next s a) rest

theorem EveryState.first {s : σ} {events : List α} (h : EveryState next P s events) : P s := by
  cases events with
  | nil => exact h
  | cons a rest => exact h.1

/-- A property that a step keeps exactly when it meets a condition holds in every state of a run
exactly when all its steps meet the condition. -/
theorem everyState_iff (hinv : ∀ s a, I s → P s → ok s a → I (next s a))
    (hstep : ∀ s a, I s → P s → (P (next s a) ↔ ok s a)) {s : σ} (hI : I s) (hP : P s)
    (events : List α) : EveryState next P s events ↔ AllSteps next ok s events := by
  induction events generalizing s with
  | nil => exact iff_of_true hP trivial
  | cons a rest ih =>
    unfold EveryState AllSteps
    rw [and_iff_right hP]
    constructor
    · intro h
      have hok := (hstep s a hI hP).mp h.first
      exact ⟨hok, (ih (hinv s a hI hP hok) h.first).mp h⟩
    · intro h
      exact (ih (hinv s a hI hP h.1) ((hstep s a hI hP).mpr h.1)).mpr h.2

end total

end Library.Runs
