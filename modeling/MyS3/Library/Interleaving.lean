import Mathlib.Data.List.Pairwise
import Mathlib.Tactic.SplitIfs

/-!
Tasks that take turns on a shared state. A step of one task changes the shared state
and the task; the others only see the change. An invariant of the pool has a part about
the shared state, a part about each task, and a symmetric relation between two tasks; a
step keeps it when it keeps the first two for its own task and disturbs no other one.
-/

namespace Library.Interleaving

variable {σ τ : Type*}

structure Pool (σ τ : Type*) where
  shared : σ
  tasks : List τ

/-- A step that a task takes in one of its kinds. -/
theorem step_of_kind {ε α : Type*} {step : Option (ε × α)} {kind : α → τ} {e : ε} {u : τ} :
    step.map (Prod.map id kind) = some (e, u) ↔ ∃ a, step = some (e, a) ∧ kind a = u := by
  simp only [Option.map_eq_some_iff, Prod.exists, Prod.map, id, Prod.mk.injEq]
  constructor
  · intro h
    obtain ⟨_, a, hstep, rfl, rfl⟩ := h
    exact ⟨a, hstep, rfl⟩
  · intro h
    obtain ⟨a, hstep, rfl⟩ := h
    exact ⟨e, a, hstep, rfl, rfl⟩

namespace Pool

def spawn (p : Pool σ τ) (t : τ) : Pool σ τ := { p with tasks := p.tasks ++ [t] }

/-- Task `i` goes on as another task, and the shared state changes with it. -/
def replace (p : Pool σ τ) (i : Nat) (s : σ) (u : τ) : Pool σ τ := ⟨s, p.tasks.set i u⟩

/-- Task `i` takes a step. -/
def turn (f : σ → τ → Option (σ × τ)) (p : Pool σ τ) (i : Nat) : Option (Pool σ τ) :=
  (p.tasks[i]?).bind fun t => (f p.shared t).map fun r => p.replace i r.1 r.2

theorem turn_eq_some {f : σ → τ → Option (σ × τ)} {p q : Pool σ τ} {i : Nat} :
    p.turn f i = some q ↔
      ∃ t s u, p.tasks[i]? = some t ∧ f p.shared t = some (s, u) ∧ q = p.replace i s u := by
  unfold turn
  simp only [Option.bind_eq_some_iff, Option.map_eq_some_iff, Prod.exists]
  constructor
  · intro h
    obtain ⟨t, ht, s, u, hf, hq⟩ := h
    exact ⟨t, s, u, ht, hf, hq.symm⟩
  · intro h
    obtain ⟨t, s, u, ht, hf, hq⟩ := h
    exact ⟨t, ht, s, u, hf, hq.symm⟩

theorem replace_self {p : Pool σ τ} {i : Nat} {t : τ} (hi : p.tasks[i]? = some t) (s : σ)
    (u : τ) : (p.replace i s u).tasks[i]? = some u := by
  obtain ⟨hlt, _⟩ := List.getElem?_eq_some_iff.mp hi
  simp only [replace, List.getElem?_set_self hlt]

theorem replace_ne (p : Pool σ τ) {i j : Nat} (hij : i ≠ j) (s : σ) (u : τ) :
    (p.replace i s u).tasks[j]? = p.tasks[j]? := by
  simp only [replace, List.getElem?_set_ne hij]

theorem mem_replace {p : Pool σ τ} {i : Nat} {s : σ} {u v : τ}
    (h : v ∈ (p.replace i s u).tasks) : v = u ∨ v ∈ p.tasks :=
  (List.mem_or_eq_of_mem_set h).symm

end Pool

/-- The shared state is good, each task is good in it, and the tasks are pairwise apart. -/
structure Coherent (I : σ → Prop) (T : σ → τ → Prop) (R : τ → τ → Prop) (p : Pool σ τ) :
    Prop where
  shared : I p.shared
  tasks : ∀ t ∈ p.tasks, T p.shared t
  apart : p.tasks.Pairwise R

variable {I : σ → Prop} {T : σ → τ → Prop} {R : τ → τ → Prop}

theorem coherent_nil {s : σ} (h : I s) : Coherent I T R ⟨s, []⟩ where
  shared := h
  tasks t ht := by cases ht
  apart := List.Pairwise.nil

/-- A new task that is good and apart from the others. -/
theorem Coherent.spawn {p : Pool σ τ} {t : τ} (h : Coherent I T R p) (ht : T p.shared t)
    (happart : ∀ v ∈ p.tasks, R v t) : Coherent I T R (p.spawn t) where
  shared := h.shared
  tasks v hv := by
    rcases List.mem_append.mp hv with hv | hv
    · exact h.tasks v hv
    · rw [List.mem_singleton.mp hv]
      exact ht
  apart := by
    refine List.pairwise_append.mpr ⟨h.apart, List.pairwise_singleton _ _, ?_⟩
    intro v hv t' ht'
    rw [List.mem_singleton.mp ht']
    exact happart v hv

/-- Two tasks of the pool at different places are apart. -/
theorem Coherent.apart_of_ne {p : Pool σ τ} (h : Coherent I T R p) (hsymm : ∀ t v, R t v → R v t)
    {i j : Nat} {t v : τ} (hi : p.tasks[i]? = some t) (hj : p.tasks[j]? = some v) (hij : i ≠ j) :
    R t v := by
  obtain ⟨hilt, rfl⟩ := List.getElem?_eq_some_iff.mp hi
  obtain ⟨hjlt, rfl⟩ := List.getElem?_eq_some_iff.mp hj
  have hpair := List.pairwise_iff_getElem.mp h.apart
  rcases Nat.lt_or_gt_of_ne hij with hlt | hlt
  · exact hpair i j hilt hjlt hlt
  · exact hsymm _ _ (hpair j i hjlt hilt hlt)

/-- The other tasks of the pool, at their places. -/
theorem Coherent.of_other {p : Pool σ τ} {i : Nat} {t : τ} (h : Coherent I T R p)
    (hsymm : ∀ t v, R t v → R v t) (hi : p.tasks[i]? = some t) {C : τ → Prop}
    (hother : ∀ v ∈ p.tasks, R t v → T p.shared v → C v) {j : Nat} {v : τ}
    (hj : p.tasks[j]? = some v) (hne : j ≠ i) : C v := by
  have hmem := List.mem_of_getElem? hj
  exact hother v hmem (h.apart_of_ne hsymm hi hj hne.symm) (h.tasks v hmem)

/-- A fact about each task, after a step that establishes it for its own task and keeps it
for the tasks that are apart. -/
theorem Coherent.forall_replace {C : σ → τ → Prop} {p : Pool σ τ} {i : Nat} {t u : τ} {s : σ}
    (h : Coherent I T R p) (hsymm : ∀ t v, R t v → R v t) (hi : p.tasks[i]? = some t)
    (hown : C s u) (hother : ∀ v ∈ p.tasks, R t v → T p.shared v → C s v) :
    ∀ v ∈ (p.replace i s u).tasks, C s v := by
  intro v hv
  obtain ⟨j, hj⟩ := List.mem_iff_getElem?.mp hv
  simp only [Pool.replace, List.getElem?_set] at hj
  split_ifs at hj with hij hlt
  · rw [← Option.some.inj hj]
    exact hown
  · exact h.of_other hsymm hi hother hj (Ne.symm hij)

/-- A step that is good for its own task and disturbs no other one. -/
theorem Coherent.replace {p : Pool σ τ} {i : Nat} {t u : τ} {s : σ} (h : Coherent I T R p)
    (hsymm : ∀ t v, R t v → R v t) (hi : p.tasks[i]? = some t) (hshared : I s) (hown : T s u)
    (hother : ∀ v ∈ p.tasks, R t v → T p.shared v → T s v ∧ R u v) :
    Coherent I T R (p.replace i s u) where
  shared := hshared
  tasks := h.forall_replace hsymm hi hown fun v hv hr ht => (hother v hv hr ht).1
  apart := by
    have hrest : ∀ j v, p.tasks[j]? = some v → j ≠ i → R u v := fun j v hj hne =>
      h.of_other hsymm hi (fun v hv hr ht => (hother v hv hr ht).2) hj hne
    refine List.pairwise_iff_getElem.mpr ?_
    intro j k hj hk hjk
    simp only [Pool.replace, List.length_set] at hj hk
    simp only [Pool.replace, List.getElem_set]
    split_ifs with hij hik hik
    · omega
    · exact hrest k _ (List.getElem?_eq_getElem hk) (by omega)
    · exact hsymm _ _ (hrest j _ (List.getElem?_eq_getElem hj) (by omega))
    · exact List.pairwise_iff_getElem.mp h.apart j k hj hk hjk

end Library.Interleaving
