import MyS3.Library.Runs

/-!
Lifetimes. In a transition system some steps end a property for good, some would start it
again, and all others leave it as it is. Where no step of a run starts it again, it holds
after the run exactly when none of the steps has ended it.
-/

namespace Library.Lifetimes

open Library.Runs

variable {σ α : Type*}

/-- Some action of a list meets a condition in the state that it finds. -/
def someStep (step : σ → α → Option σ) (P : σ → α → Bool) : σ → List α → Bool
  | _, [] => false
  | s, a :: rest => P s a || (step s a).any fun t => someStep step P t rest

variable {step : σ → α → Option σ} {P : σ → α → Bool}

theorem someStep_cons {s t : σ} {a : α} (h : step s a = some t) (rest : List α) :
    someStep step P s (a :: rest) = (P s a || someStep step P t rest) := by
  rw [someStep, h, Option.any_some]

/-- A property, with what the state is like once it has ended. A step may only end it for
good, unless it starts it again. -/
structure Lifetime (step : σ → α → Option σ) (starts ends : σ → α → Bool) (K G : σ → Prop) :
    Prop where
  kept : ∀ s a t, K s → starts s a = false → ends s a = false → step s a = some t → K t
  ended : ∀ s a t, K s → starts s a = false → ends s a = true → step s a = some t → G t
  gone : ∀ s a t, G s → starts s a = false → step s a = some t → G t

variable {starts ends : σ → α → Bool} {K G : σ → Prop}

theorem Lifetime.gone_exec (h : Lifetime step starts ends K G) {s t : σ} {actions : List α}
    (hs : G s) (hrun : exec step s actions = some t)
    (hstarts : someStep step starts s actions = false) : G t := by
  induction actions generalizing s with
  | nil =>
    rw [← Option.some.inj hrun]
    exact hs
  | cons a rest ih =>
    obtain ⟨u, hu, hrest⟩ := Option.bind_eq_some_iff.mp hrun
    rw [someStep_cons hu, Bool.or_eq_false_iff] at hstarts
    exact ih (h.gone s a u hs hstarts.1 hu) hrest hstarts.2

/-- After a run the property holds, and no step has ended it, or it has ended for good. -/
theorem Lifetime.exec (h : Lifetime step starts ends K G) {s t : σ} {actions : List α}
    (hs : K s) (hrun : exec step s actions = some t)
    (hstarts : someStep step starts s actions = false) :
    K t ∧ someStep step ends s actions = false ∨ G t ∧ someStep step ends s actions = true := by
  induction actions generalizing s with
  | nil =>
    rw [← Option.some.inj hrun]
    exact Or.inl ⟨hs, rfl⟩
  | cons a rest ih =>
    obtain ⟨u, hu, hrest⟩ := Option.bind_eq_some_iff.mp hrun
    rw [someStep_cons hu, Bool.or_eq_false_iff] at hstarts
    rw [someStep_cons hu]
    cases hends : ends s a with
    | true =>
      have hgone := h.gone_exec (h.ended s a u hs hstarts.1 hends hu) hrest hstarts.2
      exact Or.inr ⟨hgone, Bool.true_or _⟩
    | false =>
      rw [Bool.false_or]
      exact ih (h.kept s a u hs hstarts.1 hends hu) hrest hstarts.2

end Library.Lifetimes
