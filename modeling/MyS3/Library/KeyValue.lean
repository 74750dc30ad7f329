import Mathlib.Logic.Function.Basic
import MyS3.Library.Runs

/-!
Key-value stores as an abstraction. A system refines a store when each of its
steps has the effect of an event on the map that its state represents. An event
names at most one key, so a key that no event of a run names keeps its value.
-/

namespace Library.KeyValue

open Library.Runs

variable {κ β σ α : Type*}

abbrev Store (κ β : Type*) := κ → Option β

/-- What a step does to the map. A refused write may lose the old value. -/
inductive Event (κ β : Type*)
  | put (k : κ) (v : β)
  | erase (k : κ)
  | refuse (k : κ)
  | keep
  deriving DecidableEq

namespace Event

def key : Event κ β → Option κ
  | .put k _ => some k
  | .erase k => some k
  | .refuse k => some k
  | .keep => none

def Effect [DecidableEq κ] : Event κ β → Store κ β → Store κ β → Prop
  | .put k v, m, m' => m' = Function.update m k (some v)
  | .erase k, m, m' => m' = Function.update m k none
  | .refuse k, m, m' => m' = m ∨ m' = Function.update m k none
  | .keep, m, m' => m' = m

theorem Effect.other [DecidableEq κ] {e : Event κ β} {m m' : Store κ β} {k : κ}
    (h : e.Effect m m') (hk : e.key ≠ some k) : m' k = m k := by
  cases e with
  | put j v =>
    have hne : k ≠ j := fun heq => hk (by simp [key, heq])
    rw [show m' = Function.update m j (some v) from h, Function.update_of_ne hne]
  | erase j =>
    have hne : k ≠ j := fun heq => hk (by simp [key, heq])
    rw [show m' = Function.update m j none from h, Function.update_of_ne hne]
  | refuse j =>
    have hne : k ≠ j := fun heq => hk (by simp [key, heq])
    rcases h with rfl | rfl
    · rfl
    · rw [Function.update_of_ne hne]
  | keep => rw [show m' = m from h]

end Event

/-- Allowed steps keep the invariant and have the effect of their event. -/
structure Refines [DecidableEq κ] (step : σ → α → Option σ) (ok : σ → α → Prop)
    (inv : σ → Prop) (view : σ → Store κ β) (event : σ → α → Event κ β) : Prop where
  preserves : ∀ s a t, inv s → ok s a → step s a = some t → inv t
  effect : ∀ s a t, inv s → ok s a → step s a = some t →
    (event s a).Effect (view s) (view t)

namespace Refines

variable [DecidableEq κ] {step : σ → α → Option σ} {ok : σ → α → Prop} {inv : σ → Prop}
  {view : σ → Store κ β} {event : σ → α → Event κ β}

theorem invariant (h : Refines step ok inv view event) {s t : σ} (hs : inv s)
    (hrun : Run step ok s t) : inv t :=
  hrun.invariant h.preserves hs

/-- Along a run that does not name the key, its value stays. -/
theorem read_back (h : Refines step ok inv view event) {s t : σ} {k : κ} (hs : inv s)
    (hrun : Run step (fun s a => ok s a ∧ (event s a).key ≠ some k) s t) :
    inv t ∧ view t k = view s k := by
  induction hrun with
  | refl => exact ⟨hs, rfl⟩
  | tail a _ hok hnext ih =>
    obtain ⟨hinv, hview⟩ := ih
    refine ⟨h.preserves _ a _ hinv hok.1 hnext, ?_⟩
    rw [(h.effect _ a _ hinv hok.1 hnext).other hok.2, hview]

end Refines

end Library.KeyValue
