import Mathlib.Algebra.Order.BigOperators.Group.Finset
import Mathlib.Algebra.Group.Action.Defs
import Mathlib.Data.Finset.Max
import Mathlib.Tactic.Ring

/-!
Rounds of a service that takes a fixed number of jobs at a time. A job that is not
finished comes back, but waits longer after each attempt. When every round is full of
jobs of one finite set, and the rounds follow one another without large gaps, the waits
bound the number of rounds.
-/

namespace Library.Backoff

theorem length_flatten_of_width {ι : Type*} {batches : List (List ι)} {width : ℕ}
    (h : ∀ b ∈ batches, b.length = width) : batches.flatten.length = width * batches.length := by
  induction batches with
  | nil => simp
  | cons b rest ih =>
    rw [List.flatten_cons, List.length_append, h b List.mem_cons_self,
      ih fun c hc => h c (List.mem_cons_of_mem b hc), List.length_cons]
    ring

variable {ι : Type*} [DecidableEq ι]

/-- Some job is taken at least as often as the average. -/
theorem exists_average_le {jobs : Finset ι} {served : List ι} (hjobs : ∀ i ∈ served, i ∈ jobs)
    (hne : jobs.Nonempty) : ∃ i ∈ jobs, served.length ≤ jobs.card * served.count i := by
  obtain ⟨i, hi, hmax⟩ := jobs.exists_max_image (fun i => served.count i) hne
  refine ⟨i, hi, ?_⟩
  have hsum : ∑ j ∈ jobs, served.count j = served.length := by
    have h := Multiset.sum_count_eq_card (s := jobs) (m := (served : Multiset ι)) hjobs
    simpa using h
  have hle := Finset.sum_le_card_nsmul jobs (fun j => served.count j) (served.count i) hmax
  rw [hsum, smul_eq_mul] at hle
  exact hle

/-- A job that was taken `n` times has waited `wait * (1 + … + (n - 1))` in between, and
that is at most the time of all rounds. -/
def Waits (jobs : Finset ι) (batches : List (List ι)) (wait gap : ℕ) : Prop :=
  ∀ i ∈ jobs, wait * (batches.flatten.count i * (batches.flatten.count i - 1)) ≤
    2 * (gap * batches.length)

/-- The number of rounds that are full of jobs of one set is at most quadratic in its size. -/
theorem rounds_bound {jobs : Finset ι} {batches : List (List ι)} {width wait gap : ℕ}
    (hwidth : ∀ b ∈ batches, b.length = width) (hjobs : ∀ b ∈ batches, ∀ i ∈ b, i ∈ jobs)
    (hwait : Waits jobs batches wait gap) :
    width * wait * (width * batches.length) ≤
      jobs.card * (width * wait + 2 * gap * jobs.card) := by
  have hlength := length_flatten_of_width hwidth
  have hflat : ∀ i ∈ batches.flatten, i ∈ jobs := by
    intro i hi
    obtain ⟨b, hb, hib⟩ := List.mem_flatten.mp hi
    exact hjobs b hb i hib
  rcases jobs.eq_empty_or_nonempty with rfl | hne
  · have hnil : batches.flatten = [] := by
      rw [List.eq_nil_iff_forall_not_mem]
      intro i hi
      have h := hflat i hi
      simp at h
    rw [hnil, List.length_nil] at hlength
    rw [← hlength]
    simp
  · obtain ⟨i, hi, haverage⟩ := exists_average_le hflat hne
    rw [hlength] at haverage
    have hslow := hwait i hi
    cases hn : batches.flatten.count i with
    | zero =>
      rw [hn] at haverage
      have hzero : width * batches.length = 0 := by simpa using haverage
      rw [hzero]
      simp
    | succ k =>
      rw [hn] at haverage hslow
      rw [Nat.add_sub_cancel] at hslow
      have hwaited : width * wait * k ≤ 2 * gap * jobs.card := by
        refine Nat.le_of_mul_le_mul_right ?_ (Nat.succ_pos k)
        calc
          width * wait * k * (k + 1) = width * (wait * ((k + 1) * k)) := by ring
          _ ≤ width * (2 * (gap * batches.length)) := Nat.mul_le_mul_left _ hslow
          _ = 2 * gap * (width * batches.length) := by ring
          _ ≤ 2 * gap * (jobs.card * (k + 1)) := Nat.mul_le_mul_left _ haverage
          _ = 2 * gap * jobs.card * (k + 1) := by ring
      calc
        width * wait * (width * batches.length)
          ≤ width * wait * (jobs.card * (k + 1)) := Nat.mul_le_mul_left _ haverage
        _ = jobs.card * (width * wait + width * wait * k) := by ring
        _ ≤ jobs.card * (width * wait + 2 * gap * jobs.card) :=
          Nat.mul_le_mul_left _ (Nat.add_le_add_left hwaited _)

end Library.Backoff
