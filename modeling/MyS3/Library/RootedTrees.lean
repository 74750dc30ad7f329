import Mathlib.Data.List.Nodup
import MyS3.Library.FileTree

/-!
Trees that a file system can have: each path has one entry at most, and lies in a directory.
-/

namespace Library.FileTree

variable {ν γ : Type*} [DecidableEq ν] {t : Tree ν γ} {p q r : List ν}

structure Rooted (t : Tree ν γ) : Prop where
  distinct : (t.map (·.1)).Nodup
  inDirs : ∀ e ∈ t, e.1 ≠ [] ∧ isDir t e.1.dropLast = true

theorem isSome_of_isDir (h : isDir t p = true) : (get t p).isSome = true := by
  rw [isDir_iff.mp h]
  rfl

/-- Above anything there are directories. -/
theorem Rooted.isDir_above (h : Rooted t) (hq : (get t q).isSome = true) (hr : r <+: q)
    (hne : r ≠ q) : isDir t r = true := by
  induction q using List.reverseRecOn with
  | nil => exact absurd (List.prefix_nil.mp hr) hne
  | append_singleton above n ih =>
    obtain ⟨e, he⟩ := Option.isSome_iff_exists.mp hq
    have habove := (h.inDirs _ (mem_of_get (by simp) he)).2
    rw [List.dropLast_concat] at habove
    by_cases heq : r = above
    · rw [heq]
      exact habove
    · exact ih (isSome_of_isDir habove) ((List.prefix_concat_iff.mp hr).resolve_left hne) heq

/-- Below what is missing there is nothing. -/
theorem Rooted.none_below (h : Rooted t) (hp : get t p = none) (hq : p <+: q) :
    get t q = none := by
  by_cases heq : p = q
  · rw [← heq, hp]
  · by_contra hsome
    have hdir := h.isDir_above (Option.isSome_iff_ne_none.mpr hsome) hq heq
    rw [isDir_iff, hp] at hdir
    cases hdir

theorem Rooted.nodup_children (h : Rooted t) (p : List ν) : (children t p).Nodup := by
  have hpaths : children t p =
      (t.map (·.1)).filterMap fun q => if q.dropLast = p then q.getLast? else none := by
    rw [List.filterMap_map]
    rfl
  rw [hpaths]
  refine List.Nodup.filterMap (fun a b n ha hb => ?_) h.distinct
  simp only [Option.mem_def, Option.ite_none_right_eq_some] at ha hb
  rw [← List.dropLast_append_getLast? n ha.2, ← List.dropLast_append_getLast? n hb.2, ha.1, hb.1]

/-- A new entry in a directory, where there is no directory yet. -/
theorem Rooted.put (h : Rooted t) {e : Entry γ} (hp : p ≠ []) (habove : isDir t p.dropLast = true)
    (hfree : isDir t p = false) : Rooted (put t p e) := by
  have hkept : ∀ q, isDir t q = true → isDir (FileTree.put t p e) q = true := by
    intro q hq
    have hne : q ≠ p := by
      intro h'
      obtain rfl := h'
      rw [hfree] at hq
      cases hq
    rw [isDir_eq_of_get (get_put_other hne)]
    exact hq
  constructor
  · unfold FileTree.put erase
    rw [List.map_cons, List.nodup_cons]
    refine ⟨fun hmem => ?_, h.distinct.sublist (List.filter_sublist.map _)⟩
    obtain ⟨e', he', heq⟩ := List.mem_map.mp hmem
    exact of_decide_eq_true (List.mem_filter.mp he').2 heq
  · intro e' he'
    rcases List.mem_cons.mp he' with rfl | hold
    · exact ⟨hp, hkept _ habove⟩
    · obtain ⟨hne, hdir⟩ := h.inDirs e' (List.mem_filter.mp hold).1
      exact ⟨hne, hkept _ hdir⟩

/-- Without an entry that nothing is in. -/
theorem Rooted.erase (h : Rooted t) (hempty : ∀ n, get t (p ++ [n]) = none) :
    Rooted (erase t p) := by
  refine ⟨h.distinct.sublist (List.filter_sublist.map _), fun e he => ?_⟩
  have hmem := (List.mem_filter.mp he).1
  obtain ⟨hne, hdir⟩ := h.inDirs e hmem
  refine ⟨hne, ?_⟩
  have hother : e.1.dropLast ≠ p := by
    intro h'
    obtain rfl := h'
    have hthere := get_isSome_of_mem hmem
    rw [← List.dropLast_append_getLast hne, hempty] at hthere
    cases hthere
  rw [isDir_eq_of_get (get_erase_other hother)]
  exact hdir

theorem Rooted.makeDir (h : Rooted t) (habove : isDir t p.dropLast = true) :
    Rooted (makeDir t p) := by
  unfold FileTree.makeDir
  split_ifs with hnone
  · have hp : p ≠ [] := by
      intro h'
      obtain rfl := h'
      cases hnone
    refine h.put hp habove ?_
    unfold isDir
    rw [hnone]
  · exact h

theorem makeDirs_concat (t : Tree ν γ) (p : List ν) (n : ν) :
    makeDirs t (p ++ [n]) = makeDir (makeDirs t p) (p ++ [n]) := by
  unfold makeDirs
  simp [List.inits_append]

/-- Directories can be made where no file is on the way. -/
theorem Rooted.makeDirs (h : Rooted t) (hway : ∀ r, r <+: p → content t r = none) :
    Rooted (makeDirs t p) := by
  induction p using List.reverseRecOn with
  | nil => exact h.makeDir (p := []) rfl
  | append_singleton above n ih =>
    have hup : above <+: above ++ [n] := List.prefix_append _ _
    rw [makeDirs_concat]
    refine (ih fun r hr => hway r (hr.trans hup)).makeDir ?_
    rw [List.dropLast_concat]
    exact isDir_makeDirs (hway above hup)

end Library.FileTree
