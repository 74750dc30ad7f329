import Mathlib.Algebra.Order.BigOperators.Group.List
import MyS3.FailedMoves
import MyS3.NestedCopies

/-!
The relocation of a storage root, `relocate_storage_root`, for every tree, every destination
and every outcome of its calls: it ends, and every file is at its old or its new path, unless
a destination inside the root is copied to, which never ends.
-/

namespace MyS3.MovedRoots

open Library.Strings Library.OsPaths Library.FileTree Library.FileCalls
open Relocate TreeCopies NestedCopies FailedMoves

/-- The second call of a relocation, the test whether there is anything at the destination,
meets no failure from outside. -/
def SeesDestination (w : World) : Prop := (w.faults[1]?).join = none

/-- A relocation ends, and every file of the root is at its old or its new path afterwards; after
a success it is at the new one. -/
structure Relocated (w : World) (src dest : OsPath) (s d : Place) : Prop where
  ends : ∃ fuel, Io.Ends (relocateStorageRoot fuel src dest) w
  files : ∀ fuel r w', relocateStorageRoot fuel src dest w = some (r, w') → ∀ rel c,
    content w.tree (s ++ rel) = some c → content w'.tree (d ++ rel) = some c ∨
      (r ≠ .ok () ∧ content w'.tree (s ++ rel) = some c)

/-- The destination is in the root and can be made or is an empty directory; where the root is
named in the working directory, that is not removed with the destination. -/
structure Swallows (w : World) (src : OsPath) (s d : Place) : Prop where
  inside : s <+: d
  proper : s ≠ d
  there : (get w.tree s).isSome = true
  way : ∀ r, r <+: d → content w.tree r = none
  empty : occupied w.tree d = false
  named : isAbsolute src = true ∨ w.cwd ≠ some d ∨ isDir w.tree d = false

theorem occupied_false {t : Tree OsText OsText} {q : Place} :
    occupied t q = false ↔ ∀ e ∈ t, q <+: e.1 → e.1 = q := by
  unfold occupied
  rw [List.any_eq_false]
  simp

theorem none_of_not_occupied {t : Tree OsText OsText} {d q : Place} (h : occupied t d = false)
    (hq : d <+: q) (hne : q ≠ d) : get t q = none := by
  by_contra hsome
  obtain ⟨e, he⟩ := Option.ne_none_iff_exists'.mp hsome
  have hnames : q ≠ [] := by
    intro h'
    obtain rfl := h'
    exact hne (List.prefix_nil.mp hq).symm
  exact hne (occupied_false.mp h _ (mem_of_get hnames he) hq)

/-- The destination as it is when the move begins: there is nothing at it, and what was there
was at most an empty directory. -/
structure Cleared (d : Place) (w w' : World) : Prop where
  gone : get w'.tree d = none
  other : ∀ q, q ≠ d → get w'.tree q = get w.tree q
  file : content w.tree d = none
  empty : occupied w.tree d = false
  cwd : w'.cwd = if isDir w.tree d = true then w.cwd.filter (· != d) else w.cwd
  rooted : Rooted w'.tree

section Clear

variable {src : OsPath} {s d : Place} {w w' : World}

theorem pathExists_run {p : OsPath} {q : Place} (h : Free w w') (hq : w'.place p = some q) :
    pathExists p w = some (.ok (get w'.tree q).isSome, w') := by
  unfold pathExists Io.orElse
  rw [query_run h (by rw [placeOf_eq hq]; rfl)]

theorem occupied_of_none {t : Tree OsText OsText} (h : Rooted t) (hnone : get t d = none) :
    occupied t d = false := by
  refine occupied_false.mpr fun e he hd => ?_
  have hthere := get_isSome_of_mem he
  rw [h.none_below hnone hd] at hthere
  cases hthere

theorem clearDestination_cleared (hw : Rooted w.tree) (hfree : Free w w.met)
    (h : clearDestination (absolutePath d) w = some (.ok (), w')) : Cleared d w w' := by
  have hplace : w.met.place (absolutePath d) = some d := place_absolutePath _ _
  unfold clearDestination at h
  rw [bind_run (pathExists_run hfree hplace)] at h
  by_cases hthere : (get w.met.tree d).isSome = true
  · rw [if_pos hthere] at h
    obtain ⟨taken, w1, htaken, h⟩ := Io.bind_ok.mp h
    have hsame : Same w w1 := Effect.of_met (keeps_dirNonempty _ _ _ _ htaken)
    cases taken with
    | true => exact (Io.fail_ok.mp h).elim
    | false =>
      obtain ⟨d', hd', hne, hdir, hempty, htree, hcwd⟩ := removeDir_empties (Io.withContext_ok.mp h)
      rw [place_absolutePath] at hd'
      obtain rfl := Option.some.inj hd'
      rw [hsame.tree] at hdir hempty htree
      refine ⟨?_, fun q hq => ?_, ?_, hempty, ?_, ?_⟩
      · rw [htree, get_erase_self hne]
      · rw [htree, get_erase_other hq]
      · unfold content
        rw [hdir]
      · rw [hcwd, hsame.cwd, if_pos (isDir_iff.mpr hdir)]
      · rw [htree]
        exact hw.erase fun n => none_of_not_occupied hempty (List.prefix_append _ _) (by simp)
  · rw [if_neg hthere] at h
    obtain ⟨_, rfl⟩ := Io.pure_ok.mp h
    have hnone : get w.tree d = none := Option.not_isSome_iff_eq_none.mp hthere
    refine ⟨hnone, fun q _ => rfl, ?_, occupied_of_none hw hnone, ?_, hw⟩
    · unfold content
      rw [hnone]
    · rw [isDir_false_of_none hnone]
      rfl

end Clear

/-- A relocation has come to the move itself: there is a root, and room for it. -/
structure Reached (s d : Place) (w w1 : World) : Prop where
  there : (get w.tree s).isSome = true
  way : ∀ r, r <+: d → content w.tree r = none
  empty : occupied w.tree d = false
  other : ∀ q, ¬ q <+: d → get w1.tree q = get w.tree q
  files : SameFiles w w1
  cwd : w1.cwd = if isDir w.tree d = true then w.cwd.filter (· != d) else w.cwd

section Prelude

variable {src : OsPath} {s d : Place} {w w' w1 : World} {r : Except Failure Unit}

theorem parent_absolutePath (hd : d ≠ []) :
    parent (absolutePath d) = some (absolutePath d.dropLast) := by
  obtain ⟨above, n, rfl⟩ : ∃ above n, d = above ++ [n] :=
    ⟨_, _, (List.dropLast_append_getLast hd).symm⟩
  have hlast : absolutePath (above ++ [n]) = absolutePath above ++ [.name n] := by
    simp [absolutePath]
  unfold parent
  rw [hlast, List.getLast?_concat, List.dropLast_concat, List.dropLast_concat]

theorem Cleared.ne_nil (h : Cleared d w w') : d ≠ [] := by
  intro h'
  obtain rfl := h'
  cases h.gone

theorem Cleared.files (h : Cleared d w w') : SameFiles w w' := by
  intro q
  by_cases hq : q = d
  · rw [hq, h.file]
    unfold content
    rw [h.gone]
  · exact content_eq_of_get (h.other q hq)

theorem createParent_eq (hd : d ≠ []) : createParent (absolutePath d) =
    (createDirAll (absolutePath d.dropLast)).withContext
      ("create parent of ".toList ++ shown (absolutePath d)) := by
  unfold createParent
  rw [parent_absolutePath hd]

theorem keeps_createParent (d : Place) : Io.Keeps SameFiles (createParent (absolutePath d)) := by
  unfold createParent
  split
  · exact (keeps_createDirAll _).withContext _
  · exact Io.keeps_pure ()

theorem prefix_cases (hd : d ≠ []) {q : Place} (hq : q <+: d) : q = d ∨ q <+: d.dropLast := by
  rw [← List.dropLast_append_getLast hd] at hq
  rcases List.prefix_concat_iff.mp hq with heq | hup
  · exact Or.inl (heq.trans (List.dropLast_append_getLast hd))
  · exact Or.inr hup

/-- The directory that the destination is in has been made. -/
theorem Cleared.reached (h : Cleared d w w') (hthere : (get w.tree s).isSome = true)
    (hparent : createParent (absolutePath d) w' = some (.ok (), w1)) : Reached s d w w1 := by
  have hd := h.ne_nil
  rw [createParent_eq hd] at hparent
  have hdirs := Io.withContext_ok.mp hparent
  have hplace := place_absolutePath w' d.dropLast
  have hmakes : Makes d.dropLast w' w1 := createDirAll_makes hdirs fun q hq => by
    rw [← Option.some.inj (hplace.symm.trans hq)]
  refine ⟨hthere, fun r hr => ?_, h.empty, fun q hq => ?_, Effect.trans h.files hmakes.files,
    hmakes.cwd.trans h.cwd⟩
  · rcases prefix_cases hd hr with rfl | hup
    · exact h.file
    · obtain ⟨q, hq, hact⟩ := exceptBind_ok (Io.call_ok hdirs)
      obtain rfl := Option.some.inj ((placeOf_ok hq).symm.trans hplace)
      split_ifs at hact with hfile hway
      have hnone := List.any_eq_false.mp (eq_false_of_ne_true hway) r
        ((List.mem_inits r _).mpr hup)
      rw [← h.files r]
      exact Option.not_isSome_iff_eq_none.mp hnone
  · have hup : ¬ q <+: d.dropLast := fun hup => hq (hup.trans (List.dropLast_prefix d))
    exact (hmakes.other q hup).trans (h.other q fun heq => hq (heq ▸ List.prefix_rfl))

theorem Reached.of_met (h : Reached s d w.met w1) : Reached s d w w1 :=
  ⟨h.there, h.way, h.empty, h.other, h.files, h.cwd⟩

theorem keeps_clearDestination (dest : OsPath) : Io.Keeps SameFiles (clearDestination dest) := by
  refine ((Io.keeps_query _).orElse false).bind fun there => ?_
  split_ifs
  · refine (keeps_dirNonempty _).bind fun taken => ?_
    split_ifs
    · exact Io.keeps_fail _
    · refine Io.Keeps.withContext (fun w r w' h => ?_) _
      cases r with
      | error e =>
        rw [Io.call_error h]
        exact fun _ => rfl
      | ok u =>
        obtain ⟨d, _, _, hdir, _, htree, _⟩ := removeDir_empties h
        intro q
        rw [htree, content_erase_dir hdir]
  · exact Io.keeps_pure ()

theorem pathExists_cases {p : OsPath} {r : Except Failure Bool}
    (h : pathExists p w = some (r, w')) : w' = w.met ∧ ∃ there, r = .ok there ∧
      (there = true → ∃ q, w.place p = some q ∧ (get w.tree q).isSome = true) := by
  unfold pathExists Io.orElse at h
  split at h
  · rename_i e w1 hq
    simp only [Option.some.injEq, Prod.mk.injEq] at h
    refine ⟨?_, false, h.1.symm, fun heq => by cases heq⟩
    rw [← h.2]
    exact Io.call_error hq
  · rename_i hother
    cases r with
    | error e => exact absurd h (hother e w')
    | ok there =>
      obtain ⟨hact, rfl⟩ := Io.query_ok h
      refine ⟨rfl, there, rfl, fun heq => ?_⟩
      cases hq : w.place p with
      | none =>
        have hnone : w.met.place p = none := hq
        rw [placeOf, hnone] at hact
        cases hact
      | some q =>
        have hsome : w.met.place p = some q := hq
        rw [placeOf_eq hsome] at hact
        exact ⟨q, rfl, (Except.ok.inj hact).trans heq⟩

theorem free_of_sees (h : SeesDestination w) : Free w.met w.met.met := by
  refine ⟨?_, rfl⟩
  unfold SeesDestination at h
  rw [← List.head?_tail] at h
  exact h

/-- A relocation fails before the move and has changed no file, or it comes to the move. -/
theorem relocate_cases {fuel : Nat} (hw : Rooted w.tree) (hs : w.place src = some s)
    (hseen : SeesDestination w) (hne : src ≠ absolutePath d)
    (h : relocateStorageRoot fuel src (absolutePath d) w = some (r, w')) :
    (r ≠ .ok () ∧ SameFiles w w') ∨
      ∃ w1, Reached s d w w1 ∧ renameOrCopy fuel src (absolutePath d) w1 = some (r, w') := by
  unfold relocateStorageRoot at h
  rw [if_neg hne] at h
  rcases Io.bind_cases h with ⟨e, he, _⟩ | ⟨there, wa, hthere, h⟩
  · obtain ⟨_, there, hok, _⟩ := pathExists_cases he
    cases hok
  obtain ⟨rfl, there', hok, hfound⟩ := pathExists_cases hthere
  obtain rfl := Except.ok.inj hok
  cases there with
  | false =>
    obtain ⟨rfl, rfl⟩ := Io.fail_run.mp h
    exact Or.inl ⟨by simp, fun _ => rfl⟩
  | true =>
    obtain ⟨q, hq, hroot⟩ := hfound rfl
    obtain rfl := Option.some.inj (hq.symm.trans hs)
    rcases Io.bind_cases h with ⟨e, he, rfl⟩ | ⟨_, wb, hclear, h⟩
    · exact Or.inl ⟨by simp, Effect.of_met (keeps_clearDestination _ _ _ _ he)⟩
    have hcleared : Cleared d w.met wb := clearDestination_cleared hw (free_of_sees hseen) hclear
    rcases Io.bind_cases h with ⟨e, he, rfl⟩ | ⟨_, wc, hparent, h⟩
    · exact Or.inl ⟨by simp, Effect.trans hcleared.files (keeps_createParent d _ _ _ he)⟩
    · exact Or.inr ⟨wc, (hcleared.reached hroot hparent).of_met, h⟩

end Prelude

section Move

variable {src : OsPath} {s d : Place} {w w' w1 : World} {r : Except Failure Unit} {fuel : Nat}

/-- The working directory is lost with the destination only. -/
theorem filter_cwd {cwd : Option Place} {p : Prop} [Decidable p] (h : p → cwd ≠ some d) :
    (if p then cwd.filter (· != d) else cwd) = cwd := by
  split_ifs with hp
  · cases cwd with
    | none => rfl
    | some dir =>
      have hne : dir ≠ d := fun heq => h hp (heq ▸ rfl)
      rw [Option.filter_some, if_pos (by simpa using hne)]
  · rfl

/-- Where the root is not named in a directory that is gone, it is found where it was. -/
theorem Reached.place (h : Reached s d w w1) (hs : w.place src = some s) :
    w1.place src = some s ∨ (w1.place src = none ∧ isAbsolute src = false ∧ w.cwd = some d ∧
      isDir w.tree d = true) := by
  by_cases habsolute : isAbsolute src = true
  · refine Or.inl ?_
    unfold World.place at hs ⊢
    rwa [if_pos habsolute] at hs ⊢
  by_cases hlost : isDir w.tree d = true ∧ w.cwd = some d
  · refine Or.inr ⟨?_, eq_false_of_ne_true habsolute, hlost.2, hlost.1⟩
    unfold World.place
    rw [if_neg habsolute, h.cwd, if_pos hlost.1, hlost.2, Option.filter_some, if_neg (by simp)]
    rfl
  · refine Or.inl (place_of_cwd hs (h.cwd.trans (filter_cwd fun hdir hcwd => ?_)).symm)
    exact hlost ⟨hdir, hcwd⟩

/-- A move is one of a root beside the destination, or of an empty one, or of one that is not
found any more, or it is one into the root itself. -/
theorem Reached.cases (h : Reached s d w w1) (hs : w.place src = some s)
    (hfits : ¬ Swallows w src s d) :
    (Apart s d ∧ w1.place src = some s) ∨ s = d ∨ w1.place src = none := by
  by_cases heq : s = d
  · exact Or.inr (Or.inl heq)
  rcases h.place hs with hplace | ⟨hlost, _⟩
  · refine Or.inl ⟨⟨fun hinside => ?_, fun houtside => ?_⟩, hplace⟩
    · refine hfits ⟨hinside, heq, h.there, h.way, h.empty, ?_⟩
      by_contra hnamed
      simp only [not_or, Bool.not_eq_true, Bool.not_eq_false, ne_eq, not_not] at hnamed
      obtain ⟨hrelative, hcwd, hdir⟩ := hnamed
      unfold World.place at hplace
      rw [if_neg (by simp [hrelative]), h.cwd, if_pos hdir, hcwd] at hplace
      simp at hplace
    · have hthere := h.there
      rw [none_of_not_occupied h.empty houtside heq] at hthere
      cases hthere
  · exact Or.inr (Or.inr hlost)

/-- The root is renamed, or the move fails with nothing done, or the root is copied. -/
theorem renameOrCopy_cases {dest : OsPath} (h : renameOrCopy fuel src dest w = some (r, w')) :
    (∃ w2, rename src dest w = some (.ok (), w2) ∧ ensureStorageLayout dest w2 = some (r, w')) ∨
      (r ≠ .ok () ∧ w' = w.met) ∨ copyAndRemove fuel src dest w.met = some (r, w') := by
  rcases Io.bind_cases h with ⟨e, he, _⟩ | ⟨r1, w2, hr, h⟩
  · unfold Io.attempt at he
    obtain ⟨_, _, heq⟩ := Option.map_eq_some_iff.mp he
    cases heq
  have hrename := Io.attempt_ok.mp hr
  cases r1 with
  | ok u => exact Or.inl ⟨w2, hrename, h⟩
  | error e =>
    obtain rfl := Io.call_error hrename
    simp only at h
    split_ifs at h
    · exact Or.inr (Or.inr h)
    · obtain ⟨rfl, rfl⟩ := Io.fail_run.mp h
      exact Or.inr (Or.inl ⟨by simp, rfl⟩)

/-- A copy of what is not found any more fails, and has changed no file. -/
theorem copy_lost (hlost : w.place src = none)
    (h : copyDirRecursive fuel src (absolutePath d) w = some (r, w')) :
    r ≠ .ok () ∧ SameFiles w w' := by
  cases fuel with
  | zero => cases h
  | succ fuel =>
    rcases Io.bind_cases h with ⟨e, he, rfl⟩ | ⟨_, w2, hmake, h⟩
    · exact ⟨by simp, (keeps_createDirAll _).withContext _ _ _ _ he⟩
    have hmade := Io.withContext_ok.mp hmake
    have hsame : SameFiles w w2 := keeps_createDirAll _ _ _ _ hmade
    rcases Io.bind_cases h with ⟨e, he, rfl⟩ | ⟨names, w3, hread, h⟩
    · exact ⟨by simp, Effect.trans hsame ((Io.keeps_query _).withContext _ _ _ _ he)⟩
    · obtain ⟨hact, _⟩ := Io.query_ok (Io.withContext_ok.mp hread)
      obtain ⟨q, hq, _⟩ := exceptBind_ok hact
      have hcwd : w2.cwd = w.cwd := keepsCwd_createDirAll _ _ _ _ hmade
      have hfound : w2.place src = some q := placeOf_ok hq
      rw [place_of_cwd hfound hcwd] at hlost
      cases hlost

theorem renameOrCopy_lost (hlost : w.place src = none)
    (h : renameOrCopy fuel src (absolutePath d) w = some (r, w')) :
    r ≠ .ok () ∧ SameFiles w w' := by
  rcases renameOrCopy_cases h with ⟨w2, hrename, _⟩ | ⟨hr, rfl⟩ | hcopy
  · obtain ⟨s, _, hs, _⟩ := rename_ok hrename
    rw [hlost] at hs
    cases hs
  · exact ⟨hr, fun _ => rfl⟩
  · have hlost' : w.met.place src = none := hlost
    rcases Io.bind_cases hcopy with ⟨e, he, rfl⟩ | ⟨_, w2, hok, _⟩
    · obtain ⟨e', he'⟩ := Io.withContext_error he
      exact ⟨by simp, Effect.of_met (copy_lost hlost' he').2⟩
    · exact absurd rfl (copy_lost hlost' (Io.withContext_ok.mp hok)).1

/-- After a copy that has succeeded, the files are at the new path whatever the removal of the
root does. -/
theorem copyAndRemove_files (hs : w.place src = some s) (hapart : Apart s d) (hdirs : InDirs s w)
    (h : copyAndRemove fuel src (absolutePath d) w = some (r, w')) (rel : Place) (c : OsText)
    (hc : content w.tree (s ++ rel) = some c) :
    content w'.tree (d ++ rel) = some c ∨ (r ≠ .ok () ∧ content w'.tree (s ++ rel) = some c) := by
  rcases Io.bind_cases h with ⟨e, he, rfl⟩ | ⟨_, w2, hcopy, h⟩
  · obtain ⟨e', he⟩ := Io.withContext_error he
    have hsame := sameBelow_of_within (keeps_copyDirRecursive fuel src d _ _ _ he) hapart
    refine Or.inr ⟨by simp, ?_⟩
    rw [content_eq_of_get (hsame _ (List.prefix_append _ _)), hc]
  have hcopied := Io.withContext_ok.mp hcopy
  have hwithin := keeps_copyDirRecursive fuel src d _ _ _ hcopied
  refine Or.inl ?_
  have hd2 := copyDirRecursive_copies hs hapart hdirs hcopied rel c hc
  rcases Io.bind_cases h with ⟨e, he, _⟩ | ⟨_, w3, hlayout, h⟩
  · rw [keeps_ensureStorageLayout _ _ _ _ he, hd2]
  · have hd3 : content w3.tree (d ++ rel) = some c := by
      rw [keeps_ensureStorageLayout _ _ _ _ hlayout, hd2]
    have hcwd : w3.cwd = w.cwd :=
      (keepsCwd_ensureStorageLayout _ _ _ _ hlayout).trans hwithin.cwd
    have hplace : ∀ q, w3.place src = some q → q = s := fun q hq =>
      Option.some.inj ((place_of_cwd hq hcwd).symm.trans hs)
    have hbeside : ¬ s <+: d ++ rel := fun hp =>
      (hapart.below hp).2 (List.prefix_append _ _)
    obtain ⟨r', hremove, _⟩ := Io.withContext_cases h
    rw [content_eq_of_get (removeDirAll_outside hremove hplace _ hbeside), hd3]

/-- The move of a root to a place beside it. -/
theorem renameOrCopy_files (hs : w.place src = some s) (hapart : Apart s d) (hdirs : InDirs s w)
    (h : renameOrCopy fuel src (absolutePath d) w = some (r, w')) (rel : Place) (c : OsText)
    (hc : content w.tree (s ++ rel) = some c) :
    content w'.tree (d ++ rel) = some c ∨ (r ≠ .ok () ∧ content w'.tree (s ++ rel) = some c) := by
  rcases renameOrCopy_cases h with ⟨w2, hrename, hlayout⟩ | ⟨hr, rfl⟩ | hcopy
  · obtain ⟨s', d', hs', hd', _, _, htree, _⟩ := rename_ok hrename
    obtain rfl := Option.some.inj (hs'.symm.trans hs)
    rw [place_absolutePath] at hd'
    obtain rfl := Option.some.inj hd'
    have hsne : s' ≠ [] := fun hnil => hapart.inside (hnil ▸ List.nil_prefix)
    have hdne : d ≠ [] := fun hnil => hapart.outside (hnil ▸ List.nil_prefix)
    refine Or.inl ?_
    rw [keeps_ensureStorageLayout _ _ _ _ hlayout, htree,
      content_move_under hsne hdne hapart.inside hapart.outside, hc]
  · exact Or.inr ⟨hr, hc⟩
  · exact copyAndRemove_files (w := w.met) hs hapart hdirs hcopy rel c hc

end Move

section Ends

variable {src : OsPath} {s d : Place} {w w1 : World} {fuel : Nat}

theorem ends_pathExists (p : OsPath) (w : World) : Io.Ends (pathExists p) w :=
  (Io.ends_query _ _).orElse false

theorem ends_dirNonempty (p : OsPath) (w : World) : Io.Ends (dirNonempty p) w := by
  refine (ends_pathExists p w).bind fun there w1 _ => ?_
  split_ifs
  · exact Io.ends_pure _ _
  · refine ((Io.ends_query _ w1).orElse false).bind fun directory w2 _ => ?_
    split_ifs
    · exact Io.ends_fail _ _
    · refine ((Io.ends_query _ w2).withContext _).bind fun names w3 _ => ?_
      exact (Io.ends_query _ w3).bind fun _ w4 _ => Io.ends_pure _ w4

theorem ends_clearDestination (dest : OsPath) (w : World) : Io.Ends (clearDestination dest) w := by
  refine (ends_pathExists dest w).bind fun there w1 _ => ?_
  split_ifs
  · refine (ends_dirNonempty dest w1).bind fun taken w2 _ => ?_
    split_ifs
    · exact Io.ends_fail _ _
    · exact (Io.ends_call _ _ _).withContext _
  · exact Io.ends_pure _ _

theorem ends_createParent (dest : OsPath) (w : World) : Io.Ends (createParent dest) w := by
  unfold createParent
  split
  · exact (Io.ends_call _ _ _).withContext _
  · exact Io.ends_pure _ _

theorem ends_ensureStorageLayout (root : OsPath) (w : World) :
    Io.Ends (ensureStorageLayout root) w := (Io.ends_call _ _ _).withContext _

/-- A move ends where the copy ends, if it comes to that. -/
theorem ends_renameOrCopy {dest : OsPath} (h : Io.Ends (copyDirRecursive fuel src dest) w.met) :
    Io.Ends (renameOrCopy fuel src dest) w := by
  refine (Io.ends_call _ _ _).attempt.bind fun r w1 hr => ?_
  have hrename := Io.attempt_ok.mp hr
  cases r with
  | ok u => exact ends_ensureStorageLayout dest w1
  | error e =>
    obtain rfl := Io.call_error hrename
    simp only
    split_ifs
    · refine (h.withContext _).bind fun _ w2 _ => ?_
      refine (ends_ensureStorageLayout dest w2).bind fun _ w3 _ => ?_
      exact (Io.ends_call _ _ _).withContext _
    · exact Io.ends_fail _ _

theorem ends_relocate (hw : Rooted w.tree) (hs : w.place src = some s) (hseen : SeesDestination w)
    (h : ∀ w1, Reached s d w w1 → Io.Ends (renameOrCopy fuel src (absolutePath d)) w1) :
    Io.Ends (relocateStorageRoot fuel src (absolutePath d)) w := by
  unfold relocateStorageRoot
  split_ifs
  · exact Io.ends_pure _ _
  refine (ends_pathExists src w).bind fun there wa hthere => ?_
  obtain ⟨rfl, there', hok, hfound⟩ := pathExists_cases hthere
  obtain rfl := Except.ok.inj hok
  split_ifs with hmissing
  · exact Io.ends_fail _ _
  obtain ⟨q, hq, hroot⟩ := hfound (eq_true_of_ne_false hmissing)
  obtain rfl := Option.some.inj (hq.symm.trans hs)
  refine (ends_clearDestination _ _).bind fun _ wb hclear => ?_
  refine (ends_createParent _ _).bind fun _ wc hparent => h wc ?_
  have hcleared : Cleared d w.met wb := clearDestination_cleared hw (free_of_sees hseen) hclear
  exact (hcleared.reached hroot hparent).of_met

/-- A copy of an empty directory, or of one that is not found any more, ends at once. -/
theorem ends_copy_bare
    (hbare : ∀ q, w.place src = some q → q = d ∧ ∀ n, get w.tree (d ++ [n]) = none) :
    Io.Ends (copyDirRecursive (fuel + 1) src (absolutePath d)) w := by
  refine ((Io.ends_call _ _ _).withContext _).bind fun _ w2 hmake => ?_
  have hmade := Io.withContext_ok.mp hmake
  have hmakes : Makes d w w2 := createDirAll_makes hmade fun q hq => by
    rw [place_absolutePath] at hq
    rw [Option.some.inj hq]
  refine ((Io.ends_query _ _).withContext _).bind fun names w3 hread => ?_
  have hread := Io.withContext_ok.mp hread
  obtain ⟨hact, _⟩ := Io.query_ok hread
  obtain ⟨q, hq, _⟩ := exceptBind_ok hact
  have hplace : w2.place src = some q := placeOf_ok hq
  obtain ⟨rfl, hnone⟩ := hbare q (place_of_cwd hplace hmakes.cwd)
  obtain ⟨_, rfl, _⟩ := readDir_ok hread hplace
  have hnil : children w2.tree q = [] := by
    refine List.eq_nil_iff_forall_not_mem.mpr fun n hn => ?_
    have hthere := mem_children.mp hn
    rw [hmakes.other _ fun hp => absurd hp.length_le (by simp), hnone n] at hthere
    cases hthere
  rw [hnil]
  exact (Io.ends_query _ _).bind fun _ w4 _ => Io.ends_pure () w4

/-- A tree is of some depth. -/
theorem exists_depth (t : Tree OsText OsText) :
    ∃ depth, ∀ q, (get t q).isSome = true → q.length < depth := by
  refine ⟨(t.map fun e => e.1.length).sum + 1, fun q hq => ?_⟩
  by_cases hnil : q = []
  · simp [hnil]
  · obtain ⟨e, he⟩ := Option.isSome_iff_exists.mp hq
    have hmem := List.mem_map_of_mem (f := fun e => e.1.length) (mem_of_get hnil he)
    exact Nat.lt_succ_of_le (List.le_sum_of_mem hmem)

end Ends

/-- A relocation that is not one into the root itself. -/
theorem relocated_of_fits {w : World} {src : OsPath} {s d : Place} (hw : Rooted w.tree)
    (hs : w.place src = some s) (hseen : SeesDestination w) (hfits : ¬ Swallows w src s d) :
    Relocated w src (absolutePath d) s d := by
  refine ⟨?_, fun fuel r w' h rel c hc => ?_⟩
  · obtain ⟨depth, hdepth⟩ := exists_depth w.tree
    refine ⟨depth + 1, ends_relocate hw hs hseen fun w1 hreached => ends_renameOrCopy ?_⟩
    rcases hreached.cases hs hfits with ⟨hapart, hplace⟩ | rfl | hlost
    · have hsame : SameBelow s w w1 := fun q hq => hreached.other q (hapart.below hq).1
      refine ends_copyDirRecursive (w := w1.met) hplace hapart ?_ fun q hq hthere => ?_
      · exact (congrArg Option.isSome (hsame s List.prefix_rfl)).trans hreached.there
      · have hold := (congrArg Option.isSome (hsame q hq)).symm.trans hthere
        have hlength := hdepth q hold
        omega
    · refine ends_copy_bare fun q hq => ?_
      have hplace : w1.place src = some q := hq
      rcases hreached.place hs with hfound | ⟨hlost, _⟩
      · refine ⟨Option.some.inj (hplace.symm.trans hfound), fun n => ?_⟩
        have hbelow : ¬ s ++ [n] <+: s := fun hp => absurd hp.length_le (by simp)
        exact (hreached.other _ hbelow).trans
          (none_of_not_occupied hreached.empty (List.prefix_append _ _) (by simp))
      · rw [hlost] at hplace
        cases hplace
    · refine ends_copy_bare fun q hq => ?_
      have hplace : w1.place src = some q := hq
      rw [hlost] at hplace
      cases hplace
  · by_cases heq : src = absolutePath d
    · rw [heq, place_absolutePath] at hs
      obtain rfl := Option.some.inj hs
      unfold relocateStorageRoot at h
      rw [if_pos heq] at h
      obtain ⟨_, rfl⟩ := Io.pure_run.mp h
      exact Or.inl hc
    rcases relocate_cases hw hs hseen heq h with ⟨hr, hsame⟩ | ⟨w1, hreached, hrun⟩
    · exact Or.inr ⟨hr, (hsame _).trans hc⟩
    have hc1 : content w1.tree (s ++ rel) = some c := (hreached.files _).trans hc
    rcases hreached.cases hs hfits with ⟨hapart, hplace⟩ | rfl | hlost
    · have hsame : SameBelow s w w1 := fun q hq => hreached.other q (hapart.below hq).1
      exact renameOrCopy_files hplace hapart ((inDirs_of_rooted hw s).of_same hsame) hrun rel c hc1
    · -- The root was an empty directory.
      have hfile := content_eq_some.mp hc
      by_cases hrel : s ++ rel = s
      · rw [hrel, hreached.way s List.prefix_rfl] at hc
        cases hc
      · rw [none_of_not_occupied hreached.empty (List.prefix_append _ _) hrel] at hfile
        cases hfile
    · obtain ⟨hr, hsame⟩ := renameOrCopy_lost hlost hrun
      exact Or.inr ⟨hr, (hsame _).trans hc1⟩

section Never

variable {src : OsPath} {s d : Place} {w w1 w2 : World}

/-- The operating system's answer to a rename from one device to another. -/
def crossDevice : Fault := ⟨18, none⟩

theorem pathIsDir_run {p : OsPath} {q : Place} (h : Free w w1) (hq : w1.place p = some q) :
    pathIsDir p w = some (.ok (isDir w1.tree q), w1) := by
  unfold pathIsDir Io.orElse
  rw [query_run h (by rw [placeOf_eq hq]; rfl)]

theorem removeDir_run {p : OsPath} {q : Place} (h : Free w w1) (hq : w1.place p = some q)
    (hdir : isDir w1.tree q = true) (hne : q ≠ []) (hempty : occupied w1.tree q = false) :
    removeDir p w = some (.ok (), { w1 with
      tree := erase w1.tree q
      cwd := w1.cwd.filter (· != q) }) := by
  refine call_run h ?_
  simp only [placeOf_eq hq, bind, Except.bind, entryAt_eq (isDir_iff.mp hdir), if_neg hne, hempty]
  rfl

/-- An empty destination is cleared in one call or in six. -/
theorem clearDestination_run (w : World) (fs : List (Option Fault)) (hne : d ≠ [])
    (hfile : content w.tree d = none) (hempty : occupied w.tree d = false) :
    ∃ calls t cwd, clearDestination (absolutePath d)
        { w with faults := List.replicate (calls + 1) none ++ fs } =
      some (.ok (), ⟨t, cwd, fs⟩) := by
  have hplace : ∀ w : World, w.place (absolutePath d) = some d := fun w => place_absolutePath w d
  by_cases hthere : (get w.tree d).isSome = true
  · have hdir := isDir_of_content_none hthere hfile
    have hnil : children w.tree d = [] := by
      refine List.eq_nil_iff_forall_not_mem.mpr fun n hn => ?_
      have hsome := mem_children.mp hn
      rw [none_of_not_occupied hempty (List.prefix_append _ _) (by simp)] at hsome
      cases hsome
    have hafter : ∀ (rest : List (Option Fault)),
        Free { w with faults := none :: rest } { w with faults := rest } := fun rest => ⟨rfl, rfl⟩
    refine ⟨5, erase w.tree d, w.cwd.filter (· != d), ?_⟩
    have hused : dirNonempty (absolutePath d)
        { w with faults := none :: none :: none :: none :: none :: fs } =
        some (.ok false, { w with faults := none :: fs }) := by
      have hread := readDir_run (hafter (none :: none :: fs)) (hplace _) hdir
      unfold dirNonempty
      rw [bind_run (pathExists_run (hafter _) (hplace _)), if_neg (by simp [hthere]),
        bind_run (pathIsDir_run (hafter _) (hplace _)), if_neg (by simp [hdir]),
        bind_run (withContext_run hread _)]
      simp only [hnil]
      rw [bind_run (nextEntry_run (hafter (none :: fs)) _)]
      rfl
    unfold clearDestination
    show (pathExists (absolutePath d) >>= _) { w with faults := none :: none :: none :: none ::
      none :: none :: fs } = _
    rw [bind_run (pathExists_run (hafter _) (hplace _)), if_pos hthere, bind_run hused,
      if_neg (by simp)]
    exact withContext_run (removeDir_run (hafter fs) (hplace _) hdir hne hempty) _
  · refine ⟨0, w.tree, w.cwd, ?_⟩
    have hfree : Free { w with faults := List.replicate 1 none ++ fs } { w with faults := fs } :=
      ⟨rfl, rfl⟩
    unfold clearDestination
    rw [bind_run (pathExists_run hfree (hplace _)), if_neg hthere]
    rfl

theorem withContext_none {α : Type} {m : Io α} (h : m w = none)
    (message : Text) : (m.withContext message) w = none := by
  unfold Io.withContext
  rw [h]

/-- A rename across devices into the root itself is followed by a copy without end. -/
theorem renameOrCopy_never (fuel : Nat) {t : Tree OsText OsText} {cwd : Option Place}
    (hrooted : Rooted t) (hs : World.place ⟨t, cwd, []⟩ src = some s) (hinside : s <+: d)
    (hproper : s ≠ d) (hgone : get t d = none) (habove : isDir t d.dropLast = true) :
    renameOrCopy fuel src (absolutePath d) ⟨t, cwd, [some crossDevice]⟩ = none := by
  have hnever : copyDirRecursive fuel src (absolutePath d) ⟨t, cwd, []⟩ = none :=
    nested_never_ends fuel ⟨rfl, hrooted⟩ hs hinside hproper ⟨hgone, habove⟩
  have hrename : (rename src (absolutePath d)).attempt ⟨t, cwd, [some crossDevice]⟩ =
      some (.ok (.error { code := some 18 }), ⟨t, cwd, []⟩) := rfl
  unfold renameOrCopy
  rw [bind_run hrename]
  exact bind_none (withContext_none hnever _)

/-- Where the destination is in the root, some outcome of the calls makes a relocation that
never ends. -/
theorem relocate_never (hw : Rooted w.tree) (hs : w.place src = some s)
    (h : Swallows w src s d) : ∃ faults, SeesDestination { w with faults := faults } ∧
      ∀ fuel, relocateStorageRoot fuel src (absolutePath d) { w with faults := faults } = none := by
  have hd : d ≠ [] := by
    intro h'
    obtain rfl := h'
    exact h.proper (List.prefix_nil.mp h.inside)
  have hfile := h.way d List.prefix_rfl
  obtain ⟨calls, t, cwd, hclear⟩ :=
    clearDestination_run w [none, some crossDevice] hd hfile h.empty
  have hcleared : Cleared d { w with
      faults := List.replicate (calls + 1) none ++ [none, some crossDevice] }
      ⟨t, cwd, [none, some crossDevice]⟩ := clearDestination_cleared hw ⟨rfl, rfl⟩ hclear
  have hup : d.dropLast <+: d := List.dropLast_prefix d
  have hway : ∀ r, r <+: d.dropLast → content t r = none := fun r hr =>
    (hcleared.files r).trans (h.way r (hr.trans hup))
  have hplace : World.place ⟨t, cwd, []⟩ src = some s := by
    by_cases habsolute : isAbsolute src = true
    · unfold World.place at hs ⊢
      rwa [if_pos habsolute] at hs ⊢
    · have hkept : cwd = w.cwd := by
        refine hcleared.cwd.trans ?_
        rcases h.named with hnamed | hcwd | hdir
        · exact absurd hnamed habsolute
        · exact filter_cwd fun _ => hcwd
        · exact filter_cwd fun hdir' => by simp [hdir] at hdir'
      exact place_of_cwd hs hkept.symm
  refine ⟨none :: (List.replicate (calls + 1) none ++ [none, some crossDevice]), ?_,
    fun fuel => ?_⟩
  · simp [SeesDestination, List.replicate_succ]
  have hproper : src ≠ absolutePath d := by
    intro heq
    rw [heq, place_absolutePath] at hs
    exact h.proper (Option.some.inj hs).symm
  have hsecond : Free ⟨t, cwd, [none, some crossDevice]⟩ ⟨t, cwd, [some crossDevice]⟩ := ⟨rfl, rfl⟩
  have hmake := createDirAll_run hsecond (place_absolutePath _ d.dropLast) hway
  have hgone : get (makeDirs t d.dropLast) d = none := by
    rw [get_makeDirs, if_neg fun hboth => ?_]
    · exact hcleared.gone
    · have hlength := hboth.1.length_le
      rw [List.length_dropLast] at hlength
      have := List.length_pos_of_ne_nil hd
      omega
  have hfirst : Free { w with
      faults := none :: (List.replicate (calls + 1) none ++ [none, some crossDevice]) }
      { w with faults := List.replicate (calls + 1) none ++ [none, some crossDevice] } :=
    ⟨rfl, rfl⟩
  unfold relocateStorageRoot
  rw [if_neg hproper, bind_run (pathExists_run hfirst hs), if_neg (by simp [h.there]),
    bind_run hclear, createParent_eq hd, bind_run (withContext_run hmake _)]
  exact renameOrCopy_never fuel (hcleared.rooted.makeDirs hway) hplace h.inside h.proper hgone
    (isDir_makeDirs (hway _ List.prefix_rfl))

end Never

/-- A relocation ends and keeps every file, whatever becomes of its calls, exactly when it is
not one into the root itself. The destination is an absolute path without `..`, as
`resolve_storage_path` makes it. -/
theorem relocation_keeps_files_iff (w : World) (src : OsPath) (s d : Place)
    (hw : Rooted w.tree) (hs : w.place src = some s) :
    (∀ faults, SeesDestination { w with faults := faults } →
        Relocated { w with faults := faults } src (absolutePath d) s d) ↔
      ¬ Swallows w src s d := by
  constructor
  · intro hall hswallows
    obtain ⟨faults, hseen, hnever⟩ := relocate_never hw hs hswallows
    obtain ⟨fuel, r, w', hrun⟩ := (hall faults hseen).ends
    rw [hnever fuel] at hrun
    cases hrun
  · intro hfits faults hseen
    refine relocated_of_fits (w := { w with faults := faults }) hw hs hseen fun h => hfits ?_
    exact ⟨h.inside, h.proper, h.there, h.way, h.empty, h.named⟩

/-- A storage root with a directory in it. -/
def rootWithMount : World where
  tree := [([osText "srv".toList], .dir), ([osText "srv".toList, osText "data".toList], .dir),
    ([osText "srv".toList, osText "data".toList, osText "a".toList], .file (osText "x".toList)),
    ([osText "srv".toList, osText "data".toList, osText "mnt".toList], .dir)]
  cwd := some [osText "srv".toList]
  faults := []

def dataRoot : Place := [osText "srv".toList, osText "data".toList]

theorem rooted_rootWithMount : Rooted rootWithMount.tree := ⟨by decide, by decide⟩

/-- A root is moved beside itself. -/
theorem relocation_keeps_files_iff_beside :
    (∀ faults, SeesDestination { rootWithMount with faults := faults } →
        Relocated { rootWithMount with faults := faults } (absolutePath dataRoot)
          (absolutePath [osText "new".toList]) dataRoot [osText "new".toList]) ↔
      ¬ Swallows rootWithMount (absolutePath dataRoot) dataRoot [osText "new".toList] :=
  relocation_keeps_files_iff rootWithMount (absolutePath dataRoot) dataRoot [osText "new".toList]
    rooted_rootWithMount rfl

/-- Another device is mounted in the root, and the destination is on it: the rename fails and
the copy never ends. -/
theorem relocation_into_mount_never_ends :
    Rooted rootWithMount.tree ∧
      ∀ fuel, relocateStorageRoot fuel (absolutePath dataRoot)
        (absolutePath (dataRoot ++ [osText "mnt".toList, osText "new".toList]))
        { rootWithMount with faults := [none, none, none, some crossDevice] } = none := by
  refine ⟨rooted_rootWithMount, fun fuel => ?_⟩
  have hmove : relocateStorageRoot fuel (absolutePath dataRoot)
      (absolutePath (dataRoot ++ [osText "mnt".toList, osText "new".toList]))
      { rootWithMount with faults := [none, none, none, some crossDevice] } =
      renameOrCopy fuel (absolutePath dataRoot)
        (absolutePath (dataRoot ++ [osText "mnt".toList, osText "new".toList]))
        { rootWithMount with faults := [some crossDevice] } := rfl
  rw [hmove]
  exact renameOrCopy_never fuel rooted_rootWithMount rfl (List.prefix_append _ _) (by decide) rfl
    rfl

end MyS3.MovedRoots
