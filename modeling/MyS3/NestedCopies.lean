import MyS3.TreeCopies

/-!
The recursive copy where no call fails for reasons from outside. Into a new directory beside
the source it ends with success or needs more fuel; into a new directory inside the source no
fuel is enough, because the copy of each directory on the way is a copy into itself again.
-/

namespace MyS3.NestedCopies

open Library.OsPaths Library.FileTree Library.FileCalls
open Relocate TreeCopies

/-- No call meets a failure from outside. -/
structure Calm (w : World) : Prop where
  faults : w.faults = []
  rooted : Rooted w.tree

/-- Nothing is changed but below a place. -/
structure Grows (d : Place) (w w' : World) : Prop where
  calm : Calm w'
  cwd : w'.cwd = w.cwd
  other : ∀ q, ¬ d <+: q → get w'.tree q = get w.tree q

section Calls

variable {α β : Type} {w w1 w2 : World} {p src dest : OsPath} {s d q : Place}

/-- The next call meets no failure from outside, and starts at the second world. -/
structure Free (w w1 : World) : Prop where
  fault : w.faults.head?.join = none
  met : w.met = w1

theorem Calm.free (h : Calm w) : Free w w := by
  obtain ⟨tree, cwd, faults⟩ := w
  have hnil : faults = [] := h.faults
  rw [hnil]
  exact ⟨rfl, rfl⟩

theorem bind_run {m : Io α} {f : α → Io β} {a : α} (h : m w = some (.ok a, w1)) :
    (m >>= f) w = f a w1 := by
  simp only [bind, Io.andThen, h]

theorem bind_none {m : Io α} {f : α → Io β} (h : m w = none) : (m >>= f) w = none := by
  simp only [bind, Io.andThen, h]

theorem withContext_run {m : Io α} {a : α} (h : m w = some (.ok a, w1))
    (message : Library.Strings.Text) : (m.withContext message) w = some (.ok a, w1) := by
  unfold Io.withContext
  rw [h]

theorem call_run {act : World → Except Int (α × World)} {part : Nat → World → World} {a : α}
    (h : Free w w1) (hact : act w1 = .ok (a, w2)) : Io.call act part w = some (.ok a, w2) := by
  have hfault := h.fault
  unfold Io.call
  split
  · rename_i f hf
    rw [hf] at hfault
    cases hfault
  · rw [h.met, hact]

theorem query_run {act : World → Except Int α} {a : α} (h : Free w w1) (hact : act w1 = .ok a) :
    Io.query act w = some (.ok a, w1) :=
  call_run h (by rw [hact]; rfl)

theorem nextEntry_run (h : Free w w1) (names : List OsText) :
    nextEntry names w = some (.ok names.head?, w1) := query_run h rfl

theorem entryAt_eq {e : Entry OsText} (h : get w.tree q = some e) : entryAt w q = .ok e := by
  unfold entryAt
  rw [h]

theorem readDir_run (h : Free w w1) (hq : w1.place p = some q) (hdir : isDir w1.tree q = true) :
    readDir p w = some (.ok (children w1.tree q), w1) := by
  refine query_run h ?_
  rw [placeOf_eq hq]
  simp only [bind, Except.bind, entryAt_eq (isDir_iff.mp hdir)]

theorem entryIsDir_run (h : Free w w1) (hq : w1.place p = some q)
    (hthere : (get w1.tree q).isSome = true) :
    entryIsDir p w = some (.ok (isDir w1.tree q), w1) := by
  obtain ⟨e, he⟩ := Option.isSome_iff_exists.mp hthere
  refine query_run h ?_
  rw [placeOf_eq hq]
  unfold isDir
  cases e with
  | dir => simp only [bind, Except.bind, entryAt_eq he, he]
  | file c => simp only [bind, Except.bind, entryAt_eq he, he]

theorem createDirAll_run (h : Free w w1) (hq : w1.place p = some q)
    (hway : ∀ r, r <+: q → content w1.tree r = none) :
    createDirAll p w = some (.ok (), { w1 with tree := makeDirs w1.tree q }) := by
  refine call_run h ?_
  have hany : (q.inits.any fun r => (content w1.tree r).isSome) = false := by
    rw [List.any_eq_false]
    intro r hr
    rw [hway r ((List.mem_inits r q).mp hr)]
    simp
  simp only [placeOf_eq hq, bind, Except.bind, hway q List.prefix_rfl, hany]
  rfl

theorem copyFile_run {c : OsText} (h : Free w w1) (hs : w1.place src = some s)
    (hd : w1.place dest = some d) (hc : content w1.tree s = some c)
    (hfree : isDir w1.tree d = false) (habove : isDir w1.tree d.dropLast = true) :
    copyFile src dest w = some (.ok (), { w1 with tree := put w1.tree d (.file c) }) := by
  refine call_run h ?_
  simp only [placeOf_eq hs, placeOf_eq hd, bind, Except.bind,
    entryAt_eq (content_eq_some.mp hc), putFile, hfree, habove]
  rfl

end Calls

section Loop

variable {copyDir : OsPath → OsPath → Io Unit} {src : OsPath} {s d : Place} {w w' w1 : World}
  {n : OsText} {names : List OsText} {r : Except Failure Unit}

theorem Grows.refl (h : Calm w) : Grows d w w := ⟨h, rfl, fun _ _ => rfl⟩

theorem Grows.trans (h : Grows d w w1) (h' : Grows d w1 w') : Grows d w w' :=
  ⟨h'.calm, h'.cwd.trans h.cwd, fun q hq => (h'.other q hq).trans (h.other q hq)⟩

theorem Grows.mono {d' : Place} (h : Grows d' w w') (hd : d <+: d') : Grows d w w' :=
  ⟨h.calm, h.cwd, fun q hq => h.other q fun hd' => hq (hd.trans hd')⟩

/-- The loop can go on: the entries that are left are in the source, and not in the copy. -/
structure Ready (src : OsPath) (s d : Place) (names : List OsText) (w : World) : Prop where
  calm : Calm w
  place : w.place src = some s
  directory : isDir w.tree d = true
  left : ∀ m ∈ names, (get w.tree (s ++ [m])).isSome = true ∧ get w.tree (d ++ [m]) = none
  distinct : names.Nodup

theorem not_prefix_entry (hds : ¬ d <+: s) (n m : OsText) : ¬ d ++ [n] <+: s ++ [m] := by
  intro h
  rcases List.prefix_concat_iff.mp h with heq | hbelow
  · exact hds ((List.append_inj' heq rfl).1 ▸ List.prefix_rfl)
  · exact hds ((List.prefix_append _ _).trans hbelow)

theorem Ready.next (h : Ready src s d (n :: names) w) (hds : ¬ d <+: s)
    (hgrows : Grows (d ++ [n]) w w1) : Ready src s d names w1 := by
  refine ⟨hgrows.calm, place_of_cwd h.place hgrows.cwd.symm, ?_, fun m hm => ⟨?_, ?_⟩,
    (List.nodup_cons.mp h.distinct).2⟩
  · rw [isDir_eq_of_get (hgrows.other d fun hp => absurd hp.length_le (by simp))]
    exact h.directory
  · rw [hgrows.other _ (not_prefix_entry hds n m)]
    exact (h.left m (List.mem_cons_of_mem _ hm)).1
  · rw [hgrows.other _ fun hp => ?_]
    · exact (h.left m (List.mem_cons_of_mem _ hm)).2
    · rw [List.prefix_append_right_inj, List.cons_prefix_cons] at hp
      exact (List.nodup_cons.mp h.distinct).1 (hp.1 ▸ hm)

/-- What the copy of a directory in the loop does, in a calm world. -/
def CopyGrows (copyDir : OsPath → OsPath → Io Unit) (src : OsPath) (s d : Place) (n : OsText) :
    Prop :=
  ∀ w r w', Calm w → w.place src = some s → isDir w.tree (s ++ [n]) = true →
    isDir w.tree d = true → get w.tree (d ++ [n]) = none →
    copyDir (join src [.name n]) (absolutePath (d ++ [n])) w = some (r, w') →
    r = .ok () ∧ Grows (d ++ [n]) w w'

theorem isDir_false_of_none {t : Tree OsText OsText} {q : Place} (h : get t q = none) :
    isDir t q = false := by
  unfold isDir
  rw [h]

theorem copyEntries_cons (h : Ready src s d (n :: names) w) :
    copyEntries copyDir src (absolutePath d) (n :: names) w =
      if isDir w.tree (s ++ [n]) = true then
        (copyDir (join src [.name n]) (absolutePath (d ++ [n])) >>= fun _ =>
          copyEntries copyDir src (absolutePath d) names) w
      else
        ((copyFile (join src [.name n]) (absolutePath (d ++ [n]))).withContext
            ("copy file ".toList ++ arrow (join src [.name n]) (absolutePath (d ++ [n]))) >>=
          fun _ => copyEntries copyDir src (absolutePath d) names) w := by
  have hplace : w.place (join src [.name n]) = some (s ++ [n]) := by
    rw [place_name, h.place, Option.map_some]
  have hrun := entryIsDir_run h.calm.free hplace (h.left n List.mem_cons_self).1
  rw [copyEntries, bind_run (nextEntry_run h.calm.free _), bind_run hrun, join_absolutePath]
  split_ifs with hdir
  · rfl
  · rfl

/-- One step of the loop. -/
theorem copyEntries_step (hcopy : CopyGrows copyDir src s d n) (h : Ready src s d (n :: names) w)
    (hrun : copyEntries copyDir src (absolutePath d) (n :: names) w = some (r, w')) :
    ∃ w1, Grows (d ++ [n]) w w1 ∧
      copyEntries copyDir src (absolutePath d) names w1 = some (r, w') := by
  obtain ⟨hthere, hfresh⟩ := h.left n List.mem_cons_self
  rw [copyEntries_cons h] at hrun
  split_ifs at hrun with hdir
  · cases hdirectory : copyDir (join src [.name n]) (absolutePath (d ++ [n])) w with
    | none =>
      rw [bind_none hdirectory] at hrun
      cases hrun
    | some run =>
      obtain ⟨r1, w1⟩ := run
      obtain ⟨rfl, hgrows⟩ := hcopy w r1 w1 h.calm h.place hdir h.directory hfresh hdirectory
      rw [bind_run hdirectory] at hrun
      exact ⟨w1, hgrows, hrun⟩
  · obtain ⟨c, hc⟩ : ∃ c, content w.tree (s ++ [n]) = some c := by
      by_contra hnone
      refine hdir (isDir_of_content_none hthere ?_)
      exact Option.eq_none_iff_forall_ne_some.mpr fun c hc => hnone ⟨c, hc⟩
    have hplace : w.place (join src [.name n]) = some (s ++ [n]) := by
      rw [place_name, h.place, Option.map_some]
    have habove : isDir w.tree (d ++ [n]).dropLast = true := by
      rw [List.dropLast_concat]
      exact h.directory
    have hfile := copyFile_run h.calm.free hplace (place_absolutePath w (d ++ [n])) hc
      (isDir_false_of_none hfresh) habove
    rw [bind_run (withContext_run hfile _)] at hrun
    refine ⟨{ w with tree := put w.tree (d ++ [n]) (.file c) },
      ⟨⟨h.calm.faults, ?_⟩, rfl, fun q hq => ?_⟩, hrun⟩
    · exact h.calm.rooted.put (by simp) habove (isDir_false_of_none hfresh)
    · exact get_put_other fun heq => hq (heq ▸ List.prefix_rfl)

/-- The loop adds to the copy only, and does not fail. -/
theorem copyEntries_grows (hcopy : ∀ n ∈ names, CopyGrows copyDir src s d n) (hds : ¬ d <+: s)
    (h : Ready src s d names w)
    (hrun : copyEntries copyDir src (absolutePath d) names w = some (r, w')) :
    r = .ok () ∧ Grows d w w' := by
  induction names generalizing w with
  | nil =>
    rw [copyEntries, bind_run (nextEntry_run h.calm.free _)] at hrun
    obtain ⟨rfl, rfl⟩ := Io.pure_run.mp hrun
    exact ⟨rfl, Grows.refl h.calm⟩
  | cons n rest ih =>
    obtain ⟨w1, hgrows, hrun⟩ := copyEntries_step (hcopy n List.mem_cons_self) h hrun
    obtain ⟨hok, hrest⟩ := ih (fun m hm => hcopy m (List.mem_cons_of_mem _ hm))
      (h.next hds hgrows) hrun
    exact ⟨hok, (hgrows.mono (List.prefix_append _ _)).trans hrest⟩

/-- The loop does not end where the copy of one of the directories does not. -/
theorem copyEntries_never (hn : n ∈ names)
    (hcopy : ∀ m ∈ names, m ≠ n → CopyGrows copyDir src s d m) (hds : ¬ d <+: s)
    (h : Ready src s d names w) (hdir : isDir w.tree (s ++ [n]) = true)
    (hnever : ∀ w, Calm w → w.place src = some s → isDir w.tree d = true →
      get w.tree (d ++ [n]) = none →
      copyDir (join src [.name n]) (absolutePath (d ++ [n])) w = none) :
    copyEntries copyDir src (absolutePath d) names w = none := by
  induction names generalizing w with
  | nil => cases hn
  | cons m rest ih =>
    by_cases heq : m = n
    · subst heq
      rw [copyEntries_cons h, if_pos hdir]
      exact bind_none (hnever w h.calm h.place h.directory (h.left m List.mem_cons_self).2)
    · by_contra hends
      obtain ⟨⟨r, w'⟩, hrun⟩ := Option.ne_none_iff_exists'.mp hends
      obtain ⟨w1, hgrows, hrun⟩ := copyEntries_step (hcopy m List.mem_cons_self heq) h hrun
      have hdir1 : isDir w1.tree (s ++ [n]) = true := by
        rw [isDir_eq_of_get (hgrows.other _ (not_prefix_entry hds m n))]
        exact hdir
      rw [ih ((List.mem_cons.mp hn).resolve_left (Ne.symm heq))
        (fun k hk => hcopy k (List.mem_cons_of_mem _ hk)) (h.next hds hgrows) hdir1] at hrun
      cases hrun

end Loop

section Nested

variable {src : OsPath} {s d : Place} {w : World}

/-- The place of a new directory, in a directory. -/
structure Fresh (d : Place) (w : World) : Prop where
  gone : get w.tree d = none
  above : isDir w.tree d.dropLast = true

theorem Fresh.isDir_prefix (h : Fresh d w) (hw : Rooted w.tree) {r : Place} (hr : r <+: d)
    (hne : r ≠ d) : isDir w.tree r = true := by
  have hnames : d ≠ [] := by
    intro h'
    obtain rfl := h'
    cases h.gone
  rw [← List.dropLast_append_getLast hnames] at hr hne
  have hup := (List.prefix_concat_iff.mp hr).resolve_left hne
  by_cases hlast : r = d.dropLast
  · rw [hlast]
    exact h.above
  · exact hw.isDir_above (isSome_of_isDir h.above) hup hlast

/-- No file is on the way to a new directory. -/
theorem Fresh.way (h : Fresh d w) (hw : Rooted w.tree) (r : Place) (hr : r <+: d) :
    content w.tree r = none := by
  unfold content
  by_cases heq : r = d
  · rw [heq, h.gone]
  · rw [isDir_iff.mp (h.isDir_prefix hw hr heq)]

/-- The destination has been made, and the loop over the entries of the source begins. -/
structure Begun (src : OsPath) (s d : Place) (w w1 : World) : Prop where
  grows : Grows d w w1
  directory : isDir w1.tree s = true
  ready : Ready src s d (children w1.tree s) w1

theorem copyDirRecursive_succ (fuel : Nat) (hcalm : Calm w) (hs : w.place src = some s)
    (hds : ¬ d <+: s) (hdir : isDir w.tree s = true) (hfresh : Fresh d w) :
    ∃ w1, Begun src s d w w1 ∧ copyDirRecursive (fuel + 1) src (absolutePath d) w =
      copyEntries (copyDirRecursive fuel) src (absolutePath d) (children w1.tree s) w1 := by
  have hway := hfresh.way hcalm.rooted
  have hmake := createDirAll_run hcalm.free (place_absolutePath w d) hway
  have hgrows : Grows d w { w with tree := makeDirs w.tree d } := by
    refine ⟨⟨hcalm.faults, hcalm.rooted.makeDirs hway⟩, rfl, fun q hq => ?_⟩
    rw [get_makeDirs, if_neg]
    intro h
    obtain ⟨hup, hnone⟩ := h
    have hdir := hfresh.isDir_prefix hcalm.rooted hup fun heq => hq (heq ▸ List.prefix_rfl)
    rw [isDir_iff, hnone] at hdir
    cases hdir
  have hdir1 : isDir (makeDirs w.tree d) s = true := by
    rw [isDir_eq_of_get (hgrows.other s hds)]
    exact hdir
  have hs1 : World.place { w with tree := makeDirs w.tree d } src = some s :=
    place_of_cwd hs hgrows.cwd.symm
  refine ⟨_, ⟨hgrows, hdir1, ⟨hgrows.calm, hs1, isDir_makeDirs (hway d List.prefix_rfl),
    fun m hm => ⟨mem_children.mp hm, ?_⟩, hgrows.calm.rooted.nodup_children s⟩⟩, ?_⟩
  · rw [get_makeDirs, if_neg fun hboth => absurd hboth.1.length_le (by simp)]
    exact hcalm.rooted.none_below hfresh.gone (List.prefix_append _ _)
  · rw [copyDirRecursive, bind_run (withContext_run hmake _),
      bind_run (withContext_run (readDir_run hgrows.calm.free hs1 hdir1) _)]

/-- Into a new directory beside the source, a copy that ends has succeeded. -/
theorem copyGrows_apart (fuel : Nat) (src : OsPath) (s d : Place) (n : OsText)
    (hapart : Apart (s ++ [n]) (d ++ [n])) : CopyGrows (copyDirRecursive fuel) src s d n := by
  induction fuel generalizing src s d n with
  | zero =>
    intro w r w' _ _ _ _ _ hrun
    cases hrun
  | succ fuel ih =>
    intro w r w' hcalm hs hdir hd hgone hrun
    have hplace : w.place (join src [.name n]) = some (s ++ [n]) := by
      rw [place_name, hs, Option.map_some]
    obtain ⟨w1, hbegun, heq⟩ := copyDirRecursive_succ fuel hcalm hplace hapart.outside hdir
      ⟨hgone, by rw [List.dropLast_concat]; exact hd⟩
    rw [heq] at hrun
    obtain ⟨hok, hloop⟩ := copyEntries_grows (fun m _ => ih _ _ _ m
      (hapart.extend (List.prefix_append _ _) (List.prefix_append _ _))) hapart.outside
      hbegun.ready hrun
    exact ⟨hok, hbegun.grows.trans hloop⟩

/-- Into a new directory inside the source, a copy never ends. -/
theorem nested_never_ends (fuel : Nat) (hcalm : Calm w) (hs : w.place src = some s)
    (hinside : s <+: d) (hne : s ≠ d) (hfresh : Fresh d w) :
    copyDirRecursive fuel src (absolutePath d) w = none := by
  induction fuel generalizing src s d w with
  | zero => rfl
  | succ fuel ih =>
    obtain ⟨rest, rfl⟩ := hinside
    cases rest with
    | nil => exact absurd (List.append_nil s).symm hne
    | cons n rest =>
      have hds : ¬ s ++ n :: rest <+: s := fun hp => absurd hp.length_le (by simp)
      have hdir := hfresh.isDir_prefix hcalm.rooted (List.prefix_append _ _) hne
      obtain ⟨w1, hbegun, heq⟩ := copyDirRecursive_succ fuel hcalm hs hds hdir hfresh
      rw [heq]
      have hentry : isDir w1.tree (s ++ [n]) = true := by
        have hmade := hbegun.ready.directory
        by_cases hlast : s ++ [n] = s ++ n :: rest
        · rw [hlast]
          exact hmade
        · exact hbegun.grows.calm.rooted.isDir_above (isSome_of_isDir hmade)
            ⟨rest, by simp⟩ hlast
      refine copyEntries_never (n := n) (mem_children.mpr (isSome_of_isDir hentry))
        (fun m _ hm => copyGrows_apart fuel _ _ _ m ⟨fun hp => ?_, fun hp => ?_⟩) hds
        hbegun.ready hentry fun w2 hcalm2 hs2 hd2 hgone2 => ?_
      · rw [List.append_assoc, List.prefix_append_right_inj, List.cons_append,
          List.cons_prefix_cons] at hp
        exact hm hp.1
      · exact absurd hp.length_le (by simp)
      · have hplace : w2.place (join src [.name n]) = some (s ++ [n]) := by
          rw [place_name, hs2, Option.map_some]
        refine ih hcalm2 hplace ?_ ?_ ⟨hgone2, by rw [List.dropLast_concat]; exact hd2⟩
        · exact ⟨rest ++ [n], by simp⟩
        · intro heq'
          have hlength := congrArg List.length heq'
          simp at hlength

end Nested

end MyS3.NestedCopies
