import MyS3.Library.FileCalls

/-!
What a computation does to the tree, however it ends: the effects of the file calls, and
computations that end.
-/

namespace Library.FileCalls

open Library.Strings Library.OsPaths Library.FileTree

/-- Nothing is changed. -/
structure Same (w w' : World) : Prop where
  tree : w'.tree = w.tree
  cwd : w'.cwd = w.cwd

/-- No file is changed. -/
def SameFiles (w w' : World) : Prop := ∀ q, content w'.tree q = content w.tree q

/-- Nothing is changed but that directories are made on the way to a place. -/
structure Makes (d : Place) (w w' : World) : Prop where
  cwd : w'.cwd = w.cwd
  other : ∀ q, ¬ q <+: d → get w'.tree q = get w.tree q
  files : SameFiles w w'

/-- Nothing is changed but at a place. -/
structure Writes (d : Place) (w w' : World) : Prop where
  cwd : w'.cwd = w.cwd
  other : ∀ q, q ≠ d → get w'.tree q = get w.tree q

/-- Nothing is changed but below a place, and that directories are made on the way to it. -/
structure Within (d : Place) (w w' : World) : Prop where
  cwd : w'.cwd = w.cwd
  other : ∀ q, ¬ q <+: d → ¬ d <+: q → get w'.tree q = get w.tree q
  files : ∀ q, ¬ d <+: q → content w'.tree q = content w.tree q

/-- Nothing is changed but below a place, where the working directory may be. -/
def Outside (s : Place) (w w' : World) : Prop := ∀ q, ¬ s <+: q → get w'.tree q = get w.tree q

/-- A file stays where it is, with some content. -/
def KeepsFile (q : Place) (w w' : World) : Prop :=
  (content w.tree q).isSome = true → (content w'.tree q).isSome = true

instance (q : Place) : Effect (KeepsFile q) where
  same htree _ h := by rw [htree]; exact h
  trans h h' hw := h' (h hw)

instance (s : Place) : Effect (Outside s) where
  same htree _ q _ := by rw [htree]
  trans h h' q hq := (h' q hq).trans (h q hq)

instance : Effect Same where
  same htree hcwd := ⟨htree, hcwd⟩
  trans h h' := ⟨h'.tree.trans h.tree, h'.cwd.trans h.cwd⟩

instance : Effect SameFiles where
  same htree _ q := by rw [htree]
  trans h h' q := (h' q).trans (h q)

instance (d : Place) : Effect (Makes d) where
  same htree hcwd := ⟨hcwd, fun q _ => by rw [htree], fun q => by rw [htree]⟩
  trans h h' := ⟨h'.cwd.trans h.cwd, fun q hq => (h'.other q hq).trans (h.other q hq),
    fun q => (h'.files q).trans (h.files q)⟩

instance (d : Place) : Effect (Writes d) where
  same htree hcwd := ⟨hcwd, fun q _ => by rw [htree]⟩
  trans h h' := ⟨h'.cwd.trans h.cwd, fun q hq => (h'.other q hq).trans (h.other q hq)⟩

instance (d : Place) : Effect (Within d) where
  same htree hcwd := ⟨hcwd, fun q _ _ => by rw [htree], fun q _ => by rw [htree]⟩
  trans h h' := ⟨h'.cwd.trans h.cwd,
    fun q hup hdown => (h'.other q hup hdown).trans (h.other q hup hdown),
    fun q hq => (h'.files q hq).trans (h.files q hq)⟩

theorem Makes.within {d q : Place} {w w' : World} (h : Makes q w w')
    (hq : q <+: d ∨ d <+: q) : Within d w w' := by
  refine ⟨h.cwd, fun r hup hdown => h.other r fun hr => ?_, fun r _ => h.files r⟩
  rcases hq with hqd | hdq
  · exact hup (hr.trans hqd)
  · exact (List.prefix_or_prefix_of_prefix hr hdq).elim hup hdown

theorem Writes.within {d q : Place} {w w' : World} (h : Writes q w w') (hq : d <+: q) :
    Within d w w' :=
  ⟨h.cwd, fun r _ hdown => h.other r fun heq => hdown (heq ▸ hq),
    fun r hdown => content_eq_of_get (h.other r fun heq => hdown (heq ▸ hq))⟩

theorem Within.mono {d q : Place} {w w' : World} (h : Within q w w') (hq : d <+: q) :
    Within d w w' := by
  refine ⟨h.cwd, fun r hup hdown => h.other r ?_ ?_, fun r hdown => h.files r ?_⟩
  · intro hr
    exact (List.prefix_or_prefix_of_prefix hr hq).elim hup hdown
  · exact fun hr => hdown (hq.trans hr)
  · exact fun hr => hdown (hq.trans hr)

namespace Io

variable {α β : Type}

theorem withContext_error {m : Io α} {message : Text} {e : Failure} {w w' : World}
    (h : m.withContext message w = some (.error e, w')) : ∃ e', m w = some (.error e', w') := by
  unfold Io.withContext at h
  split at h
  · rename_i e' w1 hm
    simp only [Option.some.injEq, Prod.mk.injEq] at h
    exact ⟨e', h.2 ▸ hm⟩
  · exact ⟨e, h⟩

theorem bind_cases {m : Io α} {f : α → Io β} {r : Except Failure β} {w w' : World}
    (h : (m >>= f) w = some (r, w')) :
    (∃ e, m w = some (.error e, w') ∧ r = .error e) ∨
      ∃ a w1, m w = some (.ok a, w1) ∧ f a w1 = some (r, w') := by
  simp only [bind, andThen] at h
  split at h
  · cases h
  · rename_i e w1 hm
    simp only [Option.some.injEq, Prod.mk.injEq] at h
    exact Or.inl ⟨e, h.2 ▸ hm, h.1.symm⟩
  · rename_i a w1 hm
    exact Or.inr ⟨a, w1, hm, h⟩

theorem withContext_cases {m : Io α} {message : Text} {r : Except Failure α} {w w' : World}
    (h : m.withContext message w = some (r, w')) :
    ∃ r', m w = some (r', w') ∧ ∀ a, r = .ok a → r' = .ok a := by
  cases r with
  | error e =>
    obtain ⟨e', he⟩ := withContext_error h
    exact ⟨_, he, fun a ha => by cases ha⟩
  | ok a => exact ⟨_, withContext_ok.mp h, fun _ ha => ha⟩

section Ends

variable {m : Io α} {w : World}

/-- A computation ends, with a result or with an error. -/
def Ends (m : Io α) (w : World) : Prop := ∃ r w', m w = some (r, w')

theorem ends_pure (a : α) (w : World) : Ends (pure a : Io α) w := ⟨_, _, rfl⟩

theorem ends_fail (e : Failure) (w : World) : Ends (fail e : Io α) w := ⟨_, _, rfl⟩

theorem ends_call (act : World → Except Int (α × World)) (part : Nat → World → World) (w : World) :
    Ends (call act part) w := by
  unfold Ends call
  split
  · exact ⟨_, _, rfl⟩
  · split
    · exact ⟨_, _, rfl⟩
    · exact ⟨_, _, rfl⟩

theorem ends_query (act : World → Except Int α) (w : World) : Ends (query act) w :=
  ends_call _ _ w

theorem Ends.bind {f : α → Io β} (hm : Ends m w)
    (hf : ∀ a w1, m w = some (.ok a, w1) → Ends (f a) w1) : Ends (m >>= f) w := by
  obtain ⟨r, w1, hm⟩ := hm
  unfold Ends
  simp only [Bind.bind, andThen, hm]
  cases r with
  | error e => exact ⟨_, _, rfl⟩
  | ok a => exact hf a w1 hm

theorem Ends.withContext (hm : Ends m w) (message : Text) : Ends (m.withContext message) w := by
  obtain ⟨r, w1, hm⟩ := hm
  unfold Ends Io.withContext
  rw [hm]
  cases r with
  | error e => exact ⟨_, _, rfl⟩
  | ok a => exact ⟨_, _, rfl⟩

theorem Ends.attempt (hm : Ends m w) : Ends m.attempt w := by
  obtain ⟨r, w1, hm⟩ := hm
  unfold Ends Io.attempt
  rw [hm]
  exact ⟨_, _, rfl⟩

theorem Ends.orElse (hm : Ends m w) (a : α) : Ends (m.orElse a) w := by
  obtain ⟨r, w1, hm⟩ := hm
  unfold Ends Io.orElse
  rw [hm]
  cases r with
  | error e => exact ⟨_, _, rfl⟩
  | ok b => exact ⟨_, _, rfl⟩

end Ends

end Io

theorem isAbsolute_absolutePath (names : Place) : isAbsolute (absolutePath names) = true := rfl

theorem place_absolutePath (w : World) (names : Place) :
    w.place (absolutePath names) = some names := by
  unfold World.place
  rw [if_pos (isAbsolute_absolutePath names), resolve_absolutePath]

theorem join_absolutePath (names : Place) (n : OsText) :
    join (absolutePath names) [.name n] = absolutePath (names ++ [n]) := by
  simp [join, isAbsolute, absolutePath]

/-- A name in a directory is at the place of the directory, followed by the name. -/
theorem place_name (w : World) (p : OsPath) (n : OsText) :
    w.place (join p [.name n]) = (w.place p).map (· ++ [n]) := by
  have hjoin : join p [.name n] = p ++ [.name n] := rfl
  have habsolute : isAbsolute (p ++ [.name n]) = isAbsolute p := by
    cases p with
    | nil => rfl
    | cons c rest => rfl
  have hresolve : ∀ dir, resolve dir (p ++ [.name n]) = resolve dir p ++ [n] := by
    intro dir
    unfold resolve
    rw [List.foldl_append]
    rfl
  unfold World.place
  rw [hjoin, habsolute]
  split_ifs
  · rw [hresolve, Option.map_some]
  · rw [Option.map_map]
    exact congrArg (fun f => Option.map f w.cwd) (funext hresolve)

theorem createDirAll_makes {p : OsPath} {d : Place} {w w' : World} {r : Except Failure Unit}
    (h : createDirAll p w = some (r, w')) (hd : ∀ q, w.place p = some q → q <+: d) :
    Makes d w w' := by
  refine Io.keeps_call h (fun a hact => ?_) fun n => ?_
  · obtain ⟨q, hq, hact⟩ := exceptBind_ok hact
    split_ifs at hact
    simp only [Except.ok.injEq, Prod.mk.injEq] at hact
    rw [← hact.2]
    refine ⟨rfl, fun r hr => ?_, content_makeDirs _ _⟩
    rw [get_makeDirs, if_neg fun hboth => hr (hboth.1.trans (hd q (placeOf_ok hq)))]
  · unfold atPlace
    cases hq : w.met.place p with
    | none => exact Effect.same rfl rfl
    | some q =>
      refine ⟨rfl, fun r hr => ?_, content_foldl_makeDir _ _⟩
      have hprefix : r ∉ q.inits.take n := fun hmem =>
        hr (((List.mem_inits r q).mp (List.mem_of_mem_take hmem)).trans (hd q hq))
      simp only [Option.elim_some]
      rw [get_foldl_makeDir, if_neg fun hboth => hprefix hboth.1]

theorem keeps_createDirAll (p : OsPath) : Io.Keeps SameFiles (createDirAll p) := by
  intro w r w' h
  cases hq : w.place p with
  | none => exact (createDirAll_makes (d := []) h (by simp [hq])).files
  | some q => exact (createDirAll_makes (d := q) h (by simp [hq])).files

theorem putFile_writes {d : Place} {c : OsText} {w w' : World} {u : Unit}
    (h : putFile w d c = .ok (u, w')) : Writes d w w' := by
  obtain ⟨_, hcwd, htree⟩ := putFile_ok h
  exact ⟨hcwd, fun q hq => by rw [htree, get_put_other hq]⟩

theorem putPart_writes (d : Place) (c : OsText) (w : World) : Writes d w (putPart w d c) := by
  unfold putPart
  split
  · rename_i h
    exact putFile_writes h
  · exact Effect.same rfl rfl

theorem copyFile_writes {src dest : OsPath} {d : Place} {w w' : World} {r : Except Failure Unit}
    (h : copyFile src dest w = some (r, w')) (hd : ∀ q, w.place dest = some q → q = d) :
    Writes d w w' := by
  refine Io.keeps_call h (fun a hact => ?_) fun n => ?_
  · obtain ⟨s, _, hact⟩ := exceptBind_ok hact
    obtain ⟨q, hq, hact⟩ := exceptBind_ok hact
    obtain ⟨e, _, hact⟩ := exceptBind_ok hact
    rw [← hd q (placeOf_ok hq)]
    cases e with
    | dir => cases hact
    | file c => exact putFile_writes hact
  · unfold atPlace
    cases w.met.place src with
    | none => exact Effect.same rfl rfl
    | some s =>
      cases hq : w.met.place dest with
      | none => exact Effect.same rfl rfl
      | some q =>
        obtain rfl := hd q hq
        simp only [Option.elim_some]
        cases content w.met.tree s with
        | none => exact Effect.same rfl rfl
        | some c => exact putPart_writes _ _ _

/-- A call that fails has met a failure from outside, after a part of its work perhaps, or has
done nothing. -/
theorem call_error_cases {α : Type} {act : World → Except Int (α × World)}
    {part : Nat → World → World} {e : Failure} {w w' : World}
    (h : Io.call act part w = some (.error e, w')) :
    w' = w.met ∨ ∃ code n, w.faults.head? = some (some ⟨code, some n⟩) ∧ w' = part n w.met := by
  unfold Io.call at h
  split at h
  · rename_i f hf
    obtain ⟨code, done⟩ := f
    simp only [Option.some.injEq, Prod.mk.injEq] at h
    cases done with
    | none => exact Or.inl h.2.symm
    | some n => exact Or.inr ⟨code, n, hf, h.2.symm⟩
  · split at h
    · simp at h
    · simp only [Option.some.injEq, Prod.mk.injEq] at h
      exact Or.inl h.2.symm

/-- A write that fails leaves the file alone, or with the part that was written. -/
theorem writeFile_error {p : OsPath} {c : OsText} {e : Failure} {w w' : World}
    (h : writeFile p c w = some (.error e, w')) :
    SameFiles w w' ∨ ∃ code n q, w.faults.head? = some (some ⟨code, some n⟩) ∧
      w.place p = some q ∧ isDir w.tree q = false ∧
      w'.tree = put w.tree q (.file (c.take n)) := by
  rcases call_error_cases h with rfl | ⟨code, n, hfault, rfl⟩
  · exact Or.inl fun _ => rfl
  · unfold atPlace
    cases hq : w.met.place p with
    | none => exact Or.inl fun _ => rfl
    | some q =>
      simp only [Option.elim_some]
      unfold putPart
      split
      · rename_i hput
        have hdir : isDir w.tree q = false := by
          by_contra hdir
          unfold putFile at hput
          rw [if_pos (show isDir w.met.tree q = true from eq_true_of_ne_false hdir)] at hput
          cases hput
        exact Or.inr ⟨code, n, q, hfault, hq, hdir, (putFile_ok hput).2.2⟩
      · exact Or.inl fun _ => rfl

/-- A write that is cut short where a file can be written leaves the part that was written. -/
theorem writeFile_cut {p : OsPath} {c : OsText} {w : World} {q : Place} {code : Int} {n : Nat}
    (hfault : w.faults.head? = some (some ⟨code, some n⟩)) (hq : w.place p = some q)
    (hfile : isDir w.tree q = false) (habove : isDir w.tree q.dropLast = true) :
    ∃ e w', writeFile p c w = some (.error e, w') ∧ w'.tree = put w.tree q (.file (c.take n)) := by
  refine ⟨_, _, by unfold writeFile Io.call; rw [hfault], ?_⟩
  have hq' : w.met.place p = some q := hq
  have hput : putFile w.met q (c.take n) =
      .ok ((), { w.met with tree := put w.tree q (.file (c.take n)) }) := by
    unfold putFile
    rw [if_neg (by simp [World.met, hfile]), if_pos (by exact habove)]
    rfl
  simp only [Option.elim_some, atPlace, hq', putPart, hput]

theorem createDirAll_isDir {p : OsPath} {q : Place} {w w' : World}
    (h : createDirAll p w = some (.ok (), w')) (hq : w.place p = some q) :
    isDir w'.tree q = true := by
  obtain ⟨q', hq', hact⟩ := exceptBind_ok (Io.call_ok h)
  obtain rfl := Option.some.inj ((placeOf_ok hq').symm.trans hq)
  split_ifs at hact with hfile
  simp only [Except.ok.injEq, Prod.mk.injEq, true_and] at hact
  rw [← hact]
  exact isDir_makeDirs (Option.not_isSome_iff_eq_none.mp hfile)

/-- A removal removes entries of the directory only, also where it fails half-way. -/
theorem removeDirAll_outside {p : OsPath} {s : Place} {w w' : World} {r : Except Failure Unit}
    (h : removeDirAll p w = some (r, w')) (hs : ∀ q, w.place p = some q → q = s) :
    Outside s w w' := by
  refine Io.keeps_call h (fun a hact => ?_) fun n => ?_
  · obtain ⟨q', hq', hact⟩ := exceptBind_ok hact
    obtain ⟨e, _, hact⟩ := exceptBind_ok hact
    obtain rfl := hs q' (placeOf_ok hq')
    cases e with
    | file c => cases hact
    | dir =>
      simp only at hact
      split_ifs at hact
      rw [← (Prod.mk.inj (Except.ok.inj hact)).2]
      exact fun q hq => get_removeAll hq
  · unfold atPlace
    cases hq' : w.met.place p with
    | none => exact Effect.same rfl rfl
    | some q' =>
      obtain rfl := hs q' hq'
      refine fun q hq => get_filter fun e he => decide_eq_true fun hmem => hq ?_
      obtain ⟨_, hunder⟩ := List.mem_filter.mp (List.mem_of_mem_take hmem)
      exact he ▸ of_decide_eq_true hunder

theorem content_erase_dir {t : Tree OsText OsText} {d : Place} (h : get t d = some .dir)
    (q : Place) : content (erase t d) q = content t q := by
  by_cases hq : q = d
  · subst hq
    by_cases hne : q = []
    · subst hne
      rfl
    · unfold content
      rw [get_erase_self hne, h]
  · exact content_eq_of_get (get_erase_other hq)

theorem get_of_entryAt {w : World} {q : Place} {e : Entry OsText} (h : entryAt w q = .ok e) :
    get w.tree q = some e := by
  unfold entryAt at h
  split at h
  · rename_i e' hget
    rw [← Except.ok.inj h]
    exact hget
  · cases h

/-- Only an empty directory is removed, and it is no root. -/
theorem removeDir_empties {p : OsPath} {w w' : World} (h : removeDir p w = some (.ok (), w')) :
    ∃ d, w.place p = some d ∧ d ≠ [] ∧ get w.tree d = some .dir ∧ occupied w.tree d = false ∧
      w'.tree = erase w.tree d ∧ w'.cwd = w.cwd.filter (· != d) := by
  obtain ⟨d, hd, hact⟩ := exceptBind_ok (Io.call_ok h)
  obtain ⟨e, he, hact⟩ := exceptBind_ok hact
  cases e with
  | file c => cases hact
  | dir =>
    simp only at hact
    split_ifs at hact with hroot hoccupied
    simp only [Except.ok.injEq, Prod.mk.injEq, true_and] at hact
    rw [← hact]
    exact ⟨d, placeOf_ok hd, hroot, get_of_entryAt he, eq_false_of_ne_true hoccupied, rfl, rfl⟩

section OpenFiles

variable {α : Type} {p : OsPath} {q : Place} {w w' : World}

theorem rewrite_writes (w : World) (q : Place) (c : OsText) : Writes q w (rewrite w q c) := by
  unfold rewrite
  split_ifs
  · exact ⟨rfl, fun r hr => get_put_other hr⟩
  · exact Effect.same rfl rfl

theorem rewrite_keepsFile (w : World) (q r : Place) (c : OsText) :
    KeepsFile r w (rewrite w q c) := by
  intro hr
  unfold rewrite
  split_ifs with hq
  · by_cases heq : r = q
    · have hne : q ≠ [] := by
        intro h
        obtain rfl := h
        cases hq
      rw [heq, content_put hne]
      rfl
    · rw [content_put_other heq]
      exact hr
  · exact hr

/-- A writer changes the file that it has open, and no other one. -/
theorem writeOpen_writes {step : Except Int (α × OsText)} {r : Except Failure α}
    (h : writeOpen p step w = some (r, w')) (hq : ∀ q', w.place p = some q' → q' = q) :
    Writes q w w' := by
  refine Io.keeps_call h (fun a hact => ?_) fun n => ?_
  · obtain ⟨q', hq', hact⟩ := exceptBind_ok hact
    obtain ⟨⟨a', c⟩, _, hact⟩ := exceptBind_ok hact
    obtain rfl := hq q' (placeOf_ok hq')
    rw [← (Prod.mk.inj (Except.ok.inj hact)).2]
    exact rewrite_writes _ _ _
  · unfold atPlace
    cases hq' : w.met.place p with
    | none => exact Effect.same rfl rfl
    | some q' =>
      obtain rfl := hq q' hq'
      cases step with
      | error e => exact Effect.same rfl rfl
      | ok r => exact rewrite_writes _ _ _

/-- A writer does not remove a file. -/
theorem keepsFile_writeOpen (p : OsPath) (step : Except Int (α × OsText)) (q : Place) :
    Io.Keeps (KeepsFile q) (writeOpen p step) := by
  intro w r w' h
  refine Io.keeps_call h (fun a hact => ?_) fun n => ?_
  · obtain ⟨q', _, hact⟩ := exceptBind_ok hact
    obtain ⟨⟨a', c⟩, _, hact⟩ := exceptBind_ok hact
    rw [← (Prod.mk.inj (Except.ok.inj hact)).2]
    exact rewrite_keepsFile _ _ _ _
  · unfold atPlace
    cases w.met.place p with
    | none => exact Effect.same rfl rfl
    | some q' =>
      cases step with
      | error e => exact Effect.same rfl rfl
      | ok r => exact rewrite_keepsFile _ _ _ _

theorem createFile_ok (h : createFile p w = some (.ok (), w')) (hq : w.place p = some q) :
    Writes q w w' ∧ content w'.tree q = some [] := by
  obtain ⟨q', hq', hact⟩ := exceptBind_ok (Io.call_ok h)
  obtain rfl := Option.some.inj ((placeOf_ok hq').symm.trans hq)
  obtain ⟨hne, _, htree⟩ := putFile_ok hact
  exact ⟨Effect.of_met (putFile_writes hact), by rw [htree, content_put hne]⟩

theorem createFile_error {e : Failure} (h : createFile p w = some (.error e, w')) :
    Same w w' := by
  rw [Io.call_error h]
  exact Effect.same rfl rfl

theorem removeFile_ok (h : removeFile p w = some (.ok (), w')) (hq : w.place p = some q) :
    Writes q w w' ∧ content w'.tree q = none := by
  obtain ⟨q', hq', hact⟩ := exceptBind_ok (Io.call_ok h)
  obtain rfl := Option.some.inj ((placeOf_ok hq').symm.trans hq)
  obtain ⟨e, he, hact⟩ := exceptBind_ok hact
  cases e with
  | dir => cases hact
  | file c =>
    have hne : q' ≠ [] := by
      intro h'
      obtain rfl := h'
      cases get_of_entryAt he
    rw [← (Prod.mk.inj (Except.ok.inj hact)).2]
    refine ⟨⟨rfl, fun r hr => get_erase_other hr⟩, ?_⟩
    unfold content
    rw [get_erase_self hne]

theorem removeFile_error {e : Failure} (h : removeFile p w = some (.error e, w')) :
    Same w w' := by
  rw [Io.call_error h]
  exact Effect.same rfl rfl

end OpenFiles

end Library.FileCalls
