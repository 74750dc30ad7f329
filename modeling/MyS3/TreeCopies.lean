import MyS3.Library.FileEffects
import MyS3.Library.RootedTrees
import MyS3.Relocate

/-!
The recursive copy of `storage/relocate.rs`. Into a destination beside the source it ends,
leaves the source alone, and when it succeeds has copied every file. Into a destination inside
the source it lists the copies that it has made, and never ends.
-/

namespace MyS3.TreeCopies

open Library.OsPaths Library.FileTree Library.FileCalls
open Relocate

/-- The tree below a place is the same. -/
def SameBelow (s : Place) (w w' : World) : Prop :=
  ∀ q, s <+: q → get w'.tree q = get w.tree q

/-- Neither of two places is in the other. -/
structure Apart (s d : Place) : Prop where
  inside : ¬ s <+: d
  outside : ¬ d <+: s

theorem Apart.below {s d q : Place} (h : Apart s d) (hq : s <+: q) : ¬ q <+: d ∧ ¬ d <+: q := by
  refine ⟨fun hup => h.inside (hq.trans hup), fun hdown => ?_⟩
  exact (List.prefix_or_prefix_of_prefix hq hdown).elim h.inside h.outside

theorem Apart.extend {s d s' d' : Place} (h : Apart s d) (hs : s <+: s') (hd : d <+: d') :
    Apart s' d' := by
  refine ⟨fun hinside => ?_, fun houtside => ?_⟩
  · exact (h.below (hs.trans hinside)).2 hd
  · exact (h.below hs).2 (hd.trans houtside)

theorem sameBelow_of_within {s d : Place} {w w' : World} (h : Within d w w') (hapart : Apart s d) :
    SameBelow s w w' := fun q hq => h.other q (hapart.below hq).1 (hapart.below hq).2

theorem SameBelow.extend {s : Place} {w w' : World} (h : SameBelow s w w') (n : OsText) :
    SameBelow (s ++ [n]) w w' := fun q hq => h q ((List.prefix_append _ _).trans hq)

section Effects

theorem keeps_copyFile (src : OsPath) (d : Place) (n : OsText) :
    Io.Keeps (Within (d ++ [n])) (copyFile src (absolutePath (d ++ [n]))) := by
  intro w r w' h
  refine (copyFile_writes h fun q hq => ?_).within List.prefix_rfl
  rw [place_absolutePath] at hq
  exact (Option.some.inj hq).symm

theorem keeps_createDirAll_within (d : Place) :
    Io.Keeps (Within d) (createDirAll (absolutePath d)) := by
  intro w r w' h
  refine (createDirAll_makes h fun q hq => ?_).within (Or.inl List.prefix_rfl)
  rw [place_absolutePath] at hq
  rw [Option.some.inj hq]

/-- One entry of a directory is copied. -/
theorem keeps_copyEntry {copyDir : OsPath → OsPath → Io Unit} {d : Place} {n : OsText}
    (h : ∀ src, Io.Keeps (Within (d ++ [n])) (copyDir src (absolutePath (d ++ [n]))))
    {R : World → World → Prop} [Effect R] (hR : ∀ w w', Within (d ++ [n]) w w' → R w w')
    (src : OsPath) (names : List OsText)
    (hrest : Io.Keeps R (copyEntries copyDir src (absolutePath d) names)) :
    Io.Keeps R (copyEntries copyDir src (absolutePath d) (n :: names)) := by
  refine (Io.keeps_query _).bind fun _ => (Io.keeps_query _).bind fun directory => ?_
  rw [join_absolutePath]
  split_ifs
  · exact Io.Keeps.bind (fun w r w' hrun => hR w w' (h _ w r w' hrun)) fun _ => hrest
  · refine Io.Keeps.bind (fun w r w' hrun => hR w w' ?_) fun _ => hrest
    exact ((keeps_copyFile _ d n).withContext _) w r w' hrun

theorem keeps_copyEntries {copyDir : OsPath → OsPath → Io Unit} {d : Place}
    (h : ∀ src n, Io.Keeps (Within (d ++ [n])) (copyDir src (absolutePath (d ++ [n]))))
    (src : OsPath) (names : List OsText) :
    Io.Keeps (Within d) (copyEntries copyDir src (absolutePath d) names) := by
  induction names with
  | nil => exact (Io.keeps_query _).bind fun _ => Io.keeps_pure ()
  | cons n rest ih =>
    exact keeps_copyEntry (fun src => h src n) (fun w w' hw => hw.mono (List.prefix_append _ _))
      src rest ih

theorem keeps_copyDirRecursive (fuel : Nat) (src : OsPath) (d : Place) :
    Io.Keeps (Within d) (copyDirRecursive fuel src (absolutePath d)) := by
  induction fuel generalizing src d with
  | zero =>
    intro w r w' h
    cases h
  | succ fuel ih =>
    refine ((keeps_createDirAll_within d).withContext _).bind fun _ => ?_
    refine ((Io.keeps_query _).withContext _).bind fun names => ?_
    exact keeps_copyEntries (fun src n => ih src (d ++ [n])) src names

end Effects

section Results

variable {p src dest : OsPath} {s d q : Place} {w w' : World}

theorem placeOf_eq (h : w.place p = some q) : placeOf w p = .ok q := by
  unfold placeOf
  rw [h]

theorem readDir_ok {names : List OsText} (h : readDir p w = some (.ok names, w'))
    (hq : w.place p = some q) :
    isDir w.tree q = true ∧ names = children w.tree q ∧ w' = w.met := by
  obtain ⟨hact, rfl⟩ := Io.query_ok h
  obtain ⟨q', hq', hact⟩ := exceptBind_ok hact
  obtain rfl := Option.some.inj ((placeOf_ok hq').symm.trans hq)
  obtain ⟨e, he, hact⟩ := exceptBind_ok hact
  cases e with
  | file c => cases hact
  | dir =>
    refine ⟨isDir_iff.mpr (get_of_entryAt he), (Except.ok.inj hact).symm, rfl⟩

theorem entryIsDir_ok {directory : Bool} (h : entryIsDir p w = some (.ok directory, w'))
    (hq : w.place p = some q) :
    directory = isDir w.tree q ∧ (get w.tree q).isSome = true ∧ w' = w.met := by
  obtain ⟨hact, rfl⟩ := Io.query_ok h
  obtain ⟨q', hq', hact⟩ := exceptBind_ok hact
  obtain rfl := Option.some.inj ((placeOf_ok hq').symm.trans hq)
  obtain ⟨e, he, hact⟩ := exceptBind_ok hact
  have hget : get w.tree q' = some e := get_of_entryAt he
  refine ⟨?_, by rw [hget]; rfl, rfl⟩
  unfold isDir
  cases e with
  | file c =>
    rw [hget]
    exact (Except.ok.inj hact).symm
  | dir =>
    rw [hget]
    exact (Except.ok.inj hact).symm

/-- A file that is copied is there twice. -/
theorem copyFile_ok (h : copyFile src dest w = some (.ok (), w')) (hs : w.place src = some s)
    (hd : w.place dest = some d) : ∃ c, content w.tree s = some c ∧ content w'.tree d = some c := by
  have hact := Io.call_ok h
  obtain ⟨s', hs', hact⟩ := exceptBind_ok hact
  obtain ⟨d', hd', hact⟩ := exceptBind_ok hact
  obtain rfl := Option.some.inj ((placeOf_ok hs').symm.trans hs)
  obtain rfl := Option.some.inj ((placeOf_ok hd').symm.trans hd)
  obtain ⟨e, he, hact⟩ := exceptBind_ok hact
  cases e with
  | dir => cases hact
  | file c =>
    obtain ⟨hne, _, htree⟩ := putFile_ok hact
    exact ⟨c, content_eq_some.mpr (get_of_entryAt he), by rw [htree, content_put hne]⟩

end Results

/-- Everything below a place is fewer than so many names under it. -/
def Shallow (s : Place) (fuel : Nat) (w : World) : Prop :=
  ∀ q, s <+: q → (get w.tree q).isSome = true → q.length < s.length + fuel

section Ends

variable {copyDir : OsPath → OsPath → Io Unit} {src : OsPath} {s d : Place} {w : World}

/-- The loop ends where the copies of directories end. -/
theorem ends_copyEntries (w0 : World)
    (hkeeps : ∀ src n, Io.Keeps (Within (d ++ [n])) (copyDir src (absolutePath (d ++ [n]))))
    (hends : ∀ n w, w.cwd = w0.cwd → SameBelow s w0 w → isDir w.tree (s ++ [n]) = true →
      Io.Ends (copyDir (join src [.name n]) (absolutePath (d ++ [n]))) w)
    (hs : w0.place src = some s) (hapart : Apart s d) (names : List OsText)
    (hcwd : w.cwd = w0.cwd) (hsame : SameBelow s w0 w) :
    Io.Ends (copyEntries copyDir src (absolutePath d) names) w := by
  induction names generalizing w with
  | nil => exact (Io.ends_query _ _).bind fun _ w1 _ => Io.ends_pure () w1
  | cons n rest ih =>
    refine (Io.ends_query _ _).bind fun _ w1 h1 => ?_
    refine (Io.ends_query _ _).bind fun directory w2 h2 => ?_
    rw [join_absolutePath]
    obtain ⟨_, rfl⟩ := Io.query_ok h1
    have hplace : w.met.place (join src [.name n]) = some (s ++ [n]) := by
      have hs' : w.met.place src = some s := place_of_cwd hs hcwd.symm
      rw [place_name, hs', Option.map_some]
    obtain ⟨hdirectory, _, rfl⟩ := entryIsDir_ok h2 hplace
    have hnext : ∀ w3, Within (d ++ [n]) w.met.met w3 →
        Io.Ends (copyEntries copyDir src (absolutePath d) rest) w3 := fun w3 hw3 =>
      ih (hw3.cwd.trans hcwd) fun q hq =>
        (sameBelow_of_within (hw3.mono (List.prefix_append _ _)) hapart q hq).trans (hsame q hq)
    split_ifs with hdir
    · refine (hends n w.met.met hcwd hsame (hdirectory ▸ hdir)).bind fun _ w3 h3 => ?_
      exact hnext w3 (hkeeps _ n _ _ _ h3)
    · refine ((Io.ends_call _ _ _).withContext _).bind fun _ w3 h3 => ?_
      exact hnext w3 ((keeps_copyFile _ d n).withContext _ _ _ _ h3)

/-- Beside its destination a tree is copied in as many steps down as it is deep. -/
theorem ends_copyDirRecursive {fuel : Nat} (hs : w.place src = some s) (hapart : Apart s d)
    (hthere : (get w.tree s).isSome = true) (hdepth : Shallow s fuel w) :
    Io.Ends (copyDirRecursive fuel src (absolutePath d)) w := by
  induction fuel generalizing src s d w with
  | zero => exact absurd (hdepth s List.prefix_rfl hthere) (by simp)
  | succ fuel ih =>
    refine ((Io.ends_call _ _ _).withContext _).bind fun _ w1 h1 => ?_
    have hmade := keeps_createDirAll_within d _ _ _ (Io.withContext_ok.mp h1)
    have hbelow := sameBelow_of_within hmade hapart
    refine ((Io.ends_query _ _).withContext _).bind fun names w2 h2 => ?_
    obtain ⟨_, rfl⟩ := Io.query_ok (Io.withContext_ok.mp h2)
    refine ends_copyEntries w (fun src n => keeps_copyDirRecursive fuel src (d ++ [n]))
      (fun n w3 hcwd hsame hdir => ?_) hs hapart names hmade.cwd hbelow
    have hplace : w3.place (join src [.name n]) = some (s ++ [n]) := by
      rw [place_name, place_of_cwd hs hcwd.symm, Option.map_some]
    refine ih hplace (hapart.extend (List.prefix_append _ _) (List.prefix_append _ _))
      (isSome_of_isDir hdir) fun q hq hsome => ?_
    have hunder : s <+: q := (List.prefix_append _ _).trans hq
    rw [hsame q hunder] at hsome
    have hlength := hdepth q hunder hsome
    rw [List.length_append, List.length_singleton]
    omega

end Ends

/-- The files below a place are in directories. -/
def InDirs (s : Place) (w : World) : Prop :=
  ∀ q n, s <+: q → (get w.tree (q ++ [n])).isSome = true → isDir w.tree q = true

theorem inDirs_of_rooted {w : World} (h : Rooted w.tree) (s : Place) : InDirs s w := by
  intro q n _ hthere
  exact h.isDir_above hthere (List.prefix_append _ _) (by simp)

theorem InDirs.of_same {s : Place} {w w' : World} (h : InDirs s w) (hsame : SameBelow s w w') :
    InDirs s w' := by
  intro q n hq hthere
  rw [hsame _ (hq.trans (List.prefix_append _ _))] at hthere
  rw [isDir_eq_of_get (hsame q hq)]
  exact h q n hq hthere

theorem InDirs.extend {s : Place} {w : World} (h : InDirs s w) (n : OsText) :
    InDirs (s ++ [n]) w := fun q m hq => h q m ((List.prefix_append _ _).trans hq)

/-- On the way to what is there, there are directories. -/
theorem InDirs.isDir_above {s : Place} {w : World} (h : InDirs s w) (rel : Place)
    (hthere : (get w.tree (s ++ rel)).isSome = true) {r : Place} (hr : r <+: rel) (hne : r ≠ rel) :
    isDir w.tree (s ++ r) = true := by
  induction rel using List.reverseRecOn with
  | nil => exact absurd (List.prefix_nil.mp hr) hne
  | append_singleton above n ih =>
    rw [← List.append_assoc] at hthere
    have habove := h (s ++ above) n (List.prefix_append _ _) hthere
    by_cases heq : r = above
    · rw [heq]
      exact habove
    · exact ih (isSome_of_isDir habove) ((List.prefix_concat_iff.mp hr).resolve_left hne) heq

/-- The files of an entry of one directory are also in the other. -/
def Copied (s d : Place) (n : OsText) (w w' : World) : Prop :=
  ∀ rel c, content w.tree (s ++ n :: rel) = some c → content w'.tree (d ++ n :: rel) = some c

/-- No file is changed outside the entries of a directory. -/
def FilesOff (d : Place) (names : List OsText) (w w' : World) : Prop :=
  ∀ q, (∀ n ∈ names, ¬ d ++ [n] <+: q) → content w'.tree q = content w.tree q

instance (d : Place) (names : List OsText) : Effect (FilesOff d names) where
  same htree _ q _ := by rw [htree]
  trans h h' q hq := (h' q hq).trans (h q hq)

section Copies

variable {copyDir : OsPath → OsPath → Io Unit} {src : OsPath} {s d : Place} {w w' : World}

theorem filesOff_copyEntries
    (hkeeps : ∀ src n, Io.Keeps (Within (d ++ [n])) (copyDir src (absolutePath (d ++ [n]))))
    (names all : List OsText) (hall : ∀ n ∈ names, n ∈ all) :
    Io.Keeps (FilesOff d all) (copyEntries copyDir src (absolutePath d) names) := by
  induction names with
  | nil => exact (Io.keeps_query _).bind fun _ => Io.keeps_pure ()
  | cons n rest ih =>
    refine keeps_copyEntry (fun src => hkeeps src n) (fun w w' hw q hq => ?_) src rest
      (ih fun m hm => hall m (List.mem_cons_of_mem _ hm))
    exact hw.files q (hq n (hall n List.mem_cons_self))

theorem append_cons_eq (d : Place) (n : OsText) (rel : Place) :
    d ++ n :: rel = d ++ [n] ++ rel := by
  rw [List.append_assoc, List.singleton_append]

/-- What the rest of a loop leaves of an entry that is not in it. -/
theorem Copied.of_filesOff {n : OsText} {names : List OsText} {w1 : World}
    (h : Copied s d n w w1) (hrest : FilesOff d names w1 w') (hn : n ∉ names) :
    Copied s d n w w' := by
  intro rel c hc
  rw [hrest, h rel c hc]
  intro m hm hunder
  rw [append_cons_eq, List.append_assoc, List.prefix_append_right_inj] at hunder
  rw [List.singleton_append, List.cons_prefix_cons] at hunder
  exact hn (hunder.1 ▸ hm)

/-- A loop that succeeds has copied each entry. -/
theorem copyEntries_copies (w0 : World)
    (hkeeps : ∀ src n, Io.Keeps (Within (d ++ [n])) (copyDir src (absolutePath (d ++ [n]))))
    (hcopy : ∀ n w w', w.cwd = w0.cwd → SameBelow s w0 w →
      copyDir (join src [.name n]) (absolutePath (d ++ [n])) w = some (.ok (), w') →
      Copied s d n w w')
    (hs : w0.place src = some s) (hapart : Apart s d) (hdirs : InDirs s w0)
    (names : List OsText) (hcwd : w.cwd = w0.cwd) (hsame : SameBelow s w0 w)
    (h : copyEntries copyDir src (absolutePath d) names w = some (.ok (), w')) :
    ∀ n ∈ names, Copied s d n w w' := by
  induction names generalizing w with
  | nil => simp
  | cons n rest ih =>
    obtain ⟨_, w1, h1, h⟩ := Io.bind_ok.mp h
    obtain ⟨directory, w2, h2, h⟩ := Io.bind_ok.mp h
    rw [join_absolutePath] at h
    obtain ⟨_, rfl⟩ := Io.query_ok h1
    have hplace : w.met.place (join src [.name n]) = some (s ++ [n]) := by
      have hs' : w.met.place src = some s := place_of_cwd hs hcwd.symm
      rw [place_name, hs', Option.map_some]
    obtain ⟨hdirectory, _, rfl⟩ := entryIsDir_ok h2 hplace
    -- What is left when the entry has been copied, to `w3`.
    have hlast : ∀ w3, Within (d ++ [n]) w w3 → Copied s d n w w3 →
        copyEntries copyDir src (absolutePath d) rest w3 = some (.ok (), w') →
        ∀ m ∈ n :: rest, Copied s d m w w' := by
      intro w3 hw3 hn hrun m hm
      have hsame3 : SameBelow s w w3 :=
        sameBelow_of_within (hw3.mono (List.prefix_append _ _)) hapart
      have hrest := ih (hw3.cwd.trans hcwd)
        (fun q hq => (hsame3 q hq).trans (hsame q hq)) hrun
      by_cases hmem : m ∈ rest
      · intro rel c hc
        refine hrest m hmem rel c ?_
        rw [content_eq_of_get (hsame3 _ (List.prefix_append _ _))]
        exact hc
      · obtain rfl := (List.mem_cons.mp hm).resolve_right hmem
        exact hn.of_filesOff (filesOff_copyEntries hkeeps rest rest (fun _ h => h) _ _ _ hrun) hmem
    by_cases hdir : directory = true
    · rw [if_pos hdir] at h
      obtain ⟨_, w3, h3, h⟩ := Io.bind_ok.mp h
      have hw3 : Within (d ++ [n]) w w3 := Effect.of_met (Effect.of_met (hkeeps _ n _ _ _ h3))
      exact hlast w3 hw3 (hcopy n w.met.met w3 hcwd hsame h3) h
    · rw [if_neg hdir] at h
      obtain ⟨_, w3, h3, h⟩ := Io.bind_ok.mp h
      have hfile := Io.withContext_ok.mp h3
      have hw3 : Within (d ++ [n]) w w3 :=
        Effect.of_met (Effect.of_met (keeps_copyFile _ d n _ _ _ hfile))
      refine hlast w3 hw3 (fun rel c hc => ?_) h
      obtain ⟨c', hc', hd'⟩ := copyFile_ok hfile hplace (place_absolutePath _ _)
      cases rel with
      | nil =>
        exact hd'.trans (hc'.symm.trans hc)
      | cons m rel =>
        -- A file has nothing below it.
        have hnotdir : isDir w.tree (s ++ [n]) = true := by
          refine (hdirs.of_same hsame).isDir_above (n :: m :: rel) ?_ ⟨m :: rel, rfl⟩ (by simp)
          rw [content_eq_some.mp hc]
          rfl
        exact absurd (hdirectory.trans hnotdir) hdir

/-- A copy that succeeds has copied every file. -/
theorem copyDirRecursive_copies {fuel : Nat} (hs : w.place src = some s) (hapart : Apart s d)
    (hdirs : InDirs s w)
    (h : copyDirRecursive fuel src (absolutePath d) w = some (.ok (), w')) :
    ∀ rel c, content w.tree (s ++ rel) = some c → content w'.tree (d ++ rel) = some c := by
  induction fuel generalizing src s d w w' with
  | zero => cases h
  | succ fuel ih =>
    obtain ⟨_, w1, h1, h⟩ := Io.bind_ok.mp h
    obtain ⟨names, w2, h2, h⟩ := Io.bind_ok.mp h
    have hmade := keeps_createDirAll_within d _ _ _ (Io.withContext_ok.mp h1)
    have hbelow : SameBelow s w w1 := sameBelow_of_within hmade hapart
    have hs1 : w1.place src = some s := place_of_cwd hs hmade.cwd.symm
    obtain ⟨hdir, rfl, rfl⟩ := readDir_ok (Io.withContext_ok.mp h2) hs1
    have hcopied := copyEntries_copies (w := w1.met) w
      (fun src n => keeps_copyDirRecursive fuel src (d ++ [n]))
      (fun n w3 w4 hcwd hsame hrun => ?_) hs hapart hdirs _ hmade.cwd hbelow h
    · intro rel c hc
      have hc1 : content w1.tree (s ++ rel) = some c := by
        rw [content_eq_of_get (hbelow _ (List.prefix_append _ _))]
        exact hc
      cases rel with
      | nil =>
        rw [List.append_nil, content_eq_some, isDir_iff.mp hdir] at hc1
        cases hc1
      | cons n rel =>
        refine hcopied n (mem_children.mpr ?_) rel c hc1
        cases rel with
        | nil =>
          rw [content_eq_some.mp hc1]
          rfl
        | cons m rel =>
          refine isSome_of_isDir ((hdirs.of_same hbelow).isDir_above (n :: m :: rel) ?_
            ⟨m :: rel, rfl⟩ (by simp))
          rw [content_eq_some.mp hc1]
          rfl
    · intro rel c hc
      have hplace : w3.place (join src [.name n]) = some (s ++ [n]) := by
        rw [place_name, place_of_cwd hs hcwd.symm, Option.map_some]
      rw [append_cons_eq] at hc ⊢
      exact ih hplace (hapart.extend (List.prefix_append _ _) (List.prefix_append _ _))
        ((hdirs.of_same hsame).extend n) hrun rel c hc

end Copies

end MyS3.TreeCopies
