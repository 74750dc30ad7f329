import Mathlib.Data.List.Basic
import Mathlib.Data.List.Infix
import Mathlib.Tactic.SplitIfs

/-!
A tree of directories and files as the list of its entries, each under its path from the
root. The root itself is always a directory. There are no links, so that a path names one
entry at most.
-/

namespace Library.FileTree

variable {ν γ : Type*}

inductive Entry (γ : Type*)
  | dir
  | file (content : γ)
  deriving DecidableEq

abbrev Tree (ν γ : Type*) := List (List ν × Entry γ)

variable [DecidableEq ν]

def get (t : Tree ν γ) (p : List ν) : Option (Entry γ) :=
  if p = [] then some .dir else t.lookup p

def content (t : Tree ν γ) (p : List ν) : Option γ :=
  match get t p with
  | some (.file c) => some c
  | _ => none

def isDir (t : Tree ν γ) (p : List ν) : Bool :=
  match get t p with
  | some .dir => true
  | _ => false

/-- The names in a directory. -/
def children (t : Tree ν γ) (p : List ν) : List ν :=
  t.filterMap fun e => if e.1.dropLast = p then e.1.getLast? else none

def erase (t : Tree ν γ) (p : List ν) : Tree ν γ := t.filter fun e => e.1 ≠ p

def put (t : Tree ν γ) (p : List ν) (e : Entry γ) : Tree ν γ := (p, e) :: erase t p

/-- Without an entry and all that is in it. -/
def removeAll (t : Tree ν γ) (p : List ν) : Tree ν γ := t.filter fun e => ¬ p <+: e.1

/-- Where an entry is after its directory has moved. -/
def moved (src dest q : List ν) : List ν := if src <+: q then dest ++ q.drop src.length else q

/-- An entry and all that is in it, under another path. -/
def move (t : Tree ν γ) (src dest : List ν) : Tree ν γ :=
  (removeAll t dest).map fun e => (moved src dest e.1, e.2)

/-- A directory where there is nothing. -/
def makeDir (t : Tree ν γ) (p : List ν) : Tree ν γ :=
  if get t p = none then put t p .dir else t

/-- A directory, and those that it is in. -/
def makeDirs (t : Tree ν γ) (p : List ν) : Tree ν γ := p.inits.foldl makeDir t

/-- A filter that keeps the entries of a path does not change what the path names. -/
theorem lookup_filter {t : Tree ν γ} {q : List ν} {keep : List ν × Entry γ → Bool}
    (h : ∀ e, e.1 = q → keep e = true) : (t.filter keep).lookup q = t.lookup q := by
  induction t with
  | nil => rfl
  | cons e rest ih =>
    by_cases heq : q = e.1
    · rw [List.filter_cons_of_pos (h e heq.symm), List.lookup_cons, List.lookup_cons, heq]
      simp
    · have hskip : (e :: rest).lookup q = rest.lookup q := by
        rw [List.lookup_cons, beq_eq_false_iff_ne.mpr heq]
      rw [List.filter_cons, hskip]
      split_ifs
      · rw [List.lookup_cons, beq_eq_false_iff_ne.mpr heq]
        exact ih
      · exact ih

theorem get_put {t : Tree ν γ} {p : List ν} {e : Entry γ} (h : p ≠ []) :
    get (put t p e) p = some e := by
  unfold get put
  rw [if_neg h, List.lookup_cons]
  simp

theorem get_put_other {t : Tree ν γ} {p q : List ν} {e : Entry γ} (h : q ≠ p) :
    get (put t p e) q = get t q := by
  unfold get put erase
  split_ifs
  · rfl
  · rw [List.lookup_cons, beq_eq_false_iff_ne.mpr h]
    exact lookup_filter fun e he => decide_eq_true (he ▸ h)

theorem content_put {t : Tree ν γ} {p : List ν} {c : γ} (h : p ≠ []) :
    content (put t p (.file c)) p = some c := by
  unfold content
  rw [get_put h]

theorem content_put_other {t : Tree ν γ} {p q : List ν} {e : Entry γ} (h : q ≠ p) :
    content (put t p e) q = content t q := by
  unfold content
  rw [get_put_other h]

theorem content_makeDir (t : Tree ν γ) (p q : List ν) :
    content (makeDir t p) q = content t q := by
  unfold makeDir
  split_ifs with hnone
  · by_cases hq : q = p
    · subst hq
      have hne : q ≠ [] := by
        intro h
        obtain rfl := h
        cases hnone
      unfold content
      rw [get_put hne, hnone]
    · exact content_put_other hq
  · rfl

theorem content_foldl_makeDir (ps : List (List ν)) (t : Tree ν γ) (q : List ν) :
    content (ps.foldl makeDir t) q = content t q := by
  induction ps generalizing t with
  | nil => rfl
  | cons p rest ih => rw [List.foldl_cons, ih, content_makeDir]

/-- New directories change no file. -/
theorem content_makeDirs (t : Tree ν γ) (p q : List ν) :
    content (makeDirs t p) q = content t q :=
  content_foldl_makeDir _ _ _

/-- After a move there is nothing at the old path. -/
theorem content_move_gone {t : Tree ν γ} {src dest q : List ν} (hsrc : src <+: q)
    (hdest : ¬ dest <+: q) : content (move t src dest) q = none := by
  unfold content get
  split_ifs with hq
  · rfl
  · have hnone : (move t src dest).lookup q = none := by
      refine List.lookup_eq_none_iff.mpr fun e he => ?_
      obtain ⟨a, _, rfl⟩ := List.mem_map.mp he
      have hne : q ≠ moved src dest a.1 := by
        unfold moved
        split_ifs with hunder
        · intro heq
          exact hdest (heq ▸ List.prefix_append _ _)
        · intro heq
          exact hunder (heq ▸ hsrc)
      simpa using hne
    rw [hnone]

theorem content_eq_of_get {t t' : Tree ν γ} {p q : List ν} (h : get t p = get t' q) :
    content t p = content t' q := by
  unfold content
  rw [h]

theorem isDir_eq_of_get {t t' : Tree ν γ} {p q : List ν} (h : get t p = get t' q) :
    isDir t p = isDir t' q := by
  unfold isDir
  rw [h]

theorem isDir_iff {t : Tree ν γ} {p : List ν} : isDir t p = true ↔ get t p = some .dir := by
  unfold isDir
  split <;> simp_all

theorem content_eq_some {t : Tree ν γ} {p : List ν} {c : γ} :
    content t p = some c ↔ get t p = some (.file c) := by
  unfold content
  split <;> simp_all

/-- What is there and no file is a directory. -/
theorem isDir_of_content_none {t : Tree ν γ} {p : List ν} (hthere : (get t p).isSome = true)
    (hfile : content t p = none) : isDir t p = true := by
  obtain ⟨e, he⟩ := Option.isSome_iff_exists.mp hthere
  cases e with
  | dir => exact isDir_iff.mpr he
  | file c =>
    rw [content_eq_some.mpr he] at hfile
    cases hfile

theorem get_filter {t : Tree ν γ} {q : List ν} {keep : List ν × Entry γ → Bool}
    (h : ∀ e, e.1 = q → keep e = true) : get (t.filter keep) q = get t q := by
  unfold get
  rw [lookup_filter h]

theorem get_erase_other {t : Tree ν γ} {p q : List ν} (h : q ≠ p) :
    get (erase t p) q = get t q :=
  get_filter fun _ he => decide_eq_true (he ▸ h)

theorem get_erase_self {t : Tree ν γ} {p : List ν} (h : p ≠ []) : get (erase t p) p = none := by
  unfold get erase
  rw [if_neg h, List.lookup_eq_none_iff]
  intro e he
  have hne := of_decide_eq_true (List.mem_filter.mp he).2
  simpa using Ne.symm hne

theorem get_removeAll {t : Tree ν γ} {p q : List ν} (h : ¬ p <+: q) :
    get (removeAll t p) q = get t q :=
  get_filter fun _ he => decide_eq_true (he ▸ h)

theorem get_makeDir (t : Tree ν γ) (p q : List ν) :
    get (makeDir t p) q = if q = p ∧ get t p = none then some .dir else get t q := by
  unfold makeDir
  by_cases hnone : get t p = none
  · have hne : p ≠ [] := by
      intro h'
      obtain rfl := h'
      cases hnone
    rw [if_pos hnone]
    by_cases hq : q = p
    · rw [hq, get_put hne, if_pos ⟨rfl, hnone⟩]
    · rw [get_put_other hq, if_neg fun h => hq h.1]
  · rw [if_neg hnone, if_neg fun h => hnone h.2]

/-- Directories are made at the given places only, and only where there is nothing. -/
theorem get_foldl_makeDir (ps : List (List ν)) (t : Tree ν γ) (q : List ν) :
    get (ps.foldl makeDir t) q = if q ∈ ps ∧ get t q = none then some .dir else get t q := by
  induction ps generalizing t with
  | nil => simp
  | cons p rest ih =>
    rw [List.foldl_cons, ih, get_makeDir]
    by_cases hq : q = p
    · subst hq
      by_cases hnone : get t q = none <;> simp [hnone]
    · simp [hq]

theorem get_makeDirs (t : Tree ν γ) (p q : List ν) :
    get (makeDirs t p) q = if q <+: p ∧ get t q = none then some .dir else get t q := by
  unfold makeDirs
  rw [get_foldl_makeDir]
  simp only [List.mem_inits]

theorem isDir_makeDirs {t : Tree ν γ} {p : List ν} (h : content t p = none) :
    isDir (makeDirs t p) p = true := by
  rw [isDir_iff, get_makeDirs]
  split_ifs with hnone
  · rfl
  · exact isDir_iff.mp (isDir_of_content_none
      (Option.isSome_iff_ne_none.mpr fun heq => hnone ⟨List.prefix_rfl, heq⟩) h)

theorem lookup_eq_some_mem {t : Tree ν γ} {q : List ν} {e : Entry γ} (h : t.lookup q = some e) :
    (q, e) ∈ t := by
  obtain ⟨before, after, heq, _⟩ := List.lookup_eq_some_iff.mp h
  rw [heq]
  simp

/-- What is in a tree is among its entries. -/
theorem mem_of_get {t : Tree ν γ} {q : List ν} {e : Entry γ} (hq : q ≠ []) (h : get t q = some e) :
    (q, e) ∈ t := by
  unfold get at h
  rw [if_neg hq] at h
  exact lookup_eq_some_mem h

theorem get_isSome_of_mem {t : Tree ν γ} {e : List ν × Entry γ} (h : e ∈ t) :
    (get t e.1).isSome = true := by
  unfold get
  split_ifs
  · rfl
  · rw [Option.isSome_iff_ne_none]
    intro hnone
    simpa using List.lookup_eq_none_iff.mp hnone e h

/-- The names in a directory are those that something has there. -/
theorem mem_children {t : Tree ν γ} {p : List ν} {n : ν} :
    n ∈ children t p ↔ (get t (p ++ [n])).isSome = true := by
  unfold children
  rw [List.mem_filterMap]
  constructor
  · intro h'
    obtain ⟨e, he, hn⟩ := h'
    split_ifs at hn with hp
    have hpath : e.1 = p ++ [n] := hp ▸ (List.dropLast_append_getLast? n hn).symm
    rw [← hpath]
    exact get_isSome_of_mem he
  · intro h
    obtain ⟨e, he⟩ := Option.isSome_iff_exists.mp h
    refine ⟨_, mem_of_get (by simp) he, ?_⟩
    simp

/-- The files of a moved directory are in it at its new place. -/
theorem content_move_under {t : Tree ν γ} {src dest rel : List ν} (hsrc : src ≠ [])
    (hdest : dest ≠ []) (hinside : ¬ src <+: dest) (houtside : ¬ dest <+: src) :
    content (move t src dest) (dest ++ rel) = content t (src ++ rel) := by
  have hkept : ¬ dest <+: src ++ rel := by
    intro h
    rcases List.prefix_or_prefix_of_prefix h (List.prefix_append src rel) with hds | hsd
    · exact houtside hds
    · exact hinside hsd
  refine content_eq_of_get ?_
  rw [← get_removeAll hkept]
  unfold move get
  rw [if_neg (by simp [hdest]), if_neg (by simp [hsrc])]
  have hall : ∀ e ∈ removeAll t dest, ¬ dest <+: e.1 := fun e he =>
    of_decide_eq_true (List.mem_filter.mp he).2
  generalize removeAll t dest = kept at hall ⊢
  induction kept with
  | nil => rfl
  | cons e rest ih =>
    have hrest := ih fun e' he' => hall e' (List.mem_cons_of_mem _ he')
    rw [List.map_cons, List.lookup_cons, List.lookup_cons, hrest]
    have hsame : (dest ++ rel == moved src dest e.1) = (src ++ rel == e.1) := by
      rw [Bool.eq_iff_iff, beq_iff_eq, beq_iff_eq]
      unfold moved
      constructor
      · intro heq
        split_ifs at heq with hunder
        · obtain ⟨rest', hrest'⟩ := hunder
          rw [← hrest', List.drop_left] at heq
          rw [← hrest', List.append_cancel_left heq]
        · exact absurd (heq ▸ List.prefix_append _ _) (hall e List.mem_cons_self)
      · intro heq
        rw [← heq, if_pos (List.prefix_append _ _), List.drop_left]
    rw [hsame]

end Library.FileTree
