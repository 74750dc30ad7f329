import MyS3.Library.Strings

/-!
Joining paths and resolving them lexically. A path is the list of its names
below the file system root. Joining an absolute text replaces the base; empty
and `.` segments name the directory itself and `..` its parent.
-/

namespace Library.Paths

open Library.Strings

abbrev Path := List Text

/-- One segment of a path text, read in a directory. -/
def enter (dir : Path) (segment : Text) : Path :=
  if segment = [] ∨ segment = ['.'] then dir
  else if segment = ['.', '.'] then dir.dropLast
  else dir ++ [segment]

/-- The file that a path text names when it is joined to a base directory. -/
def join (base : Path) (t : Text) : Path :=
  (split '/' t).foldl enter (if startsWith ['/'] t then [] else base)

/-- Read one segment without a base: how many parents the segments so far climb, and the
names below where they end. -/
def climb : Nat × Path → Text → Nat × Path
  | (ups, names), segment =>
    if segment = [] ∨ segment = ['.'] then (ups, names)
    else if segment = ['.', '.'] then
      if names = [] then (ups + 1, []) else (ups, names.dropLast)
    else (ups, names ++ [segment])

/-- The lexical reading of a path text, before it is joined to a base. -/
def resolve (t : Text) : Nat × Path := (split '/' t).foldl climb (0, [])

/-- A segment that names an entry of its directory. -/
def PlainName (t : Text) : Prop := '/' ∉ t ∧ t ≠ [] ∧ t ≠ ['.'] ∧ t ≠ ['.', '.']

instance (t : Text) : Decidable (PlainName t) := by
  unfold PlainName
  infer_instance

theorem enter_plain {t : Text} (h : PlainName t) (dir : Path) : enter dir t = dir ++ [t] := by
  obtain ⟨_, h0, h1, h2⟩ := h
  simp [enter, h0, h1, h2]

theorem startsWith_slash_of_plain {t : Text} (h : PlainName t) (rest : Text) :
    startsWith ['/'] (t ++ rest) = false := by
  obtain ⟨hslash, h0, _⟩ := h
  cases t with
  | nil => exact absurd rfl h0
  | cons c s =>
    have hc : ¬ '/' = c := fun hc => hslash (hc ▸ List.mem_cons_self)
    simp [startsWith, List.isPrefixOf, hc]

/-- Where a lexical reading ends, from a base. -/
def below (base : Path) (c : Nat × Path) : Path := base.take (base.length - c.1) ++ c.2

theorem enter_below (base : Path) (c : Nat × Path) (segment : Text) :
    enter (below base c) segment = below base (climb c segment) := by
  obtain ⟨ups, names⟩ := c
  unfold enter climb below
  by_cases hself : segment = [] ∨ segment = ['.']
  · simp only [if_pos hself]
  simp only [if_neg hself]
  by_cases hparent : segment = ['.', '.']
  · simp only [if_pos hparent]
    by_cases hnames : names = []
    · have hlen : min (base.length - ups) base.length - 1 = base.length - (ups + 1) := by omega
      have hle : min (base.length - (ups + 1)) (base.length - ups) = base.length - (ups + 1) := by
        omega
      simp only [hnames, if_true, List.append_nil]
      rw [List.dropLast_eq_take, List.length_take, hlen, List.take_take, hle]
    · simp only [if_neg hnames, List.dropLast_append_of_ne_nil hnames]
  · simp only [if_neg hparent, List.append_assoc]

theorem foldl_enter_below (base : Path) (segments : List Text) (c : Nat × Path) :
    segments.foldl enter (below base c) = below base (segments.foldl climb c) := by
  induction segments generalizing c with
  | nil => rfl
  | cons segment rest ih =>
    simp only [List.foldl_cons]
    rw [enter_below, ih]

/-- A joined path is the lexical reading of the text, from the root or from the base. -/
theorem join_eq_below (base : Path) (t : Text) :
    join base t = below (if startsWith ['/'] t then [] else base) (resolve t) := by
  have hstart : ∀ dir : Path, below dir (0, []) = dir := by
    intro dir
    simp [below]
  unfold join resolve
  rw [← foldl_enter_below, hstart]

/-- A directory lies on the way to a path below the base exactly when the rest of it does
on the way below the common part. -/
theorem append_prefix_below {base dir names : Path} {ups : Nat} :
    base ++ dir <+: below base (ups, names) ↔
      base.drop (base.length - ups) ++ dir <+: names := by
  have hsplit : base ++ dir =
      base.take (base.length - ups) ++ (base.drop (base.length - ups) ++ dir) := by
    rw [← List.append_assoc, List.take_append_drop]
  rw [hsplit]
  exact List.prefix_append_right_inj _

theorem below_prefix_append {base dir names : Path} {ups : Nat} :
    below base (ups, names) <+: base ++ dir ↔
      names <+: base.drop (base.length - ups) ++ dir := by
  have hsplit : base ++ dir =
      base.take (base.length - ups) ++ (base.drop (base.length - ups) ++ dir) := by
    rw [← List.append_assoc, List.take_append_drop]
  rw [hsplit]
  exact List.prefix_append_right_inj _

/-- A directory name and an entry name, joined by a slash. -/
theorem join_plain {dir name : Text} (hdir : PlainName dir) (hname : PlainName name)
    (base : Path) : join base (dir ++ '/' :: name) = base ++ [dir, name] := by
  have hsplit : split '/' (dir ++ '/' :: name) = [dir, name] := by
    unfold split
    rw [List.splitOn_append_cons_self_of_not_mem hdir.1, List.splitOn_eq_singleton hname.1]
  unfold join
  rw [hsplit, startsWith_slash_of_plain hdir]
  simp [enter_plain hdir, enter_plain hname]

end Library.Paths
