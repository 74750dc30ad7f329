import MyS3.Library.Fields

/-!
Paths of an operating system whose names are bytes. A name is read as characters, with the
byte sequences between them that are no characters; only the characters can be written to a
text file and read back. A path is the list of its components, as its text is parsed: empty
segments are skipped, and so is `.` except at the very start. Paths are resolved by name
only, without symbolic links.
-/

namespace Library.OsPaths

open Library.Strings Library.Fields

inductive OsChar
  | char (c : Char)
  /-- The longest sequence of bytes at its place that is the start of no character. -/
  | invalid (bytes : List UInt8)
  deriving DecidableEq

abbrev OsText := List OsChar

def osText (t : Text) : OsText := t.map .char

/-- The text of a name, if all of it is text. -/
def toText : OsText → Option Text
  | [] => some []
  | .char c :: rest => (toText rest).map (c :: ·)
  | .invalid _ :: _ => none

/-- The replacement character stands for what is no text. -/
def OsChar.shown : OsChar → Char
  | .char c => c
  | .invalid _ => '\uFFFD'

def display (t : OsText) : Text := t.map OsChar.shown

def slash : OsChar := .char '/'

def currentName : OsText := osText ['.']

def parentName : OsText := osText ['.', '.']

inductive Component
  | root
  | current
  | parent
  | name (n : OsText)
  deriving DecidableEq

abbrev OsPath := List Component

/-- One segment of a path text. -/
def component (segment : OsText) : Option Component :=
  if segment = [] ∨ segment = currentName then none
  else if segment = parentName then some .parent
  else some (.name segment)

def components (t : OsText) : OsPath :=
  let segments := t.splitOn slash
  let names := segments.filterMap component
  if t.head? = some slash then .root :: names
  else if segments.head? = some currentName then .current :: names
  else names

def isAbsolute (p : OsPath) : Bool := p.head? == some .root

/-- Join a path to a base that is not empty; an absolute path replaces the base. -/
def join (base p : OsPath) : OsPath :=
  if isAbsolute p then p else base ++ p.filter (· != .current)

def Component.segment : Component → OsText
  | .root => []
  | .current => currentName
  | .parent => parentName
  | .name n => n

/-- The text of a path. -/
def render : OsPath → OsText
  | .root :: rest => slash :: [slash].intercalate (rest.map Component.segment)
  | p => [slash].intercalate (p.map Component.segment)

/-- A name of an entry of a directory. -/
structure PlainName (n : OsText) : Prop where
  slash : slash ∉ n
  nonempty : n ≠ []
  current : n ≠ currentName
  parent : n ≠ parentName

instance (n : OsText) : Decidable (PlainName n) :=
  decidable_of_iff (slash ∉ n ∧ n ≠ [] ∧ n ≠ currentName ∧ n ≠ parentName)
    ⟨fun h => ⟨h.1, h.2.1, h.2.2.1, h.2.2.2⟩, fun h => ⟨h.1, h.2, h.3, h.4⟩⟩

/-- The path of a place below the root. -/
def absolutePath (names : List OsText) : OsPath := .root :: names.map .name

/-- One component of a path, read in a directory. -/
def enter (dir : List OsText) : Component → List OsText
  | .root => []
  | .current => dir
  | .parent => dir.dropLast
  | .name n => dir ++ [n]

/-- The place that a path names in a directory. -/
def resolve (dir : List OsText) (p : OsPath) : List OsText := p.foldl enter dir

theorem component_plain {n : OsText} (h : PlainName n) : component n = some (.name n) := by
  simp [component, h.nonempty, h.current, h.parent]

theorem filterMap_component {names : List OsText} (h : ∀ n ∈ names, PlainName n) :
    names.filterMap component = names.map .name := by
  induction names with
  | nil => rfl
  | cons n rest ih =>
    have hrest := ih fun m hm => h m (List.mem_cons_of_mem _ hm)
    rw [List.filterMap_cons, component_plain (h n List.mem_cons_self), hrest, List.map_cons]

theorem render_absolutePath (names : List OsText) :
    render (absolutePath names) = slash :: [slash].intercalate names := by
  have hsegments : (names.map Component.name).map Component.segment = names := by
    rw [List.map_map]
    exact List.map_id names
  simp only [absolutePath, render, hsegments]

theorem splitOn_slash_cons (t : OsText) : (slash :: t).splitOn slash = [] :: t.splitOn slash := by
  have h := List.splitOn_append_cons_self_of_not_mem (show slash ∉ [] by simp) t
  simpa using h

theorem components_absolute (t : OsText) :
    components (slash :: t) = .root :: (t.splitOn slash).filterMap component := by
  unfold components
  simp only [List.head?_cons, if_true, splitOn_slash_cons]
  rw [List.filterMap_cons_none (by simp [component])]

/-- The path of a place is read back from its text. -/
theorem components_render {names : List OsText} (h : ∀ n ∈ names, PlainName n) :
    components (render (absolutePath names)) = absolutePath names := by
  rw [render_absolutePath, components_absolute]
  cases names with
  | nil =>
    simp [component, absolutePath]
  | cons n rest =>
    rw [List.splitOn_intercalate slash (fun m hm => (h m hm).slash) (by simp),
      filterMap_component h]
    rfl

theorem component_eq_name {segment n : OsText} (h : component segment = some (.name n)) :
    segment = n ∧ n ≠ [] ∧ n ≠ currentName ∧ n ≠ parentName := by
  unfold component at h
  split_ifs at h with hskip hparent
  · cases h
  · cases h
    push Not at hskip
    exact ⟨rfl, hskip.1, hskip.2, hparent⟩

theorem segment_of_name {t n : OsText} (h : .name n ∈ components t) :
    n ∈ t.splitOn slash ∧ n ≠ [] ∧ n ≠ currentName ∧ n ≠ parentName := by
  have hfound : .name n ∈ (t.splitOn slash).filterMap component := by
    unfold components at h
    simp only at h
    split_ifs at h
    · simpa using h
    · simpa using h
    · exact h
  obtain ⟨segment, hmem, heq⟩ := List.mem_filterMap.mp hfound
  obtain ⟨rfl, hrest⟩ := component_eq_name heq
  exact ⟨hmem, hrest⟩

/-- The names of a parsed path are names of entries. -/
theorem plain_of_components {t n : OsText} (h : .name n ∈ components t) : PlainName n := by
  obtain ⟨hmem, hne, hcurrent, hparent⟩ := segment_of_name h
  exact ⟨not_mem_of_mem_splitOn hmem, hne, hcurrent, hparent⟩

theorem toText_osText (t : Text) : toText (osText t) = some t := by
  induction t with
  | nil => rfl
  | cons c rest ih =>
    simp only [osText] at ih
    simp only [osText, List.map_cons, toText, ih, Option.map_some]

theorem toText_isSome {t : OsText} : (toText t).isSome = true ↔ ∀ x ∈ t, ∃ c, x = .char c := by
  induction t with
  | nil => simp [toText]
  | cons x rest ih =>
    cases x with
    | char c => simp [toText, ih]
    | invalid bytes => simp [toText]

/-- A name that is text is what is shown of it. -/
theorem osText_display {t : OsText} (h : (toText t).isSome = true) : osText (display t) = t := by
  have hall := toText_isSome.mp h
  unfold osText display
  rw [List.map_map]
  refine (List.map_congr_left fun x hx => ?_).trans (List.map_id t)
  obtain ⟨c, rfl⟩ := hall x hx
  rfl

/-- Only a text that starts with a slash is parsed to an absolute path. -/
theorem slash_of_root {t : OsText} (h : .root ∈ components t) : ∃ rest, t = slash :: rest := by
  have hnot : .root ∉ (t.splitOn slash).filterMap component := by
    intro hmem
    obtain ⟨segment, _, heq⟩ := List.mem_filterMap.mp hmem
    unfold component at heq
    split_ifs at heq
    · cases heq
    · cases heq
  unfold components at h
  simp only at h
  split_ifs at h with hslash hcurrent
  · exact List.head?_eq_some_iff.mp hslash
  · exact absurd (by simpa using h) hnot
  · exact absurd h hnot

/-- The names that are parsed from a text are text. -/
theorem isText_of_components {u : Text} {n : OsText} (h : .name n ∈ components (osText u)) :
    (toText n).isSome = true := by
  refine toText_isSome.mpr fun x hx => ?_
  have hmem : x ∈ [slash].intercalate ((osText u).splitOn slash) :=
    mem_intercalate_of_mem (segment_of_name h).1 hx
  rw [List.intercalate_splitOn] at hmem
  obtain ⟨c, _, rfl⟩ := List.mem_map.mp hmem
  exact ⟨c, rfl⟩

theorem isText_render {names : List OsText} (h : ∀ n ∈ names, (toText n).isSome = true) :
    (toText (render (absolutePath names))).isSome = true := by
  rw [render_absolutePath]
  refine toText_isSome.mpr fun x hx => ?_
  rcases List.mem_cons.mp hx with rfl | hx
  · exact ⟨'/', rfl⟩
  · rcases mem_intercalate hx with rfl | ⟨n, hn, hxn⟩
    · exact ⟨'/', rfl⟩
    · exact toText_isSome.mp (h n hn) x hxn

/-- The segments that count are some of the segments. -/
theorem sublist_segments (segments : List OsText) :
    ((segments.filterMap component).map Component.segment).Sublist segments := by
  induction segments with
  | nil => exact List.Sublist.refl []
  | cons s rest ih =>
    cases hs : component s with
    | none =>
      rw [List.filterMap_cons_none hs]
      exact ih.cons s
    | some c =>
      have hseg : c.segment = s := by
        unfold component at hs
        split_ifs at hs with _ hparent
        · cases hs
          exact hparent.symm
        · cases hs
          rfl
      rw [List.filterMap_cons_some hs, List.map_cons, hseg]
      exact ih.cons_cons s

theorem length_intercalate_le (sep : OsChar) {xs ys : List OsText} (h : xs.Sublist ys) :
    ([sep].intercalate xs).length ≤ ([sep].intercalate ys).length := by
  induction h with
  | slnil => exact le_refl _
  | @cons xs ys y h ih =>
    by_cases hys : ys = []
    · subst hys
      rw [List.sublist_nil.mp h]
      exact Nat.zero_le _
    · rw [List.intercalate_cons_of_ne_nil hys]
      simp only [List.length_append]
      omega
  | @cons_cons xs ys y h ih =>
    by_cases hxs : xs = []
    · subst hxs
      by_cases hys : ys = []
      · rw [hys]
      · rw [List.intercalate_cons_of_ne_nil hys]
        simp
    · have hys : ys ≠ [] := fun hys => hxs (List.sublist_nil.mp (hys ▸ h))
      rw [List.intercalate_cons_of_ne_nil hys, List.intercalate_cons_of_ne_nil hxs]
      simp only [List.length_append]
      omega

/-- Parsing an absolute text and writing it again makes it no longer. -/
theorem length_render_components (t : OsText) :
    (render (components (slash :: t))).length ≤ (slash :: t).length := by
  rw [components_absolute]
  simp only [render, List.length_cons]
  have hle := length_intercalate_le slash (sublist_segments (t.splitOn slash))
  rw [List.intercalate_splitOn] at hle
  omega

/-- A path that is written to a text file, one to a line, is read back from the trimmed line
exactly when its names are text and the line has no white space at its end. -/
theorem components_trim_line {names : List OsText} (h : ∀ n ∈ names, PlainName n) :
    components (osText (trim (display (render (absolutePath names)) ++ ['\n']))) =
        absolutePath names ↔
      (∀ n ∈ names, (toText n).isSome = true) ∧
        trim (display (render (absolutePath names))) = display (render (absolutePath names)) := by
  rw [trim_append_whitespace (by decide)]
  constructor
  · intro heq
    have htext : ∀ n ∈ names, (toText n).isSome = true := by
      intro n hn
      refine isText_of_components (u := trim (display (render (absolutePath names)))) ?_
      rw [heq]
      exact List.mem_cons_of_mem _ (List.mem_map_of_mem hn)
    refine ⟨htext, ?_⟩
    -- The trimmed line is a beginning of the line, and parses to a path as long as it.
    have hhead : trim (display (render (absolutePath names))) <+:
        display (render (absolutePath names)) := by
      unfold trim
      rw [trimStartMatches_eq_self]
      · exact trimEndMatches_prefix _ _
      · intro c hc
        rw [render_absolutePath] at hc
        simp only [display, List.map_cons, List.head?_cons, Option.some.injEq] at hc
        rw [← hc]
        decide
    refine hhead.eq_of_length_le ?_
    have hroot : .root ∈ components (osText (trim (display (render (absolutePath names))))) := by
      rw [heq]
      exact List.mem_cons_self
    obtain ⟨rest, hrest⟩ := slash_of_root hroot
    have hle := length_render_components rest
    rw [← hrest, heq] at hle
    simpa [osText, display] using hle
  · intro h'
    obtain ⟨htext, htrim⟩ := h'
    rw [htrim, osText_display (isText_render htext), components_render h]

theorem resolve_absolute {p : OsPath} (h : isAbsolute p = true) (dir : List OsText) :
    resolve dir p = resolve [] p := by
  cases p with
  | nil => cases h
  | cons c rest =>
    obtain rfl : c = .root := by simpa [isAbsolute] using h
    rfl

theorem resolve_absolutePath (dir names : List OsText) :
    resolve dir (absolutePath names) = names := by
  have hnames : ∀ start : List OsText,
      (names.map Component.name).foldl enter start = start ++ names := by
    induction names with
    | nil => intro start; simp
    | cons n rest ih =>
      intro start
      rw [List.map_cons, List.foldl_cons, ih]
      simp [enter]
  exact hnames []

theorem foldl_enter_filter (dir : List OsText) (p : OsPath) :
    (p.filter (· != .current)).foldl enter dir = p.foldl enter dir := by
  induction p generalizing dir with
  | nil => rfl
  | cons c rest ih =>
    cases c with
    | current => exact ih dir
    | root => exact ih []
    | parent => exact ih dir.dropLast
    | name n => exact ih (dir ++ [n])

/-- A path that is joined to a place leads to where it leads from there. -/
theorem resolve_join (dir base : List OsText) (p : OsPath) :
    resolve dir (join (absolutePath base) p) = resolve base p := by
  unfold join
  split_ifs with habsolute
  · rw [resolve_absolute habsolute, ← resolve_absolute habsolute base]
  · unfold resolve
    rw [List.foldl_append, show (absolutePath base).foldl enter dir = base from
      resolve_absolutePath dir base, foldl_enter_filter]

/-- What a path leads to is named by plain names. -/
theorem plain_resolve {dir : List OsText} {p : OsPath} (hdir : ∀ n ∈ dir, PlainName n)
    (hp : ∀ n, .name n ∈ p → PlainName n) : ∀ n ∈ resolve dir p, PlainName n := by
  induction p generalizing dir with
  | nil => exact hdir
  | cons c rest ih =>
    refine ih (?_ : ∀ n ∈ enter dir c, PlainName n) fun n hn => hp n (List.mem_cons_of_mem _ hn)
    intro n hn
    cases c with
    | root => cases hn
    | current => exact hdir n hn
    | parent => exact hdir n (List.mem_of_mem_dropLast hn)
    | name m =>
      rcases List.mem_append.mp hn with hn | hn
      · exact hdir n hn
      · rw [List.mem_singleton.mp hn]
        exact hp m List.mem_cons_self

end Library.OsPaths
