import MyS3.Library.Strings

/-!
Documents of XML 1.0, read one character after the other. Line ends are normalised before
anything is looked at, every character has to be one that the standard allows, and the tags
have to match. A document type, comments, processing instructions and CDATA sections are
not read. The characters of content are items of their own, as in the information set.
-/

namespace Library.Xml

open Library.Strings

/-- The production `Char`. -/
def isChar (c : Char) : Bool :=
  c.toNat == 0x9 || c.toNat == 0xa || c.toNat == 0xd ||
    (0x20 ≤ c.toNat && c.toNat ≤ 0xd7ff) || (0xe000 ≤ c.toNat && c.toNat ≤ 0xfffd) ||
    0x10000 ≤ c.toNat

/-- The production `S`. -/
def isSpace (c : Char) : Bool := c == ' ' || c == '\t' || c == '\n' || c == '\r'

/-- The ranges of `NameStartChar` above ASCII. -/
def nameRanges : List (Nat × Nat) :=
  [(0xc0, 0xd6), (0xd8, 0xf6), (0xf8, 0x2ff), (0x370, 0x37d), (0x37f, 0x1fff), (0x200c, 0x200d),
    (0x2070, 0x218f), (0x2c00, 0x2fef), (0x3001, 0xd7ff), (0xf900, 0xfdcf), (0xfdf0, 0xfffd),
    (0x10000, 0xeffff)]

def isNameStart (c : Char) : Bool :=
  c.isAlpha || c == ':' || c == '_' || nameRanges.any fun r => r.1 ≤ c.toNat && c.toNat ≤ r.2

def isNameChar (c : Char) : Bool :=
  isNameStart c || c.isDigit || c == '-' || c == '.' || c.toNat == 0xb7 ||
    (0x300 ≤ c.toNat && c.toNat ≤ 0x36f) || (0x203f ≤ c.toNat && c.toNat ≤ 0x2040)

/-- Every line end becomes a line feed: a carriage return alone, or with the line feed that
follows it. -/
def normalizeLineEnds : Text → Text
  | [] => []
  | c :: rest =>
    if c = '\r' then
      if rest.head? = some '\n' then normalizeLineEnds rest else '\n' :: normalizeLineEnds rest
    else c :: normalizeLineEnds rest

/-- The value of a digit, in hexadecimal at most. -/
def digitIn (base : Nat) (c : Char) : Option Nat :=
  let value :=
    if '0' ≤ c ∧ c ≤ '9' then c.toNat - '0'.toNat
    else if 'a' ≤ c ∧ c ≤ 'f' then c.toNat - 'a'.toNat + 10
    else if 'A' ≤ c ∧ c ≤ 'F' then c.toNat - 'A'.toNat + 10
    else base
  if value < base then some value else none

def charOf (base : Nat) (digits : Text) : Option Char :=
  if digits = [] then none
  else
    (digits.foldlM (fun n c => (digitIn base c).map (base * n + ·)) 0).bind fun n =>
      if n.isValidChar then some (Char.ofNat n) else none

/-- The character that a reference stands for: one of the predefined entities, or given by its
number. -/
def resolve (name : Text) : Option Char :=
  if name = "amp".toList then some '&'
  else if name = "lt".toList then some '<'
  else if name = "gt".toList then some '>'
  else if name = "quot".toList then some '"'
  else if name = "apos".toList then some '\''
  else
    let number :=
      match stripPrefix "#x".toList name with
      | some digits => charOf 16 digits
      | none => (stripPrefix "#".toList name).bind (charOf 10)
    number.filter isChar

abbrev Attributes := List (Text × Text)

/-- An item of the document. -/
inductive Item
  | char (c : Char)
  | element (name : Text) (attributes : Attributes) (children : List Item)

/-- An element whose end tag is still to come. Its last child so far comes first. -/
structure Frame where
  name : Text
  attributes : Attributes
  children : List Item

/-- Where the reader stands in a tag; what it has read of a name or a value is reversed. -/
inductive Place
  /-- Between attributes, after a space or not. -/
  | between (space : Bool)
  | attrName (raw : Text)
  | equals (name : Text)
  | quote (name : Text)
  | value (name : Text) (quote : Char) (raw : Text)
  | reference (name : Text) (quote : Char) (raw entity : Text)
  | slash
  | question

inductive Mode
  /-- Content, or the space around the root, with the number of closing brackets right
  before, up to two. -/
  | content (brackets : Nat)
  | reference (entity : Text)
  /-- After the angle bracket. -/
  | markup
  | startName (raw : Text)
  /-- In a start tag, or without a name in the XML declaration. -/
  | tag (name : Option Text) (attributes : Attributes) (place : Place)
  | endName (raw : Text)
  | endSpace (name : Text)

/-- The elements that are open, the innermost first, and the root once it is closed. -/
structure State where
  mode : Mode
  frames : List Frame
  root : Option Item

def Frame.add (f : Frame) (i : Item) : Frame := { f with children := i :: f.children }

def State.goOn (s : State) (mode : Mode) : State := { s with mode := mode }

/-- An element has ended. -/
def State.finish (s : State) (i : Item) : State :=
  match s.frames with
  | [] => ⟨.content 0, [], some i⟩
  | f :: rest => ⟨.content 0, f.add i :: rest, s.root⟩

def readContent (s : State) (brackets : Nat) (c : Char) : Option State :=
  if c = '<' then some (s.goOn .markup)
  else
    match s.frames with
    | [] => if isSpace c then some (s.goOn (.content 0)) else none
    | f :: rest =>
      if c = '&' then some (s.goOn (.reference []))
      else if c = '>' ∧ brackets = 2 then none
      else
        let brackets := if c = ']' then min 2 (brackets + 1) else 0
        some ⟨.content brackets, f.add (.char c) :: rest, s.root⟩

def readReference (s : State) (entity : Text) (c : Char) : Option State :=
  if c = ';' then
    match s.frames, resolve entity.reverse with
    | f :: rest, some d => some ⟨.content 0, f.add (.char d) :: rest, s.root⟩
    | _, _ => none
  else some (s.goOn (.reference (c :: entity)))

/-- The value of an attribute of the XML declaration is one that the standard allows. -/
def declares (a : Text × Text) : Bool :=
  if a.1 = "version".toList then
    (stripPrefix "1.".toList a.2).any fun digits => digits ≠ [] && digits.all (·.isDigit)
  else if a.1 = "encoding".toList then
    a.2.head?.any (·.isAlpha) && a.2.all fun c => c.isAlphanum || c == '.' || c == '_' || c == '-'
  else a.2 = "yes".toList || a.2 = "no".toList

def isDeclaration (attributes : Attributes) : Bool :=
  [["version".toList], ["version".toList, "encoding".toList],
    ["version".toList, "standalone".toList],
    ["version".toList, "encoding".toList, "standalone".toList]].contains (attributes.map (·.1)) &&
  attributes.all declares

/-- Between the attributes of a tag. -/
def readBetween (s : State) (name : Option Text) (attributes : Attributes) (space : Bool)
    (c : Char) : Option State :=
  if isSpace c then some (s.goOn (.tag name attributes (.between true)))
  else if isNameStart c ∧ space = true then
    some (s.goOn (.tag name attributes (.attrName [c])))
  else
    match name with
    | none => if c = '?' then some (s.goOn (.tag none attributes .question)) else none
    | some n =>
      if c = '>' then some ⟨.content 0, ⟨n, attributes, []⟩ :: s.frames, s.root⟩
      else if c = '/' then some (s.goOn (.tag name attributes .slash))
      else none

def readTag (s : State) (name : Option Text) (attributes : Attributes) (place : Place)
    (c : Char) : Option State :=
  let stay (place : Place) : Option State := some (s.goOn (.tag name attributes place))
  match place with
  | .between space => readBetween s name attributes space c
  | .attrName raw =>
    if isNameChar c then stay (.attrName (c :: raw))
    else if c = '=' then stay (.quote raw.reverse)
    else if isSpace c then stay (.equals raw.reverse)
    else none
  | .equals attr =>
    if isSpace c then stay place else if c = '=' then stay (.quote attr) else none
  | .quote attr =>
    if isSpace c then stay place
    else if c = '"' ∨ c = '\'' then stay (.value attr c [])
    else none
  | .value attr quote raw =>
    if c = quote then
      if attributes.any fun a => a.1 == attr then none
      else some (s.goOn (.tag name (attributes ++ [(attr, raw.reverse)]) (.between false)))
    else if c = '<' then none
    else if c = '&' then if name.isSome then stay (.reference attr quote raw []) else none
    else stay (.value attr quote ((if isSpace c then ' ' else c) :: raw))
  | .reference attr quote raw entity =>
    if c = ';' then (resolve entity.reverse).bind fun d => stay (.value attr quote (d :: raw))
    else stay (.reference attr quote raw (c :: entity))
  | .slash =>
    match name with
    | none => none
    | some n => if c = '>' then some (s.finish (.element n attributes [])) else none
  | .question => if c = '>' ∧ isDeclaration attributes then some (s.goOn (.content 0)) else none

/-- The end of an end tag. -/
def close (s : State) (name : Text) : Option State :=
  match s.frames with
  | [] => none
  | f :: rest =>
    if f.name = name then
      some (State.finish ⟨s.mode, rest, s.root⟩
        (.element f.name f.attributes f.children.reverse))
    else none

def readMarkup (s : State) (c : Char) : Option State :=
  if c = '/' then some (s.goOn (.endName []))
  else if isNameStart c ∧ (s.root.isNone ∨ s.frames ≠ []) then some (s.goOn (.startName [c]))
  else none

def readEnd (s : State) (name : Text) (c : Char) : Option State :=
  if c = '>' then close s name
  else if isSpace c then some (s.goOn (.endSpace name))
  else none

def step (s : State) (c : Char) : Option State :=
  if isChar c = false then none
  else
    match s.mode with
    | .content brackets => readContent s brackets c
    | .reference entity => readReference s entity c
    | .markup => readMarkup s c
    | .startName raw =>
      if isNameChar c then some (s.goOn (.startName (c :: raw)))
      else readTag s (some raw.reverse) [] (.between false) c
    | .tag name attributes place => readTag s name attributes place c
    | .endName raw =>
      if isNameChar c then some (s.goOn (.endName (c :: raw))) else readEnd s raw.reverse c
    | .endSpace name => readEnd s name c

def run (s : State) (t : Text) : Option State := t.foldlM step s

/-- The root, when the text has ended outside of it. -/
def rootOf (s : State) : Option Item :=
  match s.mode, s.frames with
  | .content _, [] => s.root
  | _, _ => none

/-- The root element of a document; `none` is a text that is not well formed. -/
def readDocument (t : Text) : Option Item :=
  let t := normalizeLineEnds t
  match stripPrefix "<?xml".toList t with
  | some rest => (run ⟨.tag none [] (.between false), [], none⟩ rest).bind rootOf
  | none => (run ⟨.content 0, [], none⟩ t).bind rootOf

/-- The children of an element with a name. -/
def childrenNamed (name : Text) : Item → List Item
  | .char _ => []
  | .element _ _ children =>
    children.filter fun
      | .char _ => false
      | .element n _ _ => n == name

/-- The characters of an element. -/
def textOf : Item → Text
  | .char _ => []
  | .element _ _ children =>
    children.filterMap fun
      | .char c => some c
      | .element _ _ _ => none

theorem textOf_chars (name : Text) (attributes : Attributes) (t : Text) :
    textOf (.element name attributes (t.map .char)) = t := by
  induction t with
  | nil => rfl
  | cons c rest ih => exact congrArg (c :: ·) ih

/-! ### Line ends -/

theorem normalizeLineEnds_cons {c : Char} (h : c ≠ '\r') (t : Text) :
    normalizeLineEnds (c :: t) = c :: normalizeLineEnds t := if_neg h

theorem normalizeLineEnds_prepend {a : Text} (h : '\r' ∉ a) (b : Text) :
    normalizeLineEnds (a ++ b) = a ++ normalizeLineEnds b := by
  induction a with
  | nil => rfl
  | cons c rest ih =>
    rw [List.mem_cons, not_or] at h
    rw [List.cons_append, normalizeLineEnds_cons (Ne.symm h.1), ih h.2, List.cons_append]

/-- A line end that no line feed follows is normalised with what stands before it. -/
theorem normalizeLineEnds_append (a : Text) {b : Text} (h : b.head? ≠ some '\n') :
    normalizeLineEnds (a ++ b) = normalizeLineEnds a ++ normalizeLineEnds b := by
  induction a with
  | nil => rfl
  | cons c rest ih =>
    have hhead : (rest ++ b).head? = some '\n' ↔ rest.head? = some '\n' := by
      cases rest with
      | nil => exact iff_of_false h (by simp)
      | cons d rest => rfl
    simp only [List.cons_append, normalizeLineEnds, hhead, ih]
    split_ifs <;> rfl

theorem mem_normalizeLineEnds {c : Char} (hc : c ≠ '\r') {t : Text} (h : c ∈ t) :
    c ∈ normalizeLineEnds t := by
  induction t with
  | nil => cases h
  | cons d rest ih =>
    unfold normalizeLineEnds
    rcases List.mem_cons.mp h with rfl | h
    · rw [if_neg hc]
      exact List.mem_cons_self
    · split_ifs
      · exact ih h
      · exact List.mem_cons_of_mem _ (ih h)
      · exact List.mem_cons_of_mem _ (ih h)

theorem isChar_normalizeLineEnds {t : Text} (h : ∀ c ∈ t, isChar c = true) :
    ∀ c ∈ normalizeLineEnds t, isChar c = true := by
  induction t with
  | nil => exact List.forall_mem_nil _
  | cons c rest ih =>
    obtain ⟨hc, hrest⟩ := List.forall_mem_cons.mp h
    unfold normalizeLineEnds
    split_ifs
    · exact ih hrest
    · exact List.forall_mem_cons.mpr ⟨rfl, ih hrest⟩
    · exact List.forall_mem_cons.mpr ⟨hc, ih hrest⟩

theorem not_mem_normalizeLineEnds (t : Text) : '\r' ∉ normalizeLineEnds t := by
  induction t with
  | nil => exact List.not_mem_nil
  | cons c rest ih =>
    unfold normalizeLineEnds
    split_ifs with hc
    · exact ih
    · exact fun h => (List.mem_cons.mp h).elim (by decide) ih
    · exact fun h => (List.mem_cons.mp h).elim (Ne.symm hc) ih

/-- Exactly a text with a carriage return is changed. -/
theorem normalizeLineEnds_eq_self_iff {t : Text} : normalizeLineEnds t = t ↔ '\r' ∉ t := by
  constructor
  · intro h
    rw [← h]
    exact not_mem_normalizeLineEnds t
  · intro h
    have hprepend := normalizeLineEnds_prepend h []
    rwa [List.append_nil, normalizeLineEnds, List.append_nil] at hprepend

/-! ### Runs -/

theorem run_append (s : State) (a b : Text) : run s (a ++ b) = (run s a).bind (run · b) :=
  List.foldlM_append

theorem run_cons (s : State) (c : Char) (t : Text) : run s (c :: t) = (step s c).bind (run · t) :=
  List.foldlM_cons

theorem isChar_of_step {s u : State} {c : Char} (h : step s c = some u) : isChar c = true := by
  by_contra hc
  unfold step at h
  rw [if_pos (Bool.not_eq_true _ ▸ hc)] at h
  cases h

/-- A text that is read consists of characters that the standard allows. -/
theorem isChar_of_run {s u : State} {t : Text} (h : run s t = some u) :
    ∀ c ∈ t, isChar c = true := by
  induction t generalizing s with
  | nil => exact List.forall_mem_nil _
  | cons c rest ih =>
    rw [run_cons] at h
    obtain ⟨v, hv, hrest⟩ := Option.bind_eq_some_iff.mp h
    exact List.forall_mem_cons.mpr ⟨isChar_of_step hv, ih hrest⟩

/-- A document consists of characters that the standard allows. -/
theorem isChar_of_readDocument {t : Text} {root : Item} (h : readDocument t = some root)
    {c : Char} (hc : c ∈ t) : isChar c = true := by
  by_cases hcr : c = '\r'
  · rw [hcr]
    rfl
  · have hmem := mem_normalizeLineEnds hcr hc
    unfold readDocument at h
    simp only at h
    split at h
    · rename_i rest hrest
      obtain ⟨u, hrun, _⟩ := Option.bind_eq_some_iff.mp h
      rw [← stripPrefix_eq_some.mp hrest] at hmem
      rcases List.mem_append.mp hmem with hmem | hmem
      · exact forall_mem_of_all (p := fun c => isChar c = true) (by decide) c hmem
      · exact isChar_of_run hrun c hmem
    · obtain ⟨u, hrun, _⟩ := Option.bind_eq_some_iff.mp h
      exact isChar_of_run hrun c hmem

/-! ### What content stands for -/

def Frame.addAll (f : Frame) (items : List Item) : Frame :=
  { f with children := items.reverse ++ f.children }

/-- Wherever it is read inside of an element, the text adds these items to its children. -/
def Stands (t : Text) (items : List Item) : Prop :=
  ∀ (brackets : Nat) (f : Frame) (rest : List Frame) (root : Option Item), ∃ after,
    run ⟨.content brackets, f :: rest, root⟩ t =
      some ⟨.content after, f.addAll items :: rest, root⟩

theorem stands_nil : Stands [] [] := fun brackets _ _ _ => ⟨brackets, rfl⟩

theorem Stands.append {a b : Text} {x y : List Item} (ha : Stands a x) (hb : Stands b y) :
    Stands (a ++ b) (x ++ y) := by
  intro brackets f rest root
  obtain ⟨between, hfirst⟩ := ha brackets f rest root
  obtain ⟨after, hsecond⟩ := hb between (f.addAll x) rest root
  refine ⟨after, ?_⟩
  rw [run_append, hfirst, Option.bind_some, hsecond]
  simp [Frame.addAll]

/-- Texts in a row. -/
theorem stands_flatMap {α : Type*} (l : List α) {text : α → Text} {items : α → List Item}
    (h : ∀ a ∈ l, Stands (text a) (items a)) : Stands (l.flatMap text) (l.flatMap items) := by
  induction l with
  | nil => exact stands_nil
  | cons a rest ih =>
    obtain ⟨hfirst, hrest⟩ := List.forall_mem_cons.mp h
    rw [List.flatMap_cons, List.flatMap_cons]
    exact hfirst.append (ih hrest)

/-- A character that is no markup stands for itself. -/
theorem stands_char {c : Char} (hc : isChar c = true) (hlt : c ≠ '<') (hamp : c ≠ '&')
    (hgt : c ≠ '>') : Stands [c] [.char c] := by
  intro brackets f rest root
  refine ⟨if c = ']' then min 2 (brackets + 1) else 0, ?_⟩
  rw [run_cons, step, if_neg (by simp [hc])]
  simp only [readContent, if_neg hlt, if_neg hamp, hgt, false_and, if_false]
  rfl

/-- A mode that collects characters. -/
theorem run_collect {mode : Text → Mode} {p : Char → Prop} {frames : List Frame}
    {root : Option Item}
    (hstep : ∀ raw c, p c → step ⟨mode raw, frames, root⟩ c = some ⟨mode (c :: raw), frames, root⟩)
    {t : Text} (h : ∀ c ∈ t, p c) (raw : Text) :
    run ⟨mode raw, frames, root⟩ t = some ⟨mode (t.reverse ++ raw), frames, root⟩ := by
  induction t generalizing raw with
  | nil => rfl
  | cons c rest ih =>
    obtain ⟨hc, hrest⟩ := List.forall_mem_cons.mp h
    rw [run_cons, hstep raw c hc, Option.bind_some, ih hrest, List.reverse_cons, List.append_assoc]
    rfl

/-- A reference stands for what it resolves to. -/
theorem stands_reference (name : Text) {c : Char}
    (hname : ∀ d ∈ name, isChar d = true ∧ d ≠ ';') (h : resolve name = some c) :
    Stands ('&' :: (name ++ [';'])) [.char c] := by
  intro brackets f rest root
  have hamp : step ⟨.content brackets, f :: rest, root⟩ '&' =
      some ⟨.reference [], f :: rest, root⟩ := rfl
  have hcollect : ∀ raw d, isChar d = true ∧ d ≠ ';' →
      step ⟨.reference raw, f :: rest, root⟩ d = some ⟨.reference (d :: raw), f :: rest, root⟩ := by
    intro raw d hd
    rw [step, if_neg (by simp [hd.1])]
    simp only [readReference, if_neg hd.2, State.goOn]
  refine ⟨0, ?_⟩
  rw [run_cons, hamp, Option.bind_some, run_append, run_collect hcollect hname, Option.bind_some,
    run_cons, step, if_neg (by decide)]
  simp only [readReference, List.append_nil, List.reverse_reverse, h]
  rfl

theorem isChar_iff {c : Char} : isChar c = true ↔ c.toNat = 0x9 ∨ c.toNat = 0xa ∨
    c.toNat = 0xd ∨ (0x20 ≤ c.toNat ∧ c.toNat ≤ 0xd7ff) ∨
      (0xe000 ≤ c.toNat ∧ c.toNat ≤ 0xfffd) ∨ 0x10000 ≤ c.toNat := by
  simp [isChar, or_assoc]

theorem isChar_of_alphanum {c : Char} (h : c.isAlphanum = true) : isChar c = true := by
  have hval : c.val.toNat = c.toNat := rfl
  change ((decide ('A'.val ≤ c.val ∧ c.val ≤ 'Z'.val) ||
    (decide ('a'.val ≤ c.val) && decide (c.val ≤ 'z'.val))) ||
    (decide ('0'.val ≤ c.val) && decide (c.val ≤ '9'.val))) = true at h
  simp only [Bool.or_eq_true, Bool.and_eq_true, decide_eq_true_eq, UInt32.le_iff_toNat_le,
    hval] at h
  have hletters : 'A'.val.toNat = 65 ∧ 'Z'.val.toNat = 90 ∧ 'a'.val.toNat = 97 ∧
      'z'.val.toNat = 122 ∧ '0'.val.toNat = 48 ∧ '9'.val.toNat = 57 := by decide
  rw [isChar_iff]
  omega

theorem isChar_of_isNameStart {c : Char} (h : isNameStart c = true) : isChar c = true := by
  simp only [isNameStart, Bool.or_eq_true, beq_iff_eq] at h
  rcases h with ((halpha | rfl) | rfl) | hrange
  · exact isChar_of_alphanum (by simp [Char.isAlphanum, halpha])
  · rfl
  · rfl
  · obtain ⟨r, hr, hbounds⟩ := List.any_eq_true.mp hrange
    rw [Bool.and_eq_true, decide_eq_true_eq, decide_eq_true_eq] at hbounds
    have hin : ∀ r ∈ nameRanges, 0x20 ≤ r.1 ∧ (r.2 ≤ 0xd7ff ∨ (0xe000 ≤ r.1 ∧ r.2 ≤ 0xfffd) ∨
        0x10000 ≤ r.1) := by decide
    have hrange := hin r hr
    rw [isChar_iff]
    omega

theorem not_space_of_isNameStart {c : Char} (h : isNameStart c = true) : isSpace c = false := by
  rw [← Bool.not_eq_true]
  intro hspace
  simp only [isSpace, Bool.or_eq_true, beq_iff_eq] at hspace
  rcases hspace with ((rfl | rfl) | rfl) | rfl
  · cases h
  · cases h
  · cases h
  · cases h

theorem isChar_of_isNameChar {c : Char} (h : isNameChar c = true) : isChar c = true := by
  simp only [isNameChar, Bool.or_eq_true, Bool.and_eq_true, beq_iff_eq, decide_eq_true_eq] at h
  rcases h with (((((hstart | hdigit) | rfl) | rfl) | hdot) | hmarks) | hties
  · exact isChar_of_isNameStart hstart
  · exact isChar_of_alphanum (by simp [Char.isAlphanum, hdigit])
  · rfl
  · rfl
  · rw [isChar_iff]
    omega
  · rw [isChar_iff]
    omega
  · rw [isChar_iff]
    omega

/-- The production `Name`. -/
def IsName (name : Text) : Prop :=
  name.head?.any isNameStart = true ∧ ∀ c ∈ name, isNameChar c = true

/-- A name is read to its end in a mode that collects it. -/
theorem run_name {mode : Text → Mode} {frames : List Frame} {root : Option Item}
    (hstep : ∀ raw c, isChar c = true → isNameChar c = true →
      step ⟨mode raw, frames, root⟩ c = some ⟨mode (c :: raw), frames, root⟩)
    {name : Text} (hname : ∀ c ∈ name, isNameChar c = true) (raw : Text) :
    run ⟨mode raw, frames, root⟩ name = some ⟨mode (name.reverse ++ raw), frames, root⟩ :=
  run_collect (fun raw c hc => hstep raw c (isChar_of_isNameChar hc) hc) hname raw

theorem run_startName {name : Text} (hname : IsName name) {frames : List Frame}
    {root : Option Item} (hroot : root.isNone = true ∨ frames ≠ []) :
    run ⟨.markup, frames, root⟩ name = some ⟨.startName name.reverse, frames, root⟩ := by
  obtain ⟨hstart, hchars⟩ := hname
  cases name with
  | nil => cases hstart
  | cons c rest =>
    have hfirst : isNameStart c = true := hstart
    have hslash : c ≠ '/' := by
      intro h
      obtain rfl := h
      cases hfirst
    have hmarkup : step ⟨.markup, frames, root⟩ c = some ⟨.startName [c], frames, root⟩ := by
      rw [step, if_neg (by simp [isChar_of_isNameStart hfirst])]
      simp only [readMarkup, if_neg hslash, hfirst, true_and, if_pos hroot, State.goOn]
    have hcollect : ∀ raw d, isChar d = true → isNameChar d = true →
        step ⟨.startName raw, frames, root⟩ d = some ⟨.startName (d :: raw), frames, root⟩ := by
      intro raw d hd hname
      rw [step, if_neg (by simp [hd])]
      simp only [if_pos hname, State.goOn]
    rw [run_cons, hmarkup, Option.bind_some,
      run_name hcollect (List.forall_mem_cons.mp hchars).2, List.reverse_cons]

theorem run_endName {name : Text} (hname : IsName name) (frames : List Frame)
    (root : Option Item) :
    run ⟨.endName [], frames, root⟩ name = some ⟨.endName name.reverse, frames, root⟩ := by
  have hcollect : ∀ raw d, isChar d = true → isNameChar d = true →
      step ⟨.endName raw, frames, root⟩ d = some ⟨.endName (d :: raw), frames, root⟩ := by
    intro raw d hd hname
    rw [step, if_neg (by simp [hd])]
    simp only [if_pos hname, State.goOn]
  rw [run_name hcollect hname.2, List.append_nil]

/-! ### Attributes -/

/-- The attributes of a tag, each after a space and in double quotes. -/
def attributesText (attributes : Attributes) : Text :=
  attributes.flatMap fun a => ' ' :: (a.1 ++ '=' :: '"' :: (a.2 ++ ['"']))

/-- The value of an attribute that needs no reference and no normalisation. -/
def IsPlainValue (v : Text) : Prop :=
  ∀ c ∈ v, isChar c = true ∧ c ≠ '<' ∧ c ≠ '&' ∧ c ≠ '"' ∧ isSpace c = false

def ArePlain (attributes : Attributes) : Prop :=
  ∀ a ∈ attributes, IsName a.1 ∧ IsPlainValue a.2

section attributes

variable {tagName : Option Text} {before : Attributes} {frames : List Frame} {root : Option Item}

theorem run_attrName {name : Text} (hname : IsName name) (space : Bool) (rest : Text) :
    run ⟨.tag tagName before (.between space), frames, root⟩ (' ' :: (name ++ '=' :: rest)) =
      run ⟨.tag tagName before (.quote name), frames, root⟩ rest := by
  obtain ⟨hstart, hchars⟩ := hname
  have hspace : step ⟨.tag tagName before (.between space), frames, root⟩ ' ' =
      some ⟨.tag tagName before (.between true), frames, root⟩ := rfl
  cases name with
  | nil => cases hstart
  | cons c cs =>
    have hfirst : isNameStart c = true := hstart
    have hletter : step ⟨.tag tagName before (.between true), frames, root⟩ c =
        some ⟨.tag tagName before (.attrName [c]), frames, root⟩ := by
      have hnospace := not_space_of_isNameStart hfirst
      rw [step, if_neg (by simp [isChar_of_isNameStart hfirst])]
      simp only [readTag, readBetween, hnospace, hfirst, Bool.false_eq_true, if_false, and_self,
        if_true, State.goOn]
    have hcollect : ∀ raw d, isChar d = true → isNameChar d = true →
        step ⟨.tag tagName before (.attrName raw), frames, root⟩ d =
          some ⟨.tag tagName before (.attrName (d :: raw)), frames, root⟩ := by
      intro raw d hd hname
      rw [step, if_neg (by simp [hd])]
      simp only [readTag, if_pos hname, State.goOn]
    have hequals : step ⟨.tag tagName before (.attrName (cs.reverse ++ [c])), frames, root⟩ '=' =
        some ⟨.tag tagName before (.quote (cs.reverse ++ [c]).reverse), frames, root⟩ := rfl
    rw [run_cons, hspace, Option.bind_some, List.cons_append, run_cons, hletter, Option.bind_some,
      run_append, run_name hcollect (List.forall_mem_cons.mp hchars).2, Option.bind_some, run_cons,
      hequals, Option.bind_some]
    simp

theorem run_value {name v : Text} (hv : IsPlainValue v) (hnew : name ∉ before.map (·.1))
    (rest : Text) :
    run ⟨.tag tagName before (.quote name), frames, root⟩ ('"' :: (v ++ '"' :: rest)) =
      run ⟨.tag tagName (before ++ [(name, v)]) (.between false), frames, root⟩ rest := by
  have hopen : step ⟨.tag tagName before (.quote name), frames, root⟩ '"' =
      some ⟨.tag tagName before (.value name '"' []), frames, root⟩ := rfl
  have hcollect : ∀ raw d, (isChar d = true ∧ d ≠ '<' ∧ d ≠ '&' ∧ d ≠ '"' ∧ isSpace d = false) →
      step ⟨.tag tagName before (.value name '"' raw), frames, root⟩ d =
        some ⟨.tag tagName before (.value name '"' (d :: raw)), frames, root⟩ := by
    intro raw d hd
    obtain ⟨hchar, hlt, hamp, hquot, hspace⟩ := hd
    rw [step, if_neg (by simp [hchar])]
    simp only [readTag, if_neg hquot, if_neg hlt, if_neg hamp, hspace, Bool.false_eq_true, if_false,
      State.goOn]
  have hclose : step ⟨.tag tagName before (.value name '"' v.reverse), frames, root⟩ '"' =
      some ⟨.tag tagName (before ++ [(name, v)]) (.between false), frames, root⟩ := by
    have hunused : (before.any fun a => a.1 == name) = false := by
      rw [List.any_eq_false]
      intro a ha heq
      exact hnew (List.mem_map.mpr ⟨a, ha, beq_iff_eq.mp heq⟩)
    rw [step, if_neg (by decide)]
    simp only [readTag, if_true, hunused, Bool.false_eq_true, if_false, List.reverse_reverse,
      State.goOn]
  rw [run_cons, hopen, Option.bind_some, run_append, run_collect hcollect hv, Option.bind_some,
    List.append_nil, run_cons, hclose, Option.bind_some]

/-- The attributes of a tag are read, and the next character ends it or is wrong. -/
theorem run_attributes {attributes : Attributes} (hplain : ArePlain attributes)
    (hnew : ((before ++ attributes).map (·.1)).Nodup) (space : Bool) (rest : Text) :
    ∃ after, run ⟨.tag tagName before (.between space), frames, root⟩
        (attributesText attributes ++ rest) =
      run ⟨.tag tagName (before ++ attributes) (.between after), frames, root⟩ rest := by
  induction attributes generalizing before space with
  | nil => exact ⟨space, by rw [List.append_nil]; rfl⟩
  | cons a more ih =>
    obtain ⟨⟨hname, hvalue⟩, hmore⟩ := List.forall_mem_cons.mp hplain
    have hunused : a.1 ∉ before.map (·.1) := by
      intro hmem
      rw [List.map_append, List.nodup_append] at hnew
      exact hnew.2.2 _ hmem _ List.mem_cons_self rfl
    have hrest : ((before ++ [a] ++ more).map (·.1)).Nodup := by
      rwa [List.append_assoc]
    obtain ⟨after, hafter⟩ := ih hmore hrest false
    refine ⟨after, ?_⟩
    have htext : attributesText (a :: more) ++ rest =
        ' ' :: (a.1 ++ '=' :: '"' :: (a.2 ++ '"' :: (attributesText more ++ rest))) := by
      simp [attributesText]
    rw [htext, run_attrName hname, run_value hvalue hunused, hafter, List.append_assoc]
    rfl

theorem run_allAttributes {attributes : Attributes} (hplain : ArePlain attributes)
    (hnew : (attributes.map (·.1)).Nodup) (rest : Text) :
    ∃ after, run ⟨.tag tagName [] (.between false), frames, root⟩
        (attributesText attributes ++ rest) =
      run ⟨.tag tagName attributes (.between after), frames, root⟩ rest :=
  run_attributes hplain (show ((([] : Attributes) ++ attributes).map (·.1)).Nodup from hnew)
    false rest

end attributes

/-! ### Elements and documents -/

/-- An element. -/
def tagged (name : Text) (attributes : Attributes) (t : Text) : Text :=
  '<' :: (name ++ (attributesText attributes ++
    '>' :: (t ++ '<' :: '/' :: (name ++ ['>']))))

/-- After its name a start tag is read like after an attribute. -/
theorem run_startTag (name : Text) (attributes : Attributes) (frames : List Frame)
    (root : Option Item) (rest : Text) :
    run ⟨.startName name.reverse, frames, root⟩ (attributesText attributes ++ '>' :: rest) =
      run ⟨.tag (some name) [] (.between false), frames, root⟩
        (attributesText attributes ++ '>' :: rest) := by
  have hends : ∀ c, isChar c = true → isNameChar c = false →
      step ⟨.startName name.reverse, frames, root⟩ c =
        step ⟨.tag (some name) [] (.between false), frames, root⟩ c := by
    intro c hc hname
    unfold step
    simp only [hname, Bool.false_eq_true, if_false, List.reverse_reverse]
    rfl
  cases attributes with
  | nil => rw [attributesText, List.flatMap_nil, List.nil_append, run_cons, hends '>' rfl rfl]; rfl
  | cons a more =>
    rw [attributesText, List.flatMap_cons, List.cons_append, List.cons_append, run_cons,
      hends ' ' rfl rfl]
    rfl

/-- An element is read to its end. -/
theorem run_tagged {name t : Text} {attributes : Attributes} {items : List Item}
    (hname : IsName name) (hplain : ArePlain attributes) (hnew : (attributes.map (·.1)).Nodup)
    (h : Stands t items) (brackets : Nat) {frames : List Frame} {root : Option Item}
    (hroot : root.isNone = true ∨ frames ≠ []) :
    run ⟨.content brackets, frames, root⟩ (tagged name attributes t) =
      some (State.finish ⟨.content 0, frames, root⟩ (.element name attributes items)) := by
  have hopen : ∀ (b : Nat) (frames : List Frame),
      step ⟨.content b, frames, root⟩ '<' = some ⟨.markup, frames, root⟩ := fun _ _ => rfl
  have hslash : ∀ frames, step ⟨.markup, frames, root⟩ '/' = some ⟨.endName [], frames, root⟩ :=
    fun _ => rfl
  have hpush : ∀ after, step ⟨.tag (some name) attributes (.between after), frames, root⟩ '>' =
      some ⟨.content 0, ⟨name, attributes, []⟩ :: frames, root⟩ := by
    intro after
    cases after with
    | true => rfl
    | false => rfl
  have hclosed : step ⟨.endName name.reverse,
      Frame.addAll ⟨name, attributes, []⟩ items :: frames, root⟩ '>' =
      some (State.finish ⟨.content 0, frames, root⟩ (.element name attributes items)) := by
    have hclose : step ⟨.endName name.reverse,
        Frame.addAll ⟨name, attributes, []⟩ items :: frames, root⟩ '>' =
        close ⟨.endName name.reverse, Frame.addAll ⟨name, attributes, []⟩ items :: frames, root⟩
          name.reverse.reverse := rfl
    rw [hclose, List.reverse_reverse]
    simp [close, Frame.addAll, State.finish]
  obtain ⟨space, htag⟩ : ∃ space, run ⟨.tag (some name) [] (.between false), frames, root⟩
      (attributesText attributes ++ '>' :: (t ++ '<' :: '/' :: (name ++ ['>']))) =
      run ⟨.tag (some name) attributes (.between space), frames, root⟩
        ('>' :: (t ++ '<' :: '/' :: (name ++ ['>']))) := run_allAttributes hplain hnew _
  obtain ⟨after, hcontent⟩ := h 0 ⟨name, attributes, []⟩ frames root
  rw [tagged, run_cons, hopen, Option.bind_some, run_append, run_startName hname hroot,
    Option.bind_some, run_startTag, htag, run_cons, hpush, Option.bind_some, run_append, hcontent,
    Option.bind_some, run_cons, hopen, Option.bind_some, run_cons, hslash, Option.bind_some,
    run_append, run_endName hname, Option.bind_some, run_cons, hclosed]
  rfl

/-- An element stands for itself, with what its content stands for. -/
theorem stands_tagged {name t : Text} {items : List Item} (hname : IsName name)
    (h : Stands t items) : Stands (tagged name [] t) [.element name [] items] := by
  intro brackets f rest root
  exact ⟨0, run_tagged hname (List.forall_mem_nil _) List.nodup_nil h brackets
    (Or.inr (List.cons_ne_nil _ _))⟩

/-- The characters of a text without markup stand for themselves. -/
theorem stands_plain {t : Text}
    (h : ∀ c ∈ t, isChar c = true ∧ c ≠ '<' ∧ c ≠ '&' ∧ c ≠ '>') : Stands t (t.map .char) := by
  have hall : Stands (t.flatMap fun c => [c]) (t.flatMap fun c => [Item.char c]) := by
    refine stands_flatMap t fun c hc => ?_
    obtain ⟨hchar, hlt, hamp, hgt⟩ := h c hc
    exact stands_char hchar hlt hamp hgt
  rwa [List.flatMap_singleton', ← List.map_eq_flatMap] at hall

theorem not_return_of_isNameChar {c : Char} (h : isNameChar c = true) : c ≠ '\r' := by
  intro h'
  obtain rfl := h'
  cases h

theorem not_return_attributesText {attributes : Attributes} (hplain : ArePlain attributes) :
    '\r' ∉ attributesText attributes := by
  intro hmem
  obtain ⟨a, ha, hmem⟩ := List.mem_flatMap.mp hmem
  obtain ⟨hname, hvalue⟩ := hplain a ha
  simp only [List.mem_cons, List.mem_append, List.not_mem_nil, or_false] at hmem
  rcases hmem with hmem | hmem | hmem | hmem | hmem | hmem
  · cases hmem
  · exact not_return_of_isNameChar (hname.2 _ hmem) rfl
  · cases hmem
  · cases hmem
  · exact absurd (hvalue _ hmem).2.2.2.2 (by decide)
  · cases hmem

/-- Line ends are normalised in the content of an element. -/
theorem normalizeLineEnds_tagged {name : Text} {attributes : Attributes} (hname : IsName name)
    (hplain : ArePlain attributes) (t rest : Text) :
    normalizeLineEnds (tagged name attributes t ++ rest) =
      tagged name attributes (normalizeLineEnds t) ++ normalizeLineEnds rest := by
  have hnoreturn : '\r' ∉ name := fun hmem => not_return_of_isNameChar (hname.2 _ hmem) rfl
  simp only [tagged, List.cons_append, List.append_assoc, List.nil_append]
  rw [normalizeLineEnds_cons (by decide), normalizeLineEnds_prepend hnoreturn,
    normalizeLineEnds_prepend (not_return_attributesText hplain),
    normalizeLineEnds_cons (by decide), normalizeLineEnds_append t (by simp),
    normalizeLineEnds_cons (by decide), normalizeLineEnds_cons (by decide),
    normalizeLineEnds_prepend hnoreturn, normalizeLineEnds_cons (by decide)]

/-- Wherever it stands in the content of an element, the text is read as these items. -/
structure Reads (t : Text) (items : List Item) : Prop where
  apart : ∀ rest, normalizeLineEnds (t ++ rest) = normalizeLineEnds t ++ normalizeLineEnds rest
  stands : Stands (normalizeLineEnds t) items

theorem reads_nil : Reads [] [] := ⟨fun _ => rfl, stands_nil⟩

theorem Reads.append {a b : Text} {x y : List Item} (ha : Reads a x) (hb : Reads b y) :
    Reads (a ++ b) (x ++ y) := by
  refine ⟨fun rest => ?_, ?_⟩
  · rw [List.append_assoc, ha.apart, hb.apart, ha.apart, List.append_assoc]
  · rw [ha.apart]
    exact ha.stands.append hb.stands

/-- Texts in a row. -/
theorem reads_flatMap {α : Type*} (l : List α) {text : α → Text} {items : α → List Item}
    (h : ∀ a ∈ l, Reads (text a) (items a)) : Reads (l.flatMap text) (l.flatMap items) := by
  induction l with
  | nil => exact reads_nil
  | cons a rest ih =>
    obtain ⟨hfirst, hrest⟩ := List.forall_mem_cons.mp h
    rw [List.flatMap_cons, List.flatMap_cons]
    exact hfirst.append (ih hrest)

/-- A text without markup and carriage returns. -/
theorem reads_plain {t : Text}
    (h : ∀ c ∈ t, isChar c = true ∧ c ≠ '\r' ∧ c ≠ '<' ∧ c ≠ '&' ∧ c ≠ '>') :
    Reads t (t.map .char) := by
  have hnoreturn : '\r' ∉ t := fun hmem => (h _ hmem).2.1 rfl
  refine ⟨fun rest => ?_, ?_⟩
  · rw [normalizeLineEnds_prepend hnoreturn, normalizeLineEnds_eq_self_iff.mpr hnoreturn]
  · rw [normalizeLineEnds_eq_self_iff.mpr hnoreturn]
    refine stands_plain fun c hc => ?_
    obtain ⟨hchar, _, hmarkup⟩ := h c hc
    exact ⟨hchar, hmarkup⟩

/-- Between its tags, any text is read on its own. -/
theorem reads_tagged {name t : Text} {items : List Item} (hname : IsName name)
    (h : Stands (normalizeLineEnds t) items) :
    Reads (tagged name [] t) [.element name [] items] := by
  have hnormal := normalizeLineEnds_tagged hname (List.forall_mem_nil _) t
  have halone := hnormal []
  rw [List.append_nil, normalizeLineEnds, List.append_nil] at halone
  refine ⟨fun rest => ?_, ?_⟩
  · rw [hnormal, halone]
  · rw [halone]
    exact stands_tagged hname h

/-- The XML declaration. -/
def declaration (attributes : Attributes) : Text :=
  "<?xml".toList ++ (attributesText attributes ++ "?>".toList)

/-- A document of a declaration and a root is read as what the content of the root stands for
once its line ends are normalised. -/
theorem readDocument_eq {declared attributes : Attributes} {name t : Text} {items : List Item}
    (hdeclared : ArePlain declared) (hdeclares : isDeclaration declared = true)
    (hdistinct : (declared.map (·.1)).Nodup) (hname : IsName name) (hplain : ArePlain attributes)
    (hnew : (attributes.map (·.1)).Nodup) (h : Stands (normalizeLineEnds t) items) :
    readDocument (declaration declared ++ '\n' :: tagged name attributes t) =
      some (.element name attributes items) := by
  have hnormal : normalizeLineEnds (declaration declared ++ '\n' :: tagged name attributes t) =
      "<?xml".toList ++ (attributesText declared ++ ('?' :: '>' :: '\n' ::
        tagged name attributes (normalizeLineEnds t))) := by
    have htagged := normalizeLineEnds_tagged hname hplain t []
    rw [List.append_nil, normalizeLineEnds, List.append_nil] at htagged
    simp only [declaration, List.append_assoc]
    rw [normalizeLineEnds_prepend (by decide),
      normalizeLineEnds_prepend (not_return_attributesText hdeclared),
      normalizeLineEnds_prepend (by decide), normalizeLineEnds_cons (by decide), htagged]
    rfl
  obtain ⟨space, htag⟩ : ∃ space, run ⟨.tag none [] (.between false), [], none⟩
      (attributesText declared ++ ('?' :: '>' :: '\n' ::
        tagged name attributes (normalizeLineEnds t))) =
      run ⟨.tag none declared (.between space), [], none⟩ ('?' :: '>' :: '\n' ::
        tagged name attributes (normalizeLineEnds t)) := run_allAttributes hdeclared hdistinct _
  have hquestion : step ⟨.tag none declared (.between space), [], none⟩ '?' =
      some ⟨.tag none declared .question, [], none⟩ := by
    cases space with
    | true => rfl
    | false => rfl
  have hend : step ⟨.tag none declared .question, [], none⟩ '>' =
      some ⟨.content 0, [], none⟩ := by
    rw [step, if_neg (by decide)]
    simp only [readTag, hdeclares, and_self, if_true, State.goOn]
  have hspace : step ⟨.content 0, [], none⟩ '\n' = some ⟨.content 0, [], none⟩ := rfl
  unfold readDocument
  simp only
  rw [hnormal, stripPrefix_eq_some.mpr rfl]
  simp only
  rw [htag, run_cons, hquestion, Option.bind_some, run_cons, hend, Option.bind_some, run_cons,
    hspace, Option.bind_some, run_tagged hname hplain hnew h 0 (Or.inl rfl)]
  rfl

end Library.Xml
