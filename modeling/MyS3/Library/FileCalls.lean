import MyS3.Library.FileTree
import MyS3.Library.OsPaths

/-!
The file calls of a process. A call may fail for its own reasons, such as a missing file, or
for reasons from outside, in the order of a list; a call that fails may have done a part of
its work. Relative paths are read in the working directory, which moves with its place in
the tree, and is lost with it. A computation may also run forever.

An effect is a relation between the world before and after that looks at the tree and the
working directory only and that composes; what has it call by call has it as a whole.
-/

namespace Library.FileCalls

open Library.Strings Library.OsPaths Library.FileTree

abbrev Place := List OsText

/-- An error: the code of the operating system, if it has one, and the outermost text, if it
is not the system's own. -/
structure Failure where
  code : Option Int := none
  message : Option Text := none
  deriving DecidableEq

/-- A failure from outside, and how far the call has come, if it has begun. -/
structure Fault where
  code : Int
  done : Option Nat := none

structure World where
  tree : Tree OsText OsText
  /-- `none` after the working directory was removed. -/
  cwd : Option Place
  /-- What meets the next calls. -/
  faults : List (Option Fault)

def noEntry : Int := 2
def busy : Int := 16
def alreadyExists : Int := 17
def notADirectory : Int := 20
def isADirectory : Int := 21
def invalidArgument : Int := 22
def notEmpty : Int := 39

/-- The world after a call has taken what meets it. -/
def World.met (w : World) : World := { w with faults := w.faults.tail }

/-- The place that a path names. -/
def World.place (w : World) (p : OsPath) : Option Place :=
  if isAbsolute p then some (resolve [] p) else w.cwd.map fun dir => resolve dir p

/-- A relation of two worlds that two calls, one after the other, keep. -/
class Effect (R : World → World → Prop) : Prop where
  same {w w' : World} : w'.tree = w.tree → w'.cwd = w.cwd → R w w'
  trans {w w1 w' : World} : R w w1 → R w1 w' → R w w'

theorem Effect.of_met {R : World → World → Prop} [Effect R] {w w' : World} (h : R w.met w') :
    R w w' := by
  have hmet : R w w.met := Effect.same rfl rfl
  exact Effect.trans hmet h

/-- A computation; `none` runs forever. -/
def Io (α : Type) := World → Option (Except Failure α × World)

namespace Io

variable {α β : Type}

def ret (a : α) : Io α := fun w => some (.ok a, w)

def andThen (m : Io α) (f : α → Io β) : Io β := fun w =>
  match m w with
  | none => none
  | some (.error e, w') => some (.error e, w')
  | some (.ok a, w') => f a w'

instance : Monad Io where
  pure := ret
  bind := andThen

def fail (e : Failure) : Io α := fun w => some (.error e, w)

/-- An error of the program's own. -/
def bail (message : Text) : Io α := fail { message := some message }

def withContext (m : Io α) (message : Text) : Io α := fun w =>
  match m w with
  | some (.error e, w') => some (.error { e with message := some message }, w')
  | r => r

/-- What a computation ends with, its error included. -/
def attempt (m : Io α) : Io (Except Failure α) := fun w =>
  (m w).map fun r => (.ok r.1, r.2)

/-- The error of a computation is not looked at. -/
def orElse (m : Io α) (a : α) : Io α := fun w =>
  match m w with
  | some (.error _, w') => some (.ok a, w')
  | r => r

/-- A call: `act` is what it does, and `part` what it leaves after a failure from outside. -/
def call (act : World → Except Int (α × World)) (part : Nat → World → World) : Io α := fun w =>
  match w.faults.head? with
  | some (some f) => some (.error { code := some f.code }, f.done.elim w.met fun n => part n w.met)
  | _ =>
    match act w.met with
    | .ok (a, w') => some (.ok a, w')
    | .error code => some (.error { code := some code }, w.met)

/-- A call that changes nothing. -/
def query (act : World → Except Int α) : Io α :=
  call (fun w => (act w).map fun a => (a, w)) fun _ w => w

theorem pure_run {a : α} {r : Except Failure α} {w w' : World} :
    (pure a : Io α) w = some (r, w') ↔ .ok a = r ∧ w = w' := by
  simp [pure, ret]

theorem fail_run {e : Failure} {r : Except Failure α} {w w' : World} :
    (fail e : Io α) w = some (r, w') ↔ .error e = r ∧ w = w' := by
  simp [fail]

/-- A computation ends in one way. -/
theorem run_unique {m : Io α} {r r' : Except Failure α} {w w1 w2 : World}
    (h : m w = some (r, w1)) (h' : m w = some (r', w2)) : r = r' ∧ w1 = w2 := by
  rw [h] at h'
  exact Prod.mk.inj (Option.some.inj h')

theorem ok_unique {m : Io α} {a b : α} {w w1 w2 : World} (h : m w = some (.ok a, w1))
    (h' : m w = some (.ok b, w2)) : a = b ∧ w1 = w2 :=
  (run_unique h h').imp_left Except.ok.inj

theorem not_ok_of_error {m : Io α} {a : α} {e : Failure} {w w1 w2 : World}
    (h : m w = some (.error e, w1)) : m w ≠ some (.ok a, w2) := by
  intro h'
  cases (run_unique h h').1

theorem bind_ok {m : Io α} {f : α → Io β} {w w' : World} {b : β} :
    (m >>= f) w = some (.ok b, w') ↔
      ∃ a w1, m w = some (.ok a, w1) ∧ f a w1 = some (.ok b, w') := by
  simp only [bind, andThen]
  constructor
  · intro h
    split at h
    · cases h
    · cases h
    · rename_i a w1 hm
      exact ⟨a, w1, hm, h⟩
  · intro h'
    obtain ⟨a, w1, hm, hf⟩ := h'
    rw [hm]
    exact hf

theorem pure_ok {a b : α} {w w' : World} :
    (pure a : Io α) w = some (.ok b, w') ↔ a = b ∧ w = w' := by
  simp [pure, ret]

theorem fail_ok {e : Failure} {b : α} {w w' : World} :
    (fail e : Io α) w = some (.ok b, w') ↔ False := by
  simp [fail]

theorem withContext_ok {m : Io α} {message : Text} {b : α} {w w' : World} :
    (withContext m message) w = some (.ok b, w') ↔ m w = some (.ok b, w') := by
  unfold withContext
  split
  · rename_i hm
    simp [hm]
  · rfl

theorem attempt_ok {m : Io α} {r : Except Failure α} {w w' : World} :
    (attempt m) w = some (.ok r, w') ↔ m w = some (r, w') := by
  unfold attempt
  rw [Option.map_eq_some_iff]
  constructor
  · intro h
    obtain ⟨⟨r', w1⟩, hm, heq⟩ := h
    simp only [Prod.mk.injEq, Except.ok.injEq] at heq
    obtain ⟨rfl, rfl⟩ := heq
    exact hm
  · intro hm
    exact ⟨_, hm, rfl⟩

/-- What comes after an attempt starts where the computation has ended. -/
theorem bind_attempt_ok {m : Io α} {f : Except Failure α → Io β} {w w' : World} {b : β} :
    (attempt m >>= f) w = some (.ok b, w') ↔
      ∃ r w1, m w = some (r, w1) ∧ f r w1 = some (.ok b, w') := by
  rw [bind_ok]
  simp only [attempt_ok]

/-- A call that succeeds has met no fault. -/
theorem call_ok {act : World → Except Int (α × World)} {part : Nat → World → World} {b : α}
    {w w' : World} (h : call act part w = some (.ok b, w')) : act w.met = .ok (b, w') := by
  unfold call at h
  split at h
  · cases h
  · split at h
    · rename_i hact
      simp only [Option.some.injEq, Prod.mk.injEq, Except.ok.injEq] at h
      obtain ⟨rfl, rfl⟩ := h
      exact hact
    · cases h

/-- A call that leaves nothing when it fails. -/
theorem call_error {act : World → Except Int (α × World)} {e : Failure} {w w' : World}
    (h : call act (fun _ w => w) w = some (.error e, w')) : w' = w.met := by
  unfold call at h
  split at h
  · rename_i f _
    simp only [Option.some.injEq, Prod.mk.injEq] at h
    rw [← h.2]
    cases f.done with
    | none => rfl
    | some n => rfl
  · split at h
    · simp at h
    · simp only [Option.some.injEq, Prod.mk.injEq] at h
      exact h.2.symm

theorem query_ok {act : World → Except Int α} {b : α} {w w' : World}
    (h : query act w = some (.ok b, w')) : act w.met = .ok b ∧ w' = w.met := by
  have hact := call_ok h
  cases hb : act w.met with
  | error code =>
    rw [hb] at hact
    cases hact
  | ok a =>
    rw [hb] at hact
    simp only [Except.map, Except.ok.injEq, Prod.mk.injEq] at hact
    exact ⟨by rw [hact.1], hact.2.symm⟩

/-- However a computation ends, it has had the effect. -/
def Keeps (R : World → World → Prop) (m : Io α) : Prop := ∀ w r w', m w = some (r, w') → R w w'

section Keeps

variable {R : World → World → Prop} {m : Io α}

theorem Keeps.withContext (hm : Keeps R m) (message : Text) : Keeps R (m.withContext message) := by
  intro w r w' h
  unfold Io.withContext at h
  split at h
  · rename_i w1 hw
    simp only [Option.some.injEq, Prod.mk.injEq] at h
    rw [← h.2]
    exact hm _ _ _ hw
  · exact hm _ _ _ h

theorem Keeps.attempt (hm : Keeps R m) : Keeps R m.attempt := by
  intro w r w' h
  unfold Io.attempt at h
  obtain ⟨⟨r1, w1⟩, hw, heq⟩ := Option.map_eq_some_iff.mp h
  simp only [Prod.mk.injEq] at heq
  rw [← heq.2]
  exact hm _ _ _ hw

theorem Keeps.orElse (hm : Keeps R m) (a : α) : Keeps R (m.orElse a) := by
  intro w r w' h
  unfold Io.orElse at h
  split at h
  · rename_i w1 hw
    simp only [Option.some.injEq, Prod.mk.injEq] at h
    rw [← h.2]
    exact hm _ _ _ hw
  · exact hm _ _ _ h

variable [Effect R]

theorem keeps_pure (a : α) : Keeps R (pure a : Io α) := by
  intro w r w' h
  obtain ⟨_, rfl⟩ := pure_run.mp h
  exact Effect.same rfl rfl

theorem keeps_fail (e : Failure) : Keeps R (fail e : Io α) := by
  intro w r w' h
  obtain ⟨_, rfl⟩ := fail_run.mp h
  exact Effect.same rfl rfl

theorem Keeps.bind {f : α → Io β} (hm : Keeps R m) (hf : ∀ a, Keeps R (f a)) :
    Keeps R (m >>= f) := by
  intro w r w' h
  simp only [Bind.bind, andThen] at h
  split at h
  · cases h
  · rename_i w1 hw
    simp only [Option.some.injEq, Prod.mk.injEq] at h
    rw [← h.2]
    exact hm _ _ _ hw
  · rename_i a w1 hw
    exact Effect.trans (hm _ _ _ hw) (hf a _ _ _ h)

/-- What a call does and what it leaves after a failure from outside. -/
theorem keeps_call {act : World → Except Int (α × World)} {part : Nat → World → World}
    {w w' : World} {r : Except Failure α} (h : call act part w = some (r, w'))
    (hact : ∀ a, act w.met = .ok (a, w') → R w.met w') (hpart : ∀ n, R w.met (part n w.met)) :
    R w w' := by
  refine Effect.of_met ?_
  unfold call at h
  split at h
  · rename_i f _
    simp only [Option.some.injEq, Prod.mk.injEq] at h
    rw [← h.2]
    cases f.done with
    | none => exact Effect.same rfl rfl
    | some n => exact hpart n
  · split at h
    · rename_i hw
      simp only [Option.some.injEq, Prod.mk.injEq] at h
      obtain ⟨_, rfl⟩ := h
      exact hact _ hw
    · simp only [Option.some.injEq, Prod.mk.injEq] at h
      rw [← h.2]
      exact Effect.same rfl rfl

theorem keeps_query (act : World → Except Int α) : Keeps R (query act) := by
  intro w r w' h
  refine keeps_call h (fun a hact => ?_) fun n => Effect.same rfl rfl
  cases hb : act w.met with
  | error code =>
    rw [hb] at hact
    cases hact
  | ok b =>
    rw [hb] at hact
    simp only [Except.map, Except.ok.injEq, Prod.mk.injEq] at hact
    rw [← hact.2]
    exact Effect.same rfl rfl

end Keeps

/-- The working directory stays at its place. -/
def KeepsCwd (m : Io α) : Prop := ∀ w r w', m w = some (r, w') → w'.cwd = w.cwd

abbrev SameCwd (w w' : World) : Prop := w'.cwd = w.cwd

instance : Effect SameCwd where
  same _ hcwd := hcwd
  trans h h' := h'.trans h

theorem keepsCwd_pure (a : α) : KeepsCwd (pure a : Io α) :=
  keeps_pure (R := SameCwd) a

theorem KeepsCwd.bind {m : Io α} {f : α → Io β} (hm : KeepsCwd m) (hf : ∀ a, KeepsCwd (f a)) :
    KeepsCwd (m >>= f) :=
  Keeps.bind (R := SameCwd) hm hf

theorem KeepsCwd.withContext {m : Io α} (hm : KeepsCwd m) (message : Text) :
    KeepsCwd (m.withContext message) :=
  Keeps.withContext hm message

theorem KeepsCwd.orElse {m : Io α} (hm : KeepsCwd m) (a : α) : KeepsCwd (m.orElse a) :=
  Keeps.orElse hm a

theorem keepsCwd_call {act : World → Except Int (α × World)} {part : Nat → World → World}
    (hact : ∀ w a w', act w = .ok (a, w') → w'.cwd = w.cwd)
    (hpart : ∀ n w, (part n w).cwd = w.cwd) : KeepsCwd (call act part) := fun w _ w' h =>
  keeps_call (R := SameCwd) h (fun a => hact w.met a w') fun n => hpart n w.met

theorem keepsCwd_query (act : World → Except Int α) : KeepsCwd (query act) :=
  keeps_query (R := SameCwd) act

end Io

/-- The place that a path names, or the error that it names none. -/
def placeOf (w : World) (p : OsPath) : Except Int Place :=
  match w.place p with
  | some q => .ok q
  | none => .error noEntry

/-- Whether there is anything at a path; an error says no. -/
def pathExists (p : OsPath) : Io Bool :=
  (Io.query fun w => (placeOf w p).map fun q => (get w.tree q).isSome).orElse false

def pathIsDir (p : OsPath) : Io Bool :=
  (Io.query fun w => (placeOf w p).map fun q => isDir w.tree q).orElse false

/-- The entry at a place, or the error that there is none. -/
def entryAt (w : World) (q : Place) : Except Int (Entry OsText) :=
  match get w.tree q with
  | some e => .ok e
  | none => .error noEntry

/-- The names in a directory, as they are when it is opened. -/
def readDir (p : OsPath) : Io (List OsText) :=
  Io.query fun w => do
    let q ← placeOf w p
    match ← entryAt w q with
    | .dir => .ok (children w.tree q)
    | .file _ => .error notADirectory

/-- The next name of an open directory. -/
def nextEntry (names : List OsText) : Io (Option OsText) := Io.query fun _ => .ok names.head?

/-- Whether the entry at a path is a directory. -/
def entryIsDir (p : OsPath) : Io Bool :=
  Io.query fun w => do
    let q ← placeOf w p
    match ← entryAt w q with
    | .dir => .ok true
    | .file _ => .ok false

def currentDir : Io OsPath :=
  Io.query fun w =>
    match w.cwd with
    | some dir => .ok (absolutePath dir)
    | none => .error noEntry

/-- What is done at a place, if a path names one. -/
def atPlace (w : World) (p : OsPath) (f : Place → World) : World := (w.place p).elim w f

def createDirAll (p : OsPath) : Io Unit :=
  Io.call (fun w => do
      let q ← placeOf w p
      if (content w.tree q).isSome then .error alreadyExists
      else if q.inits.any fun r => (content w.tree r).isSome then .error notADirectory
      else .ok ((), { w with tree := makeDirs w.tree q }))
    fun n w => atPlace w p fun q => { w with tree := (q.inits.take n).foldl makeDir w.tree }

/-- Something lies in a directory, near or far. -/
def occupied (t : Tree OsText OsText) (q : Place) : Bool := t.any fun e => q <+: e.1 && e.1 != q

def removeDir (p : OsPath) : Io Unit :=
  Io.call (fun w => do
      let q ← placeOf w p
      match ← entryAt w q with
      | .file _ => .error notADirectory
      | .dir =>
        if q = [] then .error busy
        else if occupied w.tree q then .error notEmpty
        else .ok ((), { w with tree := erase w.tree q, cwd := w.cwd.filter (· != q) }))
    fun _ w => w

/-- Without the first entries of those below a place. -/
def removeSome (t : Tree OsText OsText) (q : Place) (n : Nat) : Tree OsText OsText :=
  t.filter fun e => e.1 ∉ (((t.map (·.1)).filter fun r => decide (q <+: r)).take n)

def removeDirAll (p : OsPath) : Io Unit :=
  Io.call (fun w => do
      let q ← placeOf w p
      match ← entryAt w q with
      | .file _ => .error notADirectory
      | .dir =>
        if q = [] then .error busy
        else .ok ((), { w with
          tree := removeAll w.tree q
          cwd := w.cwd.filter fun dir => ¬ q <+: dir }))
    fun n w => atPlace w p fun q => { w with tree := removeSome w.tree q n }

/-- What may be at the new path of an entry. -/
def mayReplace (t : Tree OsText OsText) (d : Place) (e : Entry OsText) : Except Int Unit :=
  match get t d, e with
  | none, _ => if isDir t d.dropLast then .ok () else .error noEntry
  | some .dir, .dir => if occupied t d then .error notEmpty else .ok ()
  | some .dir, .file _ => .error isADirectory
  | some (.file _), .dir => .error notADirectory
  | some (.file _), .file _ => .ok ()

/-- Rename an entry; a directory takes the working directory with it. -/
def rename (src dest : OsPath) : Io Unit :=
  Io.call (fun w => do
      let s ← placeOf w src
      let d ← placeOf w dest
      let e ← entryAt w s
      if s = [] ∨ d = [] then .error busy
      else if s <+: d then .error invalidArgument
      else if d <+: s then .error notEmpty
      else
        let _ ← mayReplace w.tree d e
        .ok ((), { w with tree := move w.tree s d, cwd := w.cwd.map (moved s d) }))
    fun _ w => w

/-- Put a file at a place, in a directory that is there. -/
def putFile (w : World) (q : Place) (c : OsText) : Except Int (Unit × World) :=
  if isDir w.tree q then .error isADirectory
  else if isDir w.tree q.dropLast then .ok ((), { w with tree := put w.tree q (.file c) })
  else .error noEntry

/-- What a file holds after the first part of a write. -/
def putPart (w : World) (q : Place) (c : OsText) : World :=
  match putFile w q c with
  | .ok (_, w') => w'
  | .error _ => w

def copyFile (src dest : OsPath) : Io Unit :=
  Io.call (fun w => do
      let s ← placeOf w src
      let d ← placeOf w dest
      match ← entryAt w s with
      | .dir => .error invalidArgument
      | .file c => putFile w d c)
    fun n w => atPlace w src fun s => atPlace w dest fun d =>
      (content w.tree s).elim w fun c => putPart w d (c.take n)

def writeFile (p : OsPath) (c : OsText) : Io Unit :=
  Io.call (fun w => do
      let q ← placeOf w p
      putFile w q c)
    fun n w => atPlace w p fun q => putPart w q (c.take n)

/-- What an open file is read from; a directory can be opened too. -/
def openFile (p : OsPath) : Io (Entry OsText) :=
  Io.query fun w => do
    let q ← placeOf w p
    entryAt w q

/-- A new file, or an old one without its content. -/
def createFile (p : OsPath) : Io Unit :=
  Io.call (fun w => do
      let q ← placeOf w p
      putFile w q [])
    fun _ w => w

def removeFile (p : OsPath) : Io Unit :=
  Io.call (fun w => do
      let q ← placeOf w p
      match ← entryAt w q with
      | .dir => .error isADirectory
      | .file _ => .ok ((), { w with tree := erase w.tree q }))
    fun _ w => w

/-- An open file gets new content, where it has not been removed. -/
def rewrite (w : World) (q : Place) (c : OsText) : World :=
  if (content w.tree q).isSome then { w with tree := put w.tree q (.file c) } else w

/-- A step of a writer that has a file open: what the file holds after it, or an error of the
writer's own. -/
def writeOpen {α : Type} (p : OsPath) (step : Except Int (α × OsText)) : Io α :=
  Io.call (fun w => do
      let q ← placeOf w p
      let (a, c) ← step
      .ok (a, rewrite w q c))
    fun n w => atPlace w p fun q => step.toOption.elim w fun r => rewrite w q (r.2.take n)

theorem placeOf_ok {w : World} {p : OsPath} {q : Place} (h : placeOf w p = .ok q) :
    w.place p = some q := by
  unfold placeOf at h
  split at h
  · rename_i hq
    rw [hq, Except.ok.inj h]
  · cases h

theorem exceptBind_ok {ε α β : Type} {x : Except ε α} {f : α → Except ε β} {b : β}
    (h : (x >>= f) = .ok b) : ∃ a, x = .ok a ∧ f a = .ok b := by
  cases x with
  | error e => cases h
  | ok a => exact ⟨a, rfl, h⟩

theorem createDirAll_ok {p : OsPath} {w w' : World} (h : createDirAll p w = some (.ok (), w')) :
    ∃ q, w.place p = some q ∧ w'.cwd = w.cwd ∧ w'.tree = makeDirs w.tree q := by
  obtain ⟨q, hq, hact⟩ := exceptBind_ok (Io.call_ok h)
  split_ifs at hact
  simp only [Except.ok.injEq, Prod.mk.injEq, true_and] at hact
  rw [← hact]
  exact ⟨q, placeOf_ok hq, rfl, rfl⟩

theorem putFile_ok {w w' : World} {q : Place} {c : OsText} (h : putFile w q c = .ok ((), w')) :
    q ≠ [] ∧ w'.cwd = w.cwd ∧ w'.tree = put w.tree q (.file c) := by
  unfold putFile at h
  split_ifs at h with hdir hparent
  simp only [Except.ok.injEq, Prod.mk.injEq, true_and] at h
  rw [← h]
  refine ⟨?_, rfl, rfl⟩
  intro h'
  obtain rfl := h'
  exact hdir rfl

theorem writeFile_ok {p : OsPath} {c : OsText} {w w' : World}
    (h : writeFile p c w = some (.ok (), w')) :
    ∃ q, w.place p = some q ∧ q ≠ [] ∧ w'.cwd = w.cwd ∧ w'.tree = put w.tree q (.file c) := by
  obtain ⟨q, hq, hact⟩ := exceptBind_ok (Io.call_ok h)
  obtain ⟨hne, hcwd, htree⟩ := putFile_ok hact
  exact ⟨q, placeOf_ok hq, hne, hcwd, htree⟩

theorem rename_ok {src dest : OsPath} {w w' : World} (h : rename src dest w = some (.ok (), w')) :
    ∃ s d, w.place src = some s ∧ w.place dest = some d ∧ ¬ s <+: d ∧ ¬ d <+: s ∧
      w'.tree = move w.tree s d ∧ w'.cwd = w.cwd.map (moved s d) := by
  obtain ⟨s, hs, hact⟩ := exceptBind_ok (Io.call_ok h)
  obtain ⟨d, hd, hact⟩ := exceptBind_ok hact
  obtain ⟨e, _, hact⟩ := exceptBind_ok hact
  split_ifs at hact with hroot hinside houtside
  obtain ⟨_, _, hact⟩ := exceptBind_ok hact
  simp only [Except.ok.injEq, Prod.mk.injEq, true_and] at hact
  rw [← hact]
  exact ⟨s, d, placeOf_ok hs, placeOf_ok hd, hinside, houtside, rfl, rfl⟩

/-- A rename that fails leaves the working directory alone. -/
theorem rename_error {src dest : OsPath} {e : Failure} {w w' : World}
    (h : rename src dest w = some (.error e, w')) : w'.cwd = w.cwd := by
  rw [Io.call_error h]
  rfl

theorem removeDirAll_ok {p : OsPath} {w w' : World} (h : removeDirAll p w = some (.ok (), w')) :
    ∃ q, w.place p = some q ∧ w'.cwd = w.cwd.filter fun dir => ¬ q <+: dir := by
  obtain ⟨q, hq, hact⟩ := exceptBind_ok (Io.call_ok h)
  obtain ⟨e, _, hact⟩ := exceptBind_ok hact
  cases e with
  | file c => cases hact
  | dir =>
    simp only at hact
    split_ifs at hact
    simp only [Except.ok.injEq, Prod.mk.injEq, true_and] at hact
    rw [← hact]
    exact ⟨q, placeOf_ok hq, rfl⟩

theorem removeDir_ok {p : OsPath} {w w' : World} (h : removeDir p w = some (.ok (), w')) :
    ∃ q, w.place p = some q ∧ w'.cwd = w.cwd.filter (· != q) := by
  obtain ⟨q, hq, hact⟩ := exceptBind_ok (Io.call_ok h)
  obtain ⟨e, _, hact⟩ := exceptBind_ok hact
  cases e with
  | file c => cases hact
  | dir =>
    simp only at hact
    split_ifs at hact
    simp only [Except.ok.injEq, Prod.mk.injEq, true_and] at hact
    rw [← hact]
    exact ⟨q, placeOf_ok hq, rfl⟩

section Cwd

open Io

theorem keepsCwd_pathExists (p : OsPath) : KeepsCwd (pathExists p) :=
  (keepsCwd_query _).orElse false

theorem keepsCwd_readDir (p : OsPath) : KeepsCwd (readDir p) := keepsCwd_query _

theorem keepsCwd_nextEntry (names : List OsText) : KeepsCwd (nextEntry names) := keepsCwd_query _

theorem keepsCwd_entryIsDir (p : OsPath) : KeepsCwd (entryIsDir p) := keepsCwd_query _

theorem keepsCwd_currentDir : KeepsCwd currentDir := keepsCwd_query _

theorem atPlace_cwd {w : World} {p : OsPath} {f : Place → World} (h : ∀ q, (f q).cwd = w.cwd) :
    (atPlace w p f).cwd = w.cwd := by
  unfold atPlace
  cases w.place p with
  | none => rfl
  | some q => exact h q

theorem keepsCwd_createDirAll (p : OsPath) : KeepsCwd (createDirAll p) := by
  refine keepsCwd_call (fun w _ w' h => ?_) fun n w => atPlace_cwd fun q => rfl
  obtain ⟨q, _, hact⟩ := exceptBind_ok h
  split_ifs at hact
  simp only [Except.ok.injEq, Prod.mk.injEq] at hact
  rw [← hact.2]

theorem putPart_cwd (w : World) (q : Place) (c : OsText) : (putPart w q c).cwd = w.cwd := by
  unfold putPart
  split
  · rename_i h
    exact (putFile_ok h).2.1
  · rfl

theorem keepsCwd_copyFile (src dest : OsPath) : KeepsCwd (copyFile src dest) := by
  refine keepsCwd_call (fun w _ w' h => ?_) fun n w => ?_
  · obtain ⟨s, _, hact⟩ := exceptBind_ok h
    obtain ⟨d, _, hact⟩ := exceptBind_ok hact
    obtain ⟨e, _, hact⟩ := exceptBind_ok hact
    cases e with
    | dir => cases hact
    | file c => exact (putFile_ok hact).2.1
  · refine atPlace_cwd fun s => atPlace_cwd fun d => ?_
    cases content w.tree s with
    | none => rfl
    | some c => exact putPart_cwd w d _

end Cwd

end Library.FileCalls
