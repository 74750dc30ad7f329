import Mathlib.Data.Set.Function

/-!
A store of versions, as a reader of its places sees it. Each version has an id, a place
and a content, and is live or in the bin. A live version is what its place holds, so
a version comes back, or moves, to a free place only, and takes nothing from its readers.
-/

namespace Library.VersionedStore

open Classical

/-- A version: its place, its content, and whether it is live or in the bin. -/
structure Entry (κ ν : Type*) where
  place : κ
  content : ν
  live : Bool

abbrev Store (ι κ ν : Type*) := ι → Option (Entry κ ν)

inductive Change (ι κ ν : Type*)
  | keep
  /-- What is live at the places goes to the bin. -/
  | recycle (places : Set κ)
  /-- A new version takes the place of the live one. -/
  | add (id : ι) (place : κ) (content : ν)
  | restore (id : ι)
  /-- What is live at the places moves on. -/
  | move (places : Set κ) (f : κ → κ)
  | purge (ids : Set ι)

variable {ι κ ν : Type*}

noncomputable def Entry.recycle (places : Set κ) (e : Entry κ ν) : Entry κ ν :=
  if e.live = true ∧ e.place ∈ places then { e with live := false } else e

noncomputable def Entry.move (places : Set κ) (f : κ → κ) (e : Entry κ ν) : Entry κ ν :=
  if e.live = true ∧ e.place ∈ places then { e with place := f e.place } else e

noncomputable def apply (s : Store ι κ ν) : Change ι κ ν → Store ι κ ν
  | .keep => s
  | .recycle places => fun i => (s i).map (Entry.recycle places)
  | .add id place content => fun i =>
    if i = id then some ⟨place, content, true⟩ else (s i).map (Entry.recycle {place})
  | .restore id => fun i => if i = id then (s i).map fun e => { e with live := true } else s i
  | .move places f => fun i => (s i).map (Entry.move places f)
  | .purge ids => fun i => if i ∈ ids then none else s i

/-- A reader of the place finds the content. -/
def Reads (s : Store ι κ ν) (place : κ) (content : ν) : Prop :=
  ∃ i, s i = some ⟨place, content, true⟩

/-- A new id is free, a version comes back to a free place only, and what moves comes to
free places of its own. -/
def Enabled (s : Store ι κ ν) : Change ι κ ν → Prop
  | .add id _ _ => s id = none
  | .restore id => ∀ e, s id = some e → e.live = false ∧ ∀ v, ¬ Reads s e.place v
  | .move places f => Set.InjOn f places ∧
      ∀ k ∈ places, (∃ v, Reads s k v) → ∀ w, ¬ Reads s (f k) w
  | _ => True

theorem Entry.recycle_live {places : Set κ} {e : Entry κ ν} {k : κ} {v : ν} :
    e.recycle places = ⟨k, v, true⟩ ↔ e = ⟨k, v, true⟩ ∧ k ∉ places := by
  unfold Entry.recycle
  split_ifs with h
  · constructor
    · intro heq
      cases heq
    · intro heq
      rw [heq.1] at h
      exact absurd h.2 heq.2
  · constructor
    · intro heq
      rw [heq] at h
      exact ⟨heq, fun hk => h ⟨rfl, hk⟩⟩
    · exact fun heq => heq.1

theorem reads_recycle {s : Store ι κ ν} {places : Set κ} {k : κ} {v : ν} :
    Reads (apply s (.recycle places)) k v ↔ Reads s k v ∧ k ∉ places := by
  unfold Reads
  simp only [apply, Option.map_eq_some_iff, Entry.recycle_live]
  constructor
  · intro h
    obtain ⟨i, e, he, rfl, hk⟩ := h
    exact ⟨⟨i, he⟩, hk⟩
  · intro h
    obtain ⟨⟨i, he⟩, hk⟩ := h
    exact ⟨i, _, he, rfl, hk⟩

/-- After an addition its place reads the new content, and the others what they did. -/
theorem reads_add {s : Store ι κ ν} {id : ι} {place k : κ} {content v : ν} (hfresh : s id = none) :
    Reads (apply s (.add id place content)) k v ↔
      (k = place ∧ v = content) ∨ (k ≠ place ∧ Reads s k v) := by
  have hrecycle : Reads (apply s (.recycle {place})) k v ↔ Reads s k v ∧ k ∉ ({place} : Set κ) :=
    reads_recycle
  constructor
  · intro h
    obtain ⟨i, hi⟩ := h
    simp only [apply] at hi
    split_ifs at hi with hid
    · cases hi
      exact Or.inl ⟨rfl, rfl⟩
    · obtain ⟨hreads, hk⟩ := hrecycle.mp ⟨i, hi⟩
      exact Or.inr ⟨hk, hreads⟩
  · intro h
    rcases h with ⟨rfl, rfl⟩ | ⟨hk, hreads⟩
    · exact ⟨id, if_pos rfl⟩
    · obtain ⟨i, hi⟩ := hrecycle.mpr ⟨hreads, hk⟩
      refine ⟨i, ?_⟩
      simp only [apply] at hi ⊢
      rw [if_neg]
      · exact hi
      · intro hid
        rw [hid, hfresh] at hi
        cases hi

/-- A change that lets the live version of a place stay there. -/
def Spares (s : Store ι κ ν) (place : κ) : Change ι κ ν → Prop
  | .keep => True
  | .recycle places => place ∉ places
  | .add _ other _ => place ≠ other
  | .restore _ => True
  | .move places _ => place ∉ places
  | .purge ids => ∀ i ∈ ids, ∀ v, s i ≠ some ⟨place, v, true⟩

/-- Nothing else takes a version from its readers: a restore and a move do not come to a
place where one is live. -/
theorem Reads.kept {s : Store ι κ ν} {place : κ} {v : ν} (h : Reads s place v)
    {c : Change ι κ ν} (henabled : Enabled s c) (hspares : Spares s place c) :
    Reads (apply s c) place v := by
  cases c with
  | keep => exact h
  | recycle places => exact reads_recycle.mpr ⟨h, hspares⟩
  | add id other content => exact (reads_add henabled).mpr (Or.inr ⟨hspares, h⟩)
  | restore id =>
    obtain ⟨i, hi⟩ := h
    refine ⟨i, ?_⟩
    have hid : i ≠ id := by
      intro hid
      have hlive := (henabled _ (hid ▸ hi)).1
      cases hlive
    simp only [apply]
    rw [if_neg hid]
    exact hi
  | move places f =>
    obtain ⟨i, hi⟩ := h
    refine ⟨i, ?_⟩
    simp only [apply, hi, Option.map_some, Option.some.injEq]
    exact if_neg fun hmoved => hspares hmoved.2
  | purge ids =>
    obtain ⟨i, hi⟩ := h
    refine ⟨i, ?_⟩
    simp only [apply]
    rw [if_neg fun hmem => hspares i hmem v hi]
    exact hi

/-- A change that concerns no live version of a set of places, and brings none there. -/
def Misses (s : Store ι κ ν) (R : Set κ) : Change ι κ ν → Prop
  | .keep => True
  | .recycle places => ∀ k ∈ places, k ∉ R
  | .add _ place _ => place ∉ R
  | .restore id => ∀ e, s id = some e → e.place ∉ R
  | .move places f => ∀ k ∈ places, k ∉ R ∧ f k ∉ R
  | .purge ids => ∀ i ∈ ids, ∀ k ∈ R, ∀ v, s i ≠ some ⟨k, v, true⟩

theorem Entry.move_live {places : Set κ} {f : κ → κ} {R : Set κ} {e : Entry κ ν} {k : κ} {v : ν}
    (h : ∀ k ∈ places, k ∉ R ∧ f k ∉ R) (hk : k ∈ R) :
    e.move places f = ⟨k, v, true⟩ ↔ e = ⟨k, v, true⟩ := by
  unfold Entry.move
  split_ifs with hmoved
  · constructor
    · intro heq
      have hplace : f e.place = k := congrArg Entry.place heq
      exact absurd hk (hplace ▸ (h e.place hmoved.2).2)
    · intro heq
      rw [heq] at hmoved
      exact absurd hk (h k hmoved.2).1
  · exact Iff.rfl

/-- The readers of the places find what they found before, and nothing more. -/
theorem reads_misses {s : Store ι κ ν} {R : Set κ} {c : Change ι κ ν} (henabled : Enabled s c)
    (hmisses : Misses s R c) {k : κ} (hk : k ∈ R) {v : ν} :
    Reads (apply s c) k v ↔ Reads s k v := by
  cases c with
  | keep => exact Iff.rfl
  | recycle places =>
    rw [reads_recycle, and_iff_left]
    exact fun hplaces => hmisses k hplaces hk
  | add id place content =>
    have hne : k ≠ place := fun heq => hmisses (heq ▸ hk)
    rw [reads_add henabled]
    simp [hne]
  | restore id =>
    unfold Reads
    simp only [apply]
    refine exists_congr fun i => ?_
    split_ifs with hid
    · rw [hid]
      constructor
      · intro h
        obtain ⟨e, he, heq⟩ := Option.map_eq_some_iff.mp h
        have hplace : e.place = k := congrArg Entry.place heq
        exact absurd hk (hplace ▸ hmisses e he)
      · intro h
        exact absurd hk (hmisses _ h)
    · exact Iff.rfl
  | move places f =>
    unfold Reads
    simp only [apply, Option.map_eq_some_iff, Entry.move_live hmisses hk]
    simp
  | purge ids =>
    unfold Reads
    simp only [apply]
    refine exists_congr fun i => ?_
    split_ifs with hid
    · simp [hmisses i hid k hk v]
    · exact Iff.rfl

end Library.VersionedStore
