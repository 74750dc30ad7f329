import MyS3.Library.Strings

/-!
Hash functions that take their input in parts. What a hasher puts out depends on the bytes
that it was fed, and not on how they were cut.
-/

namespace Library.StreamHashes

open Library.Strings

structure StreamHash (ω : Type) where
  State : Type
  new : State
  update : State → Bytes → State
  finalize : State → ω
  finalize_parts : ∀ parts : List Bytes,
    finalize (parts.foldl update new) = finalize (update new parts.flatten)

namespace StreamHash

variable {ω : Type} (H : StreamHash ω)

/-- The hash of a whole input. -/
def hash (data : Bytes) : ω := H.finalize (H.update H.new data)

/-- A hasher after some input, in whatever parts it came. -/
def Fed (s : H.State) (data : Bytes) : Prop :=
  ∃ parts : List Bytes, parts.flatten = data ∧ s = parts.foldl H.update H.new

theorem fed_new : H.Fed H.new [] := ⟨[], rfl, rfl⟩

variable {H}

theorem Fed.update {s : H.State} {data : Bytes} (h : H.Fed s data) (part : Bytes) :
    H.Fed (H.update s part) (data ++ part) := by
  obtain ⟨parts, rfl, rfl⟩ := h
  exact ⟨parts ++ [part], by simp, by simp⟩

theorem Fed.finalize {s : H.State} {data : Bytes} (h : H.Fed s data) :
    H.finalize s = H.hash data := by
  obtain ⟨parts, rfl, rfl⟩ := h
  exact H.finalize_parts parts

end StreamHash

/-- A hash function that keeps its input until the end. -/
def buffering {ω : Type} (f : Bytes → ω) : StreamHash ω where
  State := Bytes
  new := []
  update s part := s ++ part
  finalize := f
  finalize_parts parts := by
    have hfold : ∀ s : Bytes, parts.foldl (fun s part => s ++ part) s = s ++ parts.flatten := by
      induction parts with
      | nil => simp
      | cons part rest ih => intro s; simp [ih]
    rw [hfold]

end Library.StreamHashes
