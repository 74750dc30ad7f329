import MyS3.VideoPreview

/-!
What the steps of a preview session do. A step goes on in the generation of the session unless
it is a seek outside the buffered ranges or the end of the session. No slice and no loop is
ahead of the session, and the loop that is there is the latest that was started.
-/

namespace MyS3.PreviewSteps

open Library.Runs VideoPreview VideoPreview.Session

/-- The slice goes on to its append without another look at the generation. -/
def isCommitted : Stage → Bool
  | .execNoAudio => true
  | .readFile => true
  | .deleteFile data => data.any (· ≠ 0)
  | .queued => true
  | _ => false

def sliceOf : Progress → Option Slice
  | .suspended c => some c
  | .returned _ => none

/-- The suspended slices of a session. -/
def slices (s : Session) : List Slice :=
  [Runner.start, Runner.loop].filterMap fun who => (s.progress who).bind sliceOf

/-- The handlers of a seek outside the buffered ranges that have not come to their end. -/
def handlers (s : Session) : Nat := s.waiting + s.removing

theorem mem_slices {s : Session} {c : Slice} :
    c ∈ slices s ↔ ∃ who, s.progress who = some (.suspended c) := by
  unfold slices
  rw [List.mem_filterMap]
  constructor
  · intro h
    obtain ⟨who, _, h⟩ := h
    obtain ⟨p, hp, hslice⟩ := Option.bind_eq_some_iff.mp h
    cases p with
    | suspended c' =>
      cases hslice
      exact ⟨who, hp⟩
    | returned _ => cases hslice
  · intro h
    obtain ⟨who, h⟩ := h
    refine ⟨who, ?_, by rw [h]; rfl⟩
    cases who <;> simp

/-- The session went on in its generation: its awaited slices are old ones or new ones, and it
has one loop at a time. -/
structure Moves (new : Progress → Prop) (s t : Session) : Prop where
  appends : t.appends = s.appends
  generation : t.generation = s.generation
  destroyed : t.destroyed = s.destroyed
  progress : ∀ who p, t.progress who = some p → s.progress who = some p ∨ new p
  kept : ∀ g ∈ s.started, g ∈ t.started
  started : ∀ g ∈ t.started, g ∈ s.started ∨ g = s.generation
  loops : ∀ l, t.loop = some l → (l.gen = s.generation ∧ s.generation ∈ t.started) ∨
    (t.started = s.started ∧ ∃ l', s.loop = some l' ∧ l'.gen = l.gen)

/-- A progress that began in the generation of the session. -/
def Begun (s : Session) (p : Progress) : Prop :=
  ∀ c, p = .suspended c → c.gen = s.generation ∧ isCommitted c.stage = false

theorem begun_produceNextSlice (s : Session) (v : View) : Begun s (s.produceNextSlice v) := by
  intro c h
  unfold produceNextSlice at h
  split_ifs at h
  all_goals
    cases h
    exact ⟨rfl, rfl⟩

theorem begun_of_generation {s t : Session} (h : t.generation = s.generation) {p : Progress}
    (hp : Begun t p) : Begun s p := fun c hc => h ▸ hp c hc

theorem Moves.trans {s t u : Session} (h : Moves (Begun s) s t) (h' : Moves (Begun t) t u) :
    Moves (Begun s) s u where
  appends := h'.appends.trans h.appends
  generation := h'.generation.trans h.generation
  destroyed := h'.destroyed.trans h.destroyed
  progress := by
    intro who p hp
    rcases h'.progress who p hp with hp | hp
    · exact h.progress who p hp
    · exact Or.inr (begun_of_generation h.generation hp)
  kept := fun g hg => h'.kept g (h.kept g hg)
  started := by
    intro g hg
    rcases h'.started g hg with hg | hg
    · exact h.started g hg
    · exact Or.inr (hg.trans h.generation)
  loops := by
    intro l hl
    rcases h'.loops l hl with ⟨hgen, hmem⟩ | ⟨hsame, l', hl', hgen⟩
    · exact Or.inl (h.generation ▸ ⟨hgen, hmem⟩)
    · rw [hsame, ← hgen]
      exact h.loops l' hl'

/-- Sessions that differ in the first slice, in the handlers or in what the loop of the same
generation does. -/
theorem Moves.of_loop {new : Progress → Prop} {s t : Session} (happends : t.appends = s.appends)
    (hgeneration : t.generation = s.generation) (hdestroyed : t.destroyed = s.destroyed)
    (hprogress : ∀ who p, t.progress who = some p → s.progress who = some p ∨ new p)
    (hstarted : t.started = s.started)
    (hloop : ∀ l, t.loop = some l → ∃ l', s.loop = some l' ∧ l'.gen = l.gen) : Moves new s t where
  appends := happends
  generation := hgeneration
  destroyed := hdestroyed
  progress := hprogress
  kept := fun g hg => by rwa [hstarted]
  started := fun g hg => Or.inl (by rwa [hstarted] at hg)
  loops := fun l hl => Or.inr ⟨hstarted, hloop l hl⟩

theorem moves_handlers (s : Session) (waiting removing : Nat) :
    Moves (Begun s) s { s with waiting := waiting, removing := removing } :=
  Moves.of_loop rfl rfl rfl (fun who _ hp => Or.inl (by cases who <;> exact hp)) rfl
    fun l hl => ⟨l, hl, rfl⟩

theorem moves_first (s : Session) : Moves (Begun s) s { s with first := none } := by
  refine Moves.of_loop rfl rfl rfl (fun who p hp => ?_) rfl fun l hl => ⟨l, hl, rfl⟩
  cases who with
  | start => cases hp
  | loop => exact Or.inl hp

theorem moves_settled (s : Session) : Moves (Begun s) s { s with loop := none } := by
  refine Moves.of_loop rfl rfl rfl (fun who p hp => ?_) rfl fun l hl => ?_
  · cases who with
    | start => exact Or.inl hp
    | loop => cases hp
  · cases hl

/-- The slice that a loop begins with has begun in the generation of the session. -/
theorem begun_loopHead {s : Session} {v : View} {gen : Nat} {p : Progress}
    (h : (s.loopHead v gen).stage = .slice p) : Begun s p := by
  unfold loopHead at h
  split_ifs at h
  cases h
  exact begun_produceNextSlice s v

theorem gen_loopHead (s : Session) (v : View) (gen : Nat) : (s.loopHead v gen).gen = gen := by
  unfold loopHead
  split_ifs <;> rfl

theorem progress_of_loop {s : Session} {p : Progress} :
    s.progress .loop = some p ↔ ∃ gen, s.loop = some ⟨gen, .slice p⟩ := by
  cases hloop : s.loop with
  | none => simp [progress, hloop]
  | some l =>
    obtain ⟨gen, stage⟩ := l
    cases stage <;> simp [progress, hloop]

/-- The loop goes on to another stage. -/
theorem moves_loop {s : Session} {new : Progress → Prop} {f : Loop → Loop}
    (hgen : ∀ l, (f l).gen = l.gen) (hnew : ∀ l p, (f l).stage = .slice p → new p) :
    Moves new s { s with loop := s.loop.map f } := by
  refine Moves.of_loop rfl rfl rfl (fun who p hp => ?_) rfl fun l hl => ?_
  · cases who with
    | start => exact Or.inl hp
    | loop =>
      obtain ⟨gen, hloop⟩ := progress_of_loop.mp hp
      obtain ⟨l, _, hl⟩ := Option.map_eq_some_iff.mp hloop
      exact Or.inr (hnew l p (by rw [hl]))
  · obtain ⟨l', hl', rfl⟩ := Option.map_eq_some_iff.mp hl
    exact ⟨l', hl', (hgen l').symm⟩

theorem moves_loopHead (s : Session) (v : View) :
    Moves (Begun s) s { s with loop := s.loop.map fun l => s.loopHead v l.gen } :=
  moves_loop (fun l => gen_loopHead s v l.gen) fun _ _ h => begun_loopHead h

theorem moves_setLoopStage (s : Session) {stage : LoopStage}
    (hstage : ∀ p, stage ≠ .slice p) : Moves (Begun s) s (s.setLoopStage stage) :=
  moves_loop (fun _ => rfl) fun _ p h => absurd h (hstage p)

theorem moves_kickProduce (s : Session) (v : View) : Moves (Begun s) s (s.kickProduce v) := by
  unfold kickProduce
  split_ifs with h
  · exact moves_handlers s s.waiting s.removing
  · refine ⟨rfl, rfl, rfl, fun who p hp => ?_, fun g hg => List.mem_cons_of_mem _ hg,
      fun g hg => ?_, fun l hl => ?_⟩
    · cases who with
      | start => exact Or.inl hp
      | loop =>
        obtain ⟨gen, hloop⟩ := progress_of_loop.mp hp
        exact Or.inr (begun_loopHead (by rw [Option.some.inj hloop]))
    · exact (List.mem_cons.mp hg).symm
    · obtain rfl := Option.some.inj hl
      exact Or.inl ⟨gen_loopHead s v s.generation, List.mem_cons_self⟩

theorem moves_setProgress (s : Session) (who : Runner) (p : Progress) :
    Moves (· = p) s (s.setProgress who p) := by
  cases who with
  | start =>
    refine Moves.of_loop rfl rfl rfl (fun who p' hp => ?_) rfl fun l hl => ⟨l, hl, rfl⟩
    cases who with
    | start => exact Or.inr (Option.some.inj hp).symm
    | loop => exact Or.inl hp
  | loop => exact moves_loop (fun _ => rfl) fun _ _ h => (LoopStage.slice.inj h).symm

/-- A call of `_kickProduce` while no loop is there starts one. -/
theorem started_kickProduce {s : Session} (v : View) (hloop : s.loop = none)
    (hdestroyed : s.destroyed = false) : s.generation ∈ (s.kickProduce v).started := by
  unfold kickProduce producing
  rw [hloop, hdestroyed]
  exact List.mem_cons_self

theorem handlers_kickProduce (s : Session) (v : View) :
    handlers (s.kickProduce v) = handlers s := by
  unfold kickProduce
  split_ifs <;> rfl

/-- No loop is started while another one is there. -/
theorem kickProduce_of_loop {s : Session} (v : View) (h : s.loop ≠ none) :
    s.kickProduce v = s := by
  unfold kickProduce producing
  rw [if_pos (by simp [Option.isSome_iff_ne_none.mpr h])]

theorem progress_kickProduce {s : Session} {who : Runner} {p : Progress} (v : View)
    (h : s.progress who = some p) : (s.kickProduce v).progress who = some p := by
  unfold kickProduce
  split_ifs with hproducing
  · exact h
  · cases who with
    | start => exact h
    | loop =>
      obtain ⟨gen, hloop⟩ := progress_of_loop.mp h
      simp [producing, hloop] at hproducing

theorem progress_setProgress {s : Session} {who : Runner} {q : Progress} (p : Progress)
    (h : s.progress who = some q) : (s.setProgress who p).progress who = some p := by
  cases who with
  | start => rfl
  | loop =>
    obtain ⟨gen, hloop⟩ := progress_of_loop.mp h
    exact progress_of_loop.mpr ⟨gen, by simp [setProgress, setLoopStage, hloop]⟩

/-- What a step can do. -/
inductive Steps (s : Session) (a : Turn) (t : Session) : Prop
  | seek : a.event = .seeking → t = s.onSeek a.view → Steps s a t
  | destroyed (u : Session) : Moves (Begun s) s u → t = u.destroy → Steps s a t
  | slice (who : Runner) (c : Slice) (reply : Reply) (p : Progress) :
      s.progress who = some (.suspended c) → s.resume a.view c reply = some p →
      t = (s.record c p).setProgress who p → Steps s a t
  | moved : Moves (Begun s) s t → handlers t = handlers s → Steps s a t
  | handled : Moves (Begun s) s t → handlers s = handlers t + 1 →
      a.event = .seekWaited false ∨ a.event = .seekRemoved →
      (s.destroyed = false → s.loop = none → s.generation ∈ t.started) → Steps s a t

/-- A handler ends with a call of `_kickProduce`. -/
theorem handler_end {s t : Session} {a : Turn} (h : s.step a = some t)
    (hlast : a.event = .seekWaited false ∨ a.event = .seekRemoved) :
    ∃ waiting removing, handlers s = waiting + removing + 1 ∧
      t = { s with waiting := waiting, removing := removing }.kickProduce a.view := by
  unfold Session.step at h
  rcases hlast with hevent | hevent
  · rw [hevent] at h
    change s.seekWaited a.view false = some t at h
    unfold seekWaited at h
    split_ifs at h
    · contradiction
    · refine ⟨s.waiting - 1, s.removing, ?_, (Option.some.inj h).symm⟩
      unfold handlers
      omega
  · rw [hevent] at h
    change s.seekRemoved a.view = some t at h
    unfold seekRemoved at h
    split_ifs at h
    refine ⟨s.waiting, s.removing - 1, ?_, (Option.some.inj h).symm⟩
    unfold handlers
    omega

/-- The end of a handler, which has left the handlers that are under way. -/
theorem steps_kickProduce {s : Session} {a : Turn} {waiting removing : Nat}
    (hlast : a.event = .seekWaited false ∨ a.event = .seekRemoved)
    (hcount : handlers s = waiting + removing + 1) :
    Steps s a ({ s with waiting := waiting, removing := removing }.kickProduce a.view) := by
  refine Steps.handled ?_ ?_ hlast fun hdestroyed hloop => ?_
  · exact (moves_handlers s waiting removing).trans (moves_kickProduce _ a.view)
  · rw [handlers_kickProduce]
    exact hcount
  · exact started_kickProduce (s := { s with waiting := waiting, removing := removing }) a.view
      hloop hdestroyed

theorem steps_sliceReturned {s t : Session} {a : Turn} {who : Runner}
    (h : s.sliceReturned a.view who = some t) : Steps s a t := by
  unfold sliceReturned at h
  split at h
  · cases h
    exact Steps.destroyed _ (moves_first s) rfl
  · cases h
    refine Steps.moved ((moves_first s).trans (moves_kickProduce _ a.view)) ?_
    rw [handlers_kickProduce]
    rfl
  · cases h
    exact Steps.moved (moves_loopHead s a.view) rfl
  · cases h
    exact Steps.moved (moves_setLoopStage s (by simp)) rfl
  · cases h
    exact Steps.moved (moves_setLoopStage s (by simp)) rfl
  · cases h

theorem steps_loopWaited {s t : Session} {a : Turn} (h : s.loopWaited a.view = some t) :
    Steps s a t := by
  unfold loopWaited at h
  split at h
  · next gen hloop =>
    split_ifs at h
    · cases h
      exact Steps.moved (moves_setLoopStage s (by simp)) rfl
    · cases h
      have hmove := moves_loopHead s a.view
      rw [hloop] at hmove
      exact Steps.moved hmove rfl
  · cases h

theorem steps_of_step {s t : Session} {a : Turn} (h : s.step a = some t) : Steps s a t := by
  by_cases hlast : a.event = .seekWaited false ∨ a.event = .seekRemoved
  · obtain ⟨waiting, removing, hcount, rfl⟩ := handler_end h hlast
    exact steps_kickProduce hlast hcount
  unfold Session.step at h
  split at h
  · next hevent => exact Steps.seek hevent (Option.some.inj h).symm
  · cases h
    exact Steps.moved (moves_kickProduce s a.view) (handlers_kickProduce s a.view)
  · cases h
    exact Steps.destroyed s (moves_handlers s s.waiting s.removing) rfl
  · next hasRanges hevent =>
    unfold seekWaited at h
    split_ifs at h with hwaiting hranges
    · cases h
      refine Steps.moved (moves_handlers s (s.waiting - 1) (s.removing + 1)) ?_
      change s.waiting - 1 + (s.removing + 1) = s.waiting + s.removing
      omega
    · rw [Bool.not_eq_true] at hranges
      exact absurd (Or.inl (hranges ▸ hevent)) hlast
  · next hevent => exact absurd (Or.inr hevent) hlast
  · next who reply _ =>
    unfold sliceReply at h
    split at h
    · next c hc =>
      obtain ⟨p, hp, rfl⟩ := Option.map_eq_some_iff.mp h
      exact Steps.slice who c reply p hc hp rfl
    · cases h
  · exact steps_sliceReturned h
  · exact steps_loopWaited h
  · unfold loopSettled at h
    split at h
    · cases h
      exact Steps.moved (moves_settled s) rfl
    · cases h

/-- A suspended slice keeps its generation. It is committed after a look at the generation, and
only a committed slice comes to its append. -/
theorem resume_suspended {s : Session} {v : View} {c c' : Slice} {reply : Reply}
    (h : s.resume v c reply = some (.suspended c')) :
    c'.gen = c.gen ∧
      (isCommitted c'.stage = true → isCommitted c.stage = true ∨ s.generation = c.gen) ∧
      (c'.stage = .appending → isCommitted c.stage = true ∧ s.destroyed = false) := by
  unfold resume Slice.giveUp finishSlice at h
  split at h
  all_goals try split_ifs at h
  all_goals cases h
  all_goals simp_all [isCommitted, isStale, isClosed]

/-- The session that a seek outside the buffered ranges has moved on. -/
def advanced (s : Session) (v : View) : Session :=
  { s with
    generation := s.generation + 1
    nextStart := max 0 ((v.currentTime / sliceSec).floor * sliceSec) }

theorem onSeek_near {s : Session} {v : View}
    (h : ¬ (s.destroyed = false ∧ v.inBuffered = false)) :
    Moves (Begun s) s (s.onSeek v) ∧ handlers (s.onSeek v) = handlers s := by
  unfold onSeek
  split_ifs with hdestroyed hbuffered
  · exact ⟨moves_handlers s s.waiting s.removing, rfl⟩
  · exact ⟨moves_kickProduce s v, handlers_kickProduce s v⟩
  all_goals simp_all

theorem onSeek_away {s : Session} {v : View} (hdestroyed : s.destroyed = false)
    (hbuffered : v.inBuffered = false) :
    s.onSeek v = if v.isOpen then { advanced s v with waiting := s.waiting + 1 }
      else (advanced s v).kickProduce v := by
  unfold onSeek
  rw [if_neg (by simp [hdestroyed]), if_neg (by simp [hbuffered])]
  rfl

theorem moves_onSeek {s : Session} {v : View} (hdestroyed : s.destroyed = false)
    (hbuffered : v.inBuffered = false) :
    Moves (Begun (advanced s v)) (advanced s v) (s.onSeek v) := by
  rw [onSeek_away hdestroyed hbuffered]
  split_ifs
  · exact moves_handlers (advanced s v) (s.waiting + 1) s.removing
  · exact moves_kickProduce (advanced s v) v

theorem progress_onSeek {s : Session} {v : View} {who : Runner} {p : Progress}
    (hdestroyed : s.destroyed = false) (hbuffered : v.inBuffered = false)
    (h : s.progress who = some p) : (s.onSeek v).progress who = some p := by
  have hadvanced : (advanced s v).progress who = some p := by cases who <;> exact h
  rw [onSeek_away hdestroyed hbuffered]
  split_ifs
  · cases who <;> exact hadvanced
  · exact progress_kickProduce v hadvanced

theorem mem_slices_moves {new : Progress → Prop} {s t : Session} (hmove : Moves new s t)
    {c : Slice} (hc : c ∈ slices t) : c ∈ slices s ∨ new (.suspended c) := by
  obtain ⟨who, hc⟩ := mem_slices.mp hc
  rcases hmove.progress who _ hc with hc | hnew
  · exact Or.inl (mem_slices.mpr ⟨who, hc⟩)
  · exact Or.inr hnew

/-- No slice and no loop is ahead of the session, and the loop is the latest that was started. -/
structure Ordered (s : Session) : Prop where
  slices : ∀ c ∈ slices s, c.gen ≤ s.generation
  started : ∀ g ∈ s.started, g ≤ s.generation
  latest : ∀ l, s.loop = some l → l.gen ∈ s.started ∧ ∀ g ∈ s.started, g ≤ l.gen

theorem Ordered.moves {new : Progress → Prop} {s t : Session} (h : Ordered s)
    (hmove : Moves new s t) (hnew : ∀ c, new (.suspended c) → c.gen ≤ s.generation) :
    Ordered t where
  slices := by
    intro c hc
    rw [hmove.generation]
    rcases mem_slices_moves hmove hc with hc | hc
    · exact h.slices c hc
    · exact hnew c hc
  started := by
    intro g hg
    rw [hmove.generation]
    rcases hmove.started g hg with hg | rfl
    · exact h.started g hg
    · exact le_refl _
  latest := by
    intro l hl
    rcases hmove.loops l hl with ⟨hgen, hmem⟩ | ⟨hsame, l', hl', hgen⟩
    · rw [hgen]
      refine ⟨hmem, fun g hg => ?_⟩
      rcases hmove.started g hg with hg | rfl
      · exact h.started g hg
      · exact le_refl _
    · rw [hsame, ← hgen]
      exact h.latest l' hl'

theorem Ordered.begun {s t : Session} (h : Ordered s) (hmove : Moves (Begun s) s t) :
    Ordered t := h.moves hmove fun c hc => (hc c rfl).1.le

/-- A slice goes on. -/
theorem Ordered.slice {s : Session} {v : View} {who : Runner} {c : Slice} {reply : Reply}
    {p : Progress} (h : Ordered s) (hc : s.progress who = some (.suspended c))
    (hp : s.resume v c reply = some p) : Ordered ((s.record c p).setProgress who p) := by
  have hrecord : Ordered (s.record c p) ∧ (s.record c p).generation = s.generation := by
    unfold record
    split_ifs <;> exact ⟨⟨h.slices, h.started, h.latest⟩, rfl⟩
  refine hrecord.1.moves (moves_setProgress _ who p) fun c' hc' => ?_
  rw [hrecord.2, (resume_suspended (hc' ▸ hp)).1]
  exact h.slices c (mem_slices.mpr ⟨who, hc⟩)

theorem Ordered.advanced {s : Session} (h : Ordered s) (v : View) : Ordered (advanced s v) :=
  ⟨fun c hc => Nat.le_succ_of_le (h.slices c hc), fun g hg => Nat.le_succ_of_le (h.started g hg),
    h.latest⟩

theorem Ordered.destroy {s : Session} (h : Ordered s) : Ordered s.destroy :=
  ⟨fun c hc => Nat.le_succ_of_le (h.slices c hc), fun g hg => Nat.le_succ_of_le (h.started g hg),
    h.latest⟩

theorem Ordered.step {s t : Session} {a : Turn} (h : Ordered s) (hstep : s.step a = some t) :
    Ordered t := by
  cases steps_of_step hstep with
  | seek _ ht =>
    rw [ht]
    by_cases haway : s.destroyed = false ∧ a.view.inBuffered = false
    · exact (h.advanced a.view).begun (moves_onSeek haway.1 haway.2)
    · exact h.begun (onSeek_near haway).1
  | destroyed u hmove ht => exact ht ▸ (h.begun hmove).destroy
  | slice who c reply p hc hp ht => exact ht ▸ h.slice hc hp
  | moved hmove _ => exact h.begun hmove
  | handled hmove _ _ _ => exact h.begun hmove

theorem slices_opened {duration : ℚ} {v : View} {c : Slice} (hc : c ∈ slices (opened duration v)) :
    c.gen = 0 ∧ isCommitted c.stage = false := by
  obtain ⟨who, hc⟩ := mem_slices.mp hc
  cases who with
  | start => exact begun_produceNextSlice _ v c (Option.some.inj hc)
  | loop => cases hc

theorem ordered_opened (duration : ℚ) (v : View) : Ordered (opened duration v) where
  slices := fun c hc => (slices_opened hc).1.le
  started := by
    intro g hg
    cases hg
  latest := by
    intro l hl
    cases hl

theorem ordered_run {ok : Session → Turn → Prop} {duration : ℚ} {v : View} {s : Session}
    (h : Run Session.step ok (opened duration v) s) : Ordered s :=
  h.invariant (fun _ _ _ hs _ hstep => hs.step hstep) (ordered_opened duration v)

end MyS3.PreviewSteps
