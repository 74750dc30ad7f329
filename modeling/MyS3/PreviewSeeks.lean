import MyS3.PreviewSteps

/-!
Seeks of the video preview. A slice is compared with the generation after its first encoding and
not again before its append, so that a seek during a second encoding, the reading or deleting of
its file or the wait for its turn appends it to the buffer of the new generation. The handler of
a seek starts no loop while the loop of an older generation unwinds, and nothing starts one when
that has ended.
-/

namespace MyS3.PreviewSeeks

open Library.Runs VideoPreview VideoPreview.Session PreviewSteps

/-- A loop for the generation has been started, or a handler is under way that ends with a call
of `_kickProduce`. -/
def Restarted (s : Session) : Prop :=
  s.destroyed = false → s.generation ≠ 0 → handlers s = 0 → s.generation ∈ s.started

/-- Every slice was appended in its own generation, and a seek is followed by a loop. -/
structure Sound (s : Session) : Prop where
  fresh : ∀ a ∈ s.appends, a.slice = a.session
  restarted : Restarted s

/-- The event is a seek outside the buffered ranges. -/
def SeeksAway (s : Session) (a : Turn) : Prop :=
  s.destroyed = false ∧ a.event = .seeking ∧ a.view.inBuffered = false

/-- The event ends the only handler that is under way. -/
def EndsLast (s : Session) (a : Turn) : Prop :=
  s.destroyed = false ∧ handlers s = 1 ∧ (a.event = .seekWaited false ∨ a.event = .seekRemoved)

instance (s : Session) (a : Turn) : Decidable (SeeksAway s a) :=
  inferInstanceAs (Decidable (_ ∧ _))

instance (s : Session) (a : Turn) : Decidable (EndsLast s a) :=
  inferInstanceAs (Decidable (_ ∧ _))

/-- A seek outside the buffered ranges finds no committed slice, and no loop where it is handled
at once. The last handler comes to its end when no older loop is left. -/
structure Timely (s : Session) (a : Turn) : Prop where
  uncommitted : SeeksAway s a → ∀ c ∈ slices s, isCommitted c.stage = false
  handled : SeeksAway s a → a.view.isOpen = false → handlers s = 0 → s.loop = none
  unwound : EndsLast s a → ∀ l ∈ s.loop, l.gen = s.generation

instance (s : Session) (a : Turn) : Decidable (Timely s a) :=
  decidable_of_iff (_ ∧ _ ∧ _)
    ⟨fun h => ⟨h.1, h.2.1, h.2.2⟩, fun h => ⟨h.uncommitted, h.handled, h.unwound⟩⟩

/-- No event of the user or of the player. -/
def Silent (_ : Session) (a : Turn) : Prop :=
  a.event ≠ .seeking ∧ a.event ≠ .timeupdate ∧ a.event ≠ .destroy

/-- A player at a time, with what it has buffered. -/
def playing (time : ℚ) (buffered : List (ℚ × ℚ)) : View := ⟨true, false, true, time, buffered⟩

/-- A handler that is under way can come to its end. -/
theorem handler_enabled {s : Session} (v : View) (h : handlers s ≠ 0) :
    ∃ e, (e = .seekWaited false ∨ e = .seekRemoved) ∧ (s.step ⟨v, e⟩).isSome := by
  by_cases hwaiting : s.waiting = 0
  · have hremoving : s.removing ≠ 0 := by
      unfold handlers at h
      omega
    exact ⟨.seekRemoved, Or.inr rfl, by simp [Session.step, seekRemoved, hremoving]⟩
  · exact ⟨.seekWaited false, Or.inl rfl, by simp [Session.step, seekWaited, hwaiting]⟩

/-- The handlers that are under way come to their ends by awaits alone. -/
theorem handlers_finish (s : Session) : ∃ t, Run Session.step Silent s t ∧ handlers t = 0 ∧
    t.generation = s.generation ∧ t.destroyed = s.destroyed := by
  induction hcount : handlers s generalizing s with
  | zero => exact ⟨s, Run.refl s, hcount, rfl, rfl⟩
  | succ n ih =>
    obtain ⟨e, hlast, henabled⟩ := handler_enabled (playing 0 []) (by omega : handlers s ≠ 0)
    obtain ⟨u, hu⟩ := Option.isSome_iff_exists.mp henabled
    have hsilent : Silent s ⟨playing 0 [], e⟩ := by
      rcases hlast with rfl | rfl <;> simp [Silent]
    have hfirst := Run.tail _ (Run.refl s) hsilent hu
    obtain ⟨waiting, removing, hleft, rfl⟩ := handler_end hu hlast
    have hmove := moves_kickProduce { s with waiting := waiting, removing := removing }
      (playing 0 [])
    have hfewer : handlers { s with waiting := waiting, removing := removing } = n := by
      change waiting + removing = n
      omega
    rw [← handlers_kickProduce _ (playing 0 [])] at hfewer
    obtain ⟨t, ht, hnone, hgeneration, hdestroyed⟩ := ih _ hfewer
    exact ⟨t, hfirst.trans ht, hnone, hgeneration.trans hmove.generation,
      hdestroyed.trans hmove.destroyed⟩

/-- What the appended slices and the committed ones say of the generation. -/
structure Clean (s : Session) : Prop where
  fresh : ∀ a ∈ s.appends, a.slice = a.session
  committed : s.destroyed = false → ∀ c ∈ slices s, isCommitted c.stage = true →
    c.gen = s.generation

theorem Clean.moves {new : Progress → Prop} {s t : Session} (h : Clean s)
    (hmove : Moves new s t)
    (hnew : ∀ c, new (.suspended c) → s.destroyed = false → isCommitted c.stage = true →
      c.gen = s.generation) : Clean t where
  fresh := by
    rw [hmove.appends]
    exact h.fresh
  committed := by
    rw [hmove.destroyed, hmove.generation]
    intro hdestroyed c hc hcommitted
    rcases mem_slices_moves hmove hc with hc | hc
    · exact h.committed hdestroyed c hc hcommitted
    · exact hnew c hc hdestroyed hcommitted

theorem Clean.begun {s t : Session} (h : Clean s) (hmove : Moves (Begun s) s t) : Clean t :=
  h.moves hmove fun c hc _ _ => (hc c rfl).1

theorem Clean.slice {s : Session} {v : View} {who : Runner} {c : Slice} {reply : Reply}
    {p : Progress} (h : Clean s) (hc : s.progress who = some (.suspended c))
    (hp : s.resume v c reply = some p) : Clean ((s.record c p).setProgress who p) := by
  have hmem : c ∈ slices s := mem_slices.mpr ⟨who, hc⟩
  have hrecord : Clean (s.record c p) ∧ (s.record c p).generation = s.generation ∧
      (s.record c p).destroyed = s.destroyed := by
    unfold record
    split_ifs with happending
    · refine ⟨⟨fun a ha => ?_, h.committed⟩, rfl, rfl⟩
      rcases List.mem_cons.mp ha with rfl | ha
      · obtain ⟨hcommitted, hdestroyed⟩ := (resume_suspended (happending ▸ hp)).2.2 rfl
        exact h.committed hdestroyed c hmem hcommitted
      · exact h.fresh a ha
    · exact ⟨⟨h.fresh, h.committed⟩, rfl, rfl⟩
    · exact ⟨h, rfl, rfl⟩
  refine hrecord.1.moves (moves_setProgress _ who p) fun c' hc' hdestroyed hcommitted => ?_
  rw [hrecord.2.2] at hdestroyed
  obtain ⟨hgen, hbefore, _⟩ := resume_suspended (hc' ▸ hp)
  rw [hrecord.2.1, hgen]
  rcases hbefore hcommitted with hold | hnow
  · exact h.committed hdestroyed c hmem hold
  · exact hnow.symm

theorem Clean.step {s t : Session} {a : Turn} (h : Clean s) (htimely : Timely s a)
    (hstep : s.step a = some t) : Clean t := by
  cases steps_of_step hstep with
  | seek hevent ht =>
    rw [ht]
    by_cases haway : s.destroyed = false ∧ a.view.inBuffered = false
    · have hnone := htimely.uncommitted ⟨haway.1, hevent, haway.2⟩
      have hclean : Clean (advanced s a.view) := by
        refine ⟨h.fresh, fun _ c hc hcommitted => ?_⟩
        rw [hnone c hc] at hcommitted
        cases hcommitted
      exact hclean.begun (moves_onSeek haway.1 haway.2)
    · exact h.begun (onSeek_near haway).1
  | destroyed u hmove ht =>
    rw [ht]
    exact ⟨(h.begun hmove).fresh, fun hdestroyed => by cases hdestroyed⟩
  | slice who c reply p hc hp ht => exact ht ▸ h.slice hc hp
  | moved hmove _ => exact h.begun hmove
  | handled hmove _ _ _ => exact h.begun hmove

theorem Restarted.moves {new : Progress → Prop} {s t : Session} (h : Restarted s)
    (hmove : Moves new s t) (hsame : handlers t = handlers s) : Restarted t := by
  unfold Restarted
  rw [hmove.destroyed, hmove.generation, hsame]
  exact fun hdestroyed hgeneration hnone => hmove.kept _ (h hdestroyed hgeneration hnone)

theorem Restarted.slice {s : Session} {c : Slice} (h : Restarted s) (who : Runner)
    (p : Progress) : Restarted ((s.record c p).setProgress who p) := by
  have hrecord : Restarted (s.record c p) := by
    unfold record
    split_ifs <;> exact h
  exact hrecord.moves (moves_setProgress _ who p) (by cases who <;> rfl)

/-- A seek outside the buffered ranges leaves a handler or a loop of its generation. -/
theorem restarted_onSeek {s : Session} {v : View} (hdestroyed : s.destroyed = false)
    (hbuffered : v.inBuffered = false)
    (hloop : v.isOpen = false → handlers s = 0 → s.loop = none) : Restarted (s.onSeek v) := by
  intro _ _ hnone
  rw [onSeek_away hdestroyed hbuffered] at hnone ⊢
  split_ifs at hnone ⊢ with hopen
  · have hcount : s.waiting + 1 + s.removing = 0 := hnone
    omega
  · rw [handlers_kickProduce] at hnone
    have hstart := started_kickProduce (s := advanced s v) v
      (hloop (Bool.eq_false_iff.mpr hopen) hnone) hdestroyed
    rwa [(moves_kickProduce (advanced s v) v).generation]

theorem Restarted.step {s t : Session} {a : Turn} (h : Restarted s) (hordered : Ordered s)
    (htimely : Timely s a) (hstep : s.step a = some t) : Restarted t := by
  cases steps_of_step hstep with
  | seek hevent ht =>
    rw [ht]
    by_cases haway : s.destroyed = false ∧ a.view.inBuffered = false
    · exact restarted_onSeek haway.1 haway.2 (htimely.handled ⟨haway.1, hevent, haway.2⟩)
    · exact h.moves (onSeek_near haway).1 (onSeek_near haway).2
  | destroyed u hmove ht =>
    rw [ht]
    intro hdestroyed
    cases hdestroyed
  | slice who c reply p hc hp ht => exact ht ▸ h.slice who p
  | moved hmove hsame => exact h.moves hmove hsame
  | handled hmove hcount hevent hstart =>
    intro hdestroyed _ hnone
    rw [hmove.destroyed] at hdestroyed
    rw [hmove.generation]
    cases hloop : s.loop with
    | none => exact hstart hdestroyed hloop
    | some l =>
      have hgen := htimely.unwound ⟨hdestroyed, by omega, hevent⟩ l hloop
      exact hmove.kept _ (hgen ▸ (hordered.latest l hloop).1)

theorem clean_opened (duration : ℚ) (v : View) : Clean (opened duration v) where
  fresh := by
    intro a ha
    cases ha
  committed := fun _ c hc _ => (slices_opened hc).1

/-- In every run whose seeks and handlers are timely, no slice is appended in another generation
than its own, and after a seek a loop of the generation has been started or a handler is under
way that will start it. -/
theorem timely_run {duration : ℚ} {v : View} {s : Session}
    (h : Run Session.step Timely (opened duration v) s) : Sound s := by
  have hinv : ∀ s a t, Ordered s ∧ Clean s ∧ Restarted s → Timely s a →
      s.step a = some t → Ordered t ∧ Clean t ∧ Restarted t := by
    intro s a t hs htimely hstep
    obtain ⟨hordered, hclean, hrestarted⟩ := hs
    exact ⟨hordered.step hstep, hclean.step htimely hstep,
      hrestarted.step hordered htimely hstep⟩
  obtain ⟨_, hclean, hrestarted⟩ := h.invariant hinv
    ⟨ordered_opened duration v, clean_opened duration v, fun _ hzero => absurd rfl hzero⟩
  exact ⟨hclean.fresh, hrestarted⟩

/-- Events that come while the browser shows the same. -/
def seen (v : View) (events : List Event) : List Turn := events.map (Turn.mk v)

/-- The awaits of a slice come to their ends. -/
def replies (v : View) (who : Runner) (given : List Reply) : List Turn :=
  seen v (given.map (Event.sliceReply who))

/-- The first slice is encoded and appended. -/
def firstSlice : List Turn :=
  replies (playing 0 []) .start [.code 0, .data 9, .settled, .settled, .settled]

/-- The user seeks while the loop waits for the player. -/
def seekWhileWaiting : List Turn :=
  firstSlice ++ seen (playing 0 [(0, 20)]) [.sliceReturned .start, .sliceReturned .loop] ++
    seen (playing 40 [(0, 20)]) [.seeking, .loopWaited, .loopSettled, .seekWaited true] ++
    seen (playing 40 []) [.seekRemoved] ++
    replies (playing 40 []) .loop [.code 1, .code 0, .data 9, .settled, .settled]

theorem timely_run_seek : ∃ s, Run Session.step Timely (opened 60 (playing 0 [])) s ∧
    s.appends = [⟨1, 1⟩, ⟨0, 0⟩] ∧ s.started = [1, 0] ∧ Sound s := by
  have hexec : (execIf Session.step (fun s a => decide (Timely s a)) (opened 60 (playing 0 []))
      seekWhileWaiting).map (fun s => (s.appends, s.started)) =
      some ([⟨1, 1⟩, ⟨0, 0⟩], [1, 0]) := by decide +kernel
  obtain ⟨s, hs, hshown⟩ := Option.map_eq_some_iff.mp hexec
  have hrun := run_of_execIf _ (fun _ _ _ hok => of_decide_eq_true hok) hs
  obtain ⟨happends, hstarted⟩ := Prod.mk.inj hshown
  exact ⟨s, hrun, happends, hstarted, timely_run hrun⟩

theorem not_timely {s : Session} {a : Turn} (h : ¬ Timely s a) :
    (SeeksAway s a ∧ ∃ c ∈ slices s, isCommitted c.stage = true) ∨
      (SeeksAway s a ∧ a.view.isOpen = false ∧ handlers s = 0 ∧ s.loop ≠ none) ∨
      (EndsLast s a ∧ ∃ l ∈ s.loop, l.gen ≠ s.generation) := by
  by_contra hnone
  simp only [not_or, not_and, not_exists, Bool.not_eq_true, not_not] at hnone
  exact h ⟨hnone.1, hnone.2.1, hnone.2.2⟩

/-- One await of a slice comes to its end. -/
theorem run_sliceReply {s : Session} {who : Runner} {c : Slice} {p : Progress} (v : View)
    (reply : Reply) (hc : s.progress who = some (.suspended c))
    (hp : s.resume v c reply = some p) :
    Run Session.step Silent s ((s.record c p).setProgress who p) := by
  refine Run.tail ⟨v, .sliceReply who reply⟩ (Run.refl s) (by simp [Silent]) ?_
  unfold Session.step sliceReply
  simp only [hc, hp, Option.map_some]

/-- A committed slice can come to its append, whatever the generation of the session. -/
def Appends (s : Session) (gen : Nat) : Prop :=
  ∃ u, Run Session.step Silent s u ∧ ⟨gen, s.generation⟩ ∈ u.appends

theorem appends_queued {s : Session} {who : Runner} {gen : Nat} {start : ℚ}
    (hdestroyed : s.destroyed = false)
    (hc : s.progress who = some (.suspended ⟨gen, start, .queued⟩)) : Appends s gen := by
  have hp : s.resume (playing 0 []) ⟨gen, start, .queued⟩ .settled =
      some (.suspended ⟨gen, start, .appending⟩) := by
    simp [resume, isClosed, hdestroyed, playing]
  refine ⟨_, run_sliceReply (playing 0 []) .settled hc hp, ?_⟩
  rw [(moves_setProgress _ who _).appends]
  unfold record
  rw [if_pos rfl]
  exact List.mem_cons_self

/-- An await before the append. -/
theorem Appends.of_next {s : Session} {who : Runner} {gen : Nat} {start : ℚ} {stage : Stage}
    (reply : Reply) (next : Stage) (hdestroyed : s.destroyed = false)
    (hc : s.progress who = some (.suspended ⟨gen, start, stage⟩))
    (hp : s.resume (playing 0 []) ⟨gen, start, stage⟩ reply =
      some (.suspended ⟨gen, start, next⟩)) (hnext : next ≠ .appending)
    (happends : ∀ t : Session, t.destroyed = false →
      t.progress who = some (.suspended ⟨gen, start, next⟩) → Appends t gen) :
    Appends s gen := by
  have hrecord : s.record ⟨gen, start, stage⟩ (.suspended ⟨gen, start, next⟩) = s := by
    simp [record, hnext]
  have hrun := run_sliceReply (playing 0 []) reply hc hp
  rw [hrecord] at hrun
  have hmove := moves_setProgress s who (.suspended ⟨gen, start, next⟩)
  obtain ⟨u, hu, happend⟩ := happends _ (hmove.destroyed.trans hdestroyed)
    (progress_setProgress _ hc)
  rw [hmove.generation] at happend
  exact ⟨u, hrun.trans hu, happend⟩

theorem appends_deleteFile {s : Session} {who : Runner} {gen size : Nat} {start : ℚ}
    (hsize : size ≠ 0) (hdestroyed : s.destroyed = false)
    (hc : s.progress who = some (.suspended ⟨gen, start, .deleteFile (some size)⟩)) :
    Appends s gen :=
  Appends.of_next .settled .queued hdestroyed hc
    (by simp [resume, hsize, isClosed, hdestroyed, playing]) (by simp)
    fun _ ht hct => appends_queued ht hct

theorem appends_readFile {s : Session} {who : Runner} {gen : Nat} {start : ℚ}
    (hdestroyed : s.destroyed = false)
    (hc : s.progress who = some (.suspended ⟨gen, start, .readFile⟩)) : Appends s gen :=
  Appends.of_next (.data 1) (.deleteFile (some 1)) hdestroyed hc rfl (by simp)
    fun _ ht hct => appends_deleteFile Nat.one_ne_zero ht hct

theorem appends_of_committed {s : Session} {who : Runner} {c : Slice}
    (hdestroyed : s.destroyed = false) (hc : s.progress who = some (.suspended c))
    (hcommitted : isCommitted c.stage = true) : Appends s c.gen := by
  obtain ⟨gen, start, stage⟩ := c
  cases stage with
  | execNoAudio =>
    exact Appends.of_next (.code 0) .readFile hdestroyed hc rfl (by simp)
      fun _ ht hct => appends_readFile ht hct
  | readFile => exact appends_readFile hdestroyed hc
  | deleteFile data =>
    cases data with
    | none => cases hcommitted
    | some size =>
      exact appends_deleteFile (by simpa [isCommitted] using hcommitted) hdestroyed hc
  | queued => exact appends_queued hdestroyed hc
  | _ => cases hcommitted

/-- A seek that finds a committed slice lets it come to its append. -/
theorem unsound_of_committed {s : Session} {v : View} {c : Slice} (h : Ordered s)
    (hdestroyed : s.destroyed = false) (hbuffered : v.inBuffered = false) (hc : c ∈ slices s)
    (hcommitted : isCommitted c.stage = true) :
    ∃ u, Run Session.step Silent (s.onSeek v) u ∧ ¬ Sound u := by
  obtain ⟨who, hwho⟩ := mem_slices.mp hc
  have hmove := moves_onSeek hdestroyed hbuffered
  obtain ⟨u, hu, happend⟩ := appends_of_committed (hmove.destroyed.trans hdestroyed)
    (progress_onSeek hdestroyed hbuffered hwho) hcommitted
  refine ⟨u, hu, fun hsound => ?_⟩
  have hsame : c.gen = (s.onSeek v).generation := hsound.fresh _ happend
  have hgeneration : (s.onSeek v).generation = s.generation + 1 := hmove.generation
  have hle := h.slices c hc
  omega

/-- A seek that is handled at once starts no loop beside an older one. -/
theorem unsound_of_loop {s : Session} {v : View} (h : Ordered s)
    (hdestroyed : s.destroyed = false) (hbuffered : v.inBuffered = false)
    (hclosed : v.isOpen = false) (hnone : handlers s = 0) (hloop : s.loop ≠ none) :
    ¬ Sound (s.onSeek v) := by
  rw [onSeek_away hdestroyed hbuffered, if_neg (by simp [hclosed]),
    kickProduce_of_loop v (s := advanced s v) hloop]
  intro hsound
  have hmem := h.started _ (hsound.restarted hdestroyed (Nat.succ_ne_zero _) hnone)
  exact absurd hmem (Nat.not_succ_le_self _)

/-- The last handler starts no loop beside an older one. -/
theorem unsound_of_handler {s t : Session} {a : Turn} {l : Loop} (h : Ordered s)
    (hstep : s.step a = some t) (hlast : EndsLast s a) (hl : s.loop = some l)
    (hgen : l.gen ≠ s.generation) : ¬ Sound t := by
  obtain ⟨hlmem, hlatest⟩ := h.latest l hl
  have hle := h.started _ hlmem
  have hnot : s.generation ∉ s.started := fun hmem =>
    hgen (le_antisymm hle (hlatest _ hmem))
  obtain ⟨hdestroyed, hcount, hevent⟩ := hlast
  obtain ⟨waiting, removing, hleft, rfl⟩ := handler_end hstep hevent
  have hloop : s.loop ≠ none := by simp [hl]
  rw [kickProduce_of_loop (s := { s with waiting := waiting, removing := removing }) _ hloop]
  intro hsound
  have hnone : waiting + removing = 0 := by omega
  have hadvanced : s.generation ≠ 0 := by omega
  exact hnot (hsound.restarted hdestroyed hadvanced hnone)

/-- An untimely step of any run leaves an unsound session, at once or after awaits alone that come
to their ends. -/
theorem untimely_unsound {ok : Session → Turn → Prop} {duration : ℚ} {v : View} {s t : Session}
    {a : Turn} (hrun : Run Session.step ok (opened duration v) s) (hstep : s.step a = some t)
    (huntimely : ¬ Timely s a) : ∃ u, Run Session.step Silent t u ∧ ¬ Sound u := by
  have h := ordered_run hrun
  have hseeks : SeeksAway s a → t = s.onSeek a.view := by
    intro hseek
    unfold Session.step at hstep
    rw [hseek.2.1] at hstep
    exact (Option.some.inj hstep).symm
  rcases not_timely huntimely with hfails | hfails | hfails
  · obtain ⟨hseek, c, hc, hcommitted⟩ := hfails
    rw [hseeks hseek]
    exact unsound_of_committed h hseek.1 hseek.2.2 hc hcommitted
  · obtain ⟨hseek, hclosed, hnone, hloop⟩ := hfails
    rw [hseeks hseek]
    exact ⟨_, Run.refl _, unsound_of_loop h hseek.1 hseek.2.2 hclosed hnone hloop⟩
  · obtain ⟨hlast, l, hl, hgen⟩ := hfails
    exact ⟨t, Run.refl t, unsound_of_handler h hstep hlast hl hgen⟩

/-- The user seeks while the file of the first slice is read. -/
def seekWhileReading : List Turn :=
  replies (playing 0 []) .start [.code 0] ++ seen (playing 40 []) [.seeking] ++
    replies (playing 40 []) .start [.data 9, .settled, .settled]

/-- The user seeks while the loop encodes, and the buffer is emptied before the encoding ends. -/
def seekWhileEncoding : List Turn :=
  firstSlice ++ seen (playing 0 [(0, 4)]) [.sliceReturned .start] ++
    seen (playing 40 [(0, 4)]) [.seeking, .seekWaited true] ++
    seen (playing 40 []) [.seekRemoved] ++ replies (playing 40 []) .loop [.code 0, .settled] ++
    seen (playing 40 []) [.sliceReturned .loop, .loopSettled]

/-- The first seek has the slice of generation 0 appended in generation 1. After the second one
nothing is under way any more, and no loop was started for generation 1. -/
theorem seeks_break_preview :
    (∃ s, Run Session.step anyAction (opened 60 (playing 0 [])) s ∧
      ⟨0, 1⟩ ∈ s.appends ∧ ¬ Sound s) ∧
    ∃ s, Run Session.step anyAction (opened 60 (playing 0 [])) s ∧ s.destroyed = false ∧
      s.generation = 1 ∧ s.started = [0] ∧ s.first = none ∧ s.loop = none ∧ handlers s = 0 ∧
      ¬ Sound s := by
  constructor
  · have hexec : (exec Session.step (opened 60 (playing 0 [])) seekWhileReading).map
        (fun s => s.appends) = some [⟨0, 1⟩] := by decide +kernel
    obtain ⟨s, hs, happends⟩ := Option.map_eq_some_iff.mp hexec
    have hmem : ⟨0, 1⟩ ∈ s.appends := by
      rw [happends]
      exact List.mem_cons_self
    exact ⟨s, run_of_exec hs, hmem, fun hsound => absurd (hsound.fresh _ hmem) (by decide)⟩
  · have hexec : exec Session.step (opened 60 (playing 0 [])) seekWhileEncoding =
        some ⟨60, false, 1, 40, none, none, 0, 0, [⟨0, 0⟩], [0]⟩ := by decide +kernel
    refine ⟨_, run_of_exec hexec, rfl, rfl, rfl, rfl, rfl, rfl, fun hsound => ?_⟩
    have hmem := hsound.restarted rfl Nat.one_ne_zero rfl
    simp at hmem

end MyS3.PreviewSeeks
