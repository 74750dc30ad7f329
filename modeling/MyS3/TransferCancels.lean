import MyS3.TransferQueue

/-!
Waiting and cancelled jobs of the transfer queue. While `pump` awaits the listing at its end it
counts as running, so that a job enqueued then is taken by no one. The flag that cancels all
jobs is reset when `pump` is called, so that a job enqueued while the text of a failed download
is read is cancelled by a click that came before it.
-/

namespace MyS3.TransferCancels

open Library.Strings Library.Tables Library.Runs
open TransferQueue TransferQueue.Queue

/-- The event is a cancel that a job is meant by. -/
def Cancels (e : Event) (id : Nat) : Prop := e = .cancelJob id ∨ e = .cancelAllJobs

def isEnqueue : Event → Bool
  | .enqueue _ _ _ => true
  | _ => false

/-- The number of the jobs that were enqueued, which is the id of the last one. -/
def enqueues (past : List Event) : Nat := (past.filter isEnqueue).length

/-- A job was cancelled by the user after it had been enqueued. -/
def CancelledAfter (past : List Event) (id : Nat) : Prop :=
  ∃ before e after, past = before ++ e :: after ∧ Cancels e id ∧ id ≤ enqueues before

/-- The queue with the events so far. -/
structure Session where
  queue : Queue
  past : List Event

def Session.step (t : Session) (e : Event) : Session := ⟨t.queue.step e, t.past ++ [e]⟩

def opened (selected : Text) : Session := ⟨loaded selected, []⟩

/-- No job waits while `pump` is idle, and the user has cancelled every cancelled job. -/
structure Sound (t : Session) : Prop where
  woken : t.queue.processing = false → ∀ j ∈ t.queue.jobs, j.status ≠ .queued
  cancelled : ∀ j ∈ t.queue.jobs, j.status = .cancelled → CancelledAfter t.past j.id

/-- No job waits when the listing has been refreshed, and none when the text of a failed
download has been read after a cancel of all jobs. -/
structure InTime (t : Session) (e : Event) : Prop where
  refreshed : e = .refreshed → t.queue.pump = .refresh →
    ∀ j ∈ t.queue.jobs, j.status ≠ .queued
  textRead : e = .errorTextRead → ∀ id, t.queue.pump = .request id .readingError →
    t.queue.cancelAll = true → ∀ j ∈ t.queue.jobs, j.status ≠ .queued

theorem enqueues_append (past : List Event) (e : Event) :
    enqueues (past ++ [e]) = enqueues past + if isEnqueue e then 1 else 0 := by
  unfold enqueues
  rw [List.filter_append, List.length_append, List.filter_singleton]
  cases isEnqueue e <;> rfl

theorem cancelledAfter_append {past : List Event} {e : Event} {id : Nat} :
    CancelledAfter (past ++ [e]) id ↔
      CancelledAfter past id ∨ Cancels e id ∧ id ≤ enqueues past := by
  constructor
  · intro h
    obtain ⟨before, e', after, heq, hcancels, hid⟩ := h
    rcases List.eq_nil_or_concat after with rfl | ⟨after, last, rfl⟩
    · obtain ⟨rfl, he⟩ := List.append_inj' heq rfl
      cases he
      exact Or.inr ⟨hcancels, hid⟩
    · rw [List.concat_eq_append, ← List.cons_append, ← List.append_assoc] at heq
      obtain ⟨rfl, _⟩ := List.append_inj' heq rfl
      exact Or.inl ⟨before, e', after, rfl, hcancels, hid⟩
  · intro h
    rcases h with ⟨before, e', after, rfl, hcancels, hid⟩ | ⟨hcancels, hid⟩
    · exact ⟨before, e', after ++ [e], by simp, hcancels, hid⟩
    · exact ⟨past, e, [], rfl, hcancels, hid⟩

/-- What the events so far say of the jobs. -/
structure Recorded (past : List Event) (q : Queue) : Prop where
  numbered : q.nextId = enqueues past + 1
  fresh : ∀ j ∈ q.jobs, j.status = .queued → ¬ CancelledAfter past j.id
  cancelled : ∀ j ∈ q.jobs, j.status = .cancelled → CancelledAfter past j.id

theorem jobs_finish (q : Queue) : q.finish.jobs = q.jobs ∧ q.finish.nextId = q.nextId := by
  unfold finish
  split_ifs <;> exact ⟨rfl, rfl⟩

theorem jobs_leaveLoop (q : Queue) :
    q.leaveLoop.jobs = q.jobs ∧ q.leaveLoop.nextId = q.nextId := by
  unfold leaveLoop
  split_ifs
  · exact ⟨rfl, rfl⟩
  · exact jobs_finish q

theorem Recorded.of_jobs {past : List Event} {q q' : Queue} (h : Recorded past q)
    (hjobs : q'.jobs = q.jobs ∧ q'.nextId = q.nextId) : Recorded past q' :=
  ⟨hjobs.2.trans h.numbered, hjobs.1 ▸ h.fresh, hjobs.1 ▸ h.cancelled⟩

/-- A status that is neither waiting nor cancelled says nothing of the past. -/
theorem Recorded.mark {past : List Event} {q : Queue} (h : Recorded past q)
    {p : TransferJob → Bool} {status : JobStatus} (hqueued : status ≠ .queued)
    (hcancelled : status = .cancelled → ∀ j ∈ q.jobs, p j = true → CancelledAfter past j.id) :
    Recorded past (q.mark p status) := by
  refine ⟨h.numbered, fun j hj hstatus => ?_, fun j hj hstatus => ?_⟩
  · rcases mem_mark.mp hj with ⟨hj, _⟩ | ⟨_, _, _, rfl⟩
    · exact h.fresh j hj hstatus
    · exact absurd hstatus hqueued
  · rcases mem_mark.mp hj with ⟨hj, _⟩ | ⟨j', hj', hp, rfl⟩
    · exact h.cancelled j hj hstatus
    · exact hcancelled hstatus j' hj' hp

theorem sound_of_recorded {past : List Event} {q : Queue} (h : Recorded past q)
    (hwoken : q.processing = false → ∀ j ∈ q.jobs, j.status ≠ .queued) : Sound ⟨q, past⟩ :=
  ⟨hwoken, h.cancelled⟩

/-- A loop that cancels no waiting job keeps the jobs right, and leaves none waiting when it
comes to its end. -/
theorem recorded_goOn {past : List Event} {q : Queue} (hloop : q.AtLoop) (h : Recorded past q)
    (hnone : q.cancelAll = true → ∀ j ∈ q.jobs, j.status ≠ .queued) :
    Recorded past q.goOn ∧ Sound ⟨q.goOn, past⟩ := by
  have hleave : (∀ j ∈ q.jobs, j.status ≠ .queued) →
      Recorded past q.leaveLoop ∧ Sound ⟨q.leaveLoop, past⟩ := by
    intro hall
    have hrec := h.of_jobs (jobs_leaveLoop q)
    exact ⟨hrec, sound_of_recorded hrec fun _ => (jobs_leaveLoop q).1 ▸ hall⟩
  rw [goOn_eq hloop.ids]
  split_ifs with hcancel
  · have hall := hnone hcancel
    have hsame : q.mark TransferJob.isQueued .cancelled = q := by
      unfold mark
      rw [updateRows_of_none fun j hj => by simpa [TransferJob.isQueued] using hall j hj]
    rw [hsame]
    exact hleave hall
  · cases hfind : q.jobs.find? TransferJob.isQueued with
    | none =>
      refine hleave fun j hj hqueued => ?_
      exact List.find?_eq_none.mp hfind j hj (by simp [TransferJob.isQueued, hqueued])
    | some next =>
      have hmark : Recorded past (q.setStatus next.id .active) := h.mark (by simp) (by simp)
      have hrec : Recorded past (q.start next) := hmark.of_jobs ⟨rfl, rfl⟩
      refine ⟨hrec, sound_of_recorded hrec fun hidle => ?_⟩
      have hbusy : (q.start next).processing = true := hloop.processing
      rw [hbusy] at hidle
      cases hidle

/-- A loop that cancels a waiting job cancels one that the user did not. -/
theorem not_sound_goOn {past : List Event} {q : Queue} (hloop : q.AtLoop) (h : Recorded past q)
    (hcancel : q.cancelAll = true) {j : TransferJob} (hj : j ∈ q.jobs)
    (hqueued : j.status = .queued) : ¬ Sound ⟨q.goOn, past⟩ := by
  intro hsound
  have hmem : { j with status := .cancelled } ∈ q.goOn.jobs := by
    rw [goOn_eq hloop.ids, if_pos hcancel, (jobs_leaveLoop _).1]
    exact mem_mark.mpr (Or.inr ⟨j, hj, by simp [TransferJob.isQueued, hqueued], rfl⟩)
  exact h.fresh j hj hqueued (hsound.cancelled { j with status := .cancelled } hmem rfl)

/-- What holds between the events of a run. -/
structure Kept (t : Session) : Prop where
  good : t.queue.Good
  numbered : t.queue.nextId = enqueues t.past + 1
  fresh : ∀ j ∈ t.queue.jobs, j.status = .queued → ¬ CancelledAfter t.past j.id

section step

variable {q : Queue} {past : List Event}

/-- An event that is no cancel of a waiting job leaves the record of the jobs as it was. -/
theorem Recorded.append (h : Recorded past q) {e : Event}
    (henqueue : isEnqueue e = false)
    (hcancel : ∀ j ∈ q.jobs, j.status = .queued → ¬ Cancels e j.id) : Recorded (past ++ [e]) q := by
  refine ⟨?_, fun j hj hqueued hafter => ?_, fun j hj hstatus => ?_⟩
  · rw [enqueues_append, henqueue]
    exact h.numbered
  · rcases cancelledAfter_append.mp hafter with hafter | ⟨hcancels, _⟩
    · exact h.fresh j hj hqueued hafter
    · exact hcancel j hj hqueued hcancels
  · exact cancelledAfter_append.mpr (Or.inl (h.cancelled j hj hstatus))

/-- A job that is cancelled by an event has been enqueued before. -/
theorem cancelledAfter_now (h : Recorded past q) (hids : q.Ids) {e : Event} {j : TransferJob}
    (hj : j ∈ q.jobs) (hcancels : Cancels e j.id) : CancelledAfter (past ++ [e]) j.id := by
  have hbelow := hids.below j hj
  rw [h.numbered] at hbelow
  exact cancelledAfter_append.mpr (Or.inr ⟨hcancels, by omega⟩)

/-- An event that cancels jobs cancels the waiting ones that are meant. -/
theorem Recorded.cancel (h : Recorded past q) (hids : q.Ids) {e : Event}
    (henqueue : isEnqueue e = false) {p : TransferJob → Bool}
    (hmeant : ∀ j ∈ q.jobs, p j = true → Cancels e j.id)
    (hwaiting : ∀ j ∈ q.jobs, j.status = .queued → Cancels e j.id → p j = true) :
    Recorded (past ++ [e]) (q.mark p .cancelled) := by
  refine ⟨?_, fun j hj hqueued hafter => ?_, fun j hj hstatus => ?_⟩
  · rw [enqueues_append, henqueue]
    exact h.numbered
  · rcases mem_mark.mp hj with ⟨hj, hp⟩ | ⟨_, _, _, rfl⟩
    · rcases cancelledAfter_append.mp hafter with hafter | ⟨hcancels, _⟩
      · exact h.fresh j hj hqueued hafter
      · rw [hwaiting j hj hqueued hcancels] at hp
        cases hp
    · cases hqueued
  · rcases mem_mark.mp hj with ⟨hj, _⟩ | ⟨j', hj', hp, rfl⟩
    · exact cancelledAfter_append.mpr (Or.inl (h.cancelled j hj hstatus))
    · have hafter : CancelledAfter (past ++ [e]) j'.id :=
        cancelledAfter_now h hids hj' (hmeant j' hj' hp)
      exact hafter

/-- A cancel is issued after as many jobs were enqueued as its job's id says at least. -/
theorem CancelledAfter.le {id : Nat} (h : CancelledAfter past id) : id ≤ enqueues past := by
  obtain ⟨before, e, after, rfl, _, hid⟩ := h
  refine hid.trans ?_
  unfold enqueues
  rw [List.filter_append, List.length_append]
  exact Nat.le_add_right _ _

theorem Recorded.push (h : Recorded past q) (kind : JobKind) (key : Text)
    (format : Option Text) :
    Recorded (past ++ [.enqueue kind key format]) (q.push kind key format) := by
  have hnone : ∀ id, ¬ Cancels (.enqueue kind key format) id := by
    intro id hcancels
    rcases hcancels with he | he
    all_goals cases he
  refine ⟨?_, fun j hj hqueued hafter => ?_, fun j hj hstatus => ?_⟩
  · rw [enqueues_append]
    exact congrArg (· + 1) h.numbered
  · rcases cancelledAfter_append.mp hafter with hafter | ⟨hcancels, _⟩
    · rcases status_push hj with hj | ⟨hid, _⟩
      · exact h.fresh j hj hqueued hafter
      · have hle := hafter.le
        rw [hid, h.numbered] at hle
        omega
    · exact hnone j.id hcancels
  · rcases status_push hj with hj | ⟨_, hqueued, _⟩
    · exact cancelledAfter_append.mpr (Or.inl (h.cancelled j hj hstatus))
    · rw [hqueued] at hstatus
      cases hstatus

/-- The job of the request that ends is not waiting. -/
theorem not_queued_of_pump (hgood : q.Good) {id : Nat} {phase : Phase}
    (hpump : q.pump = .request id phase) {j : TransferJob} (hj : j ∈ q.jobs) (hid : j.id = id) :
    j.status = .active := by
  obtain ⟨a, ha, haid, hactive⟩ := hgood.awaited id phase hpump
  rw [hgood.ids.eq hj ha (hid.trans haid.symm)]
  exact hactive

theorem recorded_ends (h : Recorded past q) (hgood : q.Good) {e : Event} {id : Nat}
    {status : JobStatus} (hends : Ends q e id status) :
    Recorded (past ++ [e]) (q.setStatus id status) := by
  have hother : isEnqueue e = false → (∀ a, ¬ Cancels e a) → status ≠ .queued →
      status ≠ .cancelled → Recorded (past ++ [e]) (q.setStatus id status) := by
    intro henqueue hcancels hqueued hcancelled
    exact (h.append henqueue fun j _ _ => hcancels j.id).mark hqueued fun hs => absurd hs hcancelled
  cases hends with
  | aborted hpump =>
    refine h.cancel hgood.ids rfl (fun j _ hid => Or.inl ?_) fun j hj hqueued hcancels => ?_
    · rw [beq_iff_eq.mp hid]
    · rcases hcancels with he | he
      · cases he
        simp
      · cases he
  | succeeded => exact hother rfl (by simp [Cancels]) (by simp) (by simp)
  | failed => exact hother rfl (by simp [Cancels]) (by simp) (by simp)
  | refused => exact hother rfl (by simp [Cancels]) (by simp) (by simp)
  | read => exact hother rfl (by simp [Cancels]) (by simp) (by simp)

/-- The event leaves the jobs right exactly when it comes in time. -/
structure Decided (past : List Event) (q : Queue) (e : Event) (q' : Queue) : Prop where
  recorded : InTime ⟨q, past⟩ e → Recorded (past ++ [e]) q'
  sound : InTime ⟨q, past⟩ e ↔ Sound ⟨q', past ++ [e]⟩

theorem Decided.of_inTime {e : Event} {q' : Queue} (hin : InTime ⟨q, past⟩ e)
    (hall : Recorded (past ++ [e]) q' ∧ Sound ⟨q', past ++ [e]⟩) : Decided past q e q' :=
  ⟨fun _ => hall.1, iff_of_true hin hall.2⟩

/-- Only two events can come too early. -/
theorem inTime_of_ne {e : Event} (hrefreshed : e ≠ .refreshed) (hread : e ≠ .errorTextRead) :
    InTime ⟨q, past⟩ e :=
  ⟨fun he => absurd he hrefreshed, fun he => absurd he hread⟩

/-- An event that ends a request keeps the jobs right, unless it lets the loop cancel a job. -/
theorem decided_ends (h : Recorded past q) (hgood : q.Good) {e : Event} {id : Nat}
    {status : JobStatus} (hends : Ends q e id status) :
    Decided past q e (q.setStatus id status).goOn := by
  have hloop := hgood.atLoop_ends hends
  have hrec := recorded_ends h hgood hends
  obtain ⟨⟨phase, hpump⟩, _, hqueued⟩ := hends.pump
  have hkept : ∀ j, j ∈ (q.setStatus id status).jobs ∧ j.status = .queued ↔
      j ∈ q.jobs ∧ j.status = .queued := by
    intro j
    constructor
    · intro hj
      rcases mem_mark.mp hj.1 with ⟨hmem, _⟩ | ⟨_, _, _, rfl⟩
      · exact ⟨hmem, hj.2⟩
      · exact absurd hj.2 hqueued
    · intro hj
      refine ⟨mem_mark.mpr (Or.inl ⟨hj.1, ?_⟩), hj.2⟩
      rw [beq_eq_false_iff_ne]
      intro hid
      rw [not_queued_of_pump hgood hpump hj.1 hid] at hj
      cases hj.2
  have hright : InTime ⟨q, past⟩ e → Recorded (past ++ [e]) (q.setStatus id status).goOn ∧
      Sound ⟨(q.setStatus id status).goOn, past ++ [e]⟩ := by
    intro hin
    refine recorded_goOn hloop hrec fun hcancel j hj hj' => ?_
    obtain ⟨hmem, hstatus⟩ := (hkept j).mp ⟨hj, hj'⟩
    have hflight : ∀ id, q.pump ≠ .request id .inFlight := by
      intro id hid
      have hnot := hgood.inFlight id hid
      rw [show q.cancelAll = true from hcancel] at hnot
      cases hnot
    cases hends with
    | aborted hid => exact hflight _ hid
    | succeeded hid => exact hflight _ hid
    | failed hid => exact hflight _ hid
    | refused hid => exact hflight _ hid
    | read hid => exact hin.textRead rfl _ hid hcancel j hmem hstatus
  refine ⟨fun hin => (hright hin).1, fun hin => (hright hin).2, fun hsound => ?_⟩
  refine ⟨fun _ hrefresh => ?_, fun _ _ _ hcancel j hj hj' => ?_⟩
  · rw [show q.pump = .refresh from hrefresh] at hpump
    cases hpump
  · obtain ⟨hmem, hstatus⟩ := (hkept j).mpr ⟨hj, hj'⟩
    exact not_sound_goOn hloop hrec hcancel hmem hstatus hsound

/-- A cancel of all jobs leaves none waiting. -/
theorem waiting_all {j : TransferJob}
    (hj : j ∈ (q.mark (fun j => j.isQueued || q.aborts j) .cancelled).jobs) :
    j.status ≠ .queued := by
  intro hqueued
  rcases mem_mark.mp hj with ⟨_, hnot⟩ | ⟨_, _, _, rfl⟩
  · simp [TransferJob.isQueued, hqueued] at hnot
  · cases hqueued

theorem recorded_all (h : Recorded past q) (hgood : q.Good) : Recorded (past ++ [.cancelAllJobs])
    (q.mark (fun j => j.isQueued || q.aborts j) .cancelled) := by
  refine h.cancel hgood.ids rfl (fun _ _ _ => Or.inr rfl) fun j _ hqueued _ => ?_
  simp [TransferJob.isQueued, hqueued]

/-- A job that waits is cancelled. -/
theorem decided_cancels (h : Recorded past q) (hgood : q.Good)
    (hwoken : q.processing = false → ∀ j ∈ q.jobs, j.status ≠ .queued) {j : TransferJob}
    {hideTimer : Bool} :
    Decided past q (.cancelJob j.id)
      { q.setStatus j.id .cancelled with hideTimer := hideTimer } := by
  have hrec : Recorded (past ++ [.cancelJob j.id]) (q.setStatus j.id .cancelled) := by
    refine h.cancel hgood.ids rfl (fun a _ hid => Or.inl ?_) fun a _ _ hcancels => ?_
    · rw [beq_iff_eq.mp hid]
    · rcases hcancels with he | he
      · simp [Event.cancelJob.inj he]
      · cases he
  refine Decided.of_inTime (inTime_of_ne (by simp) (by simp)) ⟨hrec.of_jobs ⟨rfl, rfl⟩, ?_⟩
  refine sound_of_recorded (hrec.of_jobs ⟨rfl, rfl⟩) fun hidle a ha => ?_
  rcases mem_mark.mp ha with ⟨ha, _⟩ | ⟨_, _, _, rfl⟩
  · exact hwoken hidle a ha
  · simp

/-- The listing has been refreshed. -/
theorem decided_refreshed (h : Recorded past q) (hpump : q.pump = .refresh) :
    Decided past q .refreshed q.finish := by
  have hrec := (h.append (e := .refreshed) rfl (by simp [Cancels])).of_jobs (jobs_finish q)
  refine ⟨fun _ => hrec, fun hin => sound_of_recorded hrec fun _ => ?_, fun hsound => ?_⟩
  · rw [(jobs_finish q).1]
    exact hin.refreshed rfl hpump
  · refine ⟨fun _ _ => ?_, by simp⟩
    have hidle : q.finish.processing = false := by
      unfold finish
      split_ifs <;> rfl
    have hnone := hsound.woken hidle
    rwa [(jobs_finish q).1] at hnone

/-- An event that changes no job, in time in any case. -/
theorem decided_append (h : Recorded past q)
    (hwoken : q.processing = false → ∀ j ∈ q.jobs, j.status ≠ .queued) {e : Event} {q' : Queue}
    (hin : InTime ⟨q, past⟩ e) (henqueue : isEnqueue e = false)
    (hcancel : ∀ j ∈ q.jobs, j.status = .queued → ¬ Cancels e j.id)
    (hjobs : q'.jobs = q.jobs ∧ q'.nextId = q.nextId) (hidle : q'.processing = q.processing) :
    Decided past q e q' := by
  have hrec := (h.append henqueue hcancel).of_jobs hjobs
  refine Decided.of_inTime hin ⟨hrec, sound_of_recorded hrec ?_⟩
  rw [hidle, hjobs.1]
  exact hwoken

/-- An event keeps the jobs right exactly when it comes in time. -/
theorem decided_step (h : Recorded past q) (hgood : q.Good)
    (hwoken : q.processing = false → ∀ j ∈ q.jobs, j.status ≠ .queued) (e : Event) :
    Decided past q e (q.step e) := by
  have hmove := move_step hgood e
  generalize q.step e = q' at hmove
  cases hmove with
  | ends hends => exact decided_ends h hgood hends
  | begins kind key format hidle =>
    refine Decided.of_inTime (inTime_of_ne (by simp) (by simp)) ?_
    refine recorded_goOn (hgood.atLoop_begins hidle kind key format) ?_ (by simp)
    exact (h.push kind key format).of_jobs ⟨rfl, rfl⟩
  | waits kind key format hbusy =>
    have hpush := h.push kind key format
    refine Decided.of_inTime (inTime_of_ne (by simp) (by simp)) ⟨hpush, ?_⟩
    refine sound_of_recorded hpush fun hidle => ?_
    rw [show (q.push kind key format).processing = true from hbusy] at hidle
    cases hidle
  | cancels j hideTimer hj hqueued => exact decided_cancels h hgood hwoken
  | stops id hpump =>
    refine Decided.of_inTime (inTime_of_ne (by simp) (by simp)) ?_
    refine recorded_goOn (hgood.atLoop_stops hpump) ((recorded_all h hgood).of_jobs ⟨rfl, rfl⟩) ?_
    exact fun _ _ => waiting_all
  | marks hpump =>
    have hrec := recorded_all h hgood
    refine Decided.of_inTime (inTime_of_ne (by simp) (by simp)) ⟨hrec.of_jobs ⟨rfl, rfl⟩, ?_⟩
    exact sound_of_recorded (hrec.of_jobs ⟨rfl, rfl⟩) fun _ _ => waiting_all
  | reads id hpump htext =>
    exact decided_append h hwoken (inTime_of_ne (by simp) (by simp)) rfl (by simp [Cancels])
      ⟨rfl, rfl⟩ rfl
  | ended hpump => exact decided_refreshed h hpump
  | clears _ hideTimer he hpending =>
    have hplain : isEnqueue e = false ∧ e ≠ .refreshed ∧ e ≠ .errorTextRead := by
      rcases he with rfl | rfl
      all_goals exact ⟨rfl, by simp, by simp⟩
    have hnumber : q.nextId = enqueues (past ++ [e]) + 1 := by
      rw [enqueues_append, hplain.1]
      exact h.numbered
    exact Decided.of_inTime (inTime_of_ne hplain.2.1 hplain.2.2)
      ⟨⟨hnumber, by simp, by simp⟩, ⟨by simp, by simp⟩⟩
  | selects bucket =>
    exact decided_append h hwoken (inTime_of_ne (by simp) (by simp)) rfl (by simp [Cancels])
      ⟨rfl, rfl⟩ rfl
  | stays _ hideTimer hall hjob hends hrefresh henqueue =>
    have hplain : isEnqueue e = false := by
      cases e with
      | enqueue kind key format => exact absurd rfl (henqueue kind key format)
      | _ => rfl
    have hin : InTime ⟨q, past⟩ e := by
      refine ⟨fun he hpump => absurd he (hrefresh hpump), fun he id hpump => ?_⟩
      subst he
      exact absurd (.read hpump) (hends id .error)
    refine decided_append h hwoken hin hplain (fun j hj hqueued hcancels => ?_) ⟨rfl, rfl⟩ rfl
    rcases hcancels with he | he
    · exact hjob j hj he hqueued
    · exact hall he

end step

/-- In every state of a run no job waits while `pump` is idle, and the user has cancelled every
cancelled job after it was enqueued, exactly when all its events come in time. -/
theorem jobs_sound_iff (selected : Text) (events : List Event) :
    EveryState Session.step Sound (opened selected) events ↔
      AllSteps Session.step InTime (opened selected) events := by
  refine everyState_iff (I := Kept) ?_ ?_ ?_ ?_ events
  · intro t e hkept hsound hin
    have hrec := (decided_step ⟨hkept.numbered, hkept.fresh, hsound.cancelled⟩ hkept.good
      hsound.woken e).recorded hin
    exact ⟨good_step hkept.good e, hrec.numbered, hrec.fresh⟩
  · intro t e hkept hsound
    exact (decided_step ⟨hkept.numbered, hkept.fresh, hsound.cancelled⟩ hkept.good
      hsound.woken e).sound.symm
  · exact ⟨good_loaded selected, rfl, by simp [opened, loaded]⟩
  · exact ⟨by simp [opened, loaded], by simp [opened, loaded]⟩

/-- A job that is enqueued while the listing is refreshed waits with no one to take it. -/
def stranding : List Event :=
  [.enqueue .upload ['x'] none, .settle .success, .enqueue .upload ['y'] none, .refreshed]

/-- All jobs are cancelled while the text of a failed download is read; another job is enqueued
and cancelled in its turn. -/
def outdating : List Event :=
  [.enqueue .download ['x'] none, .settle .failureText, .cancelAllJobs,
    .enqueue .upload ['y'] none, .errorTextRead]

theorem jobs_stranded_and_cancelled :
    ((stranding.foldl step (loaded ['a'])).processing = false ∧
        (stranding.foldl step (loaded ['a'])).jobs.map (fun j => (j.key, j.status)) =
          [(['x'], .done), (['y'], .queued)] ∧
        ¬ EveryState Session.step Sound (opened ['a']) stranding) ∧
      (outdating.foldl step (loaded ['a'])).jobs.map (fun j => (j.key, j.status)) =
        [(['x'], .error), (['y'], .cancelled)] ∧
      ¬ EveryState Session.step Sound (opened ['a']) outdating := by
  refine ⟨⟨by decide, by decide, fun h => ?_⟩, by decide, fun h => ?_⟩
  · have hlast : Sound (stranding.foldl Session.step (opened ['a'])) := h.2.2.2.2
    exact absurd (hlast.woken (by decide)) (by decide)
  · have hlast : Sound (outdating.foldl Session.step (opened ['a'])) := h.2.2.2.2.2
    have hafter : CancelledAfter (((([.enqueue .download ['x'] none] ++ [.settle .failureText]) ++
        [.cancelAllJobs]) ++ [.enqueue .upload ['y'] none]) ++ [.errorTextRead]) 2 :=
      hlast.cancelled ⟨2, .upload, ['y'], none, ['a'], .cancelled⟩ (by decide) rfl
    simp only [cancelledAfter_append, Cancels, reduceCtorEq, or_self, false_and, or_false,
      or_true, true_and] at hafter
    rcases hafter with hfirst | hsecond
    · exact absurd hfirst.le (by decide)
    · exact absurd hsecond (by decide)

end MyS3.TransferCancels
