import MyS3.Library.Runs
import MyS3.Library.Strings
import MyS3.Library.Tables

/-!
The transfer queue of the web UI, `static/transfer.js`. Jobs wait in a list, and `pump` takes
them one after another. It is suspended while a request is under way, and at its end while the
listing is refreshed. An event runs to its end together with what it resumes, before the next
one. What is rendered, the progress of a request and the history of the finished jobs are left
out, and so are the errors that these could throw.
-/

namespace MyS3.TransferQueue

open Library.Strings Library.Tables

inductive JobKind
  | upload
  | download
  | folderDownload
  deriving DecidableEq

inductive JobStatus
  | queued
  | active
  | done
  | error
  | cancelled
  deriving DecidableEq

structure TransferJob where
  id : Nat
  kind : JobKind
  key : Text
  format : Option Text
  bucket : Text
  status : JobStatus := .queued
  deriving DecidableEq

/-- The request of a job, with the bucket that its URL names. -/
structure Request where
  job : TransferJob
  bucket : Text
  deriving DecidableEq

inductive Phase
  | inFlight
  /-- The text of a failed download is read before its job has failed. -/
  | readingError
  deriving DecidableEq

/-- Where `pump` is suspended. -/
inductive Pump
  | idle
  | request (id : Nat) (phase : Phase)
  | refresh
  deriving DecidableEq

structure Queue where
  jobs : List TransferJob
  nextId : Nat
  processing : Bool
  cancelAll : Bool
  hideTimer : Bool
  pump : Pump
  /-- The bucket that the user has selected. -/
  selected : Text
  requests : List Request
  deriving DecidableEq

inductive Outcome
  | success
  | failure
  /-- A status that is no success, with a text. -/
  | failureText
  deriving DecidableEq

inductive Event
  | selectBucket (bucket : Text)
  | enqueue (kind : JobKind) (key : Text) (format : Option Text)
  | cancelJob (id : Nat)
  | cancelAllJobs
  | settle (outcome : Outcome)
  | errorTextRead
  | refreshed
  | hideTimerFires
  | dismiss
  deriving DecidableEq

def TransferJob.isQueued (j : TransferJob) : Bool := j.status == .queued

def TransferJob.isPending (j : TransferJob) : Bool := j.status == .queued || j.status == .active

namespace Queue

/-- The jobs that are meant get a status. -/
def mark (q : Queue) (p : TransferJob → Bool) (status : JobStatus) : Queue :=
  { q with jobs := updateRows p (fun j => { j with status := status }) q.jobs }

def setStatus (q : Queue) (id : Nat) (status : JobStatus) : Queue := q.mark (·.id == id) status

def pendingJobs (q : Queue) : List TransferJob := q.jobs.filter TransferJob.isPending

def scheduleHide (q : Queue) : Queue := { q with hideTimer := true }

/-- The end of `pump`. -/
def finish (q : Queue) : Queue :=
  let q := if q.pendingJobs = [] then q.scheduleHide else q
  { q with processing := false, pump := .idle }

/-- `pump` behind its loop. -/
def leaveLoop (q : Queue) : Queue :=
  if q.jobs.any fun j => j.kind == .upload && j.status == .done then { q with pump := .refresh }
  else q.finish

/-- `runUpload` and `runDownload` until they wait: the URL is made from the selected bucket. -/
def start (q : Queue) (next : TransferJob) : Queue :=
  { q.setStatus next.id .active with
    pump := .request next.id .inFlight
    requests := q.requests ++ [⟨next, q.selected⟩] }

/-- The loop of `pump`, which ends within as many rounds as there are jobs. -/
def loop : Nat → Queue → Queue
  | 0, q => q.leaveLoop
  | rounds + 1, q =>
    match q.jobs.find? TransferJob.isQueued with
    | none => q.leaveLoop
    | some next =>
      if q.cancelAll then loop rounds (q.setStatus next.id .cancelled) else q.start next

def goOn (q : Queue) : Queue := loop (q.jobs.length + 1) q

/-- A call of `pump`. -/
def runPump (q : Queue) : Queue :=
  if q.processing then q else goOn { q with processing := true, cancelAll := false }

/-- The queue with a new job for the selected bucket. -/
def push (q : Queue) (kind : JobKind) (key : Text) (format : Option Text) : Queue :=
  let job : TransferJob :=
    { id := q.nextId, kind := kind, key := key, format := format, bucket := q.selected }
  { q with jobs := q.jobs ++ [job], nextId := q.nextId + 1, hideTimer := false }

def enqueue (q : Queue) (kind : JobKind) (key : Text) (format : Option Text) : Queue :=
  (q.push kind key format).runPump

/-- `cancelJob`; the abort of a request that is over does nothing. -/
def cancelJob (q : Queue) (id : Nat) : Queue :=
  match q.jobs.find? (·.id == id) with
  | none => q
  | some job =>
    match job.status with
    | .active => if q.pump = .request id .inFlight then (q.setStatus id .cancelled).goOn else q
    | .queued =>
      let q := q.setStatus id .cancelled
      if q.pendingJobs = [] then q.scheduleHide else q
    | _ => q

/-- The request of the job can be aborted. -/
def aborts (q : Queue) (j : TransferJob) : Bool :=
  j.status == .active && q.pump == .request j.id .inFlight

def cancelAllJobs (q : Queue) : Queue :=
  let cancelled := { q.mark (fun j => j.isQueued || q.aborts j) .cancelled with cancelAll := true }
  if q.jobs.any q.aborts then cancelled.goOn else cancelled

/-- The request of an upload fails at once; that of a download reads the text first. -/
def readsText (q : Queue) (id : Nat) : Bool := q.jobs.any fun j => j.id == id && j.kind != .upload

def settle (q : Queue) (outcome : Outcome) : Queue :=
  match q.pump with
  | .request id .inFlight =>
    match outcome with
    | .success => (q.setStatus id .done).goOn
    | .failure => (q.setStatus id .error).goOn
    | .failureText =>
      if q.readsText id then { q with pump := .request id .readingError }
      else (q.setStatus id .error).goOn
  | _ => q

def errorTextRead (q : Queue) : Queue :=
  match q.pump with
  | .request id .readingError => (q.setStatus id .error).goOn
  | _ => q

def refreshed (q : Queue) : Queue := if q.pump = .refresh then q.finish else q

def hideTimerFires (q : Queue) : Queue :=
  if !q.hideTimer then q
  else if q.pendingJobs = [] ∧ (q.jobs.any fun j => j.status == .error) = false then
    { q with hideTimer := false, jobs := [] }
  else { q with hideTimer := false }

/-- The button is hidden while jobs are pending. -/
def dismiss (q : Queue) : Queue := if q.pendingJobs = [] then { q with jobs := [] } else q

def step (q : Queue) : Event → Queue
  | .selectBucket bucket => { q with selected := bucket }
  | .enqueue kind key format => q.enqueue kind key format
  | .cancelJob id => q.cancelJob id
  | .cancelAllJobs => q.cancelAllJobs
  | .settle outcome => q.settle outcome
  | .errorTextRead => q.errorTextRead
  | .refreshed => q.refreshed
  | .hideTimerFires => q.hideTimerFires
  | .dismiss => q.dismiss

/-- The queue when the page is loaded. -/
def loaded (selected : Text) : Queue where
  jobs := []
  nextId := 1
  processing := false
  cancelAll := false
  hideTimer := false
  pump := .idle
  selected := selected
  requests := []

/-- The ids of the jobs are those that were given, once each. -/
structure Ids (q : Queue) : Prop where
  unique : q.jobs.Pairwise fun a b => a.id ≠ b.id
  below : ∀ j ∈ q.jobs, j.id < q.nextId

section marks

variable {q : Queue} {p : TransferJob → Bool} {status : JobStatus}

theorem mem_mark {j' : TransferJob} : j' ∈ (q.mark p status).jobs ↔
    (j' ∈ q.jobs ∧ p j' = false) ∨ ∃ j ∈ q.jobs, p j = true ∧ { j with status := status } = j' :=
  mem_updateRows

theorem Ids.mark (h : q.Ids) (p : TransferJob → Bool) (status : JobStatus) :
    (q.mark p status).Ids := by
  have hkeep : ∀ j : TransferJob, ({ j with status := status } : TransferJob).id = j.id :=
    fun _ => rfl
  have hids : (q.mark p status).jobs.map (·.id) = q.jobs.map (·.id) :=
    map_updateRows (·.id) hkeep q.jobs
  refine ⟨pairwise_ne_of_map_eq h.unique hids, fun j hj => ?_⟩
  have hmem : j.id ∈ q.jobs.map (·.id) := by
    rw [← hids]
    exact List.mem_map_of_mem hj
  obtain ⟨j', hj', heq⟩ := List.mem_map.mp hmem
  rw [← heq]
  exact h.below j' hj'

theorem Ids.eq (h : q.Ids) {a b : TransferJob} (ha : a ∈ q.jobs) (hb : b ∈ q.jobs)
    (hid : a.id = b.id) : a = b := eq_of_pairwise_ne h.unique ha hb hid

end marks

/-- A job that is no longer waiting leaves fewer that are. -/
theorem length_queued_setStatus {q : Queue} {next : TransferJob} (hnext : next ∈ q.jobs)
    (hqueued : next.isQueued = true) :
    ((q.setStatus next.id .cancelled).jobs.filter TransferJob.isQueued).length <
      (q.jobs.filter TransferJob.isQueued).length := by
  have hfilter : ((q.setStatus next.id .cancelled).jobs.filter TransferJob.isQueued).length =
      ((q.jobs.filter TransferJob.isQueued).filter (·.id != next.id)).length := by
    unfold setStatus mark updateRows
    rw [List.filter_map, List.length_map, List.filter_filter]
    congr 1
    refine List.filter_congr fun j _ => ?_
    simp only [Function.comp_apply]
    cases hid : j.id == next.id with
    | true => simp [TransferJob.isQueued, bne, hid]
    | false => simp [bne, hid]
  rw [hfilter]
  refine List.length_filter_lt_length_iff_exists.mpr ⟨next, ?_, by simp⟩
  exact List.mem_filter.mpr ⟨hnext, hqueued⟩

/-- What the loop comes to: it takes the first waiting job, or cancels all of them. -/
theorem loop_eq {q : Queue} (h : q.Ids) {rounds : Nat}
    (hrounds : (q.jobs.filter TransferJob.isQueued).length < rounds) :
    loop rounds q =
      if q.cancelAll then (q.mark TransferJob.isQueued .cancelled).leaveLoop
      else
        match q.jobs.find? TransferJob.isQueued with
        | none => q.leaveLoop
        | some next => q.start next := by
  induction rounds generalizing q with
  | zero => omega
  | succ rounds ih =>
    unfold loop
    cases hfind : q.jobs.find? TransferJob.isQueued with
    | none =>
      have hnone : q.mark TransferJob.isQueued .cancelled = q := by
        unfold mark
        rw [updateRows_of_none fun j hj => by simpa using List.find?_eq_none.mp hfind j hj]
      simp [hnone]
    | some next =>
      have hnext := List.mem_of_find?_eq_some hfind
      have hqueued : next.isQueued = true := List.find?_some hfind
      cases hcancel : q.cancelAll with
      | false => simp
      | true =>
        have hmark : (q.setStatus next.id .cancelled).mark TransferJob.isQueued .cancelled =
            q.mark TransferJob.isQueued .cancelled := by
          unfold setStatus mark updateRows
          simp only [List.map_map]
          congr 1
          refine List.map_congr_left fun j hj => ?_
          simp only [Function.comp_apply]
          by_cases hid : j.id = next.id
          · have hstatus : next.status = .queued := beq_iff_eq.mp hqueued
            rw [h.eq hj hnext hid]
            simp [TransferJob.isQueued, hstatus]
          · simp [hid]
        have hless := length_queued_setStatus hnext hqueued
        have hsame : (q.setStatus next.id .cancelled).cancelAll = true := hcancel
        have hids : (q.setStatus next.id .cancelled).Ids := h.mark _ _
        simp only [if_true]
        rw [ih hids (by omega), if_pos hsame, hmark]

theorem goOn_eq {q : Queue} (h : q.Ids) : q.goOn =
    if q.cancelAll then (q.mark TransferJob.isQueued .cancelled).leaveLoop
    else
      match q.jobs.find? TransferJob.isQueued with
      | none => q.leaveLoop
      | some next => q.start next :=
  loop_eq h (Nat.lt_succ_of_le (List.length_filter_le _ _))

/-- What holds between two events. -/
structure Good (q : Queue) : Prop where
  ids : q.Ids
  processing : q.processing = true ↔ q.pump ≠ .idle
  awaited : ∀ id phase, q.pump = .request id phase → ∃ j ∈ q.jobs, j.id = id ∧ j.status = .active
  active : ∀ j ∈ q.jobs, j.status = .active → ∃ phase, q.pump = .request j.id phase
  /-- A request that can be aborted is aborted when all jobs are cancelled. -/
  inFlight : ∀ id, q.pump = .request id .inFlight → q.cancelAll = false

/-- The request that `pump` waits for ends, and its job gets a status. -/
inductive Ends (q : Queue) : Event → Nat → JobStatus → Prop
  | aborted {id : Nat} (hpump : q.pump = .request id .inFlight) :
      Ends q (.cancelJob id) id .cancelled
  | succeeded {id : Nat} (hpump : q.pump = .request id .inFlight) :
      Ends q (.settle .success) id .done
  | failed {id : Nat} (hpump : q.pump = .request id .inFlight) : Ends q (.settle .failure) id .error
  | refused {id : Nat} (hpump : q.pump = .request id .inFlight) (htext : q.readsText id = false) :
      Ends q (.settle .failureText) id .error
  | read {id : Nat} (hpump : q.pump = .request id .readingError) : Ends q .errorTextRead id .error

/-- What an event does to the queue. -/
inductive Move (q : Queue) : Event → Queue → Prop
  | ends {e : Event} {id : Nat} {status : JobStatus} (h : Ends q e id status) :
      Move q e (q.setStatus id status).goOn
  | begins (kind : JobKind) (key : Text) (format : Option Text) (hidle : q.processing = false) :
      Move q (.enqueue kind key format)
        (goOn { q.push kind key format with processing := true, cancelAll := false })
  | waits (kind : JobKind) (key : Text) (format : Option Text) (hbusy : q.processing = true) :
      Move q (.enqueue kind key format) (q.push kind key format)
  | cancels (j : TransferJob) (hideTimer : Bool) (hj : j ∈ q.jobs) (hqueued : j.status = .queued) :
      Move q (.cancelJob j.id) { q.setStatus j.id .cancelled with hideTimer := hideTimer }
  | stops (id : Nat) (hpump : q.pump = .request id .inFlight) :
      Move q .cancelAllJobs (goOn
        { q.mark (fun j => j.isQueued || q.aborts j) .cancelled with cancelAll := true })
  | marks (hpump : ∀ id, q.pump ≠ .request id .inFlight) :
      Move q .cancelAllJobs
        { q.mark (fun j => j.isQueued || q.aborts j) .cancelled with cancelAll := true }
  | reads (id : Nat) (hpump : q.pump = .request id .inFlight) (htext : q.readsText id = true) :
      Move q (.settle .failureText) { q with pump := .request id .readingError }
  | ended (hpump : q.pump = .refresh) : Move q .refreshed q.finish
  | clears (e : Event) (hideTimer : Bool) (he : e = .hideTimerFires ∨ e = .dismiss)
      (hpending : q.pendingJobs = []) : Move q e { q with hideTimer := hideTimer, jobs := [] }
  | selects (bucket : Text) : Move q (.selectBucket bucket) { q with selected := bucket }
  | stays (e : Event) (hideTimer : Bool) (hall : e ≠ .cancelAllJobs)
      (hjob : ∀ j ∈ q.jobs, e = .cancelJob j.id → j.status ≠ .queued)
      (hends : ∀ id status, ¬ Ends q e id status)
      (hrefresh : q.pump = .refresh → e ≠ .refreshed)
      (henqueue : ∀ kind key format, e ≠ .enqueue kind key format) :
      Move q e { q with hideTimer := hideTimer }

theorem move_cancelJob {q : Queue} (h : q.Good) (id : Nat) :
    Move q (.cancelJob id) (q.cancelJob id) := by
  have hstays : (∀ j ∈ q.jobs, j.id = id → j.status ≠ .queued) →
      q.pump ≠ .request id .inFlight → Move q (.cancelJob id) q := by
    intro hnot hpump
    refine .stays _ q.hideTimer (by simp) (fun j hj he => ?_) (fun _ _ hends => ?_) (by simp)
      (by simp)
    · exact hnot j hj (Event.cancelJob.inj he).symm
    · cases hends with
      | aborted hends => exact hpump hends
  unfold cancelJob
  cases hfind : q.jobs.find? (·.id == id) with
  | none =>
    have hnone : ∀ j ∈ q.jobs, j.id ≠ id := by simpa using List.find?_eq_none.mp hfind
    refine hstays (fun j hj hid => absurd hid (hnone j hj)) fun hpump => ?_
    obtain ⟨j, hj, hid, _⟩ := h.awaited id _ hpump
    exact hnone j hj hid
  | some job =>
    have hmem := List.mem_of_find?_eq_some hfind
    have hid : job.id = id := by simpa using List.find?_some hfind
    have honly : ∀ j ∈ q.jobs, j.id = id → j.status = job.status := by
      intro j hj hjid
      rw [h.ids.eq hj hmem (hjid.trans hid.symm)]
    have hover : job.status ≠ .queued → job.status ≠ .active → Move q (.cancelJob id) q := by
      intro hqueued hactive
      refine hstays (fun j hj hjid => honly j hj hjid ▸ hqueued) fun hpump => ?_
      obtain ⟨j, hj, hjid, hj'⟩ := h.awaited id _ hpump
      exact hactive (honly j hj hjid ▸ hj')
    subst hid
    simp only
    cases hstatus : job.status with
    | queued =>
      simp only
      split_ifs
      · exact .cancels job true hmem hstatus
      · exact .cancels job q.hideTimer hmem hstatus
    | active =>
      simp only
      split_ifs with hpump
      · exact .ends (.aborted hpump)
      · exact hstays (fun j hj hjid => by simp [honly j hj hjid, hstatus]) hpump
    | done => exact hover (by simp [hstatus]) (by simp [hstatus])
    | error => exact hover (by simp [hstatus]) (by simp [hstatus])
    | cancelled => exact hover (by simp [hstatus]) (by simp [hstatus])

theorem any_aborts_iff {q : Queue} (h : q.Good) :
    q.jobs.any q.aborts = true ↔ ∃ id, q.pump = .request id .inFlight := by
  simp only [List.any_eq_true, aborts, Bool.and_eq_true, beq_iff_eq]
  constructor
  · intro hany
    obtain ⟨j, _, _, hpump⟩ := hany
    exact ⟨j.id, hpump⟩
  · intro hflight
    obtain ⟨id, hpump⟩ := hflight
    obtain ⟨j, hj, rfl, hactive⟩ := h.awaited id _ hpump
    exact ⟨j, hj, hactive, hpump⟩

/-- Where `pump` waits for no request, nothing but the timer changes. -/
theorem move_stays {q : Queue} {e : Event} (hideTimer : Bool)
    (he : e = .errorTextRead ∨ e = .refreshed ∨ (∃ outcome, e = .settle outcome) ∨
      e = .hideTimerFires ∨ e = .dismiss)
    (hends : ∀ id status, ¬ Ends q e id status) (hrefresh : q.pump = .refresh → e ≠ .refreshed) :
    Move q e { q with hideTimer := hideTimer } := by
  rcases he with rfl | rfl | ⟨outcome, rfl⟩ | rfl | rfl
  all_goals exact .stays _ hideTimer (by simp) (by simp) hends hrefresh (by simp)

theorem move_settle (q : Queue) (outcome : Outcome) :
    Move q (.settle outcome) (q.settle outcome) := by
  have hother : (∀ id, q.pump ≠ .request id .inFlight) → Move q (.settle outcome) q := by
    intro hpump
    refine move_stays q.hideTimer (by simp) (fun id status hends => ?_) (by simp)
    cases hends with
    | succeeded hends => exact hpump id hends
    | failed hends => exact hpump id hends
    | refused hends => exact hpump id hends
  unfold settle
  cases hpump : q.pump with
  | idle => exact hother (by simp [hpump])
  | refresh => exact hother (by simp [hpump])
  | request id phase =>
    cases phase with
    | readingError => exact hother (by simp [hpump])
    | inFlight =>
      cases outcome with
      | success => exact .ends (.succeeded hpump)
      | failure => exact .ends (.failed hpump)
      | failureText =>
        simp only
        split_ifs with htext
        · exact .reads id hpump htext
        · exact .ends (.refused hpump (by simpa using htext))

theorem move_errorTextRead (q : Queue) : Move q .errorTextRead q.errorTextRead := by
  have hother : (∀ id, q.pump ≠ .request id .readingError) → Move q .errorTextRead q := by
    intro hpump
    refine move_stays q.hideTimer (by simp) (fun id status hends => ?_) (by simp)
    cases hends with
    | read hends => exact hpump id hends
  unfold errorTextRead
  cases hpump : q.pump with
  | idle => exact hother (by simp [hpump])
  | refresh => exact hother (by simp [hpump])
  | request id phase =>
    cases phase with
    | inFlight => exact hother (by simp [hpump])
    | readingError => exact .ends (.read hpump)

theorem move_step {q : Queue} (h : q.Good) (e : Event) : Move q e (q.step e) := by
  have hnot : ∀ e : Event, e = .refreshed ∨ e = .hideTimerFires ∨ e = .dismiss →
      ∀ id status, ¬ Ends q e id status := by
    intro e he id status hends
    rcases he with rfl | rfl | rfl
    all_goals cases hends
  cases e with
  | selectBucket bucket => exact .selects bucket
  | enqueue kind key format =>
    unfold step enqueue runPump
    simp only
    split_ifs with hprocessing
    · exact .waits kind key format hprocessing
    · exact .begins kind key format (by simpa [push] using hprocessing)
  | cancelJob id => exact move_cancelJob h id
  | cancelAllJobs =>
    unfold step cancelAllJobs
    simp only
    split_ifs with hany
    · obtain ⟨id, hpump⟩ := (any_aborts_iff h).mp hany
      exact .stops id hpump
    · exact .marks fun id hpump => hany ((any_aborts_iff h).mpr ⟨id, hpump⟩)
  | settle outcome => exact move_settle q outcome
  | errorTextRead => exact move_errorTextRead q
  | refreshed =>
    unfold step refreshed
    simp only
    split_ifs with hpump
    · exact .ended hpump
    · exact move_stays q.hideTimer (by simp) (hnot _ (by simp)) fun h => absurd h hpump
  | hideTimerFires =>
    unfold step hideTimerFires
    simp only
    split_ifs with htimer hpending
    · exact move_stays q.hideTimer (by simp) (hnot _ (by simp)) (by simp)
    · exact .clears _ false (Or.inl rfl) hpending.1
    · exact move_stays false (by simp) (hnot _ (by simp)) (by simp)
  | dismiss =>
    unfold step dismiss
    simp only
    split_ifs with hpending
    · exact .clears _ q.hideTimer (Or.inr rfl) hpending
    · exact move_stays q.hideTimer (by simp) (hnot _ (by simp)) (by simp)

/-- The head of the loop: no job has a request. -/
structure AtLoop (q : Queue) : Prop where
  ids : q.Ids
  rests : ∀ j ∈ q.jobs, j.status ≠ .active
  processing : q.processing = true

theorem AtLoop.mark {q : Queue} (h : q.AtLoop) (p : TransferJob → Bool) {status : JobStatus}
    (hstatus : status ≠ .active) : (q.mark p status).AtLoop := by
  refine ⟨h.ids.mark p status, fun j hj => ?_, h.processing⟩
  rcases mem_mark.mp hj with ⟨hj, _⟩ | ⟨_, _, _, rfl⟩
  · exact h.rests j hj
  · exact hstatus

theorem good_finish {q : Queue} (hids : q.Ids) (hrests : ∀ j ∈ q.jobs, j.status ≠ .active) :
    q.finish.Good := by
  unfold finish
  split_ifs
  all_goals
    exact ⟨⟨hids.unique, hids.below⟩, by simp, by simp, fun j hj hactive =>
      absurd hactive (hrests j hj), by simp⟩

theorem AtLoop.good_leaveLoop {q : Queue} (h : q.AtLoop) : q.leaveLoop.Good := by
  unfold leaveLoop
  split_ifs
  · refine ⟨⟨h.ids.unique, h.ids.below⟩, ?_, by simp, fun j hj hactive =>
      absurd hactive (h.rests j hj), by simp⟩
    simp [h.processing]
  · exact good_finish h.ids h.rests

theorem AtLoop.good_start {q : Queue} (h : q.AtLoop) (hcancel : q.cancelAll = false)
    {next : TransferJob} (hnext : next ∈ q.jobs) : (q.start next).Good := by
  have hids : (q.setStatus next.id .active).Ids := h.ids.mark _ _
  refine ⟨⟨hids.unique, hids.below⟩, ?_, ?_, ?_, fun _ _ => hcancel⟩
  · simp [start, setStatus, Queue.mark, h.processing]
  · intro id phase hpump
    cases hpump
    exact ⟨{ next with status := .active },
      mem_mark.mpr (Or.inr ⟨next, hnext, by simp, rfl⟩), rfl, rfl⟩
  · intro j hj hactive
    rcases mem_mark.mp hj with ⟨hj, _⟩ | ⟨j', hj', hid, rfl⟩
    · exact absurd hactive (h.rests j hj)
    · exact ⟨.inFlight, by simp [start, beq_iff_eq.mp hid]⟩

theorem AtLoop.good_goOn {q : Queue} (h : q.AtLoop) : q.goOn.Good := by
  rw [goOn_eq h.ids]
  split_ifs with hcancel
  · exact (h.mark _ (by simp)).good_leaveLoop
  · cases hfind : q.jobs.find? TransferJob.isQueued with
    | none => exact h.good_leaveLoop
    | some next =>
      exact h.good_start (by simpa using hcancel) (List.mem_of_find?_eq_some hfind)

theorem ids_push {q : Queue} (h : q.Ids) (kind : JobKind) (key : Text) (format : Option Text) :
    (q.push kind key format).Ids := by
  refine ⟨pairwise_append_row h.unique fun j hj => (h.below j hj).ne, fun j hj => ?_⟩
  rcases List.mem_append.mp hj with hj | hj
  · exact Nat.lt_succ_of_lt (h.below j hj)
  · rw [List.mem_singleton.mp hj]
    exact Nat.lt_succ_self q.nextId

theorem status_push {q : Queue} {kind : JobKind} {key : Text} {format : Option Text}
    {j : TransferJob} (hj : j ∈ (q.push kind key format).jobs) :
    j ∈ q.jobs ∨ j.id = q.nextId ∧ j.status = .queued ∧ j.bucket = q.selected := by
  rcases List.mem_append.mp hj with hj | hj
  · exact Or.inl hj
  · rw [List.mem_singleton.mp hj]
    exact Or.inr ⟨rfl, rfl, rfl⟩

theorem Good.processing_of_request {q : Queue} (h : q.Good) {id : Nat} {phase : Phase}
    (hpump : q.pump = .request id phase) : q.processing = true :=
  h.processing.mpr (by simp [hpump])

theorem Ends.pump {q : Queue} {e : Event} {id : Nat} {status : JobStatus}
    (h : Ends q e id status) : (∃ phase, q.pump = .request id phase) ∧
      status ≠ .active ∧ status ≠ .queued := by
  cases h with
  | aborted hpump => exact ⟨⟨_, hpump⟩, by simp, by simp⟩
  | succeeded hpump => exact ⟨⟨_, hpump⟩, by simp, by simp⟩
  | failed hpump => exact ⟨⟨_, hpump⟩, by simp, by simp⟩
  | refused hpump _ => exact ⟨⟨_, hpump⟩, by simp, by simp⟩
  | read hpump => exact ⟨⟨_, hpump⟩, by simp, by simp⟩

/-- A request that ends brings `pump` back to the head of its loop. -/
theorem Good.atLoop_ends {q : Queue} (h : q.Good) {e : Event} {id : Nat} {status : JobStatus}
    (hends : Ends q e id status) : (q.setStatus id status).AtLoop := by
  obtain ⟨⟨phase, hpump⟩, hstatus, _⟩ := hends.pump
  refine ⟨h.ids.mark _ _, fun j hj hactive => ?_, h.processing_of_request hpump⟩
  rcases mem_mark.mp hj with ⟨hj, hid⟩ | ⟨_, _, _, rfl⟩
  · obtain ⟨_, hother⟩ := h.active j hj hactive
    rw [hpump] at hother
    cases hother
    simp at hid
  · exact hstatus hactive

theorem Good.rests_of_idle {q : Queue} (h : q.Good) (hidle : q.processing = false) :
    ∀ j ∈ q.jobs, j.status ≠ .active := by
  intro j hj hactive
  obtain ⟨phase, hpump⟩ := h.active j hj hactive
  rw [h.processing_of_request hpump] at hidle
  cases hidle

theorem Good.atLoop_begins {q : Queue} (h : q.Good) (hidle : q.processing = false)
    (kind : JobKind) (key : Text) (format : Option Text) :
    AtLoop { q.push kind key format with processing := true, cancelAll := false } := by
  have hids := ids_push h.ids kind key format
  refine ⟨⟨hids.unique, hids.below⟩, fun j hj => ?_, rfl⟩
  rcases status_push hj with hj | ⟨_, hqueued, _⟩
  · exact h.rests_of_idle hidle j hj
  · simp [hqueued]

/-- With all jobs cancelled, those are left that had ended, and a download that failed. -/
theorem Good.atLoop_stops {q : Queue} (h : q.Good) {id : Nat}
    (hpump : q.pump = .request id .inFlight) :
    AtLoop { q.mark (fun j => j.isQueued || q.aborts j) .cancelled with cancelAll := true } := by
  have hids := h.ids.mark (fun j => j.isQueued || q.aborts j) .cancelled
  refine ⟨⟨hids.unique, hids.below⟩, fun j hj hactive => ?_, h.processing_of_request hpump⟩
  rcases mem_mark.mp hj with ⟨hj, hnot⟩ | ⟨_, _, _, rfl⟩
  · obtain ⟨phase, hother⟩ := h.active j hj hactive
    rw [hpump] at hother
    cases hother
    simp [aborts, hactive, hpump] at hnot
  · cases hactive

theorem good_step {q : Queue} (h : q.Good) (e : Event) : (q.step e).Good := by
  have hmove := move_step h e
  generalize q.step e = q' at hmove
  cases hmove with
  | ends hends => exact (h.atLoop_ends hends).good_goOn
  | begins kind key format hidle => exact (h.atLoop_begins hidle kind key format).good_goOn
  | waits kind key format hbusy =>
    refine ⟨ids_push h.ids kind key format, h.processing, ?_, ?_, h.inFlight⟩
    · intro id phase hpump
      obtain ⟨j, hj, hactive⟩ := h.awaited id phase hpump
      exact ⟨j, List.mem_append_left _ hj, hactive⟩
    · intro j hj hactive
      rcases status_push hj with hj | ⟨_, hqueued, _⟩
      · exact h.active j hj hactive
      · rw [hqueued] at hactive
        cases hactive
  | cancels j hideTimer hj hqueued =>
    have hids : (q.setStatus j.id .cancelled).Ids := h.ids.mark _ _
    refine ⟨⟨hids.unique, hids.below⟩, h.processing, ?_, ?_, h.inFlight⟩
    · intro id phase hpump
      obtain ⟨a, ha, rfl, hactive⟩ := h.awaited id phase hpump
      refine ⟨a, mem_mark.mpr (Or.inl ⟨ha, ?_⟩), rfl, hactive⟩
      rw [beq_eq_false_iff_ne]
      intro hid
      rw [h.ids.eq ha hj hid, hqueued] at hactive
      cases hactive
    · intro a ha hactive
      rcases mem_mark.mp ha with ⟨ha, _⟩ | ⟨_, _, _, rfl⟩
      · exact h.active a ha hactive
      · cases hactive
  | stops id hpump => exact (h.atLoop_stops hpump).good_goOn
  | marks hpump =>
    have hids := h.ids.mark (fun j => j.isQueued || q.aborts j) .cancelled
    refine ⟨⟨hids.unique, hids.below⟩, h.processing, ?_, ?_, fun id hid => absurd hid (hpump id)⟩
    · intro id phase hid
      obtain ⟨a, ha, rfl, hactive⟩ := h.awaited id phase hid
      refine ⟨a, mem_mark.mpr (Or.inl ⟨ha, ?_⟩), rfl, hactive⟩
      simp [TransferJob.isQueued, aborts, hactive, hpump]
    · intro a ha hactive
      rcases mem_mark.mp ha with ⟨ha, _⟩ | ⟨_, _, _, rfl⟩
      · exact h.active a ha hactive
      · cases hactive
  | reads id hpump =>
    refine ⟨⟨h.ids.unique, h.ids.below⟩, ?_, ?_, ?_, by simp⟩
    · simp [h.processing_of_request hpump]
    · intro id' phase heq
      cases heq
      exact h.awaited id _ hpump
    · intro j hj hactive
      obtain ⟨phase, hother⟩ := h.active j hj hactive
      rw [hpump] at hother
      cases hother
      exact ⟨.readingError, rfl⟩
  | ended hpump =>
    refine good_finish h.ids fun j hj hactive => ?_
    obtain ⟨phase, hother⟩ := h.active j hj hactive
    rw [hpump] at hother
    cases hother
  | clears _ hideTimer he hpending =>
    refine ⟨⟨List.Pairwise.nil, by simp⟩, h.processing, ?_, by simp, h.inFlight⟩
    intro id phase hpump
    obtain ⟨j, hj, rfl, hactive⟩ := h.awaited id phase hpump
    have hmem : j ∈ q.pendingJobs :=
      List.mem_filter.mpr ⟨hj, by simp [TransferJob.isPending, hactive]⟩
    rw [hpending] at hmem
    cases hmem
  | selects bucket =>
    exact ⟨⟨h.ids.unique, h.ids.below⟩, h.processing, h.awaited, h.active, h.inFlight⟩
  | stays _ hideTimer =>
    exact ⟨⟨h.ids.unique, h.ids.below⟩, h.processing, h.awaited, h.active, h.inFlight⟩

theorem good_loaded (selected : Text) : (loaded selected).Good where
  ids := ⟨List.Pairwise.nil, by simp [loaded]⟩
  processing := by simp [loaded]
  awaited := by simp [loaded]
  active := by simp [loaded]
  inFlight := by simp [loaded]

end Queue

end MyS3.TransferQueue
