import MyS3.TransferQueue

/-!
The buckets of the requests of the transfer queue. A job keeps the bucket that was selected
when it was enqueued, but its request is made from the one that is selected when it is taken.
-/

namespace MyS3.TransferBuckets

open Library.Strings Library.Tables Library.Runs
open TransferQueue TransferQueue.Queue

/-- Every request names the bucket of its job. -/
def NamesOwnBucket (q : Queue) : Prop := ∀ r ∈ q.requests, r.bucket = r.job.bucket

/-- The event lets `pump` look for the next job to take. -/
def TakesNext (q : Queue) (e : Event) : Prop :=
  q.cancelAll = false ∧ (∃ id status, Ends q e id status) ∨
    q.processing = false ∧ ∃ kind key format, e = .enqueue kind key format

/-- When a job that has waited is taken, its bucket is the selected one. -/
def InOwnBucket (q : Queue) (e : Event) : Prop :=
  TakesNext q e → ∀ next, q.jobs.find? TransferJob.isQueued = some next →
    next.bucket = q.selected

theorem requests_leaveLoop (q : Queue) : q.leaveLoop.requests = q.requests := by
  unfold leaveLoop finish
  split_ifs <;> rfl

/-- The loop sends one request at most, for the first waiting job. -/
theorem requests_goOn {q : Queue} (h : q.Ids) : q.goOn.requests = q.requests ++
    if q.cancelAll then []
    else ((q.jobs.find? TransferJob.isQueued).map fun next => ⟨next, q.selected⟩).toList := by
  rw [goOn_eq h]
  split_ifs
  · rw [requests_leaveLoop, List.append_nil]
    rfl
  · cases q.jobs.find? TransferJob.isQueued with
    | none =>
      simp only [Option.map_none, Option.toList_none, List.append_nil]
      exact requests_leaveLoop q
    | some next => rfl

/-- The job of the request that ends was not waiting, and will not be. -/
theorem find_ends {q : Queue} (h : q.Good) {e : Event} {id : Nat} {status : JobStatus}
    (hends : Ends q e id status) : (q.setStatus id status).jobs.find? TransferJob.isQueued =
      q.jobs.find? TransferJob.isQueued := by
  obtain ⟨⟨phase, hpump⟩, _, hqueued⟩ := hends.pump
  refine find_updateRows fun j hj hid => ?_
  obtain ⟨a, ha, haid, hactive⟩ := h.awaited id phase hpump
  have hja : j = a := h.ids.eq hj ha ((beq_iff_eq.mp hid).trans haid.symm)
  constructor
  · simp [TransferJob.isQueued, hja, hactive]
  · simp [TransferJob.isQueued, hqueued]

theorem namesOwnBucket_append {q q' : Queue} {l : List Request} (h : NamesOwnBucket q)
    (hl : q'.requests = q.requests ++ l) :
    NamesOwnBucket q' ↔ ∀ r ∈ l, r.bucket = r.job.bucket := by
  unfold NamesOwnBucket
  rw [hl]
  constructor
  · exact fun hall r hr => hall r (List.mem_append_right _ hr)
  · intro hall r hr
    rcases List.mem_append.mp hr with hr | hr
    · exact h r hr
    · exact hall r hr

/-- A job that is taken is taken right when its bucket is selected. -/
theorem right_taken_iff {job : Option TransferJob} {selected : Text} :
    (∀ r ∈ (job.map fun next => (⟨next, selected⟩ : Request)).toList, r.bucket = r.job.bucket) ↔
      ∀ next, job = some next → next.bucket = selected := by
  cases job with
  | none => simp
  | some next => simp [eq_comm]

theorem not_takesNext {q : Queue} {e : Event} (hends : ∀ id status, ¬ Ends q e id status)
    (henqueue : ∀ kind key format, q.processing = false → e ≠ .enqueue kind key format) :
    ¬ TakesNext q e := by
  intro h
  rcases h with ⟨_, id, status, h⟩ | ⟨hidle, kind, key, format, h⟩
  · exact hends id status h
  · exact henqueue kind key format hidle h

/-- An event that ends a request sends the next one from the selected bucket. -/
theorem namesOwnBucket_ends {q : Queue} (hgood : q.Good) (h : NamesOwnBucket q) {e : Event}
    {id : Nat} {status : JobStatus} (hends : Ends q e id status) :
    NamesOwnBucket (q.setStatus id status).goOn ↔ InOwnBucket q e := by
  have hreq := requests_goOn (hgood.atLoop_ends hends).ids
  rw [find_ends hgood hends] at hreq
  rw [namesOwnBucket_append h hreq]
  cases hcancel : q.cancelAll with
  | true =>
    have hsame : (q.setStatus id status).cancelAll = true := hcancel
    rw [hsame]
    refine iff_of_true (by simp) fun htakes => ?_
    rcases htakes with ⟨hnot, _⟩ | ⟨_, kind, key, format, he⟩
    · rw [hcancel] at hnot
      cases hnot
    · subst he
      cases hends
  | false =>
    have hsame : (q.setStatus id status).cancelAll = false := hcancel
    rw [hsame]
    simp only [Bool.false_eq_true, if_false]
    rw [right_taken_iff]
    exact ⟨fun hall _ => hall, fun hall => hall (Or.inl ⟨hcancel, id, status, hends⟩)⟩

/-- A job that is enqueued is taken at once, unless another one is still waiting. -/
theorem namesOwnBucket_begins {q : Queue} (hgood : q.Good) (h : NamesOwnBucket q)
    (hidle : q.processing = false) (kind : JobKind) (key : Text) (format : Option Text) :
    NamesOwnBucket (goOn { q.push kind key format with processing := true, cancelAll := false }) ↔
      InOwnBucket q (.enqueue kind key format) := by
  have hreq := requests_goOn (hgood.atLoop_begins hidle kind key format).ids
  rw [namesOwnBucket_append h hreq]
  simp only [Bool.false_eq_true, if_false]
  rw [right_taken_iff]
  have htakes : TakesNext q (.enqueue kind key format) :=
    Or.inr ⟨hidle, kind, key, format, rfl⟩
  have hfind : (q.push kind key format).jobs.find? TransferJob.isQueued =
      (q.jobs.find? TransferJob.isQueued).or (some
        { id := q.nextId, kind := kind, key := key, format := format, bucket := q.selected }) := by
    unfold push
    rw [List.find?_append]
    rfl
  rw [hfind]
  constructor
  · intro hall _ next hnext
    exact hall next (by rw [hnext]; rfl)
  · intro hown next hnext
    cases hold : q.jobs.find? TransferJob.isQueued with
    | none =>
      rw [hold] at hnext
      rw [← Option.some.inj hnext]
      rfl
    | some other =>
      rw [hold] at hnext
      rw [← Option.some.inj hnext]
      exact hown htakes other hold

/-- An event keeps the requests right exactly when it meets the condition. -/
theorem namesOwnBucket_step {q : Queue} (e : Event) (hgood : q.Good) (h : NamesOwnBucket q) :
    NamesOwnBucket (q.step e) ↔ InOwnBucket q e := by
  have hsame : ∀ q' : Queue, q'.requests = q.requests → ¬ TakesNext q e →
      (NamesOwnBucket q' ↔ InOwnBucket q e) := by
    intro q' hq' htakes
    refine iff_of_true ?_ fun h => absurd h htakes
    unfold NamesOwnBucket
    rwa [hq']
  have hmove := move_step hgood e
  generalize q.step e = q' at hmove
  cases hmove with
  | ends hends => exact namesOwnBucket_ends hgood h hends
  | begins kind key format hidle => exact namesOwnBucket_begins hgood h hidle kind key format
  | waits kind key format hbusy =>
    refine hsame _ rfl (not_takesNext (fun _ _ hends => by cases hends) fun _ _ _ hidle => ?_)
    rw [hbusy] at hidle
    cases hidle
  | cancels j hideTimer hj hqueued =>
    refine hsame _ rfl (not_takesNext (fun _ _ hends => ?_) (by simp))
    cases hends with
    | aborted hpump =>
      obtain ⟨a, ha, hid, hactive⟩ := hgood.awaited _ _ hpump
      rw [hgood.ids.eq ha hj hid, hqueued] at hactive
      cases hactive
  | stops id hpump =>
    have hreq := requests_goOn (hgood.atLoop_stops hpump).ids
    refine hsame _ ?_ (not_takesNext (fun _ _ hends => by cases hends) (by simp))
    rw [hreq]
    exact List.append_nil _
  | marks hpump => exact hsame _ rfl (not_takesNext (fun _ _ hends => by cases hends) (by simp))
  | reads id hpump htext =>
    refine hsame _ rfl (not_takesNext (fun _ _ hends => ?_) (by simp))
    cases hends with
    | refused hpump' hnot =>
      rw [hpump] at hpump'
      cases hpump'
      rw [htext] at hnot
      cases hnot
  | ended hpump =>
    refine hsame _ ?_ (not_takesNext (fun _ _ hends => by cases hends) (by simp))
    unfold finish
    split_ifs <;> rfl
  | clears _ hideTimer he hpending =>
    refine hsame _ rfl (not_takesNext (fun _ _ hends => ?_) ?_)
    · rcases he with rfl | rfl
      all_goals cases hends
    · rcases he with rfl | rfl
      all_goals simp
  | selects bucket => exact hsame _ rfl (not_takesNext (fun _ _ hends => by cases hends) (by simp))
  | stays _ hideTimer _ _ hends _ henqueue =>
    exact hsame _ rfl (not_takesNext hends fun kind key format _ => henqueue kind key format)

/-- In every state of a run all requests name the buckets of their jobs, exactly when every job
that has waited is taken while its bucket is selected. -/
theorem requests_name_own_bucket_iff (selected : Text) (events : List Event) :
    EveryState step NamesOwnBucket (loaded selected) events ↔
      AllSteps step InOwnBucket (loaded selected) events :=
  everyState_iff (fun _ e hgood _ _ => good_step hgood e)
    (fun _ e hgood hright => namesOwnBucket_step e hgood hright) (good_loaded selected)
    (by simp [NamesOwnBucket, loaded]) events

/-- Two uploads are enqueued for the bucket `a`; the second one is sent after the user has
selected the bucket `b`. -/
def switching : List Event :=
  [.enqueue .upload ['x'] none, .enqueue .upload ['y'] none, .selectBucket ['b'],
    .settle .success]

theorem waiting_upload_changes_bucket :
    (switching.foldl step (loaded ['a'])).requests.map
        (fun r => (r.job.key, r.job.bucket, r.bucket)) =
        [(['x'], ['a'], ['a']), (['y'], ['a'], ['b'])] ∧
      ¬ EveryState step NamesOwnBucket (loaded ['a']) switching := by
  refine ⟨by decide, fun h => ?_⟩
  have hlast : NamesOwnBucket (switching.foldl step (loaded ['a'])) := h.2.2.2.2
  exact absurd (hlast ⟨⟨2, .upload, ['y'], none, ['a'], .queued⟩, ['b']⟩ (by decide)) (by decide)

end MyS3.TransferBuckets
