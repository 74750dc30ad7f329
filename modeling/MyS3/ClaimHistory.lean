import MyS3.DeliveryOrder

/-!
The outbox over a whole run, with the history of its calls. Any job may be claimed,
completed or failed at any time, and other tables may change in between. The history says
which jobs are held, that is claimed and not failed since, and when each failure was. A
claim returns no job that is held or completed, and none before the wait of its last
failure is over.
-/

namespace MyS3.ClaimHistory

open Library.Strings Library.Tables Library.Runs Library.Timestamps
open Models Objects Database Engine Repository Outbox

inductive Event
  | claimed (ids : List Int)
  | failed (id : Int) (now : Instant)
  | completed (id : Int)

/-- The database, the last instant that the clock showed, and the latest events first. -/
structure State where
  db : Db
  clock : Instant
  log : List Event

inductive Call
  /-- An upload or a purge enqueues one job for each peer. -/
  | enqueueForActivePeers (objectId : Int) (filepathUuid etag : Text)
      (operation : OutboxOperation) (excludePeerId : Text)
  /-- Anti-entropy enqueues one PUT. -/
  | enqueuePutForPeer (peerId : Text) (objectId : Int) (filepathUuid etag : Text)
  /-- Any change that keeps what the outbox records of its jobs. -/
  | other (db : Db)
  | claimOutboxJobs (limit : Nat)
  | completeOutboxJob (id : Int)
  | failOutboxJob (id : Int)

/-- What a job has of its own, apart from the object it is about. -/
def jobColumns (r : OutboxRow) : Int × OutboxStatus × Int × Int :=
  (r.id, r.status, r.attemptCount, r.nextRetryUtc)

def SameJobs (db db' : Db) : Prop :=
  db'.replicationOutbox.nextId = db.replicationOutbox.nextId ∧
    db'.replicationOutbox.rows.map jobColumns = db.replicationOutbox.rows.map jobColumns

instance (db db' : Db) : Decidable (SameJobs db db') := by
  unfold SameJobs
  infer_instance

def hasJob (db : Db) (id : Int) : Bool := db.replicationOutbox.rows.any fun r => r.id == id

/-- A call, at an instant that is not before the last one. A call for a job that is not
there does nothing. -/
def step (s : State) (a : Instant × Call) : Option State :=
  let now := a.1
  if now.nanos < s.clock.nanos then none
  else
    match a.2 with
    | .enqueueForActivePeers objectId filepathUuid etag operation excludePeerId =>
      some { s with
        clock := now
        db := Outbox.enqueueForActivePeers s.db now objectId filepathUuid etag operation
          excludePeerId }
    | .enqueuePutForPeer peerId objectId filepathUuid etag =>
      (Outbox.enqueuePutForPeer s.db now peerId objectId filepathUuid etag).map fun db =>
        { s with clock := now, db := db }
    | .other db => if SameJobs s.db db then some { s with clock := now, db := db } else none
    | .claimOutboxJobs limit =>
      let (jobs, db) := Outbox.claimOutboxJobs s.db now limit
      some { db := db, clock := now, log := .claimed (jobs.map (·.id)) :: s.log }
    | .completeOutboxJob id =>
      some {
        db := Outbox.completeOutboxJob s.db id
        clock := now
        log := if hasJob s.db id then .completed id :: s.log else s.log }
    | .failOutboxJob id =>
      some {
        db := Outbox.failOutboxJob s.db now id
        clock := now
        log := if hasJob s.db id then .failed id now :: s.log else s.log }

/-- Claimed, and not failed since. -/
def isHeld (id : Int) : List Event → Bool
  | [] => false
  | .claimed ids :: older => decide (id ∈ ids) || isHeld id older
  | .failed i _ :: older => i != id && isHeld id older
  | .completed _ :: older => isHeld id older

/-- The failures of a job, each with the number of failures up to it. -/
def failures (id : Int) : List Event → List (Instant × Nat)
  | [] => []
  | .failed i now :: older =>
    if i = id then (now, (failures id older).length + 1) :: failures id older
    else failures id older
  | _ :: older => failures id older

def isCompleted (id : Int) (log : List Event) : Bool :=
  log.any fun e => match e with
    | .completed i => i == id
    | _ => false

/-- The ids that an event is about. -/
def Event.ids : Event → List Int
  | .claimed ids => ids
  | .failed id _ => [id]
  | .completed id => [id]

/-- What the outbox and the history say of each other. -/
structure Inv (s : State) : Prop where
  attempts : ∀ r ∈ s.db.replicationOutbox.rows, r.attemptCount = (failures r.id s.log).length
  held : ∀ r ∈ s.db.replicationOutbox.rows, isHeld r.id s.log = true → r.status = .inFlight
  waits : ∀ r ∈ s.db.replicationOutbox.rows, ∀ f ∈ failures r.id s.log,
    f.1.currentTimestamp.secs + f.2 * 30 ≤ r.nextRetryUtc
  past : ∀ id, ∀ f ∈ failures id s.log, f.1.currentTimestamp.secs ≤ s.clock.currentTimestamp.secs
  known : ∀ e ∈ s.log, ∀ id ∈ e.ids, id < s.db.replicationOutbox.nextId
  present : ∀ r ∈ s.db.replicationOutbox.rows, isCompleted r.id s.log = false

theorem currentTimestamp_mono {a b : Instant} (h : a.nanos ≤ b.nanos) :
    a.currentTimestamp.secs ≤ b.currentTimestamp.secs :=
  Int.ediv_le_ediv (by decide) h

/-- Failures are numbered from one. -/
theorem failures_number_le {id : Int} {log : List Event} {f : Instant × Nat}
    (h : f ∈ failures id log) : f.2 ≤ (failures id log).length := by
  induction log with
  | nil => cases h
  | cons e older ih =>
    cases e with
    | claimed ids => exact ih h
    | completed i => exact ih h
    | failed i now =>
      unfold failures at h ⊢
      split_ifs at h ⊢ with hid
      · rcases List.mem_cons.mp h with rfl | hf
        · rfl
        · exact (ih hf).trans (Nat.le_succ _)
      · exact ih h

/-- Nothing has happened to a job that the history does not know. -/
theorem untouched {id : Int} {log : List Event} (h : ∀ e ∈ log, id ∉ e.ids) :
    failures id log = [] ∧ isHeld id log = false ∧ isCompleted id log = false := by
  induction log with
  | nil => exact ⟨rfl, rfl, rfl⟩
  | cons e older ih =>
    obtain ⟨hfailures, hheld, hcompleted⟩ := ih fun e he => h e (List.mem_cons_of_mem _ he)
    have hnot := h e List.mem_cons_self
    cases e with
    | claimed ids =>
      refine ⟨hfailures, ?_, hcompleted⟩
      simp only [isHeld, hheld, Bool.or_false, decide_eq_false_iff_not]
      exact hnot
    | failed i now =>
      have hne : i ≠ id := fun heq => hnot (heq ▸ List.mem_singleton.mpr rfl)
      refine ⟨?_, ?_, hcompleted⟩
      · rw [failures, if_neg hne, hfailures]
      · rw [isHeld, hheld, Bool.and_false]
    | completed i =>
      have hne : i ≠ id := fun heq => hnot (heq ▸ List.mem_singleton.mpr rfl)
      refine ⟨hfailures, hheld, ?_⟩
      unfold isCompleted at hcompleted ⊢
      rw [List.any_cons, hcompleted, Bool.or_false]
      exact beq_false_of_ne hne

/-- Jobs that stay as they were, and new ones that have not been tried. -/
theorem Inv.of_kept {s : State} {db : Db} {clock : Instant} (h : Inv s)
    (hclock : s.clock.nanos ≤ clock.nanos)
    (hnext : s.db.replicationOutbox.nextId ≤ db.replicationOutbox.nextId)
    (hrows : ∀ r ∈ db.replicationOutbox.rows,
      (∃ a ∈ s.db.replicationOutbox.rows, jobColumns a = jobColumns r) ∨
        s.db.replicationOutbox.nextId ≤ r.id ∧ r.attemptCount = 0) :
    Inv { s with db := db, clock := clock } := by
  have hnew : ∀ r : OutboxRow, s.db.replicationOutbox.nextId ≤ r.id →
      failures r.id s.log = [] ∧ isHeld r.id s.log = false ∧ isCompleted r.id s.log = false := by
    intro r hr
    refine untouched fun e he hid => ?_
    have hlt := h.known e he r.id hid
    omega
  refine ⟨?_, ?_, ?_, ?_, ?_, ?_⟩
  · intro r hr
    rcases hrows r hr with ⟨a, ha, heq⟩ | ⟨hid, hzero⟩
    · simp only [jobColumns, Prod.mk.injEq] at heq
      rw [← heq.1, ← heq.2.2.1]
      exact h.attempts a ha
    · rw [hzero, (hnew r hid).1]
      rfl
  · intro r hr hheld
    rcases hrows r hr with ⟨a, ha, heq⟩ | ⟨hid, _⟩
    · simp only [jobColumns, Prod.mk.injEq] at heq
      rw [← heq.2.1]
      exact h.held a ha (heq.1 ▸ hheld)
    · rw [(hnew r hid).2.1] at hheld
      cases hheld
  · intro r hr f hf
    rcases hrows r hr with ⟨a, ha, heq⟩ | ⟨hid, _⟩
    · simp only [jobColumns, Prod.mk.injEq] at heq
      rw [← heq.2.2.2]
      exact h.waits a ha f (heq.1 ▸ hf)
    · rw [(hnew r hid).1] at hf
      cases hf
  · exact fun id f hf => (h.past id f hf).trans (currentTimestamp_mono hclock)
  · exact fun e he id hid => (h.known e he id hid).trans_le hnext
  · intro r hr
    rcases hrows r hr with ⟨a, ha, heq⟩ | ⟨hid, _⟩
    · simp only [jobColumns, Prod.mk.injEq] at heq
      rw [← heq.1]
      exact h.present a ha
    · exact (hnew r hid).2.2

/-- An enqueued job has a new id and has not been tried. -/
theorem new_of_enqueueAll {now : Instant} {objectId : Int} {filepathUuid etag : Text}
    {operation : OutboxOperation} {peers : List ClusterPeer} {t : OutboxTable} {r : OutboxRow}
    (h : r ∈ (enqueueAll now objectId filepathUuid etag operation t peers).rows) :
    (∃ a ∈ t.rows, jobColumns a = jobColumns r) ∨ t.nextId ≤ r.id ∧ r.attemptCount = 0 := by
  have hgrows := DeliveryOrder.grows_enqueueAll now objectId filepathUuid etag operation peers t
  rcases mem_enqueueAll h with hold | ⟨p, _, id, hnew⟩
  · exact Or.inl ⟨r, hold, rfl⟩
  · rcases hgrows.new r h with ⟨a, ha, hkey⟩ | hid
    · have hkept := subset_enqueueAll now objectId filepathUuid etag operation peers t ha
      have hsame := OutboxTable.eq_of_id _ hkept h (DeliveryOrder.rowKey_eq hkey).1
      exact Or.inl ⟨a, ha, by rw [hsame]⟩
    · refine Or.inr ⟨hid, ?_⟩
      rw [hnew]
      rfl

theorem Inv.enqueuePutForPeer {s : State} {db : Db} {now : Instant} {peerId : Text}
    {objectId : Int} {filepathUuid etag : Text} (h : Inv s) (hnow : s.clock.nanos ≤ now.nanos)
    (hput : Outbox.enqueuePutForPeer s.db now peerId objectId filepathUuid etag = some db) :
    Inv { s with clock := now, db := db } := by
  unfold Outbox.enqueuePutForPeer at hput
  split_ifs at hput with hblocked hrefs
  · rw [← Option.some.inj hput]
    exact h.of_kept hnow (le_refl _) fun r hr => Or.inl ⟨r, hr, rfl⟩
  · rw [← Option.some.inj hput]
    refine h.of_kept hnow ?_ ?_
    · change s.db.replicationOutbox.nextId ≤ s.db.replicationOutbox.nextId + 1
      omega
    · intro r hr
      rcases List.mem_append.mp hr with hold | hnew
      · exact Or.inl ⟨r, hold, rfl⟩
      · rw [List.mem_singleton.mp hnew]
        exact Or.inr ⟨le_refl _, rfl⟩

theorem Inv.other {s : State} {db : Db} {now : Instant} (h : Inv s)
    (hnow : s.clock.nanos ≤ now.nanos) (hsame : SameJobs s.db db) :
    Inv { s with clock := now, db := db } := by
  refine h.of_kept hnow (le_of_eq hsame.1.symm) ?_
  intro r hr
  have hmem : jobColumns r ∈ db.replicationOutbox.rows.map jobColumns := List.mem_map_of_mem hr
  rw [hsame.2] at hmem
  exact Or.inl (List.mem_map.mp hmem)

/-- The ids that a claim returns are those of the rows it selects. -/
theorem ids_of_claim (db : Db) (now : Instant) (limit : Nat) :
    (Outbox.claimOutboxJobs db now limit).1.map (·.id) =
      (claimRows db now limit).map (·.id) := by
  unfold Outbox.claimOutboxJobs
  simp only
  have hpeer : ∀ r ∈ claimRows db now limit, ∃ p, activePeer db r.peerId = some p :=
    fun r hr => Option.isSome_iff_exists.mp (mem_claimRows hr).2.2
  generalize claimRows db now limit = rows at hpeer ⊢
  induction rows with
  | nil => rfl
  | cons r rest ih =>
    obtain ⟨p, hp⟩ := hpeer r List.mem_cons_self
    rw [List.filterMap_cons, hp]
    simp only [Option.map_some, List.map_cons]
    rw [ih fun a ha => hpeer a (List.mem_cons_of_mem r ha)]
    rfl

theorem Inv.claim {s : State} {now : Instant} (h : Inv s) (hnow : s.clock.nanos ≤ now.nanos)
    (limit : Nat) :
    Inv {
      db := (Outbox.claimOutboxJobs s.db now limit).2
      clock := now
      log := .claimed ((Outbox.claimOutboxJobs s.db now limit).1.map (·.id)) :: s.log } := by
  rw [ids_of_claim]
  have hrow : ∀ r' ∈ (Outbox.claimOutboxJobs s.db now limit).2.replicationOutbox.rows,
      ∃ r ∈ s.db.replicationOutbox.rows, r'.id = r.id ∧ r'.attemptCount = r.attemptCount ∧
        r'.nextRetryUtc = r.nextRetryUtc ∧
        (r' = r ∧ r.id ∉ (claimRows s.db now limit).map (·.id) ∨ r'.status = .inFlight) := by
    intro r' hr'
    rcases mem_updateRows.mp hr' with ⟨hr, hnot⟩ | ⟨r, hr, _, rfl⟩
    · refine ⟨r', hr, rfl, rfl, rfl, Or.inl ⟨rfl, ?_⟩⟩
      rw [List.mem_map]
      intro h'
      obtain ⟨c, hc, hid⟩ := h'
      have hany : ((claimRows s.db now limit).any fun c => c.id == r'.id) = true :=
        List.any_eq_true.mpr ⟨c, hc, beq_iff_eq.mpr hid⟩
      rw [hnot] at hany
      cases hany
    · exact ⟨r, hr, rfl, rfl, rfl, Or.inr rfl⟩
  refine ⟨?_, ?_, ?_, ?_, ?_, ?_⟩
  · intro r' hr'
    obtain ⟨r, hr, hid, hcount, _⟩ := hrow r' hr'
    rw [hcount, hid]
    exact h.attempts r hr
  · intro r' hr' hheld
    obtain ⟨r, hr, hid, _, _, ⟨rfl, hnot⟩ | hstatus⟩ := hrow r' hr'
    · simp only [isHeld, Bool.or_eq_true, decide_eq_true_eq] at hheld
      exact h.held r' hr (hheld.resolve_left hnot)
    · exact hstatus
  · intro r' hr' f hf
    obtain ⟨r, hr, hid, _, hretry, _⟩ := hrow r' hr'
    rw [hretry]
    exact h.waits r hr f (hid ▸ hf)
  · exact fun id f hf => (h.past id f hf).trans (currentTimestamp_mono hnow)
  · refine List.forall_mem_cons.mpr ⟨fun id hid => ?_, h.known⟩
    obtain ⟨r, hr, rfl⟩ := List.mem_map.mp hid
    exact s.db.replicationOutbox.id_lt r (mem_claimRows hr).1
  · intro r' hr'
    obtain ⟨r, hr, hid, _⟩ := hrow r' hr'
    rw [hid]
    exact h.present r hr

theorem hasJob_iff {db : Db} {id : Int} :
    hasJob db id = true ↔ ∃ r ∈ db.replicationOutbox.rows, r.id = id := by
  simp only [hasJob, List.any_eq_true, beq_iff_eq]

theorem lt_of_hasJob {db : Db} {id : Int} (h : hasJob db id = true) :
    id < db.replicationOutbox.nextId := by
  obtain ⟨r, hr, rfl⟩ := hasJob_iff.mp h
  exact db.replicationOutbox.id_lt r hr

theorem Inv.complete {s : State} {now : Instant} (h : Inv s) (hnow : s.clock.nanos ≤ now.nanos)
    (id : Int) :
    Inv {
      db := Outbox.completeOutboxJob s.db id
      clock := now
      log := if hasJob s.db id then .completed id :: s.log else s.log } := by
  have hrow : ∀ r ∈ (Outbox.completeOutboxJob s.db id).replicationOutbox.rows,
      r ∈ s.db.replicationOutbox.rows ∧ r.id ≠ id := by
    intro r hr
    have hmem := List.mem_filter.mp hr
    simp only [Bool.not_eq_true', beq_eq_false_iff_ne] at hmem
    exact hmem
  have hkept : Inv { s with clock := now, db := Outbox.completeOutboxJob s.db id } :=
    h.of_kept hnow (le_refl _) fun r hr => Or.inl ⟨r, (hrow r hr).1, rfl⟩
  split_ifs with hjob
  · refine ⟨hkept.attempts, hkept.held, hkept.waits, hkept.past, ?_, ?_⟩
    · have hlt := lt_of_hasJob hjob
      refine List.forall_mem_cons.mpr ⟨fun i hi => ?_, h.known⟩
      rw [List.mem_singleton.mp hi]
      exact hlt
    · intro r hr
      have hold := hkept.present r hr
      unfold isCompleted at hold ⊢
      rw [List.any_cons, hold, Bool.or_false]
      exact beq_false_of_ne (Ne.symm (hrow r hr).2)
  · exact hkept

theorem Inv.fail {s : State} {now : Instant} (h : Inv s) (hnow : s.clock.nanos ≤ now.nanos)
    (id : Int) :
    Inv {
      db := Outbox.failOutboxJob s.db now id
      clock := now
      log := if hasJob s.db id then .failed id now :: s.log else s.log } := by
  have hrow : ∀ r' ∈ (Outbox.failOutboxJob s.db now id).replicationOutbox.rows,
      (r' ∈ s.db.replicationOutbox.rows ∧ r'.id ≠ id) ∨
        ∃ r ∈ s.db.replicationOutbox.rows, r.id = id ∧ r' = failRow now r := by
    intro r' hr'
    rcases mem_updateRows.mp hr' with ⟨hr, hnot⟩ | ⟨r, hr, hid, rfl⟩
    · exact Or.inl ⟨hr, beq_eq_false_iff_ne.mp hnot⟩
    · exact Or.inr ⟨r, hr, beq_iff_eq.mp hid, rfl⟩
  have hclock := currentTimestamp_mono hnow
  split_ifs with hjob
  · refine ⟨?_, ?_, ?_, ?_, ?_, ?_⟩
    · intro r' hr'
      rcases hrow r' hr' with ⟨hr, hne⟩ | ⟨r, hr, rfl, rfl⟩
      · rw [failures, if_neg (Ne.symm hne)]
        exact h.attempts r' hr
      · have hcount := h.attempts r hr
        simp only [failRow, failures, if_true, List.length_cons]
        omega
    · intro r' hr' hheld
      rcases hrow r' hr' with ⟨hr, hne⟩ | ⟨r, hr, rfl, rfl⟩
      · simp only [isHeld, Bool.and_eq_true] at hheld
        exact h.held r' hr hheld.2
      · simp [isHeld, failRow] at hheld
    · intro r' hr' f hf
      rcases hrow r' hr' with ⟨hr, hne⟩ | ⟨r, hr, rfl, rfl⟩
      · rw [failures, if_neg (Ne.symm hne)] at hf
        exact h.waits r' hr f hf
      · have hcount := h.attempts r hr
        simp only [failRow, failures, if_true] at hf ⊢
        rcases List.mem_cons.mp hf with rfl | hf
        · simp only
          omega
        · -- An earlier failure was not later, and is numbered lower.
          have hpast := h.past r.id f hf
          have hnumber := failures_number_le hf
          omega
    · intro i f hf
      simp only [failures] at hf
      split_ifs at hf with hid
      · rcases List.mem_cons.mp hf with rfl | hf
        · exact le_refl _
        · exact (h.past i f hf).trans hclock
      · exact (h.past i f hf).trans hclock
    · have hlt := lt_of_hasJob hjob
      refine List.forall_mem_cons.mpr ⟨fun i hi => ?_, h.known⟩
      rw [List.mem_singleton.mp hi]
      exact hlt
    · intro r' hr'
      rcases hrow r' hr' with ⟨hr, hne⟩ | ⟨r, hr, rfl, rfl⟩
      · exact h.present r' hr
      · exact h.present r hr
  · refine h.of_kept hnow (le_refl _) ?_
    intro r' hr'
    rcases hrow r' hr' with ⟨hr, _⟩ | ⟨r, hr, hid, _⟩
    · exact Or.inl ⟨r', hr, rfl⟩
    · exact absurd (hasJob_iff.mpr ⟨r, hr, hid⟩) hjob

theorem step_preserves {s t : State} {a : Instant × Call} (h : Inv s) (hstep : step s a = some t) :
    Inv t := by
  obtain ⟨now, call⟩ := a
  unfold step at hstep
  simp only at hstep
  split_ifs at hstep with hback
  have hnow : s.clock.nanos ≤ now.nanos := not_lt.mp hback
  cases call with
  | enqueueForActivePeers objectId filepathUuid etag operation excludePeerId =>
    rw [← Option.some.inj hstep]
    refine h.of_kept hnow ?_ fun r hr => new_of_enqueueAll hr
    exact (DeliveryOrder.grows_enqueueAll now objectId filepathUuid etag operation
      (targetPeers s.db objectId excludePeerId) s.db.replicationOutbox).nextId
  | enqueuePutForPeer peerId objectId filepathUuid etag =>
    obtain ⟨db, hput, rfl⟩ := Option.map_eq_some_iff.mp hstep
    exact h.enqueuePutForPeer hnow hput
  | other db =>
    simp only at hstep
    split_ifs at hstep with hsame
    rw [← Option.some.inj hstep]
    exact h.other hnow hsame
  | claimOutboxJobs limit =>
    rw [← Option.some.inj hstep]
    exact h.claim hnow limit
  | completeOutboxJob id =>
    rw [← Option.some.inj hstep]
    exact h.complete hnow id
  | failOutboxJob id =>
    rw [← Option.some.inj hstep]
    exact h.fail hnow id

/-- What a claim at an instant returns, as the history before it allows. -/
structure ClaimAllowed (s : State) (now : Instant) (limit : Nat) (jobs : List OutboxJob) :
    Prop where
  length : jobs.length ≤ limit
  increasing : jobs.Pairwise fun a b => a.id < b.id
  due : ∀ job ∈ jobs, ∃ r ∈ s.db.replicationOutbox.rows, r.id = job.id ∧
    (r.status = .pending ∨ r.status = .failed) ∧ r.nextRetryUtc ≤ now.currentTimestamp.secs
  active : ∀ job ∈ jobs, ∃ p ∈ s.db.clusterPeer.rows, p.id = job.peerId ∧ p.isActive = true
  notHeld : ∀ job ∈ jobs, isHeld job.id s.log = false
  waited : ∀ job ∈ jobs, ∀ f ∈ failures job.id s.log,
    f.1.currentTimestamp.secs + f.2 * 30 ≤ now.currentTimestamp.secs
  notCompleted : ∀ job ∈ jobs, isCompleted job.id s.log = false

theorem Inv.claimAllowed {s : State} (h : Inv s) (now : Instant) (limit : Nat) :
    ClaimAllowed s now limit (Outbox.claimOutboxJobs s.db now limit).1 := by
  have hrow : ∀ job ∈ (Outbox.claimOutboxJobs s.db now limit).1,
      ∃ r ∈ s.db.replicationOutbox.rows, ∃ p, r.id = job.id ∧ r.peerId = job.peerId ∧
        (r.status = .pending ∨ r.status = .failed) ∧
        r.nextRetryUtc ≤ now.currentTimestamp.secs ∧ activePeer s.db r.peerId = some p := by
    intro job hjob
    obtain ⟨r, hr, p, hp, rfl⟩ := mem_claimOutboxJobs hjob
    obtain ⟨hmem, hdue, _⟩ := mem_claimRows hr
    simp only [isDue, Bool.and_eq_true, decide_eq_true_eq] at hdue
    exact ⟨r, hmem, p, rfl, rfl, Worker.isClaimable_iff.mp hdue.1, hdue.2, hp⟩
  refine ⟨?_, DeliveryOrder.claimOutboxJobs_sorted s.db now limit, ?_, ?_, ?_, ?_, ?_⟩
  · have hlength := congrArg List.length (ids_of_claim s.db now limit)
    rw [List.length_map, List.length_map] at hlength
    rw [hlength]
    exact List.length_take_le _ _
  · intro job hjob
    obtain ⟨r, hr, p, hid, _, hstatus, hdue, _⟩ := hrow job hjob
    exact ⟨r, hr, hid, hstatus, hdue⟩
  · intro job hjob
    obtain ⟨r, _, p, _, hpeer, _, _, hp⟩ := hrow job hjob
    have hfound := List.find?_some hp
    simp only [Bool.and_eq_true, beq_iff_eq] at hfound
    exact ⟨p, List.mem_of_find?_eq_some hp, hfound.1.trans hpeer, hfound.2⟩
  · intro job hjob
    obtain ⟨r, hr, p, hid, _, hstatus, _⟩ := hrow job hjob
    rw [← hid, Bool.eq_false_iff]
    intro hheld
    have hflight := h.held r hr hheld
    rcases hstatus with hs | hs
    · rw [hs] at hflight
      cases hflight
    · rw [hs] at hflight
      cases hflight
  · intro job hjob f hf
    obtain ⟨r, hr, p, hid, _, _, hdue, _⟩ := hrow job hjob
    exact (h.waits r hr f (hid ▸ hf)).trans hdue
  · intro job hjob
    obtain ⟨r, hr, p, hid, _⟩ := hrow job hjob
    rw [← hid]
    exact h.present r hr

/-- In every run from an empty outbox, each claim returns what the history allows, and the
attempts of a job are its failures. -/
theorem claims_follow_history {db : Db} {clock : Instant} {s : State}
    (hempty : db.replicationOutbox.rows = []) (hrun : Run step anyAction ⟨db, clock, []⟩ s) :
    (∀ now limit, ClaimAllowed s now limit (Outbox.claimOutboxJobs s.db now limit).1) ∧
      ∀ r ∈ s.db.replicationOutbox.rows, r.attemptCount = (failures r.id s.log).length := by
  have hstart : Inv ⟨db, clock, []⟩ := by
    have hnone : ∀ r, r ∉ db.replicationOutbox.rows := by
      rw [hempty]
      exact fun r => List.not_mem_nil
    refine ⟨?_, ?_, ?_, ?_, ?_, ?_⟩
    · exact fun r hr => absurd hr (hnone r)
    · exact fun r hr => absurd hr (hnone r)
    · exact fun r hr => absurd hr (hnone r)
    · exact fun id f hf => absurd hf List.not_mem_nil
    · exact fun e he => absurd he List.not_mem_nil
    · exact fun r hr => absurd hr (hnone r)
  have hinv : Inv s :=
    hrun.invariant (fun s a t h _ hstep => step_preserves h hstep) hstart
  exact ⟨fun now limit => hinv.claimAllowed now limit, hinv.attempts⟩

/-- A node with one peer and one object, and no jobs. -/
def noJobs : Db := Outbox.completeOutboxJob Worker.onePending 1

/-- A job is enqueued and claimed, and its delivery fails. -/
def failedOnce : State :=
  (exec step ⟨noJobs, Instant.epoch, []⟩
    [(Instant.epoch, .enqueueForActivePeers 1 [] [] .put "node-1".toList),
      (Instant.epoch, .claimOutboxJobs 50), (Instant.epoch, .failOutboxJob 2)]).getD
    ⟨noJobs, Instant.epoch, []⟩

/-- The next claim that returns the job is half a minute after its first failure. -/
theorem claims_follow_history_after_failure :
    let at29 := Instant.ofSecs 29 (by decide) (by decide)
    let at30 := Instant.ofSecs 30 (by decide) (by decide)
    (Outbox.claimOutboxJobs failedOnce.db at29 50).1 = [] ∧
      (Outbox.claimOutboxJobs failedOnce.db at30 50).1.map (·.id) = [2] ∧
      ClaimAllowed failedOnce at30 50 (Outbox.claimOutboxJobs failedOnce.db at30 50).1 ∧
      ∀ r ∈ failedOnce.db.replicationOutbox.rows,
        r.attemptCount = (failures r.id failedOnce.log).length := by
  have hrun : Run step anyAction ⟨noJobs, Instant.epoch, []⟩ failedOnce := by
    refine run_of_exec (?_ : exec step _ [(Instant.epoch, .enqueueForActivePeers 1 [] [] .put
      "node-1".toList), (Instant.epoch, .claimOutboxJobs 50),
      (Instant.epoch, .failOutboxJob 2)] = some _)
    rfl
  have h := claims_follow_history (by decide) hrun
  exact ⟨by decide, by decide, h.1 _ 50, h.2⟩

end MyS3.ClaimHistory
