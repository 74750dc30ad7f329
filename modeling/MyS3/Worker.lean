import MyS3.Library.Runs
import MyS3.PeerManager
import MyS3.S3Routes

/-!
The replication worker as a state machine over the outbox, with crashes. A claim
makes its rows IN_FLIGHT in the database, but which jobs are held is known to the
process only. A restart forgets them and resets nothing, so the rows of the held
jobs stay IN_FLIGHT, and those are exactly the rows that no claim returns again.
-/

namespace MyS3.Worker

open Library.Strings Library.Tables Library.Runs
open Models Objects Database Engine Repository Outbox PeerManager Http S3Routes

/-- The database, and the claimed jobs that the worker still has to process. -/
structure WorkerState where
  db : Db
  held : List OutboxJob

/-- Ids and statuses of the outbox, in order. -/
def outboxStatuses (db : Db) : List (Int × OutboxStatus) :=
  db.replicationOutbox.rows.map fun r => (r.id, r.status)

inductive Action
  /-- An upload or a purge enqueues one job for each peer. -/
  | enqueueForActivePeers (now : Instant) (objectId : Int) (filepathUuid etag : Text)
      (operation : OutboxOperation) (excludePeerId : Text)
  /-- Anti-entropy enqueues one PUT. -/
  | enqueuePutForPeer (now : Instant) (peerId : Text) (objectId : Int) (filepathUuid etag : Text)
  /-- Any change of the database that keeps ids and statuses of the outbox. -/
  | change (db : Db)
  /-- A tick of the worker, once the jobs of the last one are processed. -/
  | claim (now : Instant)
  /-- The first held job is delivered. -/
  | complete
  /-- The delivery of the first held job fails. -/
  | fail (now : Instant)
  /-- The process dies, and starts again. -/
  | restart (config : ClusterConfig)

def claimLimit : Nat := 50

def step (s : WorkerState) : Action → Option WorkerState
  | .enqueueForActivePeers now objectId filepathUuid etag operation excludePeerId =>
    some { s with db :=
      enqueueForActivePeers s.db now objectId filepathUuid etag operation excludePeerId }
  | .enqueuePutForPeer now peerId objectId filepathUuid etag =>
    (enqueuePutForPeer s.db now peerId objectId filepathUuid etag).map fun db => { s with db := db }
  | .change db => if outboxStatuses db = outboxStatuses s.db then some { s with db := db } else none
  | .claim now =>
    if s.held = [] then
      some { db := (claimOutboxJobs s.db now claimLimit).2
             held := (claimOutboxJobs s.db now claimLimit).1 }
    else none
  | .complete =>
    match s.held with
    | [] => none
    | job :: rest => some { db := completeOutboxJob s.db job.id, held := rest }
  | .fail now =>
    match s.held with
    | [] => none
    | job :: rest => some { db := failOutboxJob s.db now job.id, held := rest }
  | .restart config => some { db := startNode s.db config, held := [] }

/-- The process dies only between the last job of a tick and the next claim. -/
def CleanRestart (s : WorkerState) : Action → Prop
  | .restart _ => s.held = []
  | _ => True

/-- Every outbox row is PENDING or FAILED. -/
def AllClaimable (db : Db) : Prop :=
  ∀ r ∈ db.replicationOutbox.rows, isClaimable r.status = true

/-- Every outbox row is PENDING or FAILED, so that a claim returns it once it is due,
and so does whatever keeps a new PUT out of the outbox. -/
structure Recovers (db : Db) : Prop where
  status : ∀ r ∈ db.replicationOutbox.rows, r.status = .pending ∨ r.status = .failed
  claimed : ∀ r ∈ db.replicationOutbox.rows, ∀ (now : Instant) (limit : Nat),
    r.nextRetryUtc ≤ now.currentTimestamp.secs → (activePeer db r.peerId).isSome = true →
    db.replicationOutbox.rows.length ≤ limit →
    ∃ job ∈ (claimOutboxJobs db now limit).1, job.id = r.id
  blocking : ∀ r ∈ db.replicationOutbox.rows, ∀ peerId filepathUuid,
    blocksPut peerId filepathUuid r = true → isClaimable r.status = true

/-- The rows that the worker has claimed are its held jobs, and every other row can
still be claimed. -/
structure HeldInFlight (s : WorkerState) : Prop where
  held : ∀ job ∈ s.held, (job.id, OutboxStatus.inFlight) ∈ outboxStatuses s.db
  distinct : s.held.Pairwise fun a b => a.id ≠ b.id
  others : ∀ e ∈ outboxStatuses s.db, isClaimable e.2 = true ∨
    (e.2 = .inFlight ∧ ∃ job ∈ s.held, job.id = e.1)

theorem allClaimable_iff {db : Db} :
    AllClaimable db ↔ ∀ e ∈ outboxStatuses db, isClaimable e.2 = true := by
  simp [AllClaimable, outboxStatuses]

theorem mem_outboxStatuses {db : Db} {e : Int × OutboxStatus} :
    e ∈ outboxStatuses db ↔ ∃ r ∈ db.replicationOutbox.rows, (r.id, r.status) = e :=
  List.mem_map

/-- Statuses after rows of the outbox are updated. -/
theorem mem_outboxStatuses_updateWhere (db : Db) (p : Int → Bool) (f : OutboxRow → OutboxRow)
    {st : OutboxStatus} (hid : ∀ r, (f r).id = r.id) (hst : ∀ r, (f r).status = st)
    (e : Int × OutboxStatus) :
    e ∈ outboxStatuses
        (db.withOutbox (db.replicationOutbox.updateWhere (fun r => p r.id) f hid)) ↔
      (e ∈ outboxStatuses db ∧ p e.1 = false) ∨
        (e.2 = st ∧ p e.1 = true ∧ ∃ old, (e.1, old) ∈ outboxStatuses db) := by
  have hrows : (db.withOutbox (db.replicationOutbox.updateWhere (fun r => p r.id) f
    hid)).replicationOutbox.rows = updateRows (fun r => p r.id) f db.replicationOutbox.rows := rfl
  simp only [mem_outboxStatuses, hrows, mem_updateRows]
  constructor
  · intro h
    rcases h with ⟨r, ⟨hr, hp⟩ | ⟨a, ha, hp, rfl⟩, rfl⟩
    · exact Or.inl ⟨⟨r, hr, rfl⟩, hp⟩
    · exact Or.inr ⟨hst a, by rwa [hid], a.status, a, ha, by rw [hid]⟩
  · intro h
    rcases h with ⟨⟨r, hr, rfl⟩, hp⟩ | ⟨he, hp, old, r, hr, hrold⟩
    · exact ⟨r, Or.inl ⟨hr, hp⟩, rfl⟩
    · have hrid := congrArg Prod.fst hrold
      simp only at hrid
      refine ⟨f r, Or.inr ⟨r, hr, by rwa [hrid], rfl⟩, ?_⟩
      rw [hid, hst, hrid, ← he]

/-- Every claimed row has a held job. -/
theorem exists_job_of_claimed {db : Db} {now : Instant} {limit : Nat} {r : OutboxRow}
    (hr : r ∈ claimRows db now limit) :
    ∃ job ∈ (claimOutboxJobs db now limit).1, job.id = r.id := by
  obtain ⟨_, _, hpeer⟩ := mem_claimRows hr
  obtain ⟨p, hp⟩ := Option.isSome_iff_exists.mp hpeer
  refine ⟨jobOf db r p, ?_, rfl⟩
  exact List.mem_filterMap.mpr ⟨r, hr, by simp [hp]⟩

theorem claimRows_distinct (db : Db) (now : Instant) (limit : Nat) :
    (claimRows db now limit).Pairwise fun a b => a.id ≠ b.id := by
  unfold claimRows
  apply List.Pairwise.sublist (List.take_sublist _ _)
  have hperm := List.perm_insertionSort (fun a b : OutboxRow => a.id ≤ b.id)
    (db.replicationOutbox.rows.filter fun r => isDue now r && (activePeer db r.peerId).isSome)
  exact (hperm.pairwise_iff fun h => Ne.symm h).mpr (db.replicationOutbox.id_unique.filter _)

theorem claimOutboxJobs_distinct (db : Db) (now : Instant) (limit : Nat) :
    (claimOutboxJobs db now limit).1.Pairwise fun a b => a.id ≠ b.id := by
  refine List.Pairwise.filterMap _ ?_ (claimRows_distinct db now limit)
  intro r r' hne job hjob job' hjob'
  obtain ⟨p, _, rfl⟩ := Option.map_eq_some_iff.mp hjob
  obtain ⟨p', _, rfl⟩ := Option.map_eq_some_iff.mp hjob'
  exact hne

/-- A claim marks the rows of its jobs and no other. -/
theorem mem_outboxStatuses_claim {db : Db} {now : Instant} {limit : Nat}
    {e : Int × OutboxStatus} :
    e ∈ outboxStatuses (claimOutboxJobs db now limit).2 ↔
      (e ∈ outboxStatuses db ∧ ∀ job ∈ (claimOutboxJobs db now limit).1, job.id ≠ e.1) ∨
        (e.2 = .inFlight ∧ ∃ job ∈ (claimOutboxJobs db now limit).1, job.id = e.1) := by
  have hids : ((claimRows db now limit).any fun c => c.id == e.1) = true ↔
      ∃ job ∈ (claimOutboxJobs db now limit).1, job.id = e.1 := by
    simp only [List.any_eq_true, beq_iff_eq]
    constructor
    · intro h'
      obtain ⟨r, hr, hid⟩ := h'
      obtain ⟨job, hjob, hjid⟩ := exists_job_of_claimed hr
      exact ⟨job, hjob, hjid.trans hid⟩
    · intro h'
      obtain ⟨job, hjob, hid⟩ := h'
      obtain ⟨r, hr, p, _, rfl⟩ := mem_claimOutboxJobs hjob
      exact ⟨r, hr, hid⟩
  have hmem := mem_outboxStatuses_updateWhere db
    (fun id => (claimRows db now limit).any fun c => c.id == id)
    (fun r => { r with status := .inFlight }) (fun _ => rfl) (fun _ => rfl) e
  unfold claimOutboxJobs markInFlight at *
  rw [hmem, hids, ← Bool.not_eq_true, hids]
  simp only [not_exists, not_and]
  constructor
  · intro h'
    rcases h' with h | ⟨he, hjob, _⟩
    · exact Or.inl h
    · exact Or.inr ⟨he, hjob⟩
  · intro h'
    rcases h' with h | ⟨he, hjob⟩
    · exact Or.inl h
    · refine Or.inr ⟨he, hjob, ?_⟩
      obtain ⟨r, hr, hid⟩ := List.any_eq_true.mp (hids.mpr hjob)
      exact ⟨r.status, mem_outboxStatuses.mpr ⟨r, (mem_claimRows hr).1, by
        rw [← beq_iff_eq.mp hid]⟩⟩

theorem mem_outboxStatuses_complete {db : Db} {id : Int} {e : Int × OutboxStatus} :
    e ∈ outboxStatuses (completeOutboxJob db id) ↔ e ∈ outboxStatuses db ∧ e.1 ≠ id := by
  have hrows : (completeOutboxJob db id).replicationOutbox.rows =
    db.replicationOutbox.rows.filter fun r => !(r.id == id) := rfl
  simp only [mem_outboxStatuses, hrows, List.mem_filter, Bool.not_eq_true', beq_eq_false_iff_ne]
  constructor
  · intro h
    obtain ⟨r, ⟨hr, hne⟩, rfl⟩ := h
    exact ⟨⟨r, hr, rfl⟩, hne⟩
  · intro h
    obtain ⟨⟨r, hr, rfl⟩, hne⟩ := h
    exact ⟨r, ⟨hr, hne⟩, rfl⟩

theorem mem_outboxStatuses_fail {db : Db} {now : Instant} {id : Int} {e : Int × OutboxStatus} :
    e ∈ outboxStatuses (failOutboxJob db now id) ↔
      (e ∈ outboxStatuses db ∧ e.1 ≠ id) ∨
        (e.2 = .failed ∧ e.1 = id ∧ ∃ old, (e.1, old) ∈ outboxStatuses db) := by
  have hmem := mem_outboxStatuses_updateWhere db (fun i => i == id) (failRow now)
    (fun _ => rfl) (fun _ => rfl) e
  unfold failOutboxJob
  rw [hmem]
  simp

/-- What an enqueue adds is pending. -/
theorem outboxStatuses_enqueueForActivePeers {db : Db} {now : Instant} {objectId : Int}
    {filepathUuid etag : Text} {operation : OutboxOperation} {excludePeerId : Text}
    {e : Int × OutboxStatus} (h : e ∈ outboxStatuses (enqueueForActivePeers db now objectId
      filepathUuid etag operation excludePeerId)) :
    e ∈ outboxStatuses db ∨ e.2 = .pending := by
  obtain ⟨r, hr, rfl⟩ := mem_outboxStatuses.mp h
  rcases mem_enqueueAll hr with hr | ⟨p, _, id, rfl⟩
  · exact Or.inl (mem_outboxStatuses.mpr ⟨r, hr, rfl⟩)
  · exact Or.inr rfl

theorem outboxStatuses_enqueuePutForPeer {db db' : Db} {now : Instant} {peerId : Text}
    {objectId : Int} {filepathUuid etag : Text}
    (h : enqueuePutForPeer db now peerId objectId filepathUuid etag = some db') :
    outboxStatuses db ⊆ outboxStatuses db' ∧
      ∀ e ∈ outboxStatuses db', e ∈ outboxStatuses db ∨ e.2 = .pending := by
  unfold enqueuePutForPeer at h
  split_ifs at h
  · cases h
    exact ⟨List.Subset.refl _, fun e he => Or.inl he⟩
  · cases h
    constructor
    · intro e he
      obtain ⟨r, hr, rfl⟩ := mem_outboxStatuses.mp he
      exact mem_outboxStatuses.mpr ⟨r, List.mem_append_left _ hr, rfl⟩
    · intro e he
      obtain ⟨r, hr, rfl⟩ := mem_outboxStatuses.mp he
      rcases List.mem_append.mp hr with hr | hr
      · exact Or.inl (mem_outboxStatuses.mpr ⟨r, hr, rfl⟩)
      · rw [List.mem_singleton.mp hr]
        exact Or.inr rfl

/-- New pending rows keep the invariant. -/
theorem HeldInFlight.of_enqueue {s : WorkerState} {db : Db} (h : HeldInFlight s)
    (hold : outboxStatuses s.db ⊆ outboxStatuses db)
    (hnew : ∀ e ∈ outboxStatuses db, e ∈ outboxStatuses s.db ∨ e.2 = .pending) :
    HeldInFlight { s with db := db } where
  held job hjob := hold (h.held job hjob)
  distinct := h.distinct
  others e he := by
    rcases hnew e he with he | he
    · exact h.others e he
    · exact Or.inl (by rw [he]; rfl)

theorem HeldInFlight.of_claim {db : Db} (h : HeldInFlight ⟨db, []⟩) (now : Instant)
    (limit : Nat) :
    HeldInFlight ⟨(claimOutboxJobs db now limit).2, (claimOutboxJobs db now limit).1⟩ where
  held job hjob := mem_outboxStatuses_claim.mpr (Or.inr ⟨rfl, job, hjob, rfl⟩)
  distinct := claimOutboxJobs_distinct db now limit
  others e he := by
    rcases mem_outboxStatuses_claim.mp he with ⟨he, _⟩ | he
    · rcases h.others e he with hc | ⟨_, job, hjob, _⟩
      · exact Or.inl hc
      · simp at hjob
    · exact Or.inr he

theorem HeldInFlight.of_complete {db : Db} {job : OutboxJob} {rest : List OutboxJob}
    (h : HeldInFlight ⟨db, job :: rest⟩) : HeldInFlight ⟨completeOutboxJob db job.id, rest⟩ := by
  obtain ⟨hne, hrest⟩ := List.pairwise_cons.mp h.distinct
  refine ⟨?_, hrest, ?_⟩
  · intro j hj
    exact mem_outboxStatuses_complete.mpr
      ⟨h.held j (List.mem_cons_of_mem _ hj), (hne j hj).symm⟩
  · intro e he
    obtain ⟨he, hid⟩ := mem_outboxStatuses_complete.mp he
    rcases h.others e he with hc | ⟨hst, j, hj, hje⟩
    · exact Or.inl hc
    · rcases List.mem_cons.mp hj with rfl | hj
      · exact absurd hje.symm hid
      · exact Or.inr ⟨hst, j, hj, hje⟩

theorem HeldInFlight.of_fail {db : Db} {job : OutboxJob} {rest : List OutboxJob}
    (h : HeldInFlight ⟨db, job :: rest⟩) (now : Instant) :
    HeldInFlight ⟨failOutboxJob db now job.id, rest⟩ := by
  obtain ⟨hne, hrest⟩ := List.pairwise_cons.mp h.distinct
  refine ⟨?_, hrest, ?_⟩
  · intro j hj
    exact mem_outboxStatuses_fail.mpr
      (Or.inl ⟨h.held j (List.mem_cons_of_mem _ hj), (hne j hj).symm⟩)
  · intro e he
    rcases mem_outboxStatuses_fail.mp he with ⟨he, hid⟩ | ⟨hst, _, _⟩
    · rcases h.others e he with hc | ⟨hst, j, hj, hje⟩
      · exact Or.inl hc
      · rcases List.mem_cons.mp hj with rfl | hj
        · exact absurd hje.symm hid
        · exact Or.inr ⟨hst, j, hj, hje⟩
    · exact Or.inl (by rw [hst]; rfl)

theorem step_preserves {s t : WorkerState} {a : Action} (h : HeldInFlight s)
    (hclean : CleanRestart s a) (hstep : step s a = some t) : HeldInFlight t := by
  cases a with
  | enqueueForActivePeers now objectId filepathUuid etag operation excludePeerId =>
    cases hstep
    apply h.of_enqueue
    · intro e he
      obtain ⟨r, hr, rfl⟩ := mem_outboxStatuses.mp he
      exact mem_outboxStatuses.mpr ⟨r, subset_enqueueAll _ _ _ _ _ _ _ hr, rfl⟩
    · intro e he
      exact outboxStatuses_enqueueForActivePeers he
  | enqueuePutForPeer now peerId objectId filepathUuid etag =>
    obtain ⟨db, hdb, rfl⟩ := Option.map_eq_some_iff.mp hstep
    obtain ⟨hold, hnew⟩ := outboxStatuses_enqueuePutForPeer hdb
    exact h.of_enqueue hold hnew
  | change db =>
    by_cases hsame : outboxStatuses db = outboxStatuses s.db
    · simp only [step, if_pos hsame, Option.some.injEq] at hstep
      subst hstep
      exact h.of_enqueue (by simp [hsame]) fun e he => Or.inl (hsame ▸ he)
    · simp [step, if_neg hsame] at hstep
  | claim now =>
    rcases s with ⟨db, _ | ⟨job, rest⟩⟩
    · cases hstep
      exact h.of_claim now claimLimit
    · simp [step] at hstep
  | complete =>
    rcases s with ⟨db, _ | ⟨job, rest⟩⟩
    · cases hstep
    · cases hstep
      exact h.of_complete
  | fail now =>
    rcases s with ⟨db, _ | ⟨job, rest⟩⟩
    · cases hstep
    · cases hstep
      exact h.of_fail now
  | restart config =>
    cases hstep
    rcases s with ⟨db, held⟩
    cases hclean
    have hsame : outboxStatuses (startNode db config) = outboxStatuses db := by
      unfold outboxStatuses
      rw [startNode_outbox]
    exact h.of_enqueue (by simp [hsame]) fun e he => Or.inl (hsame ▸ he)

theorem isClaimable_iff {st : OutboxStatus} :
    isClaimable st = true ↔ st = .pending ∨ st = .failed := by
  simp [isClaimable]

/-- A due row of an active peer is claimed when the limit allows. -/
theorem exists_job_of_due {db : Db} {now : Instant} {limit : Nat} {r : OutboxRow}
    (hr : r ∈ db.replicationOutbox.rows) (hst : isClaimable r.status = true)
    (hdue : r.nextRetryUtc ≤ now.currentTimestamp.secs)
    (hpeer : (activePeer db r.peerId).isSome = true)
    (hlimit : db.replicationOutbox.rows.length ≤ limit) :
    ∃ job ∈ (claimOutboxJobs db now limit).1, job.id = r.id := by
  apply exists_job_of_claimed
  unfold claimRows
  rw [List.take_of_length_le]
  · rw [List.mem_insertionSort, List.mem_filter]
    exact ⟨hr, by simp [isDue, hst, hdue, hpeer]⟩
  · rw [List.length_insertionSort]
    exact le_trans (List.length_filter_le _ _) hlimit

theorem recovers_iff {db : Db} : Recovers db ↔ AllClaimable db := by
  constructor
  · intro h r hr
    exact isClaimable_iff.mpr (h.status r hr)
  · intro h
    refine ⟨fun r hr => isClaimable_iff.mp (h r hr), ?_, fun r hr _ _ _ => h r hr⟩
    intro r hr now limit hdue hpeer hlimit
    exact exists_job_of_due hr (h r hr) hdue hpeer hlimit

theorem heldInFlight_of_allClaimable {db : Db} (h : AllClaimable db) : HeldInFlight ⟨db, []⟩ where
  held job hjob := by cases hjob
  distinct := List.Pairwise.nil
  others e he := Or.inl (allClaimable_iff.mp h e he)

/-- After a run whose earlier restarts were all clean, a restart leaves an outbox whose
rows can all be claimed again exactly when it is clean as well: no claimed job is held. -/
theorem restart_recovers_iff {db : Db} {t u : WorkerState} {config : ClusterConfig}
    (hstart : AllClaimable db) (hrun : Run step CleanRestart ⟨db, []⟩ t)
    (hrestart : step t (.restart config) = some u) :
    Recovers u.db ↔ CleanRestart t (.restart config) := by
  have hinv : HeldInFlight t :=
    hrun.invariant (fun _ _ _ h hok hstep => step_preserves h hok hstep)
      (heldInFlight_of_allClaimable hstart)
  have hsame : outboxStatuses u.db = outboxStatuses t.db := by
    cases hrestart
    unfold outboxStatuses
    rw [startNode_outbox]
  rw [recovers_iff, allClaimable_iff, hsame]
  unfold CleanRestart
  constructor
  · intro hall
    cases hheld : t.held with
    | nil => rfl
    | cons job rest =>
      have hflight := hinv.held job (by simp [hheld])
      have hbad := hall _ hflight
      simp [isClaimable] at hbad
  · intro hheld e he
    rcases hinv.others e he with hc | ⟨_, job, hjob, _⟩
    · exact hc
    · simp [hheld] at hjob

/-- A node with one peer and one uploaded object, whose PUT is pending. -/
def onePending : Db :=
  let s := AppState.migrated "node-1".toList
  (putObjectKeyedInBucket Platform.sample { s with db := startNode s.db sampleCluster }
    Instant.epoch (Uuid.numbered 1) ['k'] [] [some [97]] none {}).2.db

/-- A claimed and delivered job, and then a restart. -/
theorem restart_recovers_after_delivery :
    Recovers (startNode (completeOutboxJob
      (claimOutboxJobs onePending Instant.epoch claimLimit).2 1) sampleCluster) := by
  have hstart : AllClaimable onePending := by
    unfold AllClaimable
    decide
  have hrun : Run step CleanRestart ⟨onePending, []⟩ _ :=
    Run.tail .complete (Run.tail (.claim Instant.epoch) (Run.refl _) trivial rfl) trivial rfl
  exact (restart_recovers_iff hstart hrun
    (rfl : step _ (.restart sampleCluster) = some _)).mpr rfl

/-- A crash after the claim: the job stays IN_FLIGHT, a claim an hour later returns
nothing, and anti-entropy cannot enqueue the object again. -/
theorem restart_can_strand_job :
    let hour := Instant.ofSecs 3600 (by decide) (by decide)
    ∃ t u, Run step anyAction ⟨onePending, []⟩ t ∧ step t (.restart sampleCluster) = some u ∧
      u.db.replicationOutbox.rows.map (·.status) = [.inFlight] ∧
      (claimOutboxJobs u.db hour claimLimit).1 = [] ∧
      ∀ r ∈ u.db.object.rows,
        enqueuePutForPeer u.db hour "node-2".toList r.id r.filepath r.etag = some u.db := by
  intro hour
  refine ⟨_, _, run_of_exec (rfl : exec step ⟨onePending, []⟩ [.claim Instant.epoch] = some _),
    rfl, by decide, by decide, ?_⟩
  intro r hr
  have hone : r ∈ onePending.object.rows := hr
  rw [List.mem_singleton.mp hone]
  rfl

end MyS3.Worker
