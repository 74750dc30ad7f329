import MyS3.DeliveryOrder
import MyS3.Library.Backoff

/-!
No job starves. A claim takes the fifty due jobs with the lowest ids, and a failed job
comes back, so jobs that always fail could keep a later one out. They wait 30 seconds
more after each attempt, though, so that within a bounded number of claims each due job
of an active peer is claimed, whichever deliveries fail and whatever is enqueued.
-/

namespace MyS3.JobProgress

open Library.Strings Library.Tables Library.Runs Library.Backoff
open Models Objects Database Engine Repository Outbox PeerManager Http S3Routes
open DeliveryOrder (State Action Outcome withoutObject settle)
open Worker (claimLimit onePending)

/-- A node whose claims are recorded. -/
structure Watched where
  node : State
  /-- The time of the last claim, in seconds. -/
  lastClaim : Int
  /-- The ids that each claim took. -/
  batches : List (List Int)

def step (w : Watched) (a : Action) : Option Watched :=
  (DeliveryOrder.step w.node a).map fun node =>
    match a with
    | .claim now =>
      { node := node
        lastClaim := now.currentTimestamp.secs
        batches := w.batches ++ [(claimRows w.node.db now claimLimit).map (·.id)] }
    | _ => { w with node := node }

/-- The clock does not go back, one claim follows another within a number of seconds, and
the peer stays active. -/
def Timely (peerId : Text) (gap : ℕ) (w : Watched) : Action → Prop
  | .claim now => w.lastClaim ≤ now.currentTimestamp.secs ∧
      now.currentTimestamp.secs ≤ w.lastClaim + gap
  | .deliver _ (.failed now) => w.lastClaim ≤ now.currentTimestamp.secs
  | .change db => (activePeer db peerId).isSome = true
  | .restart config => (activePeer (startNode w.node.db config) peerId).isSome = true
  | _ => True

/-- The rows that were in the outbox before a row. -/
def earlierJobs (db : Db) (r : OutboxRow) : List Int :=
  (db.replicationOutbox.rows.filter fun q => q.id < r.id).map (·.id)

/-- How often a row was claimed. -/
def Watched.claims (w : Watched) (id : Int) : ℕ := w.batches.flatten.count id

/-- A row that was claimed `n` times was attempted almost as often, and while it can be
claimed again its retry time lies behind the waits of `n` failed attempts. -/
structure Backed (start : Int) (n : ℕ) (q : OutboxRow) : Prop where
  attempts : (n : Int) ≤ q.attemptCount + 1
  failed : isClaimable q.status = true → (n : Int) ≤ q.attemptCount
  retry : isClaimable q.status = true → n = 0 ∨
    start + ((15 * (n * (n + 1)) : ℕ) : Int) ≤ q.nextRetryUtc

/-- A job is not claimed yet: it is due, and every claim so far was full of earlier jobs. -/
structure Waiting (jobs : List Int) (start : Int) (gap : ℕ) (r : OutboxRow) (w : Watched) :
    Prop where
  row : ∃ q ∈ w.node.db.replicationOutbox.rows, withoutObject q = withoutObject r
  peer : (activePeer w.node.db r.peerId).isSome = true
  held : ∀ job ∈ w.node.held, job.id ≠ r.id
  earlier : ∀ q ∈ w.node.db.replicationOutbox.rows, q.id < r.id → q.id ∈ jobs
  width : ∀ b ∈ w.batches, b.length = claimLimit
  taken : ∀ b ∈ w.batches, ∀ id ∈ b, id ∈ jobs ∧ id < r.id
  started : start ≤ w.lastClaim
  elapsed : w.lastClaim ≤ start + gap * w.batches.length
  waits : ∀ id, ((30 * (w.claims id * (w.claims id - 1)) : ℕ) : Int) ≤ 2 * (w.lastClaim - start)
  backed : ∀ q ∈ w.node.db.replicationOutbox.rows, Backed start (w.claims q.id) q

theorem withoutObject_eq {a b : OutboxRow} (h : withoutObject a = withoutObject b) :
    a.id = b.id ∧ a.peerId = b.peerId ∧ a.status = b.status ∧ a.attemptCount = b.attemptCount ∧
      a.nextRetryUtc = b.nextRetryUtc := by
  simp only [withoutObject, OutboxRow.mk.injEq, true_and] at h
  obtain ⟨hid, hpeer, _, _, _, hstatus, hattempts, hretry⟩ := h
  exact ⟨hid, hpeer, hstatus, hattempts, hretry⟩

theorem backed_congr {start : Int} {n : ℕ} {a b : OutboxRow}
    (h : withoutObject a = withoutObject b) (hb : Backed start n b) : Backed start n a := by
  obtain ⟨_, _, hstatus, hattempts, hretry⟩ := withoutObject_eq h
  constructor
  · rw [hattempts]
    exact hb.attempts
  · rw [hstatus, hattempts]
    exact hb.failed
  · rw [hstatus, hretry]
    exact hb.retry

/-- A row that no claim took yet. -/
theorem backed_zero {start : Int} {q : OutboxRow} (h : 0 ≤ q.attemptCount) : Backed start 0 q where
  attempts := by
    simp only [Nat.cast_zero]
    omega
  failed _ := h
  retry _ := Or.inl rfl

/-- A claim that leaves a due row of an active peer behind is full of earlier rows. -/
theorem claimRows_full {db : Db} {now : Instant} {limit : Nat} {q : OutboxRow}
    (hq : q ∈ db.replicationOutbox.rows) (hdue : isDue now q = true)
    (hpeer : (activePeer db q.peerId).isSome = true) (hleft : q ∉ claimRows db now limit) :
    (claimRows db now limit).length = limit ∧ ∀ c ∈ claimRows db now limit, c.id < q.id := by
  unfold claimRows at hleft ⊢
  have hmem : q ∈ (db.replicationOutbox.rows.filter fun r =>
      isDue now r && (activePeer db r.peerId).isSome).insertionSort fun a b => a.id ≤ b.id := by
    rw [List.mem_insertionSort, List.mem_filter, hdue, hpeer]
    exact ⟨hq, rfl⟩
  have hsorted := List.pairwise_insertionSort (fun a b : OutboxRow => a.id ≤ b.id)
    (db.replicationOutbox.rows.filter fun r => isDue now r && (activePeer db r.peerId).isSome)
  have hrows : ∀ c ∈ (db.replicationOutbox.rows.filter fun r =>
      isDue now r && (activePeer db r.peerId).isSome).insertionSort fun a b => a.id ≤ b.id,
      c ∈ db.replicationOutbox.rows := by
    intro c hc
    rw [List.mem_insertionSort] at hc
    exact List.mem_of_mem_filter hc
  generalize (db.replicationOutbox.rows.filter fun r =>
    isDue now r && (activePeer db r.peerId).isSome).insertionSort (fun a b => a.id ≤ b.id) = due
    at hleft hmem hsorted hrows
  rw [← List.take_append_drop limit due, List.mem_append] at hmem
  have hdrop := hmem.resolve_left hleft
  constructor
  · rw [List.length_take]
    have hlong := List.length_pos_of_mem hdrop
    rw [List.length_drop] at hlong
    omega
  · intro c hc
    rw [← List.take_append_drop limit due, List.pairwise_append] at hsorted
    refine lt_of_le_of_ne (hsorted.2.2 c hc q hdrop) ?_
    intro hid
    have hsame := db.replicationOutbox.eq_of_id (hrows c (List.mem_of_mem_take hc)) hq hid
    exact hleft (hsame ▸ hc)

/-- Rows that are kept, up to their references to objects, and new jobs after them. -/
structure Grows (t t' : OutboxTable) : Prop where
  nextId : t.nextId ≤ t'.nextId
  kept : ∀ q ∈ t.rows, ∃ q' ∈ t'.rows, withoutObject q' = withoutObject q
  new : ∀ q' ∈ t'.rows, (∃ q ∈ t.rows, withoutObject q' = withoutObject q) ∨
    (t.nextId ≤ q'.id ∧ q'.attemptCount = 0)

theorem grows_of_rows {t t' : OutboxTable} (hnext : t.nextId ≤ t'.nextId)
    (h : t'.rows.map withoutObject = t.rows.map withoutObject) : Grows t t' where
  nextId := hnext
  kept q hq := by
    have hmem := List.mem_map_of_mem (f := withoutObject) hq
    rw [← h] at hmem
    exact List.mem_map.mp hmem
  new q' hq' := by
    have hmem := List.mem_map_of_mem (f := withoutObject) hq'
    rw [h] at hmem
    obtain ⟨q, hq, hsame⟩ := List.mem_map.mp hmem
    exact Or.inl ⟨q, hq, hsame.symm⟩

theorem grows_trans {t t' t'' : OutboxTable} (h : Grows t t') (h' : Grows t' t'') :
    Grows t t'' where
  nextId := h.nextId.trans h'.nextId
  kept q hq := by
    obtain ⟨q', hq', hsame⟩ := h.kept q hq
    obtain ⟨q'', hq'', hsame'⟩ := h'.kept q' hq'
    exact ⟨q'', hq'', hsame'.trans hsame⟩
  new q'' hq'' := by
    rcases h'.new q'' hq'' with ⟨q', hq', hsame'⟩ | hnew
    · obtain ⟨hid, _, _, hattempts, _⟩ := withoutObject_eq hsame'
      rcases h.new q' hq' with ⟨q, hq, hsame⟩ | hnew
      · exact Or.inl ⟨q, hq, hsame'.trans hsame⟩
      · exact Or.inr ⟨hid ▸ hnew.1, hattempts.trans hnew.2⟩
    · exact Or.inr ⟨h.nextId.trans hnew.1, hnew.2⟩

theorem grows_insert (t : OutboxTable) (now : Instant) (peerId : Text) (objectId : Int)
    (filepathUuid etag : Text) (operation : OutboxOperation) :
    Grows t (t.insert peerId objectId filepathUuid etag operation now) where
  nextId := by
    unfold OutboxTable.insert
    simp
  kept q hq := ⟨q, List.mem_append_left _ hq, rfl⟩
  new q' hq' := by
    rcases List.mem_append.mp hq' with hq' | hq'
    · exact Or.inl ⟨q', hq', rfl⟩
    · rw [List.mem_singleton.mp hq']
      exact Or.inr ⟨le_refl _, rfl⟩

theorem grows_enqueueAll (now : Instant) (objectId : Int) (filepathUuid etag : Text)
    (operation : OutboxOperation) (peers : List ClusterPeer) (t : OutboxTable) :
    Grows t (enqueueAll now objectId filepathUuid etag operation t peers) := by
  induction peers generalizing t with
  | nil => exact grows_of_rows (le_refl _) rfl
  | cons p rest ih => exact grows_trans (grows_insert t now _ _ _ _ _) (ih _)

variable {jobs : List Int} {start : Int} {gap : ℕ} {r : OutboxRow} {w : Watched}

theorem Waiting.claims_zero (h : Waiting jobs start gap r w) {id : Int} (hid : r.id ≤ id) :
    w.claims id = 0 := by
  unfold Watched.claims
  rw [List.count_eq_zero]
  intro hmem
  obtain ⟨b, hb, hidb⟩ := List.mem_flatten.mp hmem
  have hlt := (h.taken b hb id hidb).2
  omega

/-- A change that keeps the rows and adds jobs lets the job wait on. -/
theorem Waiting.grows (h : Waiting jobs start gap r w) {node : State}
    (hgrows : Grows w.node.db.replicationOutbox node.db.replicationOutbox)
    (hpeer : (activePeer node.db r.peerId).isSome = true)
    (hheld : ∀ job ∈ node.held, job.id ≠ r.id) :
    Waiting jobs start gap r { w with node := node } where
  row := by
    obtain ⟨q, hq, hsame⟩ := h.row
    obtain ⟨q', hq', hsame'⟩ := hgrows.kept q hq
    exact ⟨q', hq', hsame'.trans hsame⟩
  peer := hpeer
  held := hheld
  earlier := by
    intro q' hq' hlt
    rcases hgrows.new q' hq' with ⟨q, hq, hsame⟩ | hnew
    · have hid := (withoutObject_eq hsame).1
      rw [hid] at hlt ⊢
      exact h.earlier q hq hlt
    · obtain ⟨q, hq, hsame⟩ := h.row
      have hold := w.node.db.replicationOutbox.id_lt q hq
      have hid := (withoutObject_eq hsame).1
      omega
  width := h.width
  taken := h.taken
  started := h.started
  elapsed := h.elapsed
  waits := h.waits
  backed := by
    intro q' hq'
    rcases hgrows.new q' hq' with ⟨q, hq, hsame⟩ | hnew
    · rw [(withoutObject_eq hsame).1]
      exact backed_congr hsame (h.backed q hq)
    · obtain ⟨q, hq, hsame⟩ := h.row
      have hold := w.node.db.replicationOutbox.id_lt q hq
      have hid := (withoutObject_eq hsame).1
      have hzero : w.claims q'.id = 0 := h.claims_zero (by omega)
      show Backed start (w.claims q'.id) q'
      rw [hzero]
      exact backed_zero (le_of_eq hnew.2.symm)

/-- A row after its job is processed is one from before, or the failed one. -/
theorem mem_settle {db : Db} {id : Int} {outcome : Outcome} {q' : OutboxRow}
    (h : q' ∈ (settle db id outcome).replicationOutbox.rows) :
    q' ∈ db.replicationOutbox.rows ∨
      ∃ now, outcome = .failed now ∧ ∃ q ∈ db.replicationOutbox.rows, failRow now q = q' := by
  cases outcome with
  | completed => exact Or.inl (List.mem_of_mem_filter h)
  | failed now =>
    rcases mem_updateRows.mp h with ⟨hq, _⟩ | ⟨q, hq, _, hsame⟩
    · exact Or.inl hq
    · exact Or.inr ⟨now, rfl, q, hq, hsame⟩
  | unrecorded => exact Or.inl h

theorem settle_other {db : Db} {id : Int} (outcome : Outcome) {q : OutboxRow}
    (hq : q ∈ db.replicationOutbox.rows) (hne : q.id ≠ id) :
    q ∈ (settle db id outcome).replicationOutbox.rows := by
  cases outcome with
  | completed => exact List.mem_filter.mpr ⟨hq, by simpa using hne⟩
  | failed now => exact mem_updateRows.mpr (Or.inl ⟨hq, by simpa using hne⟩)
  | unrecorded => exact hq

theorem settle_peers (db : Db) (id : Int) (outcome : Outcome) :
    (settle db id outcome).clusterPeer = db.clusterPeer := by
  cases outcome <;> rfl

/-- A failed attempt pays for the claim before it: the next wait is longer than all before. -/
theorem backed_failRow {n : ℕ} {q : OutboxRow} {now : Instant} {last : Int}
    (h : Backed start n q) (hwaits : ((30 * (n * (n - 1)) : ℕ) : Int) ≤ 2 * (last - start))
    (hlast : last ≤ now.currentTimestamp.secs) : Backed start n (failRow now q) := by
  have hattempts := h.attempts
  constructor
  · show (n : Int) ≤ q.attemptCount + 1 + 1
    omega
  · intro _
    exact hattempts
  · intro _
    cases n with
    | zero => exact Or.inl rfl
    | succ k =>
      right
      show start + ((15 * ((k + 1) * (k + 1 + 1)) : ℕ) : Int) ≤
        now.currentTimestamp.secs + (q.attemptCount + 1) * 30
      have hsplit : 2 * (15 * ((k + 1) * (k + 1 + 1))) = 30 * ((k + 1) * k) + 60 * (k + 1) := by ring
      rw [Nat.add_sub_cancel] at hwaits
      omega

/-- Whatever becomes of another job, the job waits on. -/
theorem Waiting.settle (h : Waiting jobs start gap r w) {job : OutboxJob} {node : State}
    {outcome : Outcome} (hother : job.id ≠ r.id)
    (hdb : node.db = DeliveryOrder.settle w.node.db job.id outcome)
    (hheld : ∀ j ∈ node.held, j.id ≠ r.id)
    (htime : ∀ now, outcome = .failed now → w.lastClaim ≤ now.currentTimestamp.secs) :
    Waiting jobs start gap r { w with node := node } where
  row := by
    obtain ⟨q, hq, hsame⟩ := h.row
    refine ⟨q, ?_, hsame⟩
    rw [hdb]
    apply settle_other outcome hq
    rw [(withoutObject_eq hsame).1]
    exact hother.symm
  peer := by
    rw [← h.peer]
    unfold activePeer
    rw [hdb, settle_peers]
  held := hheld
  earlier := by
    intro q' hq' hlt
    rw [hdb] at hq'
    rcases mem_settle hq' with hq | ⟨now, _, q, hq, rfl⟩
    · exact h.earlier q' hq hlt
    · exact h.earlier q hq hlt
  width := h.width
  taken := h.taken
  started := h.started
  elapsed := h.elapsed
  waits := h.waits
  backed := by
    intro q' hq'
    rw [hdb] at hq'
    rcases mem_settle hq' with hq | ⟨now, hfailed, q, hq, rfl⟩
    · exact h.backed q' hq
    · exact backed_failRow (h.backed q hq) (h.waits q.id) (htime now hfailed)

theorem claims_after (w : Watched) (node : State) (last : Int) (batch : List Int) (id : Int) :
    (⟨node, last, w.batches ++ [batch]⟩ : Watched).claims id = w.claims id + batch.count id := by
  unfold Watched.claims
  simp

/-- The rows after a claim: the claimed ones are in flight, the others as they were. -/
theorem mem_claimed {db : Db} {now : Instant} {limit : Nat} {q' : OutboxRow}
    (h : q' ∈ (claimOutboxJobs db now limit).2.replicationOutbox.rows) :
    (q' ∈ db.replicationOutbox.rows ∧ q'.id ∉ (claimRows db now limit).map (·.id)) ∨
      ∃ c ∈ claimRows db now limit, { c with status := .inFlight } = q' := by
  rcases mem_updateRows.mp h with ⟨hq, hnone⟩ | ⟨q, hq, hsome, rfl⟩
  · refine Or.inl ⟨hq, ?_⟩
    intro hmem
    obtain ⟨c, hc, hid⟩ := List.mem_map.mp hmem
    rw [List.any_eq_false] at hnone
    exact hnone c hc (beq_iff_eq.mpr hid)
  · obtain ⟨c, hc, hid⟩ := List.any_eq_true.mp hsome
    have hsame := db.replicationOutbox.eq_of_id (mem_claimRows hc).1 hq (beq_iff_eq.mp hid)
    exact Or.inr ⟨c, hc, by rw [hsame]⟩

theorem unclaimed_kept {db : Db} {now : Instant} {limit : Nat} {q : OutboxRow}
    (hq : q ∈ db.replicationOutbox.rows) (hleft : q.id ∉ (claimRows db now limit).map (·.id)) :
    q ∈ (claimOutboxJobs db now limit).2.replicationOutbox.rows := by
  refine mem_updateRows.mpr (Or.inl ⟨hq, ?_⟩)
  rw [List.any_eq_false]
  intro c hc hid
  exact hleft (List.mem_map.mpr ⟨c, hc, beq_iff_eq.mp hid⟩)

/-- A claim that passes over the job is full of earlier jobs, each of which has waited for
its attempts before. -/
theorem Waiting.claim (h : Waiting jobs start gap r w) {now : Instant} {node : State}
    (hdb : node.db = (claimOutboxJobs w.node.db now claimLimit).2)
    (hheld : ∀ j ∈ node.held, j.id ≠ r.id) (hclaimable : isClaimable r.status = true)
    (hdue : r.nextRetryUtc ≤ start) (hlater : w.lastClaim ≤ now.currentTimestamp.secs)
    (hgap : now.currentTimestamp.secs ≤ w.lastClaim + gap)
    (hleft : r.id ∉ (claimRows w.node.db now claimLimit).map (·.id)) :
    Waiting jobs start gap r ⟨node, now.currentTimestamp.secs,
      w.batches ++ [(claimRows w.node.db now claimLimit).map (·.id)]⟩ := by
  obtain ⟨q, hq, hsame⟩ := h.row
  obtain ⟨hid, hpeerId, hstatus, _, hretry⟩ := withoutObject_eq hsame
  have hstarted := h.started
  have hqdue : isDue now q = true := by
    unfold isDue
    rw [hstatus, hclaimable, hretry, Bool.true_and, decide_eq_true_eq]
    omega
  have hunclaimed : q ∉ claimRows w.node.db now claimLimit := by
    intro hmem
    exact hleft (List.mem_map.mpr ⟨q, hmem, hid⟩)
  obtain ⟨hfull, hbefore⟩ := claimRows_full hq hqdue (hpeerId.symm ▸ h.peer) hunclaimed
  rw [hid] at hbefore
  have hnodup : ((claimRows w.node.db now claimLimit).map (·.id)).Nodup :=
    List.pairwise_map.mpr (Worker.claimRows_distinct w.node.db now claimLimit)
  have hclaimed : ∀ c ∈ claimRows w.node.db now claimLimit,
      Backed start (w.claims c.id) c ∧ isClaimable c.status = true ∧
        c.nextRetryUtc ≤ now.currentTimestamp.secs := by
    intro c hc
    obtain ⟨hcrow, hcdue, _⟩ := mem_claimRows hc
    unfold isDue at hcdue
    rw [Bool.and_eq_true, decide_eq_true_eq] at hcdue
    exact ⟨h.backed c hcrow, hcdue⟩
  have hcount : ∀ c ∈ claimRows w.node.db now claimLimit,
      (⟨node, now.currentTimestamp.secs, w.batches ++
        [(claimRows w.node.db now claimLimit).map (·.id)]⟩ : Watched).claims c.id =
          w.claims c.id + 1 := by
    intro c hc
    rw [claims_after, List.count_eq_one_of_mem hnodup (List.mem_map_of_mem hc)]
  have hkept : ∀ id ∉ (claimRows w.node.db now claimLimit).map (·.id),
      (⟨node, now.currentTimestamp.secs, w.batches ++
        [(claimRows w.node.db now claimLimit).map (·.id)]⟩ : Watched).claims id = w.claims id := by
    intro id hmem
    rw [claims_after, List.count_eq_zero_of_not_mem hmem, Nat.add_zero]
  refine {
    row := ⟨q, ?_, hsame⟩
    peer := ?_
    held := hheld
    earlier := ?_
    width := ?_
    taken := ?_
    started := le_trans hstarted hlater
    elapsed := ?_
    waits := ?_
    backed := ?_ }
  · rw [hdb]
    exact unclaimed_kept hq (hid.symm ▸ hleft)
  · rw [hdb]
    exact h.peer
  · intro q' hq' hlt
    rw [hdb] at hq'
    rcases mem_claimed hq' with ⟨hold, _⟩ | ⟨c, hc, rfl⟩
    · exact h.earlier q' hold hlt
    · exact h.earlier c (mem_claimRows hc).1 hlt
  · intro b hb
    rcases List.mem_append.mp hb with hb | hb
    · exact h.width b hb
    · rw [List.mem_singleton.mp hb, List.length_map]
      exact hfull
  · intro b hb id hmem
    rcases List.mem_append.mp hb with hb | hb
    · exact h.taken b hb id hmem
    · rw [List.mem_singleton.mp hb] at hmem
      obtain ⟨c, hc, rfl⟩ := List.mem_map.mp hmem
      exact ⟨h.earlier c (mem_claimRows hc).1 (hbefore c hc), hbefore c hc⟩
  · have helapsed := h.elapsed
    rw [List.length_append, List.length_singleton, Nat.cast_add, Nat.cast_one, mul_add, mul_one]
    simp only
    omega
  · intro id
    by_cases hmem : id ∈ (claimRows w.node.db now claimLimit).map (·.id)
    · obtain ⟨c, hc, rfl⟩ := List.mem_map.mp hmem
      obtain ⟨hbacked, hcclaimable, hcdue⟩ := hclaimed c hc
      rw [hcount c hc, Nat.add_sub_cancel]
      rcases hbacked.retry hcclaimable with hzero | hwaited
      · rw [hzero]
        simp only [Nat.mul_zero, Nat.cast_zero]
        omega
      · have hswap : 30 * ((w.claims c.id + 1) * w.claims c.id) =
            2 * (15 * (w.claims c.id * (w.claims c.id + 1))) := by ring
        simp only
        omega
    · rw [hkept id hmem]
      have hwaits := h.waits id
      simp only
      omega
  · intro q' hq'
    rw [hdb] at hq'
    rcases mem_claimed hq' with ⟨hold, hother⟩ | ⟨c, hc, rfl⟩
    · rw [hkept q'.id hother]
      exact h.backed q' hold
    · obtain ⟨hbacked, hcclaimable, _⟩ := hclaimed c hc
      have hattempts := hbacked.failed hcclaimable
      refine ⟨?_, ?_, ?_⟩
      · show (((_ : Watched).claims c.id : ℕ) : Int) ≤ c.attemptCount + 1
        rw [hcount c hc]
        rw [Nat.cast_add, Nat.cast_one]
        omega
      · intro hstatus
        cases hstatus
      · intro hstatus
        cases hstatus

/-- The job was claimed, or waits. -/
def Served (jobs : List Int) (start : Int) (gap : ℕ) (r : OutboxRow) (w : Watched) : Prop :=
  r.id ∈ w.batches.flatten ∨ Waiting jobs start gap r w

/-- One step: the job is claimed, or waits on. -/
theorem Waiting.step (h : Waiting jobs start gap r w) {a : Action} {t : Watched}
    (hclaimable : isClaimable r.status = true) (hdue : r.nextRetryUtc ≤ start)
    (hok : Timely r.peerId gap w a) (hstep : JobProgress.step w a = some t) :
    Served jobs start gap r t := by
  obtain ⟨node, hnode, rfl⟩ := Option.map_eq_some_iff.mp hstep
  cases a with
  | enqueueForActivePeers now objectId filepathUuid etag operation excludePeerId =>
    cases hnode
    exact Or.inr (h.grows (grows_enqueueAll now objectId filepathUuid etag operation _ _) h.peer
      h.held)
  | enqueuePutForPeer now peerId objectId filepathUuid etag =>
    obtain ⟨db, henqueue, rfl⟩ := Option.map_eq_some_iff.mp hnode
    unfold Outbox.enqueuePutForPeer at henqueue
    split_ifs at henqueue
    · cases henqueue
      exact Or.inr h
    · cases henqueue
      exact Or.inr (h.grows (grows_insert _ now _ _ _ _ _) h.peer h.held)
  | change db =>
    simp only [DeliveryOrder.step, Option.ite_none_right_eq_some] at hnode
    obtain ⟨⟨hrows, hnext⟩, hnode⟩ := hnode
    cases hnode
    exact Or.inr (h.grows (grows_of_rows (ge_of_eq hnext) hrows) hok h.held)
  | claim now =>
    simp only [DeliveryOrder.step, Option.ite_none_right_eq_some] at hnode
    obtain ⟨_, hnode⟩ := hnode
    cases hnode
    by_cases hclaimed : r.id ∈ (claimRows w.node.db now claimLimit).map (·.id)
    · refine Or.inl (List.mem_flatten.mpr ⟨_, ?_, hclaimed⟩)
      exact List.mem_append_right _ (List.mem_singleton_self _)
    · refine Or.inr (h.claim rfl ?_ hclaimable hdue hok.1 hok.2 hclaimed)
      intro job hjob hid
      obtain ⟨c, hc, p, _, rfl⟩ := mem_claimOutboxJobs hjob
      exact hclaimed (List.mem_map.mpr ⟨c, hc, hid⟩)
  | deliver acked outcome =>
    cases hheld : w.node.held with
    | nil => simp [DeliveryOrder.step, hheld] at hnode
    | cons job rest =>
      simp only [DeliveryOrder.step, hheld, Option.ite_none_left_eq_some] at hnode
      obtain ⟨_, hnode⟩ := hnode
      cases hnode
      have hother := fun j hj => h.held j (hheld ▸ hj)
      refine Or.inr (h.settle (hother job List.mem_cons_self) rfl ?_ ?_)
      · exact fun j hj => hother j (List.mem_cons_of_mem job hj)
      · intro now hfailed
        rw [hfailed] at hok
        exact hok
  | restart config =>
    cases hnode
    refine Or.inr (h.grows ?_ hok fun j hj => by cases hj)
    rw [startNode_outbox]
    exact grows_of_rows (le_refl _) rfl

theorem claimed_step {a : Action} {t : Watched} {id : Int} (h : id ∈ w.batches.flatten)
    (hstep : JobProgress.step w a = some t) : id ∈ t.batches.flatten := by
  obtain ⟨node, _, rfl⟩ := Option.map_eq_some_iff.mp hstep
  cases a <;> simp_all

/-- Before the first claim a due job waits. -/
theorem waiting_start {s : State} (hr : r ∈ s.db.replicationOutbox.rows)
    (hpeer : (activePeer s.db r.peerId).isSome = true) (hheld : ∀ job ∈ s.held, job.id ≠ r.id)
    (hattempts : ∀ q ∈ s.db.replicationOutbox.rows, 0 ≤ q.attemptCount) :
    Waiting (earlierJobs s.db r) start gap r ⟨s, start, []⟩ where
  row := ⟨r, hr, rfl⟩
  peer := hpeer
  held := hheld
  earlier q hq hlt := List.mem_map.mpr ⟨q, List.mem_filter.mpr ⟨hq, decide_eq_true hlt⟩, rfl⟩
  width b hb := by cases hb
  taken b hb := by cases hb
  started := le_refl start
  elapsed := by simp
  waits id := by simp [Watched.claims]
  backed q hq := backed_zero (hattempts q hq)

/-- The claims that pass over a waiting job are bounded. -/
theorem Waiting.bounded (h : Waiting jobs start gap r w) :
    75000 * w.batches.length ≤ jobs.length * (1500 + 2 * gap * jobs.length) := by
  have hwaits : Waits jobs.toFinset w.batches 30 gap := by
    intro id _
    have hwait := h.waits id
    have helapsed := h.elapsed
    unfold Watched.claims at hwait
    have hcast : ((30 * (w.batches.flatten.count id * (w.batches.flatten.count id - 1)) : ℕ) : Int) ≤
        ((2 * (gap * w.batches.length) : ℕ) : Int) := by
      push_cast at hwait ⊢
      omega
    exact Int.ofNat_le.mp hcast
  have hbound := rounds_bound h.width (fun b hb id hid => List.mem_toFinset.mpr (h.taken b hb id hid).1)
    hwaits
  have hcard := jobs.toFinset_card_le
  calc
    75000 * w.batches.length = claimLimit * 30 * (claimLimit * w.batches.length) := by
      unfold claimLimit
      ring
    _ ≤ jobs.toFinset.card * (claimLimit * 30 + 2 * gap * jobs.toFinset.card) := hbound
    _ ≤ jobs.length * (1500 + 2 * gap * jobs.length) :=
      Nat.mul_le_mul hcard (Nat.add_le_add_left (Nat.mul_le_mul_left _ hcard) _)

/-- Whatever deliveries fail and whatever is enqueued, a due job of a peer that stays
active is claimed within a number of claims that is quadratic in the number of jobs
before it, when one claim follows another within `gap` seconds. -/
theorem no_job_starves (s : State) (t : Watched) (r : OutboxRow) (start : Int) (gap : ℕ)
    (hr : r ∈ s.db.replicationOutbox.rows) (hclaimable : isClaimable r.status = true)
    (hdue : r.nextRetryUtc ≤ start) (hpeer : (activePeer s.db r.peerId).isSome = true)
    (hheld : ∀ job ∈ s.held, job.id ≠ r.id)
    (hattempts : ∀ q ∈ s.db.replicationOutbox.rows, 0 ≤ q.attemptCount)
    (hrun : Run step (Timely r.peerId gap) ⟨s, start, []⟩ t)
    (hlong : (earlierJobs s.db r).length * (1500 + 2 * gap * (earlierJobs s.db r).length) <
      75000 * t.batches.length) :
    r.id ∈ t.batches.flatten := by
  have hstep : ∀ w a u, Served (earlierJobs s.db r) start gap r w → Timely r.peerId gap w a →
      step w a = some u → Served (earlierJobs s.db r) start gap r u := by
    intro w a u hserved hok hstep
    rcases hserved with hclaimed | hwaiting
    · exact Or.inl (claimed_step hclaimed hstep)
    · exact hwaiting.step hclaimable hdue hok hstep
  rcases hrun.invariant hstep (Or.inr (waiting_start hr hpeer hheld hattempts)) with
    hclaimed | hwaiting
  · exact hclaimed
  · exact absurd hwaiting.bounded (not_le_of_gt hlong)

/-- A node with two pending jobs. -/
def twoPending : Db :=
  enqueuePutForActivePeers onePending Instant.epoch 1 "f".toList [] "node-1".toList

/-- The second job is claimed, while the delivery of the first one fails. -/
theorem second_job_claimed :
    ∃ t, Run step (Timely "node-2".toList 2) ⟨⟨twoPending, [], []⟩, 0, []⟩ t ∧
      t.node.db.replicationOutbox.rows.map (·.status) = [.failed, .inFlight] ∧
      2 ∈ t.batches.flatten := by
  have hclaim : Timely "node-2".toList 2 ⟨⟨twoPending, [], []⟩, 0, []⟩ (.claim Instant.epoch) := by
    unfold Timely
    decide
  have hrun : Run step (Timely "node-2".toList 2) ⟨⟨twoPending, [], []⟩, 0, []⟩ _ :=
    Run.tail (.deliver false (.failed Instant.epoch))
      (Run.tail (.claim Instant.epoch) (Run.refl _) hclaim rfl) (le_refl _) rfl
  refine ⟨_, hrun, by decide, ?_⟩
  exact no_job_starves ⟨twoPending, [], []⟩ _
    (OutboxTable.newJob 2 "node-2".toList 1 "f".toList [] .put Instant.epoch) 0 2 (by decide) rfl
    (by decide) (by decide) (fun job hjob => by cases hjob) (by decide) hrun (by decide)

end MyS3.JobProgress
