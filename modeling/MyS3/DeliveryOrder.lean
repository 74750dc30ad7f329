import MyS3.Purge
import MyS3.Worker

/-!
The order of acknowledgements. A claim takes the due rows in the order of their ids, but
a failed job gets a retry time of its own, so a later job of the same peer and filepath
can be claimed before it. A run keeps the order when no claim takes a job past an
earlier one, and no delivery fails in front of a later one of its batch.
-/

namespace MyS3.DeliveryOrder

open Library.Strings Library.Tables Library.Runs
open Models Objects Database Engine Repository Outbox PeerManager Http S3Routes Purge
open Worker (claimLimit onePending)

/-- The peer answered success for a job; the outbox is the one at that moment. -/
structure Ack where
  job : OutboxJob
  outbox : List OutboxRow

structure State where
  db : Db
  held : List OutboxJob
  acks : List Ack

/-- What becomes of the row of a processed job. -/
inductive Outcome
  | completed
  | failed (now : Instant)
  /-- The call on the database fails, or the process dies before it. -/
  | unrecorded
  deriving DecidableEq

inductive Action
  | enqueueForActivePeers (now : Instant) (objectId : Int) (filepathUuid etag : Text)
      (operation : OutboxOperation) (excludePeerId : Text)
  | enqueuePutForPeer (now : Instant) (peerId : Text) (objectId : Int) (filepathUuid etag : Text)
  /-- Any change of the database that keeps the outbox, up to its references to objects. -/
  | change (db : Db)
  | claim (now : Instant)
  /-- The first held job is processed. A delivery that fails may have been acknowledged:
  the answer is lost. -/
  | deliver (acked : Bool) (outcome : Outcome)
  | restart (config : ClusterConfig)

def withoutObject (r : OutboxRow) : OutboxRow := { r with objectId := none }

def settle (db : Db) (id : Int) : Outcome → Db
  | .completed => completeOutboxJob db id
  | .failed now => failOutboxJob db now id
  | .unrecorded => db

def step (s : State) : Action → Option State
  | .enqueueForActivePeers now objectId filepathUuid etag operation excludePeerId =>
    some { s with db :=
      enqueueForActivePeers s.db now objectId filepathUuid etag operation excludePeerId }
  | .enqueuePutForPeer now peerId objectId filepathUuid etag =>
    (enqueuePutForPeer s.db now peerId objectId filepathUuid etag).map fun db => { s with db := db }
  | .change db =>
    if db.replicationOutbox.rows.map withoutObject = s.db.replicationOutbox.rows.map withoutObject ∧
        db.replicationOutbox.nextId = s.db.replicationOutbox.nextId then
      some { s with db := db }
    else none
  | .claim now =>
    if s.held = [] then
      some { s with
        db := (claimOutboxJobs s.db now claimLimit).2
        held := (claimOutboxJobs s.db now claimLimit).1 }
    else none
  | .deliver acked outcome =>
    match s.held with
    | [] => none
    | job :: rest =>
      if outcome = .completed ∧ acked = false then none
      else
        some {
          db := settle s.db job.id outcome
          held := rest
          acks := if acked then s.acks ++ [⟨job, s.db.replicationOutbox.rows⟩] else s.acks }
  | .restart config => some { s with db := startNode s.db config, held := [] }

/-- Jobs of one peer and one filepath. -/
def SameTarget (a b : OutboxJob) : Prop := a.peerId = b.peerId ∧ a.filepathUuid = b.filepathUuid

/-- A row of the peer and the filepath of a job. -/
def RowFor (r : OutboxRow) (job : OutboxJob) : Prop :=
  r.peerId = job.peerId ∧ r.filepathUuid = job.filepathUuid

/-- Each peer acknowledges the jobs of a filepath in the order of their ids, and none while
an earlier one is in the outbox. -/
structure InOrder (acks : List Ack) : Prop where
  order : acks.Pairwise fun a b => SameTarget a.job b.job → a.job.id ≤ b.job.id
  earlier : ∀ a ∈ acks, ∀ r ∈ a.outbox, RowFor r a.job → a.job.id ≤ r.id

/-- A claim leaves no earlier row of a claimed job's peer and filepath behind, and a job
that is not completed has no later one of its peer and filepath in the batch. -/
def NoOvertaking (s : State) : Action → Prop
  | .claim now => ∀ r ∈ claimRows s.db now claimLimit, ∀ e ∈ s.db.replicationOutbox.rows,
      e.peerId = r.peerId → e.filepathUuid = r.filepathUuid → e.id < r.id →
        e ∈ claimRows s.db now claimLimit
  | .deliver _ outcome => outcome ≠ .completed → ∀ job rest, s.held = job :: rest →
      ∀ later ∈ rest, ¬ SameTarget later job
  | _ => True

/-- Id, peer and filepath of a row: what the order is about. -/
def rowKey (r : OutboxRow) : Int × Text × Option Text := (r.id, r.peerId, r.filepathUuid)

/-- An outbox with the rows of another, and new ones after them. -/
structure Grows (t t' : OutboxTable) : Prop where
  nextId : t.nextId ≤ t'.nextId
  kept : ∀ r ∈ t.rows, ∃ a ∈ t'.rows, rowKey a = rowKey r
  new : ∀ r ∈ t'.rows, (∃ a ∈ t.rows, rowKey a = rowKey r) ∨ t.nextId ≤ r.id

/-- Acknowledged jobs have nothing earlier in the outbox, and before every held job stand
the earlier ones of its peer and filepath. -/
structure Inv (s : State) : Prop where
  acks : InOrder s.acks
  old : ∀ a ∈ s.acks, a.job.id < s.db.replicationOutbox.nextId ∧
    ∀ r ∈ s.db.replicationOutbox.rows, RowFor r a.job → a.job.id ≤ r.id
  held : ∀ job ∈ s.held, ∃ r ∈ s.db.replicationOutbox.rows, r.id = job.id ∧ RowFor r job
  sorted : s.held.Pairwise fun a b => a.id < b.id
  front : ∀ job ∈ s.held, ∀ r ∈ s.db.replicationOutbox.rows, RowFor r job → r.id < job.id →
    ∃ k ∈ s.held, k.id = r.id

theorem rowKey_eq {a r : OutboxRow} (h : rowKey a = rowKey r) :
    a.id = r.id ∧ a.peerId = r.peerId ∧ a.filepathUuid = r.filepathUuid := by
  simpa [rowKey] using h

theorem rowFor_of_rowKey {a r : OutboxRow} {job : OutboxJob} (h : rowKey a = rowKey r) :
    RowFor a job ↔ RowFor r job := by
  obtain ⟨_, hpeer, hpath⟩ := rowKey_eq h
  unfold RowFor
  rw [hpeer, hpath]

theorem grows_of_rowKeys {t t' : OutboxTable} (hnext : t.nextId ≤ t'.nextId)
    (h : t'.rows.map rowKey = t.rows.map rowKey) : Grows t t' where
  nextId := hnext
  kept r hr := by
    have hmem : rowKey r ∈ t'.rows.map rowKey := by
      rw [h]
      exact List.mem_map_of_mem hr
    exact List.mem_map.mp hmem
  new r hr := by
    have hmem : rowKey r ∈ t.rows.map rowKey := by
      rw [← h]
      exact List.mem_map_of_mem hr
    exact Or.inl (List.mem_map.mp hmem)

theorem grows_trans {t t' t'' : OutboxTable} (h : Grows t t') (h' : Grows t' t'') :
    Grows t t'' where
  nextId := h.nextId.trans h'.nextId
  kept r hr := by
    obtain ⟨a, ha, hkey⟩ := h.kept r hr
    obtain ⟨c, hc, hckey⟩ := h'.kept a ha
    exact ⟨c, hc, hckey.trans hkey⟩
  new r hr := by
    rcases h'.new r hr with ⟨a, ha, hkey⟩ | hnew
    · rcases h.new a ha with ⟨c, hc, hckey⟩ | hnew
      · exact Or.inl ⟨c, hc, hckey.trans hkey⟩
      · exact Or.inr ((rowKey_eq hkey).1 ▸ hnew)
    · exact Or.inr (h.nextId.trans hnew)

theorem grows_insert (t : OutboxTable) (peerId : Text) (objectId : Int) (filepathUuid etag : Text)
    (operation : OutboxOperation) (now : Instant) :
    Grows t (t.insert peerId objectId filepathUuid etag operation now) where
  nextId := by
    unfold OutboxTable.insert
    simp
  kept r hr := ⟨r, List.mem_append_left _ hr, rfl⟩
  new r hr := by
    rcases List.mem_append.mp hr with hr | hr
    · exact Or.inl ⟨r, hr, rfl⟩
    · rw [List.mem_singleton.mp hr]
      exact Or.inr (le_refl _)

theorem grows_enqueueAll (now : Instant) (objectId : Int) (filepathUuid etag : Text)
    (operation : OutboxOperation) (peers : List ClusterPeer) (t : OutboxTable) :
    Grows t (enqueueAll now objectId filepathUuid etag operation t peers) := by
  induction peers generalizing t with
  | nil => exact grows_of_rowKeys (le_refl _) rfl
  | cons p rest ih => exact grows_trans (grows_insert t _ _ _ _ _ _) (ih _)

theorem grows_updateWhere (t : OutboxTable) (p : OutboxRow → Bool) (f : OutboxRow → OutboxRow)
    (hid : ∀ r, (f r).id = r.id) (hkey : ∀ r, rowKey (f r) = rowKey r) :
    Grows t (t.updateWhere p f hid) :=
  grows_of_rowKeys (le_refl _) (map_updateRows rowKey hkey t.rows)

theorem Inv.of_grows {s : State} {db : Db} (h : Inv s)
    (hgrows : Grows s.db.replicationOutbox db.replicationOutbox) : Inv { s with db := db } where
  acks := h.acks
  old a ha := by
    obtain ⟨hlt, hrows⟩ := h.old a ha
    refine ⟨lt_of_lt_of_le hlt hgrows.nextId, fun r hr hfor => ?_⟩
    rcases hgrows.new r hr with ⟨c, hc, hkey⟩ | hnew
    · rw [← (rowKey_eq hkey).1]
      exact hrows c hc ((rowFor_of_rowKey hkey).mpr hfor)
    · omega
  held job hjob := by
    obtain ⟨r, hr, hid, hfor⟩ := h.held job hjob
    obtain ⟨a, ha, hkey⟩ := hgrows.kept r hr
    exact ⟨a, ha, (rowKey_eq hkey).1.trans hid, (rowFor_of_rowKey hkey).mpr hfor⟩
  sorted := h.sorted
  front job hjob r hr hfor hlt := by
    rcases hgrows.new r hr with ⟨c, hc, hkey⟩ | hnew
    · rw [← (rowKey_eq hkey).1] at hlt ⊢
      exact h.front job hjob c hc ((rowFor_of_rowKey hkey).mpr hfor) hlt
    · obtain ⟨own, hown, hid, _⟩ := h.held job hjob
      have := s.db.replicationOutbox.id_lt own hown
      omega

/-- The first held job is the earliest of its peer and filepath. -/
theorem Inv.first_earliest {s : State} {job : OutboxJob} {rest : List OutboxJob} (h : Inv s)
    (hheld : s.held = job :: rest) {r : OutboxRow} (hr : r ∈ s.db.replicationOutbox.rows)
    (hfor : RowFor r job) : job.id ≤ r.id := by
  by_contra hlt
  have hjob : job ∈ s.held := by
    rw [hheld]
    exact List.mem_cons_self
  obtain ⟨k, hk, hkid⟩ := h.front job hjob r hr hfor (by omega)
  have hsorted := h.sorted
  rw [hheld] at hk hsorted
  rcases List.mem_cons.mp hk with rfl | hk
  · omega
  · have := (List.pairwise_cons.mp hsorted).1 k hk
    omega

/-- Acknowledging the first held job keeps the order. -/
theorem Inv.ack {s : State} {job : OutboxJob} {rest : List OutboxJob} (h : Inv s)
    (hheld : s.held = job :: rest) :
    Inv { s with acks := s.acks ++ [⟨job, s.db.replicationOutbox.rows⟩] } := by
  have hfirst : ∀ r ∈ s.db.replicationOutbox.rows, RowFor r job → job.id ≤ r.id :=
    fun r hr hfor => h.first_earliest hheld hr hfor
  obtain ⟨own, hown, hid, hownfor⟩ := h.held job (by rw [hheld]; exact List.mem_cons_self)
  refine ⟨⟨?_, ?_⟩, ?_, h.held, h.sorted, h.front⟩
  · refine pairwise_append_row h.acks.order ?_
    intro a ha htarget
    have hfor : RowFor own a.job :=
      ⟨hownfor.1.trans htarget.1.symm, hownfor.2.trans htarget.2.symm⟩
    have := (h.old a ha).2 own hown hfor
    simp only
    omega
  · intro a ha
    rcases List.mem_append.mp ha with ha | ha
    · exact h.acks.earlier a ha
    · rw [List.mem_singleton.mp ha]
      exact hfirst
  · intro a ha
    rcases List.mem_append.mp ha with ha | ha
    · exact h.old a ha
    · rw [List.mem_singleton.mp ha]
      have := s.db.replicationOutbox.id_lt own hown
      exact ⟨by simp only; omega, hfirst⟩

/-- The first held job leaves the batch with its row, or without it when no later job of
the batch has its peer and filepath. -/
theorem Inv.drop {s : State} {job : OutboxJob} {rest : List OutboxJob} {db : Db} (h : Inv s)
    (hheld : s.held = job :: rest)
    (hnext : s.db.replicationOutbox.nextId ≤ db.replicationOutbox.nextId)
    (hrows : ∀ r ∈ db.replicationOutbox.rows, ∃ a ∈ s.db.replicationOutbox.rows,
      rowKey a = rowKey r ∧ (r.id = job.id → ∀ later ∈ rest, ¬ SameTarget later job))
    (hkept : ∀ r ∈ s.db.replicationOutbox.rows, r.id ≠ job.id →
      ∃ a ∈ db.replicationOutbox.rows, rowKey a = rowKey r) :
    Inv { s with db := db, held := rest } := by
  have hsorted := h.sorted
  rw [hheld] at hsorted
  obtain ⟨hafter, hsorted⟩ := List.pairwise_cons.mp hsorted
  have hmem : ∀ later ∈ rest, later ∈ s.held := by
    intro later hlater
    rw [hheld]
    exact List.mem_cons_of_mem _ hlater
  refine ⟨h.acks, ?_, ?_, hsorted, ?_⟩
  · intro a ha
    obtain ⟨hlt, hold⟩ := h.old a ha
    refine ⟨lt_of_lt_of_le hlt hnext, fun r hr hfor => ?_⟩
    obtain ⟨c, hc, hkey, _⟩ := hrows r hr
    rw [← (rowKey_eq hkey).1]
    exact hold c hc ((rowFor_of_rowKey hkey).mpr hfor)
  · intro later hlater
    obtain ⟨r, hr, hid, hfor⟩ := h.held later (hmem later hlater)
    have := hafter later hlater
    obtain ⟨a, ha, hkey⟩ := hkept r hr (by omega)
    exact ⟨a, ha, (rowKey_eq hkey).1.trans hid, (rowFor_of_rowKey hkey).mpr hfor⟩
  · intro later hlater r hr hfor hlt
    obtain ⟨c, hc, hkey, hown⟩ := hrows r hr
    obtain ⟨hid, hpeer, hpath⟩ := rowKey_eq hkey
    obtain ⟨k, hk, hkid⟩ := h.front later (hmem later hlater) c hc
      ((rowFor_of_rowKey hkey).mpr hfor) (by omega)
    rw [hheld] at hk
    rcases List.mem_cons.mp hk with rfl | hk
    · -- The row of the dropped job is still there, so the later job has another target.
      obtain ⟨own, hownmem, hownid, hownfor⟩ := h.held k (by rw [hheld]; exact List.mem_cons_self)
      have hsame := s.db.replicationOutbox.eq_of_id hc hownmem (hkid.symm.trans hownid.symm)
      rw [← hsame] at hownfor
      refine absurd ⟨?_, ?_⟩ (hown (hid.symm.trans hkid.symm) later hlater)
      · rw [← hfor.1, ← hpeer, hownfor.1]
      · rw [← hfor.2, ← hpath, hownfor.2]
    · exact ⟨k, hk, hkid.trans hid⟩

theorem claimRows_sorted (db : Db) (now : Instant) (limit : Nat) :
    (claimRows db now limit).Pairwise fun a b => a.id < b.id := by
  have hle : (claimRows db now limit).Pairwise fun a b => a.id ≤ b.id := by
    unfold claimRows
    exact (List.pairwise_insertionSort _ _).sublist (List.take_sublist _ _)
  refine (hle.and (Worker.claimRows_distinct db now limit)).imp ?_
  intro a b hab
  exact lt_of_le_of_ne hab.1 hab.2

theorem claimOutboxJobs_sorted (db : Db) (now : Instant) (limit : Nat) :
    (claimOutboxJobs db now limit).1.Pairwise fun a b => a.id < b.id := by
  refine List.Pairwise.filterMap _ ?_ (claimRows_sorted db now limit)
  intro r r' hlt job hjob job' hjob'
  obtain ⟨p, _, rfl⟩ := Option.map_eq_some_iff.mp hjob
  obtain ⟨p', _, rfl⟩ := Option.map_eq_some_iff.mp hjob'
  exact hlt

/-- A claim that leaves no earlier row behind holds every earlier job. -/
theorem Inv.claim {s : State} {now : Instant} (h : Inv s) (hok : NoOvertaking s (.claim now)) :
    Inv { s with
      db := (claimOutboxJobs s.db now claimLimit).2
      held := (claimOutboxJobs s.db now claimLimit).1 } := by
  have hgrows : Grows s.db.replicationOutbox
      (claimOutboxJobs s.db now claimLimit).2.replicationOutbox :=
    grows_updateWhere _ _ (fun r => { r with status := .inFlight }) (fun _ => rfl) fun _ => rfl
  have hmarked := h.of_grows hgrows
  refine ⟨hmarked.acks, hmarked.old, ?_, claimOutboxJobs_sorted _ _ _, ?_⟩
  · intro job hjob
    obtain ⟨r, hr, p, _, rfl⟩ := mem_claimOutboxJobs hjob
    obtain ⟨a, ha, hkey⟩ := hgrows.kept r (mem_claimRows hr).1
    exact ⟨a, ha, (rowKey_eq hkey).1, (rowFor_of_rowKey hkey).mpr ⟨rfl, rfl⟩⟩
  · intro job hjob e he hfor hlt
    obtain ⟨r, hr, p, _, rfl⟩ := mem_claimOutboxJobs hjob
    have hold := s.db.replicationOutbox.id_lt r (mem_claimRows hr).1
    have hid : (jobOf s.db r p).id = r.id := rfl
    rcases hgrows.new e he with ⟨c, hc, hkey⟩ | hnew
    · have hcfor := (rowFor_of_rowKey hkey).mpr hfor
      have hcid := (rowKey_eq hkey).1
      have hclaimed := hok r hr c hc hcfor.1 hcfor.2 (by omega)
      obtain ⟨k, hk, hkid⟩ := Worker.exists_job_of_claimed hclaimed
      exact ⟨k, hk, hkid.trans hcid⟩
    · omega

/-- The outbox after an attempt: the row is gone after a completed one, and kept otherwise. -/
theorem settle_kept (db : Db) (id : Int) (outcome : Outcome) :
    ∀ r ∈ db.replicationOutbox.rows, r.id ≠ id →
      ∃ a ∈ (settle db id outcome).replicationOutbox.rows, rowKey a = rowKey r := by
  intro r hr hne
  cases outcome with
  | completed => exact ⟨r, List.mem_filter.mpr ⟨hr, by simpa using hne⟩, rfl⟩
  | failed now =>
    exact (grows_updateWhere db.replicationOutbox (fun r => r.id == id) (failRow now)
      (fun _ => rfl) fun _ => rfl).kept r hr
  | unrecorded => exact ⟨r, hr, rfl⟩

theorem settle_rows (db : Db) (id : Int) (outcome : Outcome) :
    ∀ r ∈ (settle db id outcome).replicationOutbox.rows,
      ∃ a ∈ db.replicationOutbox.rows, rowKey a = rowKey r ∧ (r.id = id → outcome ≠ .completed) := by
  intro r hr
  cases outcome with
  | completed =>
    obtain ⟨hr, hne⟩ := List.mem_filter.mp hr
    refine ⟨r, hr, rfl, fun hid => ?_⟩
    simp [hid] at hne
  | failed now =>
    rcases mem_updateRows.mp hr with ⟨hr, _⟩ | ⟨a, ha, _, rfl⟩
    · exact ⟨r, hr, rfl, fun _ => by simp⟩
    · exact ⟨a, ha, rfl, fun _ => by simp⟩
  | unrecorded => exact ⟨r, hr, rfl, fun _ => by simp⟩

theorem settle_nextId (db : Db) (id : Int) (outcome : Outcome) :
    (settle db id outcome).replicationOutbox.nextId = db.replicationOutbox.nextId := by
  cases outcome <;> rfl

theorem Inv.deliver {s : State} {job : OutboxJob} {rest : List OutboxJob} {acked : Bool}
    {outcome : Outcome} (h : Inv s) (hheld : s.held = job :: rest)
    (hok : NoOvertaking s (.deliver acked outcome)) :
    Inv {
      db := settle s.db job.id outcome
      held := rest
      acks := if acked then s.acks ++ [⟨job, s.db.replicationOutbox.rows⟩] else s.acks } := by
  have hrows : ∀ r ∈ (settle s.db job.id outcome).replicationOutbox.rows,
      ∃ a ∈ s.db.replicationOutbox.rows,
        rowKey a = rowKey r ∧ (r.id = job.id → ∀ later ∈ rest, ¬ SameTarget later job) := by
    intro r hr
    obtain ⟨a, ha, hkey, hopen⟩ := settle_rows s.db job.id outcome r hr
    exact ⟨a, ha, hkey, fun hid => hok (hopen hid) job rest hheld⟩
  have hnext := (settle_nextId s.db job.id outcome).ge
  have hkept := settle_kept s.db job.id outcome
  cases acked with
  | false => exact h.drop hheld hnext hrows hkept
  | true => exact (h.ack hheld).drop hheld hnext hrows hkept

theorem rowKeys_of_withoutObject {rows rows' : List OutboxRow}
    (h : rows'.map withoutObject = rows.map withoutObject) :
    rows'.map rowKey = rows.map rowKey := by
  have hkey : rowKey = rowKey ∘ withoutObject := rfl
  rw [hkey, ← List.map_map, h, List.map_map]

theorem step_preserves {s t : State} {a : Action} (h : Inv s) (hok : NoOvertaking s a)
    (hstep : step s a = some t) : Inv t := by
  cases a with
  | enqueueForActivePeers now objectId filepathUuid etag operation excludePeerId =>
    cases hstep
    exact h.of_grows (grows_enqueueAll _ _ _ _ _ _ _)
  | enqueuePutForPeer now peerId objectId filepathUuid etag =>
    obtain ⟨db, hdb, rfl⟩ := Option.map_eq_some_iff.mp hstep
    apply h.of_grows
    unfold enqueuePutForPeer at hdb
    split_ifs at hdb
    · cases hdb
      exact grows_of_rowKeys (le_refl _) rfl
    · cases hdb
      exact grows_insert _ _ _ _ _ _ _
  | change db =>
    simp only [step] at hstep
    split_ifs at hstep with hsame
    · cases hstep
      exact h.of_grows (grows_of_rowKeys hsame.2.ge (rowKeys_of_withoutObject hsame.1))
  | claim now =>
    simp only [step] at hstep
    split_ifs at hstep with hheld
    · cases hstep
      exact h.claim hok
  | deliver acked outcome =>
    cases hheld : s.held with
    | nil => simp [step, hheld] at hstep
    | cons job rest =>
      simp only [step, hheld] at hstep
      by_cases hlost : outcome = .completed ∧ acked = false
      · rw [if_pos hlost] at hstep
        cases hstep
      · rw [if_neg hlost] at hstep
        cases hstep
        exact h.deliver hheld hok
  | restart config =>
    cases hstep
    have hgrown : Inv { s with db := startNode s.db config } := by
      apply h.of_grows
      rw [startNode_outbox]
      exact grows_of_rowKeys (le_refl _) rfl
    refine ⟨hgrown.acks, hgrown.old, ?_, List.Pairwise.nil, ?_⟩
    · intro job hjob
      cases hjob
    · intro job hjob
      cases hjob

/-- In a run whose claims pass no earlier job, and whose failures have no later job of
their peer and filepath behind them, the peers acknowledge the jobs in order. -/
theorem run_in_order {db : Db} {t : State} (h : Run step NoOvertaking ⟨db, [], []⟩ t) :
    InOrder t.acks := by
  have hstart : Inv ⟨db, [], []⟩ := by
    refine ⟨⟨List.Pairwise.nil, ?_⟩, ?_, ?_, List.Pairwise.nil, ?_⟩ <;>
    · intro a ha
      cases ha
  have hinv : Inv t :=
    h.invariant (fun _ _ _ hi hok hstep => step_preserves hi hok hstep) hstart
  exact hinv.acks

/-- The pending PUT is delivered. -/
theorem delivery_in_order : ∃ t, Run step NoOvertaking ⟨onePending, [], []⟩ t ∧
    t.acks.map (fun a => a.job.id) = [1] ∧ InOrder t.acks := by
  have hclaim : NoOvertaking ⟨onePending, [], []⟩ (.claim Instant.epoch) := by
    unfold NoOvertaking
    decide
  have hrun : Run step NoOvertaking ⟨onePending, [], []⟩ _ :=
    Run.tail (.deliver true .completed)
      (Run.tail (.claim Instant.epoch) (Run.refl _) hclaim rfl)
      (fun hfail => absurd rfl hfail) rfl
  exact ⟨_, hrun, by decide, run_in_order hrun⟩

/-- The delivery of the pending PUT fails, and its next attempt waits 30 seconds. -/
def attempted : Db :=
  failOutboxJob (claimOutboxJobs onePending Instant.epoch claimLimit).2 Instant.epoch 1

/-- The purge of the uploaded object, which enqueues a DELETE. -/
def purgedUpload : Db :=
  let s := { AppState.migrated "node-1".toList with db := attempted }
  ((hardPurgeObject s Instant.epoch 1 false).getD s).db

/-- The object is purged while its PUT waits, and the next tick delivers the DELETE. -/
def overtaking : List Action :=
  [.claim Instant.epoch, .deliver false (.failed Instant.epoch),
    .enqueueForActivePeers Instant.epoch 1
      "objects/00000000-0000-4000-8000-000000000001.bin".toList
      "0cc175b9c0f1b6a831c399e269772661".toList .delete "node-1".toList,
    .change purgedUpload, .claim Instant.epoch, .deliver true .completed]

def overtaken : State := (exec step ⟨onePending, [], []⟩ overtaking).getD ⟨onePending, [], []⟩

/-- The peer acknowledges a DELETE while the earlier PUT of its filepath is in the outbox. -/
theorem delete_can_overtake_put :
    Run step anyAction ⟨onePending, [], []⟩ overtaken ∧
      (∃ a ∈ overtaken.acks, a.job.operation = .delete ∧ ∃ r ∈ a.outbox,
        r.operation = .put ∧ RowFor r a.job ∧ r.id < a.job.id ∧
          r ∈ overtaken.db.replicationOutbox.rows) ∧
      ¬ InOrder overtaken.acks := by
  have hack : ∃ a ∈ overtaken.acks, a.job.operation = .delete ∧ ∃ r ∈ a.outbox,
      r.operation = .put ∧ RowFor r a.job ∧ r.id < a.job.id ∧
        r ∈ overtaken.db.replicationOutbox.rows := by
    unfold RowFor
    decide
  refine ⟨run_of_exec (rfl : exec step _ overtaking = some overtaken), hack, ?_⟩
  intro horder
  obtain ⟨a, ha, _, r, hr, _, hfor, hlt, _⟩ := hack
  have := horder.earlier a ha r hr hfor
  omega

end MyS3.DeliveryOrder
