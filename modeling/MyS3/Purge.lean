import MyS3.S3Routes

/-!
The recycle-bin purge of `server/purge.rs`. The cutoff is an instant, but it is
compared with the stored timestamps as text, and the two texts differ after the
date: a space against a `T`. A row is therefore removed by the day of its soft
delete, up to a day before its retention ends.
-/

namespace MyS3.Purge

open Library.Strings Library.Tables Library.Calendar Library.Timestamps
open Models Objects Database Engine Repository Outbox Http S3Routes

/-- The first instant that the time library can represent, in the year -262143. -/
def minUtc : Int := daysFromCivil ⟨-262143, 1, 1⟩ * secsPerDay * nanosPerSec

/-- Seconds for which a recycled row is kept; a duration has no negative setting. -/
def retentionSecs (settings : AppSettings) : Int :=
  max (settings.recycleRetentionValue * settings.recycleRetentionUnit.unitSecs) 0

/-- `Utc::now() - Duration::seconds(secs.max(0))`; `none` is a panic of the library. -/
def cutoff (settings : AppSettings) (now : Instant) : Option Int :=
  let secs := max (settings.recycleRetentionUnit.toSeconds settings.recycleRetentionValue) 0
  if i64Max / 1000 < secs then none
  else if now.nanos - secs * nanosPerSec < minUtc then none
  else some (now.nanos - secs * nanosPerSec)

/-- One purged row: its transaction, and the removal of its blob. -/
def purgeRow (now : Instant) (unlinkFails : ObjectRecord → Bool) (s : AppState)
    (obj : ObjectRecord) : AppState :=
  { s with
    db := (enqueueDeleteForActivePeers s.db now obj.id obj.filepath obj.etag
      s.config.nodeId).deleteObjects fun r => r.id == obj.id
    disk := unlink s.config.storageRoot s.disk obj.filepath (unlinkFails obj) }

/-- `hard_purge_object`; `none` is a missing object. -/
def hardPurgeObject (s : AppState) (now : Instant) (id : Int) (unlinkFails : Bool) :
    Option AppState :=
  (getObjectById s.db id).map fun record => purgeRow now (fun _ => unlinkFails) s record

/-- The loop ends at the first row whose transaction fails. -/
def purgeRows (now : Instant) (txFails unlinkFails : ObjectRecord → Bool) :
    AppState → List ObjectRecord → AppState
  | s, [] => s
  | s, obj :: rest =>
    if txFails obj then s
    else purgeRows now txFails unlinkFails (purgeRow now unlinkFails s obj) rest

def purgeOnce (s : AppState) (now : Instant) (txFails unlinkFails : ObjectRecord → Bool) :
    AppState :=
  match cutoff s.db.appSettings now with
  | none => s
  | some olderThan =>
    purgeRows now txFails unlinkFails s (listExpiredDeletedObjects s.db olderThan)

theorem purgeRow_rows {now : Instant} {unlinkFails : ObjectRecord → Bool} {s : AppState}
    {obj r : ObjectRecord} : r ∈ (purgeRow now unlinkFails s obj).db.object.rows ↔
      r ∈ s.db.object.rows ∧ r.id ≠ obj.id := by
  unfold purgeRow
  rw [Db.mem_deleteObjects, enqueueDeleteForActivePeers, enqueueForActivePeers_object]
  simp

/-- What is left after the rows of a list are purged. -/
theorem mem_purgeRows {now : Instant} {unlinkFails : ObjectRecord → Bool} {s : AppState}
    {expired : List ObjectRecord} {r : ObjectRecord} :
    r ∈ (purgeRows now (fun _ => false) unlinkFails s expired).db.object.rows ↔
      r ∈ s.db.object.rows ∧ ∀ obj ∈ expired, r.id ≠ obj.id := by
  induction expired generalizing s with
  | nil => simp [purgeRows]
  | cons obj rest ih =>
    simp only [purgeRows, Bool.false_eq_true, if_false, ih, purgeRow_rows, List.forall_mem_cons]
    tauto

/-- A row leaves the table exactly when the query lists it. -/
theorem not_mem_purgeOnce {s : AppState} {now : Instant} {unlinkFails : ObjectRecord → Bool}
    {r : ObjectRecord} (hr : r ∈ s.db.object.rows) :
    r ∉ (purgeOnce s now (fun _ => false) unlinkFails).db.object.rows ↔
      ∃ olderThan, cutoff s.db.appSettings now = some olderThan ∧
        r ∈ listExpiredDeletedObjects s.db olderThan := by
  unfold purgeOnce
  cases hcut : cutoff s.db.appSettings now with
  | none => simp [hr]
  | some olderThan =>
    simp only [mem_purgeRows, hr, true_and, Option.some.injEq, exists_eq_left']
    constructor
    · intro h
      push Not at h
      obtain ⟨obj, hobj, hid⟩ := h
      have hmem := (mem_listExpiredDeletedObjects.mp hobj).1
      rwa [s.db.object.eq_of_id hr hmem hid]
    · intro h hall
      exact hall r h rfl

/-- The instant up to which a soft delete is past its retention. -/
def retentionStart (settings : AppSettings) (now : Instant) : Int :=
  now.nanos - retentionSecs settings * nanosPerSec

/-- The soft delete plus the retention is at most the current instant. -/
def PastRetention (settings : AppSettings) (now : Instant) (deletedAt : DbTime) : Prop :=
  (deletedAt.secs + retentionSecs settings) * nanosPerSec ≤ now.nanos

/-- A soft delete after the retention start, on the same day in UTC. -/
def LaterThatDay (settings : AppSettings) (now : Instant) (deletedAt : DbTime) : Prop :=
  deletedAt.secs / secsPerDay = retentionStart settings now / nanosPerSec / secsPerDay ∧
    retentionStart settings now < deletedAt.secs * nanosPerSec

theorem minUtc_eq : minUtc = -8334601228800 * nanosPerSec := by decide

/-- Saturation matters only where the library panics. -/
theorem cutoff_eq_some {settings : AppSettings} {now : Instant} {olderThan : Int}
    (h : cutoff settings now = some olderThan) : olderThan = retentionStart settings now := by
  unfold cutoff at h
  simp only at h
  split_ifs at h with hsecs hmin
  rw [← Option.some.inj h]
  unfold retentionStart retentionSecs
  unfold RetentionUnit.toSeconds saturate i64Max i64Min at *
  congr 2
  omega

/-- Where the library panics, the retention starts before every stored instant. -/
theorem cutoff_eq_none {settings : AppSettings} {now : Instant}
    (h : cutoff settings now = none) :
    retentionStart settings now / nanosPerSec < minSecs - secsPerDay := by
  have hnow := now.upper
  unfold cutoff at h
  simp only at h
  unfold retentionStart retentionSecs
  generalize hv : settings.recycleRetentionValue * settings.recycleRetentionUnit.unitSecs = v at *
  unfold RetentionUnit.toSeconds at h
  rw [hv, minUtc_eq] at h
  unfold saturate i64Max i64Min minSecs maxSecs nanosPerSec secsPerDay at *
  split_ifs at h with hsecs hmin
  · omega
  · omega

/-- The text comparison sees the days only. -/
theorem listed_iff {db : Db} {settings : AppSettings} {now : Instant} {r : ObjectRecord}
    {d : DbTime} (hr : r ∈ db.object.rows) (hd : r.deletedAt = some d) :
    r ∈ listExpiredDeletedObjects db (retentionStart settings now) ↔
      d.secs / secsPerDay ≤ retentionStart settings now / nanosPerSec / secsPerDay := by
  have hstart : retentionStart settings now < maxSecs * nanosPerSec := by
    have hnow := now.upper
    unfold retentionStart retentionSecs nanosPerSec at *
    omega
  rw [mem_listExpiredDeletedObjects, ← textLe_currentTimestamp_rfc3339 d.lower d.upper hstart]
  constructor
  · intro h
    obtain ⟨_, d', hd', htext⟩ := h
    rw [hd] at hd'
    cases hd'
    exact htext
  · intro htext
    exact ⟨hr, d, hd, htext⟩

/-- One row is treated as its retention says exactly when it is not of that kind. -/
theorem purged_iff_pastRetention_iff {s : AppState} {now : Instant}
    {unlinkFails : ObjectRecord → Bool} {r : ObjectRecord} {d : DbTime}
    (hr : r ∈ s.db.object.rows) (hd : r.deletedAt = some d) :
    ((r ∉ (purgeOnce s now (fun _ => false) unlinkFails).db.object.rows) ↔
        PastRetention s.db.appSettings now d) ↔
      ¬ LaterThatDay s.db.appSettings now d := by
  rw [not_mem_purgeOnce hr]
  have hmin := d.lower
  cases hcut : cutoff s.db.appSettings now with
  | none =>
    have hearly := cutoff_eq_none hcut
    have hnot : ¬ PastRetention s.db.appSettings now d := by
      unfold PastRetention
      unfold retentionStart nanosPerSec secsPerDay at *
      omega
    have hother : ¬ LaterThatDay s.db.appSettings now d := by
      unfold LaterThatDay
      unfold nanosPerSec secsPerDay at *
      omega
    simp [hnot, hother]
  | some olderThan =>
    rw [cutoff_eq_some hcut]
    simp only [Option.some.injEq, exists_eq_left', listed_iff hr hd]
    unfold PastRetention LaterThatDay
    have hstart : retentionStart s.db.appSettings now =
      now.nanos - retentionSecs s.db.appSettings * nanosPerSec := rfl
    generalize retentionStart s.db.appSettings now = start at *
    unfold nanosPerSec secsPerDay at *
    omega

/-- A purge removes exactly the recycled rows that are past their retention, if and
only if no row was soft-deleted later on the day on which the retention starts. -/
theorem purgeOnce_exact_iff (s : AppState) (now : Instant) (unlinkFails : ObjectRecord → Bool) :
    (∀ r ∈ s.db.object.rows, ∀ d, r.deletedAt = some d →
        ((r ∉ (purgeOnce s now (fun _ => false) unlinkFails).db.object.rows) ↔
          PastRetention s.db.appSettings now d)) ↔
      ∀ r ∈ s.db.object.rows, ∀ d, r.deletedAt = some d →
        ¬ LaterThatDay s.db.appSettings now d := by
  constructor
  · intro h r hr d hd
    exact (purged_iff_pastRetention_iff hr hd).mp (h r hr d hd)
  · intro h r hr d hd
    exact (purged_iff_pastRetention_iff hr hd).mpr (h r hr d hd)

/-- An active row survives every purge. -/
theorem purgeOnce_keeps_active {s : AppState} {now : Instant}
    {unlinkFails : ObjectRecord → Bool} {r : ObjectRecord} (hr : r ∈ s.db.object.rows)
    (hactive : r.deletedAt = none) :
    r ∈ (purgeOnce s now (fun _ => false) unlinkFails).db.object.rows := by
  by_contra hgone
  obtain ⟨olderThan, _, hlisted⟩ := (not_mem_purgeOnce hr).mp hgone
  obtain ⟨_, d, hd, _⟩ := mem_listExpiredDeletedObjects.mp hlisted
  simp [hactive] at hd

/-- A node whose one object was deleted at noon of the first day. -/
def deletedAtNoon : AppState :=
  let s := (putObjectKeyedInBucket Platform.sample (AppState.migrated "node-1".toList)
    Instant.epoch (Uuid.numbered 1) ['k'] [] [some [97]] none {}).2
  (deleteObjectKeyedInBucket Limit1.first s (Instant.ofSecs 43200 (by decide) (by decide)) ['k']
    none false).2

/-- With 30 days of retention the object is removed at the start of the thirtieth day,
twelve hours early. -/
theorem purgeOnce_removes_early :
    let now := Instant.ofSecs (30 * 86400) (by decide) (by decide)
    deletedAtNoon.db.appSettings = { recycleRetentionValue := 30, recycleRetentionUnit := .day } ∧
      ∃ r ∈ deletedAtNoon.db.object.rows, ∃ d, r.deletedAt = some d ∧
        r ∉ (purgeOnce deletedAtNoon now (fun _ => false) fun _ => false).db.object.rows ∧
        ¬ PastRetention deletedAtNoon.db.appSettings now d := by
  intro now
  refine ⟨rfl, _, List.mem_singleton.mpr rfl, _, rfl, ?_, ?_⟩
  · have hrows : (purgeOnce deletedAtNoon now (fun _ => false)
      fun _ => false).db.object.rows = [] := by decide
    simp [hrows]
  · unfold PastRetention
    decide

end MyS3.Purge
