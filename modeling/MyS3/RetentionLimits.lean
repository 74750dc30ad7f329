import MyS3.Purge

/-!
How long a retention may be. The setting is checked for its sign; the purge worker turns it
into a duration and goes back from the current instant by it, which panics before the first
instant of the time library. A worker that panicked does not run again.
-/

namespace MyS3.RetentionLimits

open Library.Strings Library.Timestamps
open Models Objects Database Http Purge

inductive RetentionError
  | negative
  | query
  deriving DecidableEq

def RetentionError.message : RetentionError → Option Text
  | .negative => some "retention value must be >= 0".toList
  | .query => none

/-- `set_recycle_retention`; the settings are read again after the update. -/
def setRecycleRetention (db : Db) (value : Int) (unit : RetentionUnit)
    (updateFails reloadFails : Bool) : Except RetentionError AppSettings × Db :=
  if value < 0 then (.error .negative, db)
  else if updateFails then (.error .query, db)
  else
    let stored := { db with appSettings := ⟨value, unit⟩ }
    if reloadFails then (.error .query, stored) else (.ok stored.appSettings, stored)

/-- The retention goes back to an instant that the time library has. -/
def Fits (settings : AppSettings) (now : Instant) : Prop :=
  retentionSecs settings * nanosPerSec ≤ now.nanos - minUtc

/-- The task of the worker, which a panic ends, and the node that it works on. -/
structure Worker where
  app : AppState
  alive : Bool

inductive Event
  | put (value : Int) (unit : RetentionUnit) (updateFails reloadFails : Bool)
  | tick (now : Instant) (txFails unlinkFails : ObjectRecord → Bool)

def Worker.step (w : Worker) : Event → Worker
  | .put value unit updateFails reloadFails =>
    { w with app := { w.app with
      db := (setRecycleRetention w.app.db value unit updateFails reloadFails).2 } }
  | .tick now txFails unlinkFails =>
    if w.alive then
      match cutoff w.app.db.appSettings now with
      | none => { w with alive := false }
      | some _ => { w with app := purgeOnce w.app now txFails unlinkFails }
    else w

def Worker.run (w : Worker) (events : List Event) : Worker := events.foldl Worker.step w

theorem cutoff_isSome_iff (settings : AppSettings) (now : Instant) :
    (cutoff settings now).isSome = true ↔ Fits settings now := by
  have hnow := now.upper
  unfold cutoff Fits retentionSecs
  generalize hv : settings.recycleRetentionValue * settings.recycleRetentionUnit.unitSecs = v
  simp only
  unfold RetentionUnit.toSeconds
  rw [hv, minUtc_eq]
  unfold saturate i64Max i64Min nanosPerSec maxSecs at *
  split_ifs with hsecs hmin
  · simp only [Option.isSome_none, Bool.false_eq_true, false_iff]
    omega
  · simp only [Option.isSome_none, Bool.false_eq_true, false_iff]
    omega
  · simp only [Option.isSome_some, true_iff]
    omega

/-- Whether the worker survives an event is decided by the settings that it finds. -/
theorem alive_step (w : Worker) (event : Event) : (w.step event).alive = true ↔
    w.alive = true ∧ ∀ now txFails unlinkFails, event = .tick now txFails unlinkFails →
      Fits w.app.db.appSettings now := by
  cases event with
  | put value unit updateFails reloadFails =>
    refine (and_iff_left ?_).symm
    intro now txFails unlinkFails h
    cases h
  | tick now txFails unlinkFails =>
    have hfits := cutoff_isSome_iff w.app.db.appSettings now
    unfold Worker.step
    by_cases halive : w.alive = true
    · simp only [if_pos halive]
      cases hcut : cutoff w.app.db.appSettings now with
      | none =>
        rw [hcut] at hfits
        constructor
        · intro h
          cases h
        · intro h
          cases hfits.mpr (h.2 now txFails unlinkFails rfl)
      | some olderThan =>
        rw [hcut] at hfits
        refine iff_of_true halive ⟨halive, ?_⟩
        intro now' _ _ h
        cases h
        exact hfits.mp rfl
    · simp only [if_neg halive]
      exact iff_of_false halive fun h => halive h.1

/-- A worker is alive after a run exactly when the retention fitted at every tick. -/
theorem alive_run (w : Worker) (hw : w.alive = true) (events : List Event) :
    (w.run events).alive = true ↔ ∀ before now txFails unlinkFails after,
      events = before ++ .tick now txFails unlinkFails :: after →
        Fits (w.run before).app.db.appSettings now := by
  induction events using List.reverseRecOn with
  | nil =>
    refine iff_of_true hw ?_
    intro before now txFails unlinkFails after h
    simp at h
  | append_singleton events event ih =>
    have hrun : w.run (events ++ [event]) = (w.run events).step event := by
      simp [Worker.run]
    rw [hrun, alive_step, ih]
    constructor
    · intro h' before now txFails unlinkFails after h
      obtain ⟨hbefore, hlast⟩ := h'
      rcases List.eq_nil_or_concat after with rfl | ⟨after, last, rfl⟩
      · obtain ⟨rfl, htick⟩ := List.append_inj' h rfl
        exact hlast now txFails unlinkFails (List.singleton_inj.mp htick)
      · rw [List.concat_eq_append, ← List.cons_append, ← List.append_assoc] at h
        exact hbefore before now txFails unlinkFails after (List.append_inj' h rfl).1
    · intro h
      refine ⟨?_, ?_⟩
      · intro before now txFails unlinkFails after hevents
        refine h before now txFails unlinkFails (after ++ [event]) ?_
        rw [hevents]
        simp
      · intro now txFails unlinkFails hevent
        exact h events now txFails unlinkFails [] (by rw [hevent])

theorem setRecycleRetention_ok {db db' : Db} {value : Int} {unit : RetentionUnit}
    {updateFails reloadFails : Bool} {settings : AppSettings}
    (h : setRecycleRetention db value unit updateFails reloadFails = (.ok settings, db')) :
    db'.appSettings = ⟨value, unit⟩ := by
  unfold setRecycleRetention at h
  simp only at h
  split_ifs at h
  · cases h
  · cases h
  · cases h
  · rw [← (Prod.mk.inj h).2]

/-- A retention that is accepted panics at an instant exactly when it goes back further than
the time library does; and a worker survives a run of settings and ticks exactly when none
of its ticks finds such a retention. -/
theorem retention_never_panics_iff (db : Db) (value : Int) (unit : RetentionUnit)
    (updateFails reloadFails : Bool) (w : Worker) (events : List Event) :
    (∀ settings db', setRecycleRetention db value unit updateFails reloadFails =
        (.ok settings, db') →
      ∀ now, (cutoff db'.appSettings now ≠ none ↔ Fits ⟨value, unit⟩ now)) ∧
    (w.alive = true →
      ((w.run events).alive = true ↔ ∀ before now txFails unlinkFails after,
        events = before ++ .tick now txFails unlinkFails :: after →
          Fits (w.run before).app.db.appSettings now)) := by
  refine ⟨?_, fun hw => alive_run w hw events⟩
  intro settings db' h now
  rw [setRecycleRetention_ok h, ← cutoff_isSome_iff, Option.isSome_iff_ne_none]

/-- Thirty thousand decades are accepted, and end the worker. -/
theorem long_retention_panics :
    let w : Worker := ⟨AppState.migrated "node-1".toList, true⟩
    let events : List Event := [.put 30000 .decade false false,
      .tick Instant.epoch (fun _ => false) fun _ => false]
    (setRecycleRetention w.app.db 30000 .decade false false).1 = .ok ⟨30000, .decade⟩ ∧
      cutoff ⟨30000, .decade⟩ Instant.epoch = none ∧ (w.run events).alive = false := by
  decide

end MyS3.RetentionLimits
