import MyS3.Library.Totals
import MyS3.RequestInvariants

/-!
Hard allocations against requests at the same time. An upload checks the quota before its
transaction, against sizes that it reads one after another, and a restore checks nothing.
The active bytes of a bucket stay within its hard allocations as long as what an upload has
read still holds when it checks, whatever becomes active beside waiting uploads leaves room
for them, and a restore goes through only when the object fits.
-/

namespace MyS3.HardQuota

open Library.Strings Library.Tables Library.Totals Library.Interleaving Library.Runs
open Models Objects Database Engine Repository Outbox Http S3Routes Keys Reconcile
open Requests RequestSteps RequestInvariants

/-- The active rows of a bucket whose keys are wanted. -/
def counts (b : Int) (w : Text → Bool) (r : ObjectRecord) : Bool :=
  r.bucketId == b && isActive r && w r.originalFilename

def activeBytes (db : Db) (b : Int) (w : Text → Bool) : Int :=
  total (·.filesizeBytes) (counts b w) db.object.rows

def usedBytes (db : Db) (b : Int) : Int := activeBytes db b fun _ => true

/-- The active bytes of a bucket beside one key. -/
def otherBytes (db : Db) (b : Int) (k : Text) : Int := activeBytes db b (· != k)

def IsHard (db : Db) (b : Int) (a : BucketNodeAssignment) : Prop :=
  a ∈ db.bucketReplicationPeer ∧ a.bucketId = b ∧ a.quotaMode = .hard

/-- So many bytes are within every hard allocation of the bucket. -/
def Fits (db : Db) (b n : Int) : Prop := ∀ a, IsHard db b a → n ≤ a.allocatedBytes

/-- The row that a step makes active in a bucket. -/
def activates (db : Db) (b : Int) : Effect → Option ObjectRecord
  | .restore _ id => db.object.rows.find? fun r => r.id == id && r.bucketId == b && !isActive r
  | .register insertedAt _ key b' o =>
    if b' = b then some ((uploadRow insertedAt key b o).record db.object.nextId) else none
  | _ => none

/-- The steps that the quota check of an upload can be relied on for. -/
structure InQuota (P : Platform) (b : Int) (s : State) (a : Action) : Prop where
  legal : Legal P s a
  /-- The version that an upload replaces is no smaller than it has read. -/
  checks : ∀ i io req o previous, a = .advance i io →
    s.tasks[i]? = some (.put req (.sized b o previous)) →
    previous ≤ previousSize s.shared.app.db req.key b
  /-- What becomes active leaves room for the uploads that have passed their checks. -/
  waits : ∀ e r, Does P s a e → activates s.shared.app.db b e = some r →
    ∀ req stage o, Task.put req stage ∈ s.tasks → stage.isChecked = true →
      stage.blob = some (b, o) → req.key ≠ r.originalFilename →
      Fits s.shared.app.db b
        (otherBytes s.shared.app.db b req.key + r.filesizeBytes + o.filesizeBytes)
  /-- What is restored fits. -/
  restores : ∀ now id r, Does P s a (.restore now id) →
    activates s.shared.app.db b (.restore now id) = some r →
    Fits s.shared.app.db b (usedBytes s.shared.app.db b + r.filesizeBytes)

/-- What an upload that passed its check may rely on: its object fits beside the others. -/
structure WaitOk (b : Int) (v : Server) (task : Task) : Prop where
  fits : ∀ req stage o, task = .put req stage → stage.isChecked = true →
    stage.blob = some (b, o) →
    Fits v.app.db b (otherBytes v.app.db b req.key + o.filesizeBytes)

structure Within (P : Platform) (b : Int) (s : State) : Prop where
  ok : Ok P s
  sizes : ∀ r ∈ s.shared.app.db.object.rows, 0 ≤ r.filesizeBytes
  capped : ∀ a, IsHard s.shared.app.db b a → a.allocatedBytes < i64Max
  used : Fits s.shared.app.db b (usedBytes s.shared.app.db b)
  waits : ∀ task ∈ s.tasks, WaitOk b s.shared task

theorem usedBytes_nonneg {db : Db} (h : ∀ r ∈ db.object.rows, 0 ≤ r.filesizeBytes) (b : Int) :
    0 ≤ usedBytes db b := total_nonneg h

/-- The used bytes are those of the key and those beside it. -/
theorem usedBytes_eq (db : Db) (b : Int) (k : Text) :
    usedBytes db b = otherBytes db b k + previousSize db k b := by
  unfold usedBytes otherBytes activeBytes
  rw [total_split _ _ fun r => r.originalFilename != k]
  congr 1
  · congr 1
    funext r
    simp [counts]
  · have hfilter : (fun r : ObjectRecord => counts b (fun _ => true) r &&
        !(r.originalFilename != k)) =
        fun r => r.originalFilename == k && r.bucketId == b && isActive r := by
      funext r
      unfold counts
      cases r.bucketId == b <;> cases isActive r <;> cases hk : r.originalFilename == k <;>
        simp [bne, hk]
    rw [hfilter, total_unique]
    · rfl
    · refine db.object.active_unique.imp_of_mem fun {a c} _ _ hne hboth => ?_
      simp only [Bool.and_eq_true, beq_iff_eq, isActive_iff] at hboth
      obtain ⟨⟨⟨hka, hba⟩, hda⟩, ⟨hkc, hbc⟩, hdc⟩ := hboth
      rcases hne with hnone | hne
      · simp [activeKey, hda] at hnone
      · exact hne (by simp [activeKey, hda, hdc, hka, hkc, hba, hbc])

theorem bucketUsedBytes_eq (db : Db) (b : Int) :
    bucketUsedBytes db b = if usedBytes db b ≤ i64Max then some (usedBytes db b) else none := by
  have hfilter : counts b (fun _ => true) =
      fun r => r.bucketId == b && isActive r := by
    funext r
    simp [counts]
  have htotal : usedBytes db b = ((db.object.rows.filter fun r =>
      r.bucketId == b && isActive r).map (·.filesizeBytes)).sum := by
    unfold usedBytes activeBytes total
    rw [hfilter]
  rw [htotal]
  rfl

/-- What a check lets through: no growth, or a projected usage within every hard allocation. -/
theorem quotaResponse_none_iff {db : Db} {b growth : Int} :
    quotaResponse db b growth false = none ↔
      growth ≤ 0 ∨ usedBytes db b ≤ i64Max ∧ Fits db b (saturate (usedBytes db b + growth)) := by
  unfold quotaResponse checkHardQuota
  simp only [Bool.false_eq_true, if_false]
  by_cases hgrowth : growth ≤ 0
  · rw [if_pos hgrowth]
    exact iff_of_true rfl (Or.inl hgrowth)
  rw [if_neg hgrowth, or_iff_right hgrowth, bucketUsedBytes_eq]
  by_cases hin : usedBytes db b ≤ i64Max
  · rw [if_pos hin, and_iff_right hin]
    simp only
    cases hfind : db.bucketReplicationPeer.find? fun a => a.bucketId == b &&
        a.quotaMode == .hard &&
        decide (a.allocatedBytes < saturate (usedBytes db b + growth)) with
    | some a =>
      refine iff_of_false (fun h => by cases h) fun hfits => ?_
      have hfound := List.find?_some hfind
      simp only [Bool.and_eq_true, beq_iff_eq, decide_eq_true_eq] at hfound
      obtain ⟨⟨hbucket, hhard⟩, hlt⟩ := hfound
      have hle := hfits a ⟨List.mem_of_find?_eq_some hfind, hbucket, hhard⟩
      omega
    | none =>
      refine iff_of_true rfl fun a ha => ?_
      have hnot := List.find?_eq_none.mp hfind a ha.1
      simpa only [ha.2.1, ha.2.2, beq_self_eq_true, Bool.and_self, Bool.true_and,
        decide_eq_true_eq, not_lt] using hnot
  · rw [if_neg hin]
    exact iff_of_false (fun h => by cases h) fun h => hin h.1

/-- A check that passes bounds the projected usage. -/
theorem fits_of_check {db : Db} {b size previous : Int}
    (hcapped : ∀ a, IsHard db b a → a.allocatedBytes < i64Max)
    (hused : Fits db b (usedBytes db b)) (hnonneg : 0 ≤ usedBytes db b)
    (h : quotaResponse db b (saturate (size - previous)) false = none) :
    Fits db b (usedBytes db b + (size - previous)) := by
  intro a ha
  have hlimit := hused a ha
  have hcap := hcapped a ha
  rcases quotaResponse_none_iff.mp h with hgrowth | ⟨_, hfits⟩
  · unfold saturate i64Max i64Min at hgrowth
    omega
  · have hle := hfits a ha
    unfold saturate i64Max i64Min at *
    omega

theorem assignments_run (s : AppState) (e : Effect) :
    (e.run s).db.bucketReplicationPeer = s.db.bucketReplicationPeer := by
  cases e with
  | fill filepath data => rw [db_run rfl]
  | restore now id =>
    simp only [Effect.run]
    cases hdb : restoreById s.db now id with
    | none => rfl
    | some db => exact Db.updateObjectsChecked_assignments hdb
  | register insertedAt now key b o =>
    simp only [Effect.run]
    cases hdb : registerUpload s insertedAt now key b o with
    | none => rfl
    | some db =>
      obtain ⟨id, inserted, hins, rfl⟩ := registerUpload_eq hdb
      exact (Db.insertObject_eq (insertUpload_eq hins).2).2.2.2.2.2.1
  | _ => rfl

theorem isHard_run {s : AppState} {e : Effect} {b : Int} {a : BucketNodeAssignment} :
    IsHard (e.run s).db b a ↔ IsHard s.db b a := by
  unfold IsHard
  rw [assignments_run]

theorem fits_run {s : AppState} {e : Effect} {b n m : Int} (h : Fits s.db b m) (hle : n ≤ m) :
    Fits (e.run s).db b n := fun a ha => hle.trans (h a (isHard_run.mp ha))

theorem pairwise_id (t : ObjectTable) (id : Int) :
    t.rows.Pairwise fun a c => ¬ ((a.id == id) = true ∧ (c.id == id) = true) := by
  refine t.id_unique.imp fun {a c} hne hboth => hne ?_
  rw [beq_iff_eq.mp hboth.1, beq_iff_eq.mp hboth.2]

/-- A step adds to the active bytes no more than what it makes active. -/
theorem activeBytes_run {s : AppState} {e : Effect} {b : Int} {w : Text → Bool} {bound : Int}
    (hsizes : ∀ r ∈ s.db.object.rows, 0 ≤ r.filesizeBytes) (hbound : 0 ≤ bound)
    (h : ∀ r, activates s.db b e = some r → w r.originalFilename = true →
      r.filesizeBytes ≤ bound) :
    activeBytes (e.run s).db b w ≤ activeBytes s.db b w + bound := by
  have hsame : activeBytes s.db b w ≤ activeBytes s.db b w + bound := by omega
  unfold activeBytes at hsame ⊢
  cases e with
  | recycle now id =>
    refine total_update_le hsizes (fun _ => rfl) (pairwise_id _ id) hbound fun r _ _ hp => ?_
    simp [counts, recycle, isActive] at hp
  | restore now id =>
    simp only [Effect.run]
    cases hdb : restoreById s.db now id with
    | none => exact hsame
    | some db =>
      rw [Option.getD_some, (restoreById_rows hdb).1]
      refine total_update_le hsizes (fun _ => rfl) (pairwise_id _ id) hbound fun r hr hid hp => ?_
      simp only [counts, Objects.restore, isActive, Option.isNone_none, Bool.and_true,
        Bool.and_eq_true, beq_iff_eq] at hp
      by_cases hactive : isActive r = true
      · exact Or.inl (by simp [counts, hp.1, hp.2, hactive])
      · refine Or.inr (h r (find_eq_of_unique hr ?_ fun a ha hpa => ?_) hp.2)
        · simp [beq_iff_eq.mp hid, hp.1, hactive]
        · simp only [Bool.and_eq_true, beq_iff_eq] at hpa
          exact s.db.object.eq_of_id ha hr (hpa.1.1.trans (beq_iff_eq.mp hid).symm)
  | register insertedAt now key b' o =>
    simp only [Effect.run]
    cases hdb : registerUpload s insertedAt now key b' o with
    | none => exact hsame
    | some db =>
      rw [Option.getD_some, (registerUpload_rows hdb).2.2, total_append, total_singleton]
      split_ifs with hp
      · simp only [counts, Bool.and_eq_true, beq_iff_eq] at hp
        obtain rfl : b' = b := hp.1.1
        have hle := h _ (if_pos rfl) hp.2
        omega
      · omega
  | purge now record =>
    have hdelete : (Effect.run s (.purge now record)).db.object.rows =
        s.db.object.rows.filter fun r => !(r.id == record.id) := rfl
    rw [hdelete]
    exact (total_delete_le hsizes).trans hsame
  | _ =>
    rw [db_run rfl]
    exact hsame

theorem sizes_run {P : Platform} {v : Server} {io : Input} {task task' : Task} {e : Effect}
    (hok : TaskOk P v task) (h : ∀ r ∈ v.app.db.object.rows, 0 ≤ r.filesizeBytes)
    (hstep : task.step P v.app (!v.writing) io = some (e, task')) :
    ∀ r ∈ (e.run v.app).db.object.rows, 0 ≤ r.filesizeBytes := by
  intro r hr
  cases rowFrom_run hr with
  | same _ hr => exact h r hr
  | recycled now a ha _ => exact h a ha
  | restored now a ha _ => exact h a ha
  | registered insertedAt now key b o he hfree =>
    subst he
    obtain ⟨req, rfl, _⟩ := step_register hstep
    rw [show (ObjectTable.NewObject.record _ _).filesizeBytes = o.filesizeBytes from rfl,
      ((hok.upload req _ rfl).stored b o rfl).1.size]
    exact Int.natCast_nonneg _

/-- An upload has a reason to wait once its check passed. -/
theorem waitOk_move {P : Platform} {b : Int} {s : State} {i : Nat} {io : Input}
    {req : PutRequest} {stage stage' : PutStage} {e : Effect} (h : Within P b s)
    (ha : InQuota P b s (.advance i io)) (hi : s.tasks[i]? = some (.put req stage))
    (hmove : PutMove P s.shared.app (!s.shared.writing) io req stage e stage')
    (hchecked : stage'.isChecked = true) {o : StoredObject} (hblob : stage'.blob = some (b, o)) :
    Fits (e.run s.shared.app).db b
      (otherBytes (e.run s.shared.app).db b req.key + o.filesizeBytes) := by
  have hwait := h.waits _ (List.mem_of_getElem? hi)
  cases hmove with
  | check b' o' previous hquota =>
    cases hblob
    have hprevious := ha.checks i io req o previous rfl hi
    have hused := usedBytes_eq s.shared.app.db b req.key
    refine fits_run (fits_of_check h.capped h.used (usedBytes_nonneg h.sizes b) hquota) ?_
    rw [db_run rfl]
    omega
  | select b' o' =>
    cases hblob
    exact hwait.fits req _ o rfl rfl rfl
  | skip b' o' =>
    cases hblob
    exact hwait.fits req _ o rfl rfl rfl
  | retire b' o' id hfree =>
    cases hblob
    refine fits_run (hwait.fits req _ o rfl rfl rfl) ?_
    have hle := activeBytes_run (e := .recycle io.now id) (b := b) (w := (· != req.key)) h.sizes
      (le_refl 0) (fun r hr => by cases hr)
    unfold otherBytes
    omega
  | insert b' o' hfree hinserted =>
    cases hblob
    exact hwait.fits req _ o rfl rfl rfl
  | _ => cases hchecked

theorem activates_nonneg {P : Platform} {b : Int} {s : State} {a : Action} {e : Effect}
    {r : ObjectRecord} (h : Within P b s) (hdoes : Does P s a e)
    (hr : activates s.shared.app.db b e = some r) : 0 ≤ r.filesizeBytes := by
  cases e with
  | restore now id => exact h.sizes r (List.mem_of_find?_eq_some hr)
  | register insertedAt now key b' o =>
    simp only [activates] at hr
    split_ifs at hr
    obtain ⟨i, io, task, task', rfl, hi, hstep⟩ := hdoes
    obtain ⟨req, rfl, _⟩ := step_register hstep
    have hok := h.ok.tasks _ (List.mem_of_getElem? hi)
    rw [← Option.some.inj hr, show (ObjectTable.NewObject.record _ _).filesizeBytes =
      o.filesizeBytes from rfl, ((hok.upload req _ rfl).stored b' o rfl).1.size]
    exact Int.natCast_nonneg _
  | _ => cases hr

/-- What another request makes active leaves room. -/
theorem waitOk_other {P : Platform} {b : Int} {s : State} {a : Action} {u : Task} {e : Effect}
    (h : Within P b s) (ha : InQuota P b s a) (hdoes : Does P s a e) (hu : u ∈ s.tasks)
    (writing : Bool) : WaitOk b ⟨e.run s.shared.app, writing⟩ u := by
  refine ⟨fun req stage o heq hchecked hblob => ?_⟩
  have hfits := (h.waits u hu).fits req stage o heq hchecked hblob
  by_cases hroom : ∃ r, activates s.shared.app.db b e = some r ∧ r.originalFilename ≠ req.key
  · obtain ⟨r, hr, hkey⟩ := hroom
    subst heq
    have hle : otherBytes (e.run s.shared.app).db b req.key ≤
        otherBytes s.shared.app.db b req.key + r.filesizeBytes := by
      refine activeBytes_run h.sizes (activates_nonneg h hdoes hr) fun r' hr' _ => ?_
      rw [hr, Option.some.injEq] at hr'
      rw [hr']
    exact fits_run (ha.waits e r hdoes hr req stage o hu hchecked hblob (Ne.symm hkey))
      (Int.add_le_add_right hle _)
  · have hle : otherBytes (e.run s.shared.app).db b req.key ≤
        otherBytes s.shared.app.db b req.key + 0 := by
      refine activeBytes_run h.sizes (le_refl 0) fun r hr hkey => absurd ⟨r, hr, ?_⟩ hroom
      simpa using hkey
    rw [add_zero] at hle
    exact fits_run hfits (Int.add_le_add_right hle _)

/-- The key of an upload that is committed has no other active version. -/
theorem previousSize_of_free {db : Db} {insertedAt : Instant} {key : Text} {b : Int}
    {o : StoredObject} (h : db.object.Free (uploadRow insertedAt key b o)) :
    previousSize db key b = 0 := by
  have hnone : getObjectByFilenameInBucket db key b = none := by
    refine getObjectByFilenameInBucket_eq_none.mpr fun r hr hkey hbucket hactive => ?_
    exact h.2 r hr (activeKey_eq_some.mpr ⟨hactive, hbucket, hkey⟩)
  unfold previousSize
  rw [hnone]
  rfl

/-- The active bytes stay within the hard allocations. -/
theorem used_advance {P : Platform} {b : Int} {s : State} {i : Nat} {io : Input}
    {task task' : Task} {e : Effect} (h : Within P b s) (ha : InQuota P b s (.advance i io))
    (hi : s.tasks[i]? = some task)
    (hstep : task.step P s.shared.app (!s.shared.writing) io = some (e, task')) :
    Fits (e.run s.shared.app).db b (usedBytes (e.run s.shared.app).db b) := by
  have hdoes : Does P s (.advance i io) e := ⟨i, io, task, task', rfl, hi, hstep⟩
  cases hr : activates s.shared.app.db b e with
  | none =>
    have hle : usedBytes (e.run s.shared.app).db b ≤ usedBytes s.shared.app.db b + 0 :=
      activeBytes_run h.sizes (le_refl 0) fun r hr' => by rw [hr] at hr'; cases hr'
    exact fits_run h.used (by omega)
  | some r =>
    have hle : usedBytes (e.run s.shared.app).db b ≤
        usedBytes s.shared.app.db b + r.filesizeBytes := by
      refine activeBytes_run h.sizes (activates_nonneg h hdoes hr) fun r' hr' _ => ?_
      rw [hr, Option.some.injEq] at hr'
      rw [hr']
    cases e with
    | restore now id => exact fits_run (ha.restores now id r hdoes hr) hle
    | register insertedAt now key b' o =>
      obtain ⟨req, rfl, rfl, rfl, rfl, db, hdb⟩ := step_register hstep
      simp only [activates] at hr
      split_ifs at hr with hb
      subst hb
      have hfits := (h.waits _ (List.mem_of_getElem? hi)).fits req _ o rfl rfl rfl
      have hused := usedBytes_eq s.shared.app.db b' req.key
      rw [previousSize_of_free (registerUpload_rows hdb).1, add_zero] at hused
      rw [hused, ← Option.some.inj hr] at hle
      exact fits_run hfits hle
    | _ => cases hr

theorem within_step {P : Platform} {b : Int} {s t : State} {a : Action} (h : Within P b s)
    (ha : InQuota P b s a) (hstep : step P s a = some t) : Within P b t := by
  have hok := ok_step h.ok ha.legal hstep
  rcases step_cases hstep with ⟨task, rfl, hnew, rfl⟩ | ⟨i, io, task, e, task', rfl, hi, htask, rfl⟩ |
    ⟨i, task, rfl, hi, rfl⟩
  · refine ⟨hok, h.sizes, h.capped, h.used, fun u hu => ?_⟩
    rcases List.mem_append.mp hu with hu | hu
    · exact h.waits u hu
    · rw [List.mem_singleton.mp hu]
      refine ⟨fun req stage o heq hchecked _ => ?_⟩
      subst heq
      cases stage <;> simp [Task.isNew, PutStage.isChecked] at hnew hchecked
  · have hmem := List.mem_of_getElem? hi
    have hdoes : Does P s (.advance i io) e := ⟨i, io, task, task', rfl, hi, htask⟩
    refine ⟨hok, sizes_run (h.ok.tasks task hmem) h.sizes htask,
      fun a hard => h.capped a (isHard_run.mp hard), used_advance h ha hi htask, fun u hu => ?_⟩
    rcases Pool.mem_replace hu with rfl | hu
    · refine ⟨fun req stage' o heq hchecked hblob => ?_⟩
      subst heq
      obtain ⟨stage, rfl, hput⟩ := step_eq_put htask
      exact waitOk_move h ha hi (stepPut_move hput) hchecked hblob
    · exact waitOk_other h ha hdoes hu _
  · refine ⟨hok, h.sizes, h.capped, h.used, fun u hu => ?_⟩
    rcases Pool.mem_replace hu with rfl | hu
    · exact ⟨fun req stage o heq => by cases heq⟩
    · exact ⟨(h.waits u hu).fits⟩

/-- The active bytes of a bucket stay within its hard allocations. -/
theorem quota_kept (P : Platform) (app : AppState) (b : Int) (t : State)
    (hsizes : ∀ r ∈ app.db.object.rows, 0 ≤ r.filesizeBytes)
    (hcapped : ∀ a, IsHard app.db b a → a.allocatedBytes < i64Max)
    (hused : Fits app.db b (usedBytes app.db b))
    (hrun : Run (step P) (InQuota P b) (idle app) t) :
    Fits t.shared.app.db b (usedBytes t.shared.app.db b) := by
  have hwithin : Within P b t := hrun.invariant (fun _ _ _ h ha hstep => within_step h ha hstep)
    ⟨coherent_nil trivial, hsizes, hcapped, hused, fun u hu => by cases hu⟩
  exact hwithin.used

/-- A node whose default bucket has a hard allocation of one byte, and whose account 1 has
the Owner role. -/
def smallNode : AppState :=
  let s := AppState.migrated "node-1".toList
  { s with db := { s.db with
      clusterPeer := {
        rows := [⟨"node-2".toList, "10.0.0.2:9000".toList, false⟩]
        id_unique := List.pairwise_singleton _ _ }
      bucketReplicationPeer := [⟨1, "node-2".toList, 1, .hard⟩]
      accountRole := [⟨1, 1⟩] } }

theorem isHard_small {db : Db} {a : BucketNodeAssignment}
    (hdb : db.bucketReplicationPeer = smallNode.db.bucketReplicationPeer) :
    IsHard db 1 a ↔ a = ⟨1, "node-2".toList, 1, .hard⟩ := by
  unfold IsHard
  rw [hdb, show smallNode.db.bucketReplicationPeer = [⟨1, "node-2".toList, 1, .hard⟩] from rfl,
    List.mem_singleton]
  constructor
  · exact fun h => h.1
  · intro h
    subst h
    exact ⟨rfl, rfl, rfl⟩

theorem fits_small {db : Db} {n : Int}
    (hdb : db.bucketReplicationPeer = smallNode.db.bucketReplicationPeer) :
    Fits db 1 n ↔ n ≤ 1 := by
  constructor
  · exact fun h => h _ ((isHard_small hdb).mpr rfl)
  · intro h a ha
    rw [(isHard_small hdb).mp ha]
    exact h

/-- The only request is an upload, whose reading still holds when it checks. -/
def checksAlone (s : State) : Bool :=
  match s.tasks with
  | [.put req (.sized b _ previous)] => decide (previous ≤ previousSize s.shared.app.db req.key b)
  | [.put _ _] => true
  | _ => false

theorem inQuota_alone {P : Platform} {b : Int} {s : State} {i : Nat}
    (h : checksAlone s = true) : InQuota P b s (.advance i calm) := by
  obtain ⟨req, stage, htasks⟩ : ∃ req stage, s.tasks = [.put req stage] := by
    unfold checksAlone at h
    split at h
    · exact ⟨_, _, ‹_›⟩
    · exact ⟨_, _, ‹_›⟩
    · cases h
  have hput : ∀ e r, Does P s (.advance i calm) e → activates s.shared.app.db b e = some r →
      (∃ insertedAt now key b' o, e = .register insertedAt now key b' o) ∧
        r.originalFilename = req.key := by
    intro e r hdoes hr
    obtain ⟨j, io, task, task', heq, hj, hstep⟩ := hdoes
    have hmem := List.mem_of_getElem? hj
    rw [htasks, List.mem_singleton] at hmem
    subst hmem
    obtain ⟨stage', hmove, _⟩ := step_of_kind.mp hstep
    cases stepPut_move hmove with
    | commit b' o insertedAt db hdb =>
      refine ⟨⟨_, _, _, _, _, rfl⟩, ?_⟩
      simp only [activates] at hr
      split_ifs at hr
      rw [← Option.some.inj hr]
      rfl
    | _ => cases hr
  refine ⟨legal_calm s i, ?_, ?_, ?_⟩
  · intro j io req' o previous _ hj
    have hmem := List.mem_of_getElem? hj
    rw [htasks, List.mem_singleton] at hmem
    unfold checksAlone at h
    rw [htasks, ← hmem] at h
    exact of_decide_eq_true h
  · intro e r hdoes hr req' stage' o hmem _ _ hkey
    rw [htasks, List.mem_singleton, Task.put.injEq] at hmem
    exact absurd (hput e r hdoes hr).2.symm (by rw [← hmem.1]; exact hkey)
  · intro now id r hdoes hr
    obtain ⟨⟨_, _, _, _, _, he⟩, _⟩ := hput _ r hdoes hr
    cases he

def startUpload : State := (idle smallNode).spawn (.put (sampleUpload 1 ['k'] [97]) .received)

def doneUpload : State :=
  (exec (step Platform.sample) startUpload (List.replicate 8 (.advance 0 calm))).getD startUpload

/-- The first upload of an empty node. -/
theorem legal_first : Legal Platform.sample (idle smallNode)
    (.begin (.put (sampleUpload 1 ['k'] [97]) .received)) :=
  ⟨⟨fun r hr => (by cases hr), by decide, fun task htask => (by cases htask)⟩, ['k'], by decide⟩

/-- An upload that fills the allocation. -/
theorem quota_kept_full : usedBytes doneUpload.shared.app.db 1 = 1 ∧
    Fits doneUpload.shared.app.db 1 (usedBytes doneUpload.shared.app.db 1) := by
  have hbegin : Run (step Platform.sample) (InQuota Platform.sample 1) (idle smallNode)
      startUpload := by
    refine .tail (.begin (.put (sampleUpload 1 ['k'] [97]) .received)) (.refl _)
      ⟨legal_first, by simp, ?_, ?_⟩ rfl
    · intro e r hdoes
      obtain ⟨_, _, _, _, heq, _⟩ := hdoes
      cases heq
    · intro now id r hdoes
      obtain ⟨_, _, _, _, heq, _⟩ := hdoes
      cases heq
  have hrun : Run (step Platform.sample) (InQuota Platform.sample 1) startUpload doneUpload := by
    refine run_of_execIf (fun s _ => checksAlone s) (fun a ha s hcheck => ?_)
      (rfl : execIf _ _ _ (List.replicate 8 (.advance 0 calm)) = some doneUpload)
    rw [List.eq_of_mem_replicate ha]
    exact inQuota_alone hcheck
  refine ⟨by decide, quota_kept Platform.sample smallNode 1 doneUpload (fun r hr => by cases hr)
    (fun a ha => ?_) ((fits_small rfl).mpr (by decide)) (hbegin.trans hrun)⟩
  rw [(isHard_small rfl).mp ha]
  decide

/-- Two uploads to different keys, which both pass their checks before either is committed. -/
def racing : List Action :=
  List.replicate 4 (.advance 0 calm) ++ List.replicate 4 (.advance 1 calm) ++
    List.replicate 4 (.advance 0 calm) ++ List.replicate 4 (.advance 1 calm)

def startRace : State :=
  ((idle smallNode).spawn (.put (sampleUpload 1 ['k'] [97]) .received)).spawn
    (.put (sampleUpload 2 ['m'] [98]) .received)

def doneRace : State := (exec (step Platform.sample) startRace racing).getD startRace

/-- One object in the recycle bin, and another one that fills the allocation. -/
def fullNode : AppState :=
  let s := (putObjectKeyedInBucket Platform.sample smallNode Instant.epoch (Uuid.numbered 1) ['k']
    [] [some [97]] none {}).2
  let s := (deleteObjectKeyedInBucket Limit1.first s Instant.epoch ['k'] none false).2
  (putObjectKeyedInBucket Platform.sample s Instant.epoch (Uuid.numbered 2) ['m'] []
    [some [98]] none {}).2

def restoring : List Action :=
  .begin (.restore ⟨1, 1⟩ .received) :: List.replicate 5 (.advance 0 calm)

def restored : State :=
  (exec (step Platform.sample) (idle fullNode) restoring).getD (idle fullNode)

/-- Two uploads that are checked at the same time exceed the allocation together, and a
restore exceeds it alone. -/
theorem quota_can_be_exceeded :
    (Run (step Platform.sample) (Legal Platform.sample) (idle smallNode) doneRace ∧
      Fits smallNode.db 1 (usedBytes smallNode.db 1) ∧
      ¬ Fits doneRace.shared.app.db 1 (usedBytes doneRace.shared.app.db 1)) ∧
    Run (step Platform.sample) (Legal Platform.sample) (idle fullNode) restored ∧
      Fits fullNode.db 1 (usedBytes fullNode.db 1) ∧
      ¬ Fits restored.shared.app.db 1 (usedBytes restored.shared.app.db 1) := by
  refine ⟨⟨?_, (fits_small rfl).mpr (by decide), ?_⟩, ?_, (fits_small rfl).mpr (by decide), ?_⟩
  · have hfirst : Run (step Platform.sample) (Legal Platform.sample) (idle smallNode)
        ((idle smallNode).spawn (.put (sampleUpload 1 ['k'] [97]) .received)) :=
      .tail (.begin (.put (sampleUpload 1 ['k'] [97]) .received)) (.refl _) legal_first rfl
    have hsecond : Run (step Platform.sample) (Legal Platform.sample) (idle smallNode)
        startRace := by
      refine .tail (.begin (.put (sampleUpload 2 ['m'] [98]) .received)) hfirst
        ⟨⟨?_, by decide, ?_⟩, ['m'], by decide⟩ rfl
      · intro r hr
        cases hr
      · intro task htask
        rw [List.mem_singleton.mp htask]
        exact ⟨by simp only [filepaths]; decide, by simp [orphansOf]⟩
    refine hsecond.trans (run_of_exec_of_ok (fun a ha s => ?_)
      (rfl : exec _ _ racing = some doneRace))
    simp only [racing, List.mem_append, List.mem_replicate] at ha
    rcases ha with ((⟨_, rfl⟩ | ⟨_, rfl⟩) | ⟨_, rfl⟩) | ⟨_, rfl⟩ <;> exact legal_calm s _
  · intro h
    exact absurd ((fits_small rfl).mp h) (by decide)
  · refine run_of_exec_of_ok (fun a ha s => ?_) (rfl : exec _ _ restoring = some restored)
    rcases List.mem_cons.mp ha with rfl | ha
    · trivial
    · rw [List.eq_of_mem_replicate ha]
      exact legal_calm s 0
  · intro h
    exact absurd ((fits_small rfl).mp h) (by decide)

end MyS3.HardQuota
