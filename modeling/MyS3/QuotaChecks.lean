import MyS3.HardQuota

/-!
The quota check of one upload by itself. What it lets through is decided by the sizes and the
hard allocations, with two limits of 64-bit integers: a sum of sizes above them fails the check
with a database error, and a projected usage above them counts as the largest one.
-/

namespace MyS3.QuotaChecks

open Library.Strings Library.Tables
open Models Objects Database Engine Repository Http S3Routes HardQuota

def InI64 (n : Int) : Prop := i64Min ≤ n ∧ n ≤ i64Max

/-- The growth that the handler of an upload asks the quota for. -/
def netGrowth (db : Db) (key : Text) (b size : Int) : Int :=
  saturate (size - previousSize db key b)

/-- The quota step of an upload of so many bytes: its answer, if it refuses the upload. -/
def quotaStep (db : Db) (key : Text) (b size : Int) : Option Response :=
  quotaResponse db b (netGrowth db key b size) false

/-- The active bytes of the bucket once the upload has replaced its version. -/
def projectedBytes (db : Db) (key : Text) (b size : Int) : Int :=
  usedBytes db b - previousSize db key b + size

/-- No growth, or a projected usage within every hard allocation. -/
def Allowed (db : Db) (key : Text) (b size : Int) : Prop :=
  size ≤ previousSize db key b ∨ Fits db b (projectedBytes db key b size)

/-- The same within 64 bits: the sum of the sizes is an integer of them, and a projected usage
above them is the largest one. -/
def AllowedInI64 (db : Db) (key : Text) (b size : Int) : Prop :=
  size ≤ previousSize db key b ∨
    usedBytes db b ≤ i64Max ∧ Fits db b (min (projectedBytes db key b size) i64Max)

/-- Sizes and allocations are 64-bit integers that are not negative. -/
structure Sized (db : Db) (size : Int) : Prop where
  size : 0 ≤ size ∧ size ≤ i64Max
  objects : ∀ r ∈ db.object.rows, 0 ≤ r.filesizeBytes ∧ r.filesizeBytes ≤ i64Max
  allocations : ∀ a ∈ db.bucketReplicationPeer, 0 ≤ a.allocatedBytes ∧ a.allocatedBytes ≤ i64Max

/-- What the check computes on its way is the exact number, or is clamped. -/
structure NoWrap (db : Db) (key : Text) (b size : Int) : Prop where
  growth : netGrowth db key b size = size - previousSize db key b ∧
    InI64 (size - previousSize db key b)
  used : ∀ used, bucketUsedBytes db b = some used → used = usedBytes db b ∧ InI64 used
  projected : usedBytes db b ≤ i64Max → 0 < netGrowth db key b size →
    saturate (usedBytes db b + netGrowth db key b size) =
      min (projectedBytes db key b size) i64Max

theorem previousSize_sized {db : Db} {size : Int} (h : Sized db size) (key : Text) (b : Int) :
    0 ≤ previousSize db key b ∧ previousSize db key b ≤ i64Max := by
  unfold previousSize
  cases hfind : getObjectByFilenameInBucket db key b with
  | none => exact ⟨le_rfl, by decide⟩
  | some r => exact h.objects r (List.mem_of_find?_eq_some hfind)

theorem noWrap_of_sized {db : Db} {size : Int} (h : Sized db size) (key : Text) (b : Int) :
    NoWrap db key b size := by
  have hused : 0 ≤ usedBytes db b := usedBytes_nonneg (fun r hr => (h.objects r hr).1) b
  obtain ⟨hpos, hmax⟩ := previousSize_sized h key b
  obtain ⟨hsize, hlimit⟩ := h.size
  have hgrowth : netGrowth db key b size = size - previousSize db key b := by
    unfold netGrowth saturate i64Min i64Max at *
    omega
  refine ⟨⟨hgrowth, ?_⟩, ?_, ?_⟩
  · unfold InI64 i64Min i64Max at *
    omega
  · intro used hsum
    rw [bucketUsedBytes_eq] at hsum
    split_ifs at hsum with hin
    cases hsum
    exact ⟨rfl, by unfold InI64 i64Min i64Max at *; omega⟩
  · intro hin hgrow
    rw [hgrowth] at hgrow ⊢
    unfold projectedBytes saturate i64Min i64Max at *
    omega

/-- An upload that is let through fits within 64 bits, and one that fits is let through. -/
theorem quotaStep_none_iff {db : Db} {size : Int} (h : Sized db size) (key : Text) (b : Int) :
    quotaStep db key b size = none ↔ AllowedInI64 db key b size := by
  have hwrap := noWrap_of_sized h key b
  unfold quotaStep AllowedInI64
  rw [quotaResponse_none_iff]
  by_cases hgrows : size ≤ previousSize db key b
  · exact iff_of_true (Or.inl (by rw [hwrap.growth.1]; omega)) (Or.inl hgrows)
  · have hgrowth : 0 < netGrowth db key b size := by
      rw [hwrap.growth.1]
      omega
    rw [or_iff_right (by omega), or_iff_right hgrows]
    refine and_congr_right fun hin => ?_
    rw [hwrap.projected hin hgrowth]

/-- Up to the limits of 64 bits the two rules are one. -/
theorem allowedInI64_iff {db : Db} {key : Text} {b size : Int}
    (h : projectedBytes db key b size ≤ i64Max) :
    AllowedInI64 db key b size ↔ Allowed db key b size := by
  unfold AllowedInI64 Allowed
  by_cases hgrows : size ≤ previousSize db key b
  · exact iff_of_true (Or.inl hgrows) (Or.inl hgrows)
  · have hused : usedBytes db b ≤ i64Max := by
      unfold projectedBytes at h
      omega
    rw [or_iff_right hgrows, or_iff_right hgrows, and_iff_right hused, min_eq_left h]

/-- The check reads the objects and the hard allocations. -/
theorem quotaStep_of_same_hard {db db' : Db} (hobjects : db'.object = db.object)
    (hhard : db'.bucketReplicationPeer.filter (·.quotaMode == .hard) =
      db.bucketReplicationPeer.filter (·.quotaMode == .hard)) (key : Text) (b size : Int) :
    quotaStep db' key b size = quotaStep db key b size := by
  have hfind : ∀ (l : List BucketNodeAssignment) (n : Int),
      (l.find? fun a => a.bucketId == b && a.quotaMode == .hard && decide (a.allocatedBytes < n)) =
        (l.filter (·.quotaMode == .hard)).find? fun a =>
          a.bucketId == b && decide (a.allocatedBytes < n) := by
    intro l n
    rw [List.find?_filter]
    congr 1
    funext a
    rw [Bool.and_comm (a.bucketId == b), Bool.and_assoc, Bool.decide_and, Bool.decide_eq_true,
      Bool.decide_eq_true]
  have hprevious : previousSize db' key b = previousSize db key b := by
    unfold previousSize getObjectByFilenameInBucket
    rw [hobjects]
  have hused : bucketUsedBytes db' b = bucketUsedBytes db b := by
    unfold bucketUsedBytes
    rw [hobjects]
  unfold quotaStep netGrowth quotaResponse checkHardQuota
  simp only [hprevious, hused, hfind, hhard]

/-- An upload that is refused leaves the database alone. -/
theorem registerObject_refused {s : AppState} {key : Text} {b : Int} {stored : StoredObject}
    {refusal : Response} (h : quotaStep s.db key b stored.filesizeBytes = some refusal)
    (now : Instant) : registerObject s now key b stored {} = (some refusal, s.db) := by
  unfold quotaStep netGrowth at h
  unfold registerObject
  simp [h]

/-- The quota step of an upload lets through what replaces a version at least as large, or what
fits in every hard allocation, both within the limits of 64 bits. Below these limits it is the
rule itself. Soft allocations do not matter to it, nothing wraps on the way, and an upload that
it refuses leaves the database alone. -/
theorem quota_step_exact (s : AppState) (now : Instant) (key : Text) (b : Int)
    (stored : StoredObject) (h : Sized s.db stored.filesizeBytes) :
    (quotaStep s.db key b stored.filesizeBytes = none ↔
        AllowedInI64 s.db key b stored.filesizeBytes) ∧
      (projectedBytes s.db key b stored.filesizeBytes ≤ i64Max →
        (quotaStep s.db key b stored.filesizeBytes = none ↔
          Allowed s.db key b stored.filesizeBytes)) ∧
      (∀ db' : Db, db'.object = s.db.object →
        db'.bucketReplicationPeer.filter (·.quotaMode == .hard) =
          s.db.bucketReplicationPeer.filter (·.quotaMode == .hard) →
        quotaStep db' key b stored.filesizeBytes = quotaStep s.db key b stored.filesizeBytes) ∧
      NoWrap s.db key b stored.filesizeBytes ∧
      ∀ refusal, quotaStep s.db key b stored.filesizeBytes = some refusal →
        registerObject s now key b stored {} = (some refusal, s.db) := by
  have hiff := quotaStep_none_iff h key b
  refine ⟨hiff, fun hlimit => hiff.trans (allowedInI64_iff hlimit),
    fun db' hobjects hhard => quotaStep_of_same_hard hobjects hhard key b _,
    noWrap_of_sized h key b, fun refusal hrefused => registerObject_refused hrefused now⟩

/-- The database with one more object in the default bucket. -/
def withObject (db : Db) (key : Text) (size : Int) : Db :=
  ((insertObjectTx db Instant.epoch key key [] size .md5 [] 1).map (·.2)).getD db

def upload (size : Int) : StoredObject where
  filepath := "objects/a".toList
  fileFormat := []
  filesizeBytes := size
  etagType := .md5
  etag := []

/-- A hard allocation of ten bytes, of which four are used. -/
def tenBytes : AppState :=
  { smallNode with db := { withObject smallNode.db ['k'] 4 with
      bucketReplicationPeer := [⟨1, "node-2".toList, 10, .hard⟩] } }

theorem quota_step_exact_ten : quotaStep tenBytes.db ['m'] 1 6 = none ∧
    (quotaStep tenBytes.db ['m'] 1 6 = none ↔ AllowedInI64 tenBytes.db ['m'] 1 6) :=
  ⟨by decide, (quota_step_exact tenBytes Instant.epoch ['m'] 1 (upload 6)
    ⟨by decide, by decide, by decide⟩).1⟩

/-- The largest allocation there is, and all of it used. -/
def largest : Db :=
  { withObject smallNode.db ['k'] i64Max with
    bucketReplicationPeer := [⟨1, "node-2".toList, i64Max, .hard⟩] }

/-- Two objects of the largest size, without any allocation. -/
def twoLargest : Db :=
  { withObject (withObject smallNode.db ['k'] i64Max) ['m'] i64Max with
    bucketReplicationPeer := [] }

/-- At the limits of 64 bits a byte more than the allocation is let through, and a byte is
refused where there is no allocation. -/
theorem quota_step_at_limits :
    (Sized largest 1 ∧ quotaStep largest ['m'] 1 1 = none ∧ ¬ Allowed largest ['m'] 1 1) ∧
      Sized twoLargest 1 ∧ quotaStep twoLargest ['n'] 1 1 = some databaseError ∧
        Allowed twoLargest ['n'] 1 1 := by
  refine ⟨⟨⟨by decide, by decide, by decide⟩, by decide, ?_⟩,
    ⟨by decide, by decide, by decide⟩, by decide, Or.inr fun a ha => ?_⟩
  · intro h
    rcases h with hsize | hfits
    · exact absurd hsize (by decide)
    · exact absurd (hfits ⟨1, "node-2".toList, i64Max, .hard⟩ ⟨by decide, rfl, rfl⟩) (by decide)
  · exact absurd ha.1 (by simp [twoLargest])

end MyS3.QuotaChecks
