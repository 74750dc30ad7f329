import MyS3.Library.TimestampOrder
import MyS3.Repository

/-!
The order of `list_objects` and `list_objects_in_bucket`. A row that was uploaded here has the
text of the database clock as its upload date, a row that was received the RFC 3339 text that
its sender wrote, and the query compares the texts.
-/

namespace MyS3.UploadOrder

open Library.Strings Library.Tables Library.Timestamps
open Models Objects Database Repository

/-- When and how a row was uploaded. -/
inductive Upload
  | uploadedHere (t : DbTime)
  | received (t : Instant)

namespace Upload

/-- The column `date_uploaded`. -/
def text : Upload → Text
  | uploadedHere t => t.text
  | received t => rfc3339 t.nanos

/-- The upload instant in nanoseconds. -/
def nanos : Upload → Int
  | uploadedHere t => t.secs * nanosPerSec
  | received t => t.nanos

/-- The UTC date of the upload, as a number of days. -/
def day (u : Upload) : Int := u.nanos / nanosPerSec / secsPerDay

end Upload

/-- The upload dates of the active rows are those of their uploads. -/
def DatedBy (db : Db) (upload : ObjectRecord → Upload) : Prop :=
  ∀ r ∈ db.object.rows, isActive r = true → r.dateUploaded = (upload r).text

/-- A list has the newest uploads first. -/
def NewestFirst (upload : ObjectRecord → Upload) (rows : List ObjectRecord) : Prop :=
  rows.Pairwise fun a b => (upload b).nanos ≤ (upload a).nanos

/-- No row that was uploaded here is later than a row that was received and has the same
date. -/
def ReceivedNotBefore (upload : ObjectRecord → Upload) (rows : List ObjectRecord) : Prop :=
  ∀ a ∈ rows, ∀ b ∈ rows, ∀ s t, upload a = .received s → upload b = .uploadedHere t →
    (upload a).day = (upload b).day → (upload b).nanos ≤ (upload a).nanos

theorem dbTime_range (t : DbTime) : minSecs ≤ t.secs ∧ t.secs < maxSecs := ⟨t.lower, t.upper⟩

theorem instant_range (t : Instant) :
    minSecs * nanosPerSec ≤ t.nanos ∧ t.nanos < maxSecs * nanosPerSec := ⟨t.lower, t.upper⟩

theorem day_uploadedHere (t : DbTime) : (Upload.uploadedHere t).day = t.secs / secsPerDay := by
  unfold Upload.day Upload.nanos nanosPerSec
  simp

/-- Where the texts compare, the instants do, but for a row that was uploaded here and a row
that was received on the same date. -/
theorem nanos_le_of_text {u v : Upload} (h : textLe v.text u.text = true) :
    v.nanos ≤ u.nanos ∨ ∃ s t, u = .received s ∧ v = .uploadedHere t ∧ u.day = v.day := by
  cases u with
  | uploadedHere s =>
    cases v with
    | uploadedHere t =>
      have hle := (textLe_currentTimestamp (dbTime_range t) (dbTime_range s)).mp h
      left
      unfold Upload.nanos nanosPerSec
      simp only
      omega
    | received t =>
      have hlt := (textLe_rfc3339_currentTimestamp (dbTime_range s) (instant_range t)).mp h
      left
      unfold Upload.nanos
      unfold secsPerDay nanosPerSec at *
      simp only
      omega
  | received s =>
    cases v with
    | uploadedHere t =>
      have hle := (textLe_currentTimestamp_rfc3339 t.lower t.upper s.upper).mp h
      rcases lt_or_eq_of_le hle with hlt | heq
      · left
        unfold Upload.nanos
        unfold secsPerDay nanosPerSec at *
        simp only
        omega
      · exact Or.inr ⟨s, t, rfl, rfl, by rw [day_uploadedHere, heq]; rfl⟩
    | received t =>
      exact Or.inl ((textLe_rfc3339 (instant_range t) (instant_range s)).mp h)

/-- On one date a row that was received comes before all that were uploaded here. -/
theorem received_first {s : Instant} {t : DbTime}
    (h : (Upload.received s).day = (Upload.uploadedHere t).day) :
    textLe (Upload.received s).text (Upload.uploadedHere t).text = false := by
  rw [Bool.eq_false_iff]
  intro hle
  have hlt := (textLe_rfc3339_currentTimestamp (dbTime_range t) (instant_range s)).mp hle
  rw [day_uploadedHere] at h
  exact absurd h hlt.ne

theorem orderByUploadedDesc_sorted (rows : List ObjectRecord) :
    (orderByUploadedDesc rows).Pairwise fun a b => textLe b.dateUploaded a.dateUploaded = true := by
  have : Std.Total fun a b : ObjectRecord => textLe b.dateUploaded a.dateUploaded = true :=
    ⟨fun a b => textLe_total b.dateUploaded a.dateUploaded⟩
  have : IsTrans ObjectRecord fun a b => textLe b.dateUploaded a.dateUploaded = true :=
    ⟨fun _ _ _ hab hbc => textLe_trans hbc hab⟩
  exact List.pairwise_insertionSort _ rows

/-- One row is before another one in the order of the query, and is not the older one. -/
def InOrder (upload : ObjectRecord → Upload) (a b : ObjectRecord) : Prop :=
  textLe b.dateUploaded a.dateUploaded = true ∧ (upload b).nanos ≤ (upload a).nanos

theorem mem_orderByUploadedDesc {rows : List ObjectRecord} {r : ObjectRecord} :
    r ∈ orderByUploadedDesc rows ↔ r ∈ rows := List.mem_insertionSort _

/-- Rows in the order of the query are in the order of their uploads exactly when none that
was uploaded here is later than one that was received on the same date. -/
theorem newestFirst_orderByUploadedDesc {upload : ObjectRecord → Upload} {rows : List ObjectRecord}
    (hdates : ∀ r ∈ rows, r.dateUploaded = (upload r).text) :
    NewestFirst upload (orderByUploadedDesc rows) ↔ ReceivedNotBefore upload rows := by
  have hsorted := orderByUploadedDesc_sorted rows
  constructor
  · intro hnewest a ha b hb s t hreceived hhere hday
    have hsymm : Std.Symm (fun x y => InOrder upload x y ∨ InOrder upload y x) :=
      ⟨fun _ _ => Or.symm⟩
    have hall : (orderByUploadedDesc rows).Pairwise fun x y =>
        InOrder upload x y ∨ InOrder upload y x := by
      exact (hsorted.and hnewest).imp fun h => Or.inl h
    have hself : ∀ x ∈ orderByUploadedDesc rows, InOrder upload x x ∨ InOrder upload x x := by
      intro x _
      exact Or.inl ⟨by simpa using textLe_total x.dateUploaded x.dateUploaded, le_refl _⟩
    have hpair := List.Pairwise.forall_of_forall
      (R := fun x y => InOrder upload x y ∨ InOrder upload y x) hself hall
      (mem_orderByUploadedDesc.mpr hb) (mem_orderByUploadedDesc.mpr ha)
    rcases hpair with h | h
    · -- The received row comes first, so the other is not before it in the list.
      have hfirst := h.1
      rw [hdates a ha, hdates b hb, hreceived, hhere, received_first] at hfirst
      · cases hfirst
      · rw [← hreceived, ← hhere]
        exact hday
    · exact h.2
  · intro hlast
    refine hsorted.imp_of_mem fun {a b} ha hb hle => ?_
    rw [mem_orderByUploadedDesc] at ha hb
    rw [hdates a ha, hdates b hb] at hle
    rcases nanos_le_of_text hle with h | ⟨s, t, hreceived, hhere, hday⟩
    · exact h
    · exact hlast a ha b hb s t hreceived hhere hday

/-- The listings of all objects and of one bucket have the newest uploads first exactly when
no listed row that was uploaded here is later than a listed row that was received and has
the same date. -/
theorem newest_first_iff (db : Db) (upload : ObjectRecord → Upload) (h : DatedBy db upload) :
    (NewestFirst upload (listObjects db) ↔
        ReceivedNotBefore upload (db.object.rows.filter isActive)) ∧
      ∀ bucketId, NewestFirst upload (listObjectsInBucket db bucketId) ↔
        ReceivedNotBefore upload
          (db.object.rows.filter fun r => r.bucketId == bucketId && isActive r) := by
  refine ⟨newestFirst_orderByUploadedDesc fun r hr => ?_,
    fun bucketId => newestFirst_orderByUploadedDesc fun r hr => ?_⟩
  · exact h r (List.mem_of_mem_filter hr) (List.mem_filter.mp hr).2
  · have hr' := List.mem_filter.mp hr
    exact h r hr'.1 (Bool.and_eq_true_iff.mp hr'.2).2

/-- Nine in the morning and three in the afternoon of one day. -/
def morning : Instant := Instant.ofSecs 32400 (by decide) (by decide)

def afternoon : Instant := Instant.ofSecs 54000 (by decide) (by decide)

/-- An upload in the afternoon, and the delivery of an object that a peer took in the
morning. -/
def mixedDb : Option Db :=
  (insertObjectTx Db.migrated afternoon ['l'] ['p'] [] 0 .md5 [] 1).bind fun local_ =>
    insertObjectIdempotent local_.2 afternoon ['r'] ['q'] [] 0 EtagType.md5.display []
      (some (rfc3339 morning.nanos)) (some (rfc3339 morning.nanos)) 1

def mixedUpload (r : ObjectRecord) : Upload :=
  if r.originalFilename = ['l'] then .uploadedHere afternoon.currentTimestamp
  else .received morning

theorem mixedDb_isSome : mixedDb.isSome = true := by decide

theorem mixedDb_dated : ∀ db ∈ mixedDb, DatedBy db mixedUpload := by
  unfold DatedBy
  decide

theorem newest_first_iff_mixed :
    ∃ db ∈ mixedDb, DatedBy db mixedUpload ∧ (NewestFirst mixedUpload (listObjects db) ↔
        ReceivedNotBefore mixedUpload (db.object.rows.filter isActive)) := by
  obtain ⟨db, h⟩ := Option.isSome_iff_exists.mp mixedDb_isSome
  have hdated := mixedDb_dated db h
  exact ⟨db, h, hdated, (newest_first_iff db mixedUpload hdated).1⟩

/-- The row of the morning comes before the row of the afternoon. -/
theorem older_upload_first :
    ∃ db ∈ mixedDb, DatedBy db mixedUpload ∧ ¬ NewestFirst mixedUpload (listObjects db) ∧
      ¬ NewestFirst mixedUpload (listObjectsInBucket db 1) := by
  obtain ⟨db, h⟩ := Option.isSome_iff_exists.mp mixedDb_isSome
  have hunordered : ∀ db ∈ mixedDb, ¬ NewestFirst mixedUpload (listObjects db) ∧
      ¬ NewestFirst mixedUpload (listObjectsInBucket db 1) := by
    unfold NewestFirst
    decide
  exact ⟨db, h, mixedDb_dated db h, hunordered db h⟩

end MyS3.UploadOrder
