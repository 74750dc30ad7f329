import MyS3.WebWrites

/-!
Changes of the object table. Ids are given out once and rows stay in their buckets, so that
an id, once it was looked up, stands for a row of one bucket for ever. A change is confined
when an account was granted each row that it adds, removes or rewrites.
-/

namespace MyS3.ConfinedWrites

open Library.Strings Library.Tables Library.Interleaving Library.Runs
open Models Objects Database Engine Repository Outbox Http Rbac
open RequestInvariants WebWrites
open Requests hiding step
open RequestSteps hiding step_cases

/-- What some account may do on a bucket. -/
abbrev Grant := Int → Int → CrudAction → Prop

def May (G : Grant) (account : Option Int) (b : Int) (action : CrudAction) : Prop :=
  ∃ a, account = some a ∧ G a b action

/-- A change of the object table by an account that was granted what it takes. -/
structure Confined (G : Grant) (account : Option Int) (db db' : Db) : Prop where
  ids : db.object.nextId ≤ db'.object.nextId
  rows : ∀ r ∈ db'.object.rows, r ∈ db.object.rows ∨
    (db.object.nextId ≤ r.id ∧
      (May G account r.bucketId .create ∨ May G account r.bucketId .update)) ∨
    ∃ r₀ ∈ db.object.rows, r₀.id = r.id ∧ r₀.bucketId = r.bucketId ∧ r₀.filepath = r.filepath ∧
      (May G account r.bucketId .update ∨
        (∃ now, r = (recycle now).apply r₀) ∧
          (May G account r.bucketId .create ∨ May G account r.bucketId .delete))
  removed : ∀ r ∈ db.object.rows,
    (∃ r' ∈ db'.object.rows, r'.id = r.id) ∨ May G account r.bucketId .delete

/-- The id stands for a row of the bucket, if it still stands for one. -/
def IdOf (db : Db) (id b : Int) : Prop :=
  id < db.object.nextId ∧ ∀ r ∈ db.object.rows, r.id = id → r.bucketId = b

theorem idOf_row {db : Db} {r : ObjectRecord} (h : r ∈ db.object.rows) :
    IdOf db r.id r.bucketId := by
  refine ⟨db.object.id_lt r h, fun r' hr' hid => ?_⟩
  rw [db.object.eq_of_id hr' h hid]

theorem IdOf.follows {db db' : Db} {id b : Int} (h : IdOf db id b) (hfollows : Follows db db') :
    IdOf db' id b := by
  refine ⟨lt_of_lt_of_le h.1 hfollows.1, fun r hr hid => ?_⟩
  obtain ⟨r', hr', hid', hbucket⟩ := hfollows.2 r hr (hid ▸ h.1)
  rw [← hbucket]
  exact h.2 r' hr' (hid'.trans hid)

variable {G : Grant} {account : Option Int} {db db' : Db}

theorem follows_refl (db : Db) : Follows db db :=
  ⟨le_refl _, fun r hr _ => ⟨r, hr, rfl, rfl⟩⟩

theorem follows_updateRows {p : ObjectRecord → Bool} {f : ObjectRecord → ObjectRecord}
    (hrows : db'.object.rows = updateRows p f db.object.rows)
    (hnext : db'.object.nextId = db.object.nextId) (hid : ∀ r, (f r).id = r.id)
    (hbucket : ∀ r, (f r).bucketId = r.bucketId) : Follows db db' := by
  refine ⟨hnext.ge, fun r hr _ => ?_⟩
  rw [hrows] at hr
  rcases mem_updateRows.mp hr with ⟨hmem, _⟩ | ⟨r₀, hmem, _, rfl⟩
  · exact ⟨r, hmem, rfl, rfl⟩
  · exact ⟨r₀, hmem, (hid r₀).symm, (hbucket r₀).symm⟩

theorem follows_insertObject {v : ObjectTable.NewObject} (h : db.insertObject v = some db') :
    Follows db db' := by
  obtain ⟨_, hrows, hnext, _⟩ := Db.insertObject_eq h
  refine ⟨by omega, fun r hr hlt => ?_⟩
  rw [hrows] at hr
  rcases List.mem_append.mp hr with hr | hr
  · exact ⟨r, hr, rfl, rfl⟩
  · rw [List.mem_singleton.mp hr] at hlt
    exact absurd hlt (lt_irrefl _)

theorem follows_deleteObjects (p : ObjectRecord → Bool) : Follows db (db.deleteObjects p) :=
  ⟨le_refl _, fun r hr _ => ⟨r, (Db.mem_deleteObjects.mp hr).1, rfl, rfl⟩⟩

/-- The S3 requests, the retention loop and a reconcile are among the other writers. -/
theorem follows_run (s : AppState) (e : Effect) : Follows s.db (e.run s).db := by
  cases e with
  | recycle now id =>
    exact follows_updateRows rfl rfl (recycle now).id_eq (recycle now).bucket_eq
  | restore now id =>
    simp only [Effect.run]
    cases hdb : restoreById s.db now id with
    | none => exact follows_refl s.db
    | some db =>
      obtain ⟨hrows, _, _, hnext⟩ := Db.updateObjectsChecked_rows hdb
      exact follows_updateRows hrows hnext (Objects.restore now).id_eq
        (Objects.restore now).bucket_eq
  | register insertedAt now key b o =>
    simp only [Effect.run]
    cases hdb : registerUpload s insertedAt now key b o with
    | none => exact follows_refl s.db
    | some db =>
      obtain ⟨id, inserted, hins, rfl⟩ := registerUpload_eq hdb
      have hinserted : Follows s.db inserted := follows_insertObject (insertUpload_eq hins).2
      exact hinserted
  | purge now record => exact follows_deleteObjects _
  | _ =>
    rw [db_run rfl]
    exact follows_refl s.db

/-- So are the calls of another node. -/
theorem follows_insertObjectIdempotent {now : Instant} {filename filepath fileFormat : Text}
    {filesizeBytes : Int} {etagType etag : Text} {dateUploaded dateModified : Option Text}
    {b : Int} (h : insertObjectIdempotent db now filename filepath fileFormat filesizeBytes etagType
      etag dateUploaded dateModified b = some db') : Follows db db' := by
  rcases insertObjectIdempotent_eq h with ⟨_, rfl⟩ | ⟨_, e, _, hins⟩
  · exact follows_refl db'
  · exact follows_insertObject hins

theorem follows_deleteObjectByFilepath (filepath : Text) :
    Follows db (deleteObjectByFilepath db filepath) := follows_deleteObjects _

theorem confined_refl (G : Grant) (account : Option Int) (db : Db) : Confined G account db db where
  ids := le_refl _
  rows _ hr := Or.inl hr
  removed r hr := Or.inl ⟨r, hr, rfl⟩

theorem confined_of_object (h : db'.object = db.object) : Confined G account db db' where
  ids := by rw [h]
  rows r hr := Or.inl (h ▸ hr)
  removed r hr := Or.inl ⟨r, by rwa [h], rfl⟩

theorem Confined.follows (h : Confined G account db db') : Follows db db' := by
  refine ⟨h.ids, fun r hr hlt => ?_⟩
  rcases h.rows r hr with hmem | ⟨hnew, _⟩ | ⟨r₀, hmem, hid, hbucket, _⟩
  · exact ⟨r, hmem, rfl, rfl⟩
  · omega
  · exact ⟨r₀, hmem, hid, hbucket⟩

/-- Updating rows, each of which the account may change that way. -/
theorem confined_updateRows {p : ObjectRecord → Bool} {f : ObjectRecord → ObjectRecord}
    (hrows : db'.object.rows = updateRows p f db.object.rows)
    (hnext : db'.object.nextId = db.object.nextId) (hid : ∀ r, (f r).id = r.id)
    (hbucket : ∀ r, (f r).bucketId = r.bucketId) (hfile : ∀ r, (f r).filepath = r.filepath)
    (hmay : ∀ r ∈ db.object.rows, p r = true → May G account r.bucketId .update ∨
      (∃ now, f r = (recycle now).apply r) ∧
        (May G account r.bucketId .create ∨ May G account r.bucketId .delete)) :
    Confined G account db db' where
  ids := hnext.ge
  rows r hr := by
    rw [hrows] at hr
    rcases mem_updateRows.mp hr with ⟨hmem, _⟩ | ⟨r₀, hmem, hp, rfl⟩
    · exact Or.inl hmem
    · refine Or.inr (Or.inr ⟨r₀, hmem, (hid r₀).symm, (hbucket r₀).symm, (hfile r₀).symm, ?_⟩)
      rw [hbucket]
      exact hmay r₀ hmem hp
  removed r hr := by
    rw [hrows]
    exact Or.inl (exists_updateRows ObjectRecord.id p hid hr)

/-- Rows of one bucket are rewritten, and none is added or removed. -/
structure Rewrites (b : Int) (db db' : Db) : Prop where
  ids : db'.object.nextId = db.object.nextId
  rows : ∀ r ∈ db'.object.rows, r ∈ db.object.rows ∨
    ∃ r₀ ∈ db.object.rows, r₀.id = r.id ∧ r₀.bucketId = b ∧ r.bucketId = b ∧
      r₀.filepath = r.filepath
  kept : ∀ r ∈ db.object.rows, ∃ r' ∈ db'.object.rows, r'.id = r.id

theorem rewrites_refl (b : Int) (db : Db) : Rewrites b db db :=
  ⟨rfl, fun _ hr => Or.inl hr, fun r hr => ⟨r, hr, rfl⟩⟩

theorem Rewrites.trans {b : Int} {db'' : Db} (h : Rewrites b db db') (h' : Rewrites b db' db'') :
    Rewrites b db db'' where
  ids := h'.ids.trans h.ids
  rows r hr := by
    rcases h'.rows r hr with hmem | ⟨r₁, hmem, hid, hb, hb', hfile⟩
    · exact h.rows r hmem
    · rcases h.rows r₁ hmem with hmem' | ⟨r₀, hmem', hid', hb₀, _, hfile'⟩
      · exact Or.inr ⟨r₁, hmem', hid, hb, hb', hfile⟩
      · exact Or.inr ⟨r₀, hmem', hid'.trans hid, hb₀, hb', hfile'.trans hfile⟩
  kept r hr := by
    obtain ⟨r', hr', hid⟩ := h.kept r hr
    obtain ⟨r'', hr'', hid'⟩ := h'.kept r' hr'
    exact ⟨r'', hr'', hid'.trans hid⟩

theorem Rewrites.confined {b : Int} (h : Rewrites b db db') (hmay : May G account b .update) :
    Confined G account db db' where
  ids := h.ids.ge
  rows r hr := by
    rcases h.rows r hr with hmem | ⟨r₀, hmem, hid, hb, hb', hfile⟩
    · exact Or.inl hmem
    · refine Or.inr (Or.inr ⟨r₀, hmem, hid, hb.trans hb'.symm, hfile, Or.inl ?_⟩)
      rwa [hb']
  removed r hr := Or.inl (h.kept r hr)

theorem Rewrites.follows {b : Int} (h : Rewrites b db db') : Follows db db' := by
  refine ⟨h.ids.ge, fun r hr _ => ?_⟩
  rcases h.rows r hr with hmem | ⟨r₀, hmem, hid, hb, hb', _⟩
  · exact ⟨r, hmem, rfl, rfl⟩
  · exact ⟨r₀, hmem, hid, hb.trans hb'.symm⟩

/-- One checked update, of rows of the bucket. -/
theorem rewrites_updateChecked {b : Int} {p : ObjectRecord → Bool} {f : ObjectTable.CheckedUpdate}
    (h : db.updateObjectsChecked p f = some db')
    (hp : ∀ r ∈ db.object.rows, p r = true → r.bucketId = b) : Rewrites b db db' := by
  obtain ⟨hrows, _, _, hnext⟩ := Db.updateObjectsChecked_rows h
  refine ⟨hnext, ?_, ?_⟩
  · intro r hr
    rw [hrows] at hr
    rcases mem_updateRows.mp hr with ⟨hmem, _⟩ | ⟨r₀, hmem, hpr, rfl⟩
    · exact Or.inl hmem
    · have hb := hp r₀ hmem hpr
      exact Or.inr ⟨r₀, hmem, (f.id_eq r₀).symm, hb, (f.bucket_eq r₀).trans hb,
        (f.filepath_eq r₀).symm⟩
  · intro r hr
    rw [hrows]
    exact exists_updateRows ObjectRecord.id p f.id_eq hr

/-- A transaction whose planned ids are all of the bucket. -/
theorem rewrites_applyRenames {now : Instant} {b : Int} {plan : List (Int × Text)}
    (h : applyRenames now db plan = some db') (hplan : ∀ e ∈ plan, IdOf db e.1 b) :
    Rewrites b db db' := by
  induction plan generalizing db with
  | nil =>
    cases h
    exact rewrites_refl b _
  | cons e rest ih =>
    obtain ⟨id, newKey⟩ := e
    obtain ⟨next, hnext, hrest⟩ := Option.bind_eq_some_iff.mp h
    have hfirst : Rewrites b db next := by
      refine rewrites_updateChecked hnext fun r hr hp => ?_
      simp only [Bool.and_eq_true, beq_iff_eq] at hp
      exact (hplan _ List.mem_cons_self).2 r hr hp.1
    refine hfirst.trans (ih hrest fun e he => ?_)
    exact (hplan e (List.mem_cons_of_mem _ he)).follows hfirst.follows

theorem confined_recycle (now : Instant) {id b : Int} (h : IdOf db id b)
    (hmay : May G account b .update ∨ May G account b .create ∨ May G account b .delete) :
    Confined G account db (recycleById db now id) := by
  refine confined_updateRows rfl rfl (recycle now).id_eq (recycle now).bucket_eq
    (recycle now).filepath_eq fun r hr hp => ?_
  rw [h.2 r hr (by simpa using hp)]
  exact hmay.imp_right fun hmay => ⟨⟨now, rfl⟩, hmay⟩

theorem confined_recycleFolder (now : Instant) {b : Int} (pre : Text)
    (hmay : May G account b .delete) :
    Confined G account db (softDeletePrefix db now b pre).2 := by
  refine confined_updateRows rfl rfl (recycle now).id_eq (recycle now).bucket_eq
    (recycle now).filepath_eq fun r hr hp => ?_
  simp only [Bool.and_eq_true, beq_iff_eq] at hp
  rw [hp.1.2]
  exact Or.inr ⟨⟨now, rfl⟩, Or.inr hmay⟩

theorem confined_rename (now : Instant) {b : Int} {plan : List (Int × Text)}
    (hplan : ∀ e ∈ plan, IdOf db e.1 b) (hmay : May G account b .update) :
    Confined G account db ((applyRenames now db plan).getD db) := by
  cases h : applyRenames now db plan with
  | none => exact confined_refl G account db
  | some db' => exact (rewrites_applyRenames h hplan).confined hmay

theorem confined_restore (now : Instant) {id b : Int} (h : IdOf db id b)
    (hmay : May G account b .update) :
    Confined G account db ((restoreById db now id).getD db) := by
  cases hdb : restoreById db now id with
  | none => exact confined_refl G account db
  | some db' =>
    exact (rewrites_updateChecked hdb fun r hr hp => h.2 r hr (by simpa using hp)).confined hmay

theorem confined_register (s : AppState) (insertedAt now : Instant) (key : Text) {b : Int}
    (o : StoredObject) (hmay : May G account b .create ∨ May G account b .update) :
    Confined G account s.db ((registerUpload s insertedAt now key b o).getD s.db) := by
  cases hdb : registerUpload s insertedAt now key b o with
  | none => exact confined_refl G account s.db
  | some db' =>
    obtain ⟨id, inserted, hins, rfl⟩ := registerUpload_eq hdb
    obtain ⟨_, hrows, hnext, _⟩ := Db.insertObject_eq (insertUpload_eq hins).2
    refine ⟨?_, ?_, ?_⟩
    · have hle : s.db.object.nextId ≤ inserted.object.nextId := by omega
      exact hle
    · intro r hr
      have hmem : r ∈ inserted.object.rows := hr
      rw [hrows] at hmem
      rcases List.mem_append.mp hmem with hmem | hmem
      · exact Or.inl hmem
      · rw [List.mem_singleton.mp hmem]
        exact Or.inr (Or.inl ⟨le_refl _, hmay⟩)
    · intro r hr
      have hmem : r ∈ inserted.object.rows := by
        rw [hrows]
        exact List.mem_append_left _ hr
      exact Or.inl ⟨r, hmem, rfl⟩

theorem confined_purge (s : AppState) (now : Instant) {record : ObjectRecord} {b : Int}
    (h : IdOf s.db record.id b) (hmay : May G account b .delete) :
    Confined G account s.db (purgeRecord s now record) := by
  have hmem : ∀ r, r ∈ (purgeRecord s now record).object.rows ↔
      r ∈ s.db.object.rows ∧ r.id ≠ record.id := fun r => by
    unfold purgeRecord
    rw [Db.mem_deleteObjects, enqueueDeleteForActivePeers, enqueueForActivePeers_object]
    simp
  refine ⟨le_refl _, fun r hr => Or.inl ((hmem r).mp hr).1, fun r hr => ?_⟩
  by_cases hid : r.id = record.id
  · rw [h.2 r hr hid]
    exact Or.inr hmay
  · exact Or.inl ⟨r, (hmem r).mpr ⟨hr, hid⟩, rfl⟩

end MyS3.ConfinedWrites
