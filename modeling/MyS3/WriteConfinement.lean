import MyS3.ConfinedWrites

/-!
What the requests of the web API change is confined to what their accounts may change. A
request checks its permission in one step and writes in a later one, and in between roles
may change, buckets may be renamed, and other requests may touch the same rows. What it has
found stays true all the same, since an id of an object stands for a row of one bucket.
-/

namespace MyS3.WriteConfinement

open Library.Strings Library.Tables Library.Interleaving Library.Runs
open Models Objects Database Engine Repository Outbox Http Keys Rbac SessionAuth S3Routes
open RequestInvariants ConcurrentUploads WebWrites ConfinedWrites
open Requests hiding step
open RequestSteps hiding step_cases
open WebUploads hiding step step_cases

/-- The accounts of the requests may do no more than `G` says, whatever else changes. -/
def Within (G : Grant) (s : WriteState) (_ : WriteAction) : Prop :=
  ∀ task ∈ s.tasks, ∀ a, task.account = some a → ∀ b action,
    checkPerm s.shared.app.db a b action = true → G a b action

variable {G : Grant} {account : Option Int} {db db' : Db}

/-- The rows that a rename has planned to update, or may still plan. -/
def plannedIds : RenameStage → List Int
  | .received => []
  | .checking rows plan => rows.map (·.id) ++ plan.map (·.1)
  | .planned plan => plan.map (·.1)

/-- An upload to the bucket, whose version to recycle is one of the bucket. -/
def PutHeld (db : Db) (b : Int) (stage : PutStage) : Prop :=
  (∀ b', bucketOf stage = some b' → b' = b) ∧
    ∀ o id, stage = .selected b o (some id) → IdOf db id b

/-- An item of a purge: what was checked is of a bucket of which the account may delete. -/
def ItemHeld (G : Grant) (account : Option Int) (db : Db) : PurgeItem → Prop
  | .requested _ => True
  | .unchecked record => IdOf db record.id record.bucketId
  | .selected id => ∃ b, IdOf db id b ∧ May G account b .delete
  | .listed _ => False

/-- The request found the permission that its next writes need. -/
def Held (G : Grant) (db : Db) : WriteTask → Prop
  | .put w (.uploading _ b stage) =>
    (May G (some w.accountId) b .create ∨ May G (some w.accountId) b .update) ∧
      PutHeld db b stage
  | .deleting a req stage =>
    ∃ b, req.bucketId = some b ∧ May G (some a) b .delete ∧
      ∀ id, stage = .selected id → IdOf db id b
  | .deletingFolder a b _ => May G (some a) b .delete
  | .renamingFolder a b _ _ stage =>
    May G (some a) b .update ∧ ∀ id ∈ plannedIds stage, IdOf db id b
  | .restoring req stage =>
    stage ≠ .received → (∀ answer, stage ≠ .done answer) →
      ∃ b, IdOf db req.id b ∧ May G (some req.accountId) b .update
  | .purging req stage =>
    (purger req).isSome = true ∧ ∀ item ∈ stage.items, ItemHeld G (purger req) db item
  | _ => True

theorem ItemHeld.follows {item : PurgeItem} (h : ItemHeld G account db item)
    (hfollows : Follows db db') : ItemHeld G account db' item := by
  cases item with
  | requested id => trivial
  | unchecked record => exact IdOf.follows h hfollows
  | selected id =>
    obtain ⟨b, hid, hmay⟩ := h
    exact ⟨b, hid.follows hfollows, hmay⟩
  | listed record => exact h

/-- What a request has found stays so. -/
theorem Held.follows {task : WriteTask} (h : Held G db task) (hfollows : Follows db db') :
    Held G db' task := by
  cases task with
  | put w stage =>
    cases stage with
    | uploading key b stage =>
      exact ⟨h.1, h.2.1, fun o id hstage => (h.2.2 o id hstage).follows hfollows⟩
    | _ => trivial
  | deleting a req stage =>
    obtain ⟨b, hb, hmay, hid⟩ := h
    exact ⟨b, hb, hmay, fun id hstage => (hid id hstage).follows hfollows⟩
  | deletingFolder a b pre => exact h
  | renamingFolder a b fromPrefix toPrefix stage =>
    exact ⟨h.1, fun id hid => (h.2 id hid).follows hfollows⟩
  | restoring req stage =>
    intro hreceived hdone
    obtain ⟨b, hid, hmay⟩ := h hreceived hdone
    exact ⟨b, hid.follows hfollows, hmay⟩
  | purging req stage => exact ⟨h.1, fun item hitem => (h.2 item hitem).follows hfollows⟩
  | _ => trivial

/-- A permission check that passes, of an account that is bounded by `G`. -/
def Bounded (G : Grant) (db : Db) (account : Option Int) : Prop :=
  ∀ a, account = some a → ∀ b action, checkPerm db a b action = true → G a b action

theorem Bounded.may {s : AppState} {a b : Int} {action : CrudAction} {u : Unit}
    (h : Bounded G s.db (some a)) (hperm : requireBucketPerm s a b action = .ok u) :
    May G (some a) b action := ⟨a, rfl, h a rfl b action (requireBucketPerm_ok hperm)⟩

/-- What a step of a request may do, and what the request has found afterwards. -/
structure Sound (G : Grant) (account : Option Int) (s : AppState) (e : WriteEffect)
    (task' : WriteTask) : Prop where
  confined : Confined G account s.db (e.run s).db
  held : Held G s.db task'

theorem sound_keep {s : AppState} {task task' : WriteTask} {e : WriteEffect}
    (h : keep task = some (e, task')) (hheld : Held G s.db task) : Sound G account s e task' := by
  cases h
  exact ⟨confined_refl G account s.db, hheld⟩

theorem sound_of_not_write {s : AppState} {e : Effect} {task' : WriteTask}
    (h : isWrite e = false) (hheld : Held G s.db task') :
    Sound G account s (.effect e) task' := by
  refine ⟨?_, hheld⟩
  rw [WriteEffect.run, db_run h]
  exact confined_refl G account s.db

/-- A step of the upload itself. -/
theorem putHeld_move {P : Platform} {s : AppState} {free : Bool} {io : Input} {req : PutRequest}
    {b : Int} {put put' : PutStage} {e : Effect} (hb : req.bucketId = some b)
    (h : PutHeld s.db b put) (hmove : PutMove P s free io req put e put') :
    PutHeld s.db b put' := by
  cases hmove with
  | create b' default hdefault hbucket =>
    rw [hb] at hbucket
    refine ⟨fun b'' heq => ?_, by simp⟩
    cases heq
    exact (Option.some.inj hbucket).symm
  | select b' o =>
    refine ⟨h.1, fun o' id heq => ?_⟩
    simp only [PutStage.selected.injEq] at heq
    obtain ⟨rfl, _, hid⟩ := heq
    obtain ⟨r, hr, rfl⟩ := Option.map_eq_some_iff.mp hid
    obtain ⟨hmem, _, hbucket, _⟩ := getObjectByFilenameInBucket_eq_some.mp hr
    rw [← hbucket]
    exact idOf_row hmem
  | store | size | check | skip | retire | insert => exact ⟨h.1, by simp⟩
  | _ => exact ⟨by simp [bucketOf, PutStage.blob], by simp⟩

theorem confined_move {P : Platform} {s : AppState} {free : Bool} {io : Input} {req : PutRequest}
    {b : Int} {put put' : PutStage} {e : Effect}
    (hmay : May G account b .create ∨ May G account b .update) (h : PutHeld s.db b put)
    (hmove : PutMove P s free io req put e put') : Confined G account s.db (e.run s).db := by
  cases hmove with
  | retire b' o id hfree =>
    obtain rfl := h.1 b' rfl
    exact confined_recycle io.now (h.2 o id rfl) (hmay.elim (fun h => Or.inr (Or.inl h)) Or.inl)
  | commit b' o insertedAt db hdb =>
    obtain rfl := h.1 b' rfl
    exact confined_register s insertedAt io.now req.key o hmay
  | _ =>
    rw [db_run rfl]
    exact confined_refl G account s.db

theorem sound_put {P : Platform} {s : AppState} {free : Bool} {io : Input} {w : WebPut}
    {stage : WebStage} {e : WriteEffect} {task' : WriteTask}
    (hbounded : Bounded G s.db (some w.accountId)) (hheld : Held G s.db (.put w stage))
    (h : (WriteTask.put w stage).step P s free io = some (e, task')) :
    Sound G (some w.accountId) s e task' := by
  obtain ⟨⟨e', stage'⟩, hweb, heq⟩ := Option.map_eq_some_iff.mp h
  simp only [Prod.map, Prod.mk.injEq] at heq
  obtain ⟨rfl, rfl⟩ := heq
  cases stage with
  | looked key b existing =>
    simp only [stepWeb] at hweb
    split_ifs at hweb
    · cases hweb
      exact sound_of_not_write rfl trivial
    · split at hweb
      · cases hweb
        exact sound_of_not_write rfl trivial
      · rename_i hperm
        cases hweb
        have hmay := hbounded.may hperm
        refine sound_of_not_write rfl ⟨?_, by simp [bucketOf, PutStage.blob], by simp⟩
        cases existing with
        | false => exact Or.inl hmay
        | true => exact Or.inr hmay
  | uploading key b put =>
    obtain ⟨put', hput, rfl⟩ := step_of_kind.mp hweb
    have hmove := stepPut_move hput
    exact ⟨confined_move hheld.1 hheld.2 hmove, hheld.1, putHeld_move rfl hheld.2 hmove⟩
  | refused response => cases hweb
  | received =>
    simp only [stepWeb] at hweb
    split at hweb
    · cases hweb
      exact sound_of_not_write rfl trivial
    · split_ifs at hweb
      · cases hweb
        exact sound_of_not_write rfl trivial
      · split at hweb <;>
        · cases hweb
          exact sound_of_not_write rfl trivial
  | resolved key b =>
    simp only [stepWeb] at hweb
    split_ifs at hweb <;>
    · cases hweb
      exact sound_of_not_write rfl trivial

theorem sound_delete {P : Platform} {s : AppState} {free : Bool} {io : Input} {a : Int}
    {req : DeleteRequest} {stage : DeleteStage} {e : WriteEffect} {task' : WriteTask}
    (hheld : Held G s.db (.deleting a req stage))
    (h : (WriteTask.deleting a req stage).step P s free io = some (e, task')) :
    Sound G (some a) s e task' := by
  obtain ⟨⟨e', stage'⟩, hdelete, heq⟩ := Option.map_eq_some_iff.mp h
  simp only [Prod.map, Prod.mk.injEq] at heq
  obtain ⟨rfl, rfl⟩ := heq
  obtain ⟨b, hb, hmay, hid⟩ := hheld
  cases stage with
  | received =>
    simp only [stepDelete, hb, softDeleteCandidate] at hdelete
    split_ifs at hdelete
    · cases hdelete
      exact sound_of_not_write rfl ⟨b, hb, hmay, by simp⟩
    · split at hdelete
      · cases hdelete
        exact sound_of_not_write rfl ⟨b, hb, hmay, by simp⟩
      · rename_i r hr
        obtain ⟨hmem, _, hbucket, _⟩ := getObjectByFilenameInBucket_eq_some.mp hr
        cases hdelete
        refine sound_of_not_write rfl ⟨b, hb, hmay, fun id heq => ?_⟩
        rw [← DeleteStage.selected.inj heq, ← hbucket]
        exact idOf_row hmem
  | selected id =>
    simp only [stepDelete] at hdelete
    split_ifs at hdelete
    · cases hdelete
      exact sound_of_not_write rfl ⟨b, hb, hmay, by simp⟩
    · cases hdelete
      exact ⟨confined_recycle io.now (hid id rfl) (Or.inr (Or.inr hmay)), b, hb, hmay, by simp⟩
  | done response => cases hdelete

theorem mem_listKeysUnderPrefix {pre : Text} {b : Int} {r : ObjectRecord}
    (h : r ∈ listKeysUnderPrefix db b pre) : r ∈ db.object.rows ∧ r.bucketId = b := by
  simp only [listKeysUnderPrefix, List.mem_insertionSort, List.mem_filter, Bool.and_eq_true,
    beq_iff_eq] at h
  exact ⟨h.1, h.2.1.2⟩

theorem sound_rename {s : AppState} {free : Bool} {io : Input} {a b : Int}
    {fromPrefix toPrefix : Text} {stage : RenameStage} {e : WriteEffect} {task' : WriteTask}
    (hheld : Held G s.db (.renamingFolder a b fromPrefix toPrefix stage))
    (h : stepRename s free io a b fromPrefix toPrefix stage = some (e, task')) :
    Sound G (some a) s e task' := by
  obtain ⟨hmay, hids⟩ := hheld
  cases stage with
  | received =>
    simp only [stepRename] at h
    split_ifs at h
    · exact sound_keep h trivial
    · exact sound_keep h trivial
    · exact sound_keep h trivial
    · refine sound_keep h ⟨hmay, fun id hid => ?_⟩
      obtain ⟨r, hr, rfl⟩ := List.mem_map.mp (by simpa [plannedIds] using hid)
      obtain ⟨hmem, hbucket⟩ := mem_listKeysUnderPrefix hr
      rw [← hbucket]
      exact idOf_row hmem
  | checking rows plan =>
    cases rows with
    | nil => exact sound_keep h ⟨hmay, by simpa [plannedIds] using hids⟩
    | cons row rest =>
      have hrest : ∀ id ∈ plannedIds (.checking rest plan), IdOf s.db id b := fun id hid =>
        hids id (List.mem_cons_of_mem _ hid)
      simp only [stepRename] at h
      split at h
      · exact sound_keep h ⟨hmay, hrest⟩
      · split_ifs at h
        · exact sound_keep h trivial
        · split at h
          · exact sound_keep h trivial
          · refine sound_keep h ⟨hmay, fun id hid => hids id ?_⟩
            simp only [plannedIds, List.map_append, List.map_cons, List.map_nil, List.mem_append,
              List.mem_cons] at hid ⊢
            tauto
  | planned plan =>
    simp only [stepRename] at h
    split_ifs at h
    · exact sound_keep h trivial
    · split at h
      · exact sound_keep h trivial
      · cases h
        refine ⟨confined_rename io.now (fun e he => ?_) hmay, trivial⟩
        exact hids e.1 (List.mem_map_of_mem he)

theorem sound_restore {P : Platform} {s : AppState} {free : Bool} {io : Input}
    {req : RestoreRequest} {stage : RestoreStage} {e : WriteEffect} {task' : WriteTask}
    (hbounded : Bounded G s.db (some req.accountId)) (hheld : Held G s.db (.restoring req stage))
    (h : (WriteTask.restoring req stage).step P s free io = some (e, task')) :
    Sound G (some req.accountId) s e task' := by
  obtain ⟨⟨e', stage'⟩, hrestore, heq⟩ := Option.map_eq_some_iff.mp h
  simp only [Prod.map, Prod.mk.injEq] at heq
  obtain ⟨rfl, rfl⟩ := heq
  by_cases hreceived : stage = .received
  · subst hreceived
    simp only [stepRestore] at hrestore
    split_ifs at hrestore
    · cases hrestore
      exact sound_of_not_write rfl fun _ hdone => absurd rfl (hdone _)
    · split at hrestore
      · cases hrestore
        exact sound_of_not_write rfl fun _ hdone => absurd rfl (hdone _)
      · rename_i o ho
        obtain ⟨hmem, hid⟩ := getObjectById_eq_some.mp ho
        split at hrestore
        · cases hrestore
          exact sound_of_not_write rfl fun _ hdone => absurd rfl (hdone _)
        · rename_i hperm
          cases hrestore
          refine sound_of_not_write rfl fun _ _ => ⟨o.bucketId, ?_, hbounded.may hperm⟩
          rw [← hid]
          exact idOf_row hmem
  · have hnotDone : ∀ answer, stage ≠ .done answer := by
      intro answer heq
      rw [heq] at hrestore
      cases hrestore
    obtain ⟨b, hid, hmay⟩ := hheld hreceived hnotDone
    have hheld' : Held G s.db (.restoring req stage') := fun _ _ => ⟨b, hid, hmay⟩
    rcases stepRestore_effect hrestore with rfl | ⟨record, db, _, _, _, rfl⟩
    · exact sound_of_not_write rfl hheld'
    · exact ⟨confined_restore io.now hid hmay, hheld'⟩

theorem itemHeld_passOver {id : Int} {why : Response} {rest : List PurgeItem}
    {sofar : PurgeResponse} {req : PurgeRequest} (h : ∀ item ∈ rest, ItemHeld G account db item) :
    ∀ item ∈ (passOver id why rest sofar req).items, ItemHeld G account db item :=
  fun item hitem => h item (mem_passOver hitem)

/-- A permission to delete, of the account that purges. -/
theorem may_of_mayPurge {s : AppState} {b : Int} {req : PurgeRequest} {u : Unit}
    (hbounded : Bounded G s.db (purger req)) (haccount : (purger req).isSome = true)
    (h : mayPurge s b req = .ok u) : May G (purger req) b .delete := by
  cases req with
  | retention => cases haccount
  | _ => exact hbounded.may h

/-- What a purge of an account begins with is still unchecked. -/
theorem itemHeld_start {s : AppState} {io : Input} {req : PurgeRequest}
    (haccount : (purger req).isSome = true) :
    ∀ item ∈ (purgeStart s io req).items, ItemHeld G (purger req) s.db item := by
  have hids : ∀ ids : List Int, ∀ item ∈ ids.map PurgeItem.requested,
      ItemHeld G (purger req) s.db item := by
    intro ids item hitem
    obtain ⟨id, _, rfl⟩ := List.mem_map.mp hitem
    trivial
  unfold purgeStart
  cases req with
  | retention => cases haccount
  | item a id => exact hids [id]
  | items a ids =>
    simp only
    split_ifs
    · exact fun _ hitem => by cases hitem
    · exact fun _ hitem => by cases hitem
    · exact hids ids
  | all a bucketIds =>
    simp only
    split_ifs
    · exact fun _ hitem => by cases hitem
    · intro item hitem
      obtain ⟨r, hr, rfl⟩ := List.mem_map.mp hitem
      exact idOf_row (mem_listDeletedObjects hr).1

theorem sound_purge {P : Platform} {s : AppState} {free : Bool} {io : Input}
    {req : PurgeRequest} {stage : PurgeStage} {e : WriteEffect} {task' : WriteTask}
    (hbounded : Bounded G s.db (purger req)) (hheld : Held G s.db (.purging req stage))
    (h : (WriteTask.purging req stage).step P s free io = some (e, task')) :
    Sound G (purger req) s e task' := by
  obtain ⟨⟨e', stage'⟩, hpurge, heq⟩ := Option.map_eq_some_iff.mp h
  simp only [Prod.map, Prod.mk.injEq] at heq
  obtain ⟨rfl, rfl⟩ := heq
  obtain ⟨haccount, hitems⟩ := hheld
  cases stage with
  | received =>
    cases hpurge
    exact sound_of_not_write rfl ⟨haccount, itemHeld_start haccount⟩
  | working items sofar =>
    cases items with
    | nil =>
      cases hpurge
      exact sound_of_not_write rfl ⟨haccount, fun _ hitem => by cases hitem⟩
    | cons item rest =>
      have hrest : ∀ item ∈ rest, ItemHeld G (purger req) s.db item := fun item hitem =>
        hitems item (List.mem_cons_of_mem _ hitem)
      cases item with
      | requested id =>
        cases hpurge
        refine sound_of_not_write rfl ⟨haccount, ?_⟩
        unfold lookUpItem
        split_ifs
        · exact itemHeld_passOver hrest
        · split
          · exact itemHeld_passOver hrest
          · rename_i o ho
            obtain ⟨hmem, hid⟩ := getObjectById_eq_some.mp ho
            split_ifs
            · exact itemHeld_passOver hrest
            · split
              · exact itemHeld_passOver hrest
              · rename_i hperm
                intro item hitem
                rcases List.mem_cons.mp hitem with rfl | hitem
                · rw [← hid]
                  exact ⟨o.bucketId, idOf_row hmem, may_of_mayPurge hbounded haccount hperm⟩
                · exact hrest item hitem
      | unchecked o =>
        simp only [stepPurge] at hpurge
        split_ifs at hpurge
        · cases hpurge
          exact sound_of_not_write rfl ⟨haccount, itemHeld_passOver hrest⟩
        · split at hpurge
          · cases hpurge
            exact sound_of_not_write rfl ⟨haccount, itemHeld_passOver hrest⟩
          · rename_i hperm
            cases hpurge
            refine sound_of_not_write rfl ⟨haccount, fun item hitem => ?_⟩
            rcases List.mem_cons.mp hitem with rfl | hitem
            · exact ⟨o.bucketId, hitems _ List.mem_cons_self,
                may_of_mayPurge hbounded haccount hperm⟩
            · exact hrest item hitem
      | selected id =>
        simp only [stepPurge] at hpurge
        split_ifs at hpurge
        · cases hpurge
          exact sound_of_not_write rfl ⟨haccount, itemHeld_passOver hrest⟩
        · split at hpurge
          · cases hpurge
            exact sound_of_not_write rfl ⟨haccount, itemHeld_passOver hrest⟩
          · rename_i record hrecord
            obtain ⟨_, hid⟩ := getObjectById_eq_some.mp hrecord
            obtain ⟨b, hidOf, hmay⟩ := hitems _ List.mem_cons_self
            cases hpurge
            rw [← hid] at hidOf
            exact ⟨confined_purge s io.now hidOf hmay, haccount, hrest⟩
      | listed obj => exact absurd (hitems _ List.mem_cons_self) id
  | unlinking filepath rest sofar =>
    cases hpurge
    exact sound_of_not_write rfl ⟨haccount, hitems⟩
  | done answer => cases hpurge

theorem held_signedIn (headers : Headers) (a : Int) (req : WriteRequest) :
    Held G db (req.signedIn headers a) := by
  cases req with
  | put rawKey bucket uuid body faults => trivial
  | deleteObject rawKey bucket pick =>
    simp only [WriteRequest.signedIn]
    split <;> trivial
  | deleteFolder bucket pre =>
    simp only [WriteRequest.signedIn]
    split <;> trivial
  | renameFolder bucket fromPrefix toPrefix =>
    simp only [WriteRequest.signedIn]
    split
    · trivial
    · split <;> trivial
  | restoreRecycleItem id => exact fun hreceived => absurd rfl hreceived
  | hardDeleteRecycleItem id => exact ⟨rfl, fun _ hitem => by cases hitem⟩
  | purgeRecycleItems ids => exact ⟨rfl, fun _ hitem => by cases hitem⟩
  | purgeAllRecycleItems bucket => trivial

theorem confined_authenticate (s : AppState) (now : Instant) (headers : Headers) :
    Confined G account s.db ((WriteEffect.authenticate now headers).run s).db :=
  confined_of_object (sameData_authAccount s now headers).object

theorem held_start {a b : Int} {op : BucketOp} (h : May G (some a) b op.action) :
    Held G db (op.start a b) := by
  cases op with
  | deleteObject key pick => exact ⟨b, rfl, h, by simp⟩
  | deleteFolder pre => exact h
  | renameFolder fromPrefix toPrefix => exact ⟨h, by simp [plannedIds]⟩

/-- One step of any request. -/
theorem sound_step {P : Platform} {s : AppState} {free : Bool} {io : Input}
    {task task' : WriteTask} {e : WriteEffect} (hbounded : Bounded G s.db task.account)
    (hheld : Held G s.db task)
    (h : task.step P s free io = some (e, task')) : Sound G task.account s e task' := by
  cases task with
  | arrived headers req =>
    simp only [WriteTask.step] at h
    split_ifs at h
    · exact sound_keep h trivial
    · split at h
      · cases h
        exact ⟨confined_authenticate s io.now headers, trivial⟩
      · cases h
        exact ⟨confined_authenticate s io.now headers, held_signedIn headers _ req⟩
  | put w stage => exact sound_put hbounded hheld h
  | named a op bucket =>
    simp only [WriteTask.step] at h
    split_ifs at h
    · exact sound_keep h trivial
    · split at h
      · exact sound_keep h trivial
      · exact sound_keep h trivial
  | resolved a op b =>
    simp only [WriteTask.step] at h
    split_ifs at h
    · exact sound_keep h trivial
    · split at h
      · exact sound_keep h trivial
      · rename_i hperm
        exact sound_keep h (held_start (hbounded.may hperm))
  | deleting a req stage => exact sound_delete hheld h
  | deletingFolder a b pre =>
    simp only [WriteTask.step] at h
    split_ifs at h
    · exact sound_keep h trivial
    · cases h
      exact ⟨confined_recycleFolder io.now pre hheld, trivial⟩
  | renamingFolder a b fromPrefix toPrefix stage => exact sound_rename hheld h
  | restoring req stage => exact sound_restore hbounded hheld h
  | filtering a bucket =>
    simp only [WriteTask.step] at h
    split_ifs at h
    · exact sound_keep h trivial
    · split at h
      · exact sound_keep h trivial
      · exact sound_keep h ⟨rfl, fun _ hitem => by cases hitem⟩
  | purging req stage => exact sound_purge hbounded hheld h
  | refused response => cases h
  | affected rows => cases h
  | dropped => cases h

theorem held_new {task : WriteTask} (h : task.isNew = true) : Held G db task := by
  cases task with
  | arrived headers req => trivial
  | _ => cases h

/-- Every request has found the permission that its next writes need. -/
def AllHeld (G : Grant) (s : WriteState) : Prop := ∀ task ∈ s.tasks, Held G s.shared.app.db task

theorem allHeld_step (P : Platform) (G : Grant) (s : WriteState) (a : WriteAction) (t : WriteState)
    (h : AllHeld G s) (hok : Within G s a) (hstep : step P s a = some t) : AllHeld G t := by
  rcases step_cases hstep with ⟨task, rfl, hnew, rfl⟩ |
    ⟨i, io, task, e, task', writing, rfl, hi, htask, rfl⟩ | ⟨i, writing, rfl, rfl⟩ |
    ⟨app, writing, rfl, hfollows, rfl⟩
  · intro v hv
    rcases List.mem_append.mp hv with hv | hv
    · exact h v hv
    · rw [List.mem_singleton.mp hv]
      exact held_new hnew
  · have hmem := List.mem_of_getElem? hi
    have hsound := sound_step (hok task hmem) (h task hmem) htask
    intro v hv
    rcases Pool.mem_replace hv with rfl | hv
    · exact hsound.held.follows hsound.confined.follows
    · exact (h v hv).follows hsound.confined.follows
  · intro v hv
    rcases Pool.mem_replace hv with rfl | hv
    · trivial
    · exact h v hv
  · exact fun v hv => (h v hv).follows hfollows

theorem allHeld_of_run {P : Platform} {app : AppState} {s : WriteState}
    (h : Run (step P) (Within G) (idleWrites app) s) : AllHeld G s :=
  h.invariant (allHeld_step P G) fun _ htask => by cases htask

/-- In every order of steps, and whatever becomes of roles and buckets meanwhile, a step of a
request changes the object table as its account was allowed to at some time of the run. -/
theorem writes_confined (P : Platform) (G : Grant) (app : AppState) (s t : WriteState) (i : Nat)
    (io : Input) (task : WriteTask) (hrun : Run (step P) (Within G) (idleWrites app) s)
    (hok : Within G s (.advance i io)) (hi : s.tasks[i]? = some task)
    (hstep : step P s (.advance i io) = some t) :
    Confined G task.account s.shared.app.db t.shared.app.db := by
  rcases step_cases hstep with ⟨_, heq, _⟩ |
    ⟨j, io', task', e, next, writing, heq, hj, htask, rfl⟩ | ⟨_, _, heq, _⟩ | ⟨_, _, heq, _⟩
  · cases heq
  · cases heq
    rw [hi, Option.some.injEq] at hj
    subst hj
    have hmem := List.mem_of_getElem? hi
    exact (sound_step (hok task hmem) (allHeld_of_run hrun task hmem) htask).confined
  · cases heq
  · cases heq

/-- A node with an object in its first bucket, and a second bucket, of account 2. -/
def twoBuckets : AppState :=
  let s := uploadedNode
  { s with db := ((createBucket s.db "two".toList 2 .md5).map fun db : Db =>
      { db with
        account := [⟨2, [], [], [], false, none⟩]
        session := [⟨['t'], 2, 1⟩] }).getD s.db }

def sampleWrite : WriteTask :=
  .arrived [("authorization".toList, some "Bearer t".toList)]
    (.put ['k'] (some "two".toList) (Uuid.numbered 2) [some [98]] {})

/-- Account 2 uploads to its bucket. -/
def uploading (steps : Nat) : List WriteAction :=
  .begin sampleWrite :: List.replicate steps (.advance 0 calm)

def uploadedTo (steps : Nat) : WriteState :=
  (exec (step Platform.sample) (idleWrites twoBuckets) (uploading steps)).getD
    (idleWrites twoBuckets)

/-- What accounts may do on a node. -/
def grantsOf (app : AppState) : Grant := fun a b action => checkPerm app.db a b action = true

/-- The tables of permissions are as on the node. -/
def sameGrants (app : AppState) (s : WriteState) (_ : WriteAction) : Bool :=
  s.shared.app.db.bucket.rows == app.db.bucket.rows && s.shared.app.db.role == app.db.role &&
    s.shared.app.db.accountRole == app.db.accountRole &&
    s.shared.app.db.roleBucketPermission == app.db.roleBucketPermission

theorem within_of_sameGrants {app : AppState} {s : WriteState} {a : WriteAction}
    (h : sameGrants app s a = true) : Within (grantsOf app) s a := by
  simp only [sameGrants, Bool.and_eq_true, beq_iff_eq] at h
  obtain ⟨⟨⟨hbucket, hrole⟩, haccountRole⟩, hperms⟩ := h
  intro task _ id _ b action hperm
  unfold grantsOf
  unfold checkPerm effectivePerms accountOwnsBucket accountIsOwner getBucketById
    BucketTable.byId at *
  rwa [hbucket, hrole, haccountRole, hperms] at hperm

/-- The upload of account 2 registers its object as the owner of its bucket may. -/
theorem upload_confined :
    ∃ t, step Platform.sample (uploadedTo 11) (.advance 0 calm) = some t ∧
      Confined (grantsOf twoBuckets) (some 2) (uploadedTo 11).shared.app.db t.shared.app.db ∧
      t.shared.app.db.object.rows.map (·.bucketId) = [1, 2] := by
  have hrun : Run (step Platform.sample) (Within (grantsOf twoBuckets)) (idleWrites twoBuckets)
      (uploadedTo 11) :=
    run_of_execIf (sameGrants twoBuckets) (fun _ _ _ h => within_of_sameGrants h)
      (rfl : execIf _ _ _ (uploading 11) = some (uploadedTo 11))
  refine ⟨_, rfl, ?_, rfl⟩
  exact writes_confined Platform.sample (grantsOf twoBuckets) twoBuckets _ _ 0 calm _ hrun
    (within_of_sameGrants (rfl : sameGrants twoBuckets _ (.advance 0 calm) = true)) rfl rfl

end MyS3.WriteConfinement
