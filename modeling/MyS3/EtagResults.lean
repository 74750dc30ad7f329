import MyS3.EtagRuns
import MyS3.Library.Runs
import MyS3.Listings

/-!
What a recalculation of ETags leaves when it is done. The objects are counted, the bucket is
marked and the objects are listed at three different times, and only the mark keeps a second
recalculation out. When recalculations do not overlap and no object comes between the count
and the list, the counters of the bucket are in order, and each object that was there all the
time and could be read has the ETag type that was asked for. The history is kept beside the
state: which recalculation was the last one, and which objects it has to answer for.
-/

namespace MyS3.EtagResults

open Library.Strings Library.Tables Library.Runs Library.Like Library.Interleaving
open Models Objects Database Engine Repository Outbox Http Rbac EtagRehash EtagRuns
open Listings (baseName keepMarker)

/-- No crash and no error of the database; a file may still be unreadable. -/
def undisturbed (s : State) : Action → Bool
  | .restart _ => false
  | .advance i _ failure =>
    match s.etags[i]? with
    | some (.rehash _ _ (.hash _ _)) => true
    | _ => failure.isNone
  | _ => true

/-- A request that is not for new objects only. -/
def recalculates (req : PutBucketEtag) : Bool := trim req.apply != "new_only".toList

/-- The task is a recalculation of the bucket: a request that was not refused for another one,
or its rehash. -/
def recalculating (b : Int) : Task → Bool
  | .put req .setEtagType => req.bucketId == b && recalculates req
  | .put req .count => req.bucketId == b
  | .put req (.begin _) => req.bucketId == b
  | .put req (.spawn _) => req.bucketId == b
  | .rehash id _ stage => id == b && stage != .ended
  | _ => false

def hasStatus (db : Db) (b : Int) (status : Text) : Bool :=
  db.bucket.rows.any fun c => c.id == b && c.etagRehashStatus == some status

/-- There are no more objects than were counted. -/
def allCounted (db : Db) (b : Int) : Bool :=
  db.bucket.rows.all fun c =>
    c.id != b || decide (countActiveObjectsInBucket db b ≤ c.etagRehashTotal)

/-- LIKE ignores the case of a key; the names of folder markers do not. -/
def skipsMarkersOnly (db : Db) (b : Int) : Bool :=
  db.object.rows.all fun r =>
    r.bucketId != b || !isActive r || !like none "%/.keep".toList r.originalFilename ||
      baseName r.originalFilename == keepMarker

/-- A request is let through only while no other recalculation of the bucket goes on, and a
rehash lists no more than what was counted and skips nothing but folder markers. -/
def orderly (b : Int) (s : State) : Action → Bool
  | .advance i _ _ =>
    match s.etags[i]? with
    | some (.put req .getBucket) =>
      req.bucketId != b || !recalculates req || hasStatus s.server.app.db b "running".toList ||
        s.etags.all fun t => !recalculating b t
    | some (.rehash id _ .list) =>
      id != b || (allCounted s.server.app.db b && skipsMarkersOnly s.server.app.db b)
    | _ => true
  | _ => true

/-- The last recalculation that was let through: the ETag type that it asks for, and the
objects that have been there ever since and could be read. -/
structure Watch where
  etagType : EtagType
  ids : List Int

structure Watched where
  state : State
  watch : Option Watch

/-- The active objects of a bucket that are no folder markers. -/
def watchable (db : Db) (b : Int) : List Int :=
  (db.object.rows.filter fun r =>
    r.bucketId == b && isActive r && baseName r.originalFilename != keepMarker).map (·.id)

/-- The ETag type of a recalculation that an action lets through. -/
def letThrough (b : Int) (s s' : State) : Action → Option EtagType
  | .advance i _ _ =>
    match s.etags[i]?, s'.etags[i]? with
    | some (.put req .getBucket), some (.put _ .setEtagType) =>
      if req.bucketId = b ∧ recalculates req = true then some req.etagType else none
    | _, _ => none
  | _ => none

/-- The object whose file an action cannot read. -/
def unreadable (P : Platform) (s : State) : Action → Option Int
  | .advance i _ failure =>
    match s.etags[i]? with
    | some (.rehash _ etagType (.hash obj _)) =>
      if query failure.isSome (hashFilepath P s.server.app obj.filepath etagType) = none then
        some obj.id
      else none
    | _ => none
  | _ => none

def isActiveId (db : Db) (id : Int) : Bool :=
  db.object.rows.any fun r => r.id == id && isActive r

/-- Objects that are deleted, and one that cannot be read, are not watched any more. -/
def Watch.shrink (x : Watch) (db : Db) (skip : Option Int) : Watch :=
  { x with ids := x.ids.filter fun id => isActiveId db id && skip != some id }

def follow (P : Platform) (b : Int) (w : Watched) (a : Action) (s' : State) : Option Watch :=
  match letThrough b w.state s' a with
  | some etagType => some ⟨etagType, watchable s'.server.app.db b⟩
  | none => w.watch.map fun x => x.shrink s'.server.app.db (unreadable P w.state a)

/-- A step, and what it means for the last recalculation of the bucket. -/
def watchedStep (P : Platform) (b : Int) (w : Watched) (a : Action) : Option Watched :=
  (EtagRuns.step P w.state a).map fun s' => ⟨s', follow P b w a s'⟩

/-- An active object of the bucket that is no folder marker. -/
def InBucket (b : Int) (db : Db) (id : Int) : Prop :=
  ∃ r ∈ db.object.rows,
    r.id = id ∧ isActive r = true ∧ r.bucketId = b ∧ baseName r.originalFilename ≠ keepMarker

theorem inBucket_of_watchable {db : Db} {b id : Int} (h : id ∈ watchable db b) :
    InBucket b db id := by
  obtain ⟨r, hr, rfl⟩ := List.mem_map.mp h
  obtain ⟨hmem, hr⟩ := List.mem_filter.mp hr
  simp only [Bool.and_eq_true, beq_iff_eq, bne_iff_ne] at hr
  exact ⟨r, hmem, rfl, hr.1.2, hr.1.1, hr.2⟩

theorem mem_shrink {x : Watch} {db : Db} {skip : Option Int} {id : Int} :
    id ∈ (x.shrink db skip).ids ↔ id ∈ x.ids ∧ isActiveId db id = true ∧ skip ≠ some id := by
  simp [Watch.shrink]

/-- Rows keep their bucket and their key, and their ETag type unless `p` allows another one;
other rows are new. -/
structure Carries (p : Int → Prop) (db db' : Db) : Prop where
  nextId : db.object.nextId ≤ db'.object.nextId
  rows : ∀ r' ∈ db'.object.rows, db.object.nextId ≤ r'.id ∨ ∃ r ∈ db.object.rows,
    r.id = r'.id ∧ r.bucketId = r'.bucketId ∧ r.originalFilename = r'.originalFilename ∧
      (¬ p r.id → r'.etagType = r.etagType)

theorem carries_of_eq {p : Int → Prop} {db db' : Db} (h : db'.object = db.object) :
    Carries p db db' where
  nextId := by rw [h]
  rows r hr := by
    rw [h] at hr
    exact Or.inr ⟨r, hr, rfl, rfl, rfl, fun _ => rfl⟩

theorem carries_request {P : Platform} {p q : Requests.State} {a : Requests.Action}
    (h : Requests.step P p a = some q) :
    Carries (fun _ => False) p.shared.app.db q.shared.app.db := by
  rcases RequestSteps.step_cases h with ⟨task, _, _, rfl⟩ | ⟨i, io, task, e, task', _, _, _, rfl⟩ |
    ⟨i, task, _, _, rfl⟩
  · exact carries_of_eq rfl
  · refine ⟨RequestInvariants.nextId_run _ e, fun r hr => ?_⟩
    cases RequestInvariants.rowFrom_run hr with
    | same _ hr => exact Or.inr ⟨r, hr, rfl, rfl, rfl, fun _ => rfl⟩
    | recycled now a ha _ => exact Or.inr ⟨a, ha, rfl, rfl, rfl, fun _ => rfl⟩
    | restored now a ha _ => exact Or.inr ⟨a, ha, rfl, rfl, rfl, fun _ => rfl⟩
    | registered insertedAt now key b o _ _ => exact Or.inl (le_refl _)
  · exact carries_of_eq rfl

theorem carries_update {db db' : Db} {now : Instant} {id : Int} {etagType : EtagType}
    {etag : Text} (h : updateObjectEtag db now id etagType etag = some db') :
    Carries (· = id) db db' where
  nextId := by
    unfold updateObjectEtag at h
    split_ifs at h
    rw [← Option.some.inj h]
    exact le_refl _
  rows r hr := by
    rw [updateObjectEtag_rows h] at hr
    rcases mem_updateRows.mp hr with ⟨hr, _⟩ | ⟨a, ha, hid, rfl⟩
    · exact Or.inr ⟨r, hr, rfl, rfl, rfl, fun _ => rfl⟩
    · simp only [Bool.and_eq_true, beq_iff_eq] at hid
      exact Or.inr ⟨a, ha, rfl, rfl, rfl, fun hne => absurd hid.1 hne⟩

/-- A watched object was there before, in the same bucket. -/
theorem inBucket_carries {b : Int} {p : Int → Prop} {db db' : Db} {id : Int}
    (h : InBucket b db id) (hcarries : Carries p db db') (hactive : isActiveId db' id = true) :
    InBucket b db' id := by
  obtain ⟨r, hr, rfl, _, hbucket, hname⟩ := h
  obtain ⟨r', hr', hid⟩ := List.any_eq_true.mp hactive
  simp only [Bool.and_eq_true, beq_iff_eq] at hid
  rcases hcarries.rows r' hr' with hnew | ⟨a, ha, haid, habucket, haname, _⟩
  · have hlt := db.object.id_lt r hr
    omega
  · obtain rfl := db.object.eq_of_id hr ha (by rw [haid, hid.1])
    exact ⟨r', hr', hid.1, hid.2, habucket ▸ hbucket, haname ▸ hname⟩

/-- The progress of the bucket is the same. -/
def SameProgress (b : Int) (db db' : Db) : Prop :=
  ∀ c' ∈ db'.bucket.rows, c'.id = b → ∃ c ∈ db.bucket.rows, c.id = b ∧
    c'.etagRehashProcessed = c.etagRehashProcessed ∧ c'.etagRehashTotal = c.etagRehashTotal ∧
    c'.etagRehashStatus = c.etagRehashStatus

theorem sameProgress_of_eq {b : Int} {db db' : Db} (h : db'.bucket = db.bucket) :
    SameProgress b db db' := by
  intro c hc hid
  rw [h] at hc
  exact ⟨c, hc, hid, rfl, rfl, rfl⟩

theorem sameProgress_update {b id : Int} (hne : id ≠ b) (db : Db)
    (f : BucketRecord → BucketRecord) (hid : ∀ b, (f b).id = b.id)
    (hname : ∀ b, (f b).name = b.name) : SameProgress b db (updateBucket db id f hid hname) := by
  intro c hc hcid
  rcases mem_updateBucket.mp hc with ⟨hc, _⟩ | ⟨a, ha, haid, rfl⟩
  · exact ⟨c, hc, hcid, rfl, rfl, rfl⟩
  · exact absurd ((haid.symm.trans (hid a).symm).trans hcid) hne

theorem sameProgress_setEtagType {b id : Int} {db db' : Db} {etagType : EtagType}
    (h : setBucketEtagType db id etagType = some db') : SameProgress b db db' := by
  unfold setBucketEtagType at h
  split_ifs at h
  rw [← Option.some.inj h]
  intro c hc hcid
  rcases mem_updateRows.mp hc with ⟨hc, _⟩ | ⟨a, ha, _, rfl⟩
  · exact ⟨c, hc, hcid, rfl, rfl, rfl⟩
  · exact ⟨a, ha, hcid, rfl, rfl, rfl⟩

/-- The objects of a list that are not updated yet. -/
def left : RehashStage → List ObjectRecord
  | .hash obj rest => obj :: rest
  | .update obj _ rest => obj :: rest
  | .enqueue _ _ rest => rest
  | .bump _ rest => rest
  | _ => []

/-- The objects of a list that are not counted yet. -/
def uncounted : RehashStage → Nat
  | .hash _ rest => rest.length + 1
  | .update _ _ rest => rest.length + 1
  | .enqueue _ _ rest => rest.length + 1
  | .bump _ rest => rest.length + 1
  | _ => 0

theorem left_nextObject (objects : List ObjectRecord) : left (nextObject objects) = objects := by
  cases objects with
  | nil => rfl
  | cons obj rest => rfl

theorem uncounted_nextObject (objects : List ObjectRecord) :
    uncounted (nextObject objects) = objects.length := by
  cases objects with
  | nil => rfl
  | cons obj rest => rfl

theorem nextObject_ne_list (objects : List ObjectRecord) : nextObject objects ≠ .list := by
  cases objects with
  | nil => simp [nextObject]
  | cons obj rest => simp [nextObject]

/-- Nothing is counted as processed. -/
def Unprocessed (b : Int) (db : Db) : Prop :=
  ∀ c ∈ db.bucket.rows, c.id = b → c.etagRehashProcessed = 0

/-- There is room for what is not counted yet. -/
def HasRoom (b : Int) (db : Db) (stage : RehashStage) : Prop :=
  ∀ c ∈ db.bucket.rows, c.id = b → c.etagRehashProcessed + uncounted stage ≤ c.etagRehashTotal

/-- What is watched has the ETag type, or its turn comes. -/
def Covered (db : Db) (x : Watch) (stage : RehashStage) : Prop :=
  ∀ r ∈ db.object.rows, r.id ∈ x.ids →
    r.etagType = x.etagType ∨ ∃ o ∈ left stage, o.id = r.id

/-- How far a recalculation of the bucket has come. -/
inductive Reached (b : Int) (db : Db) (x : Watch) : Task → Prop
  | asked (req : PutBucketEtag) (stage : PutStage) : stage = .setEtagType ∨ stage = .count →
      req.etagType = x.etagType → Reached b db x (.put req stage)
  | counted (req : PutBucketEtag) (total : Int) : 0 ≤ total →
      req.etagType = x.etagType → Reached b db x (.put req (.begin total))
  | begun (req : PutBucketEtag) (total : Int) : Unprocessed b db →
      req.etagType = x.etagType → Reached b db x (.put req (.spawn total))
  | spawned (id : Int) (etagType : EtagType) : Unprocessed b db → etagType = x.etagType →
      Reached b db x (.rehash id etagType .list)
  | listed (id : Int) (etagType : EtagType) (stage : RehashStage) : stage ≠ .list →
      HasRoom b db stage → Covered db x stage → etagType = x.etagType →
      Reached b db x (.rehash id etagType stage)

theorem unprocessed_same {b : Int} {db db' : Db} (h : Unprocessed b db)
    (hsame : SameProgress b db db') : Unprocessed b db' := by
  intro c' hc' hid
  obtain ⟨c, hc, hcid, hprocessed, _⟩ := hsame c' hc' hid
  rw [hprocessed]
  exact h c hc hcid

theorem hasRoom_same {b : Int} {db db' : Db} {stage : RehashStage} (h : HasRoom b db stage)
    (hsame : SameProgress b db db') : HasRoom b db' stage := by
  intro c' hc' hid
  obtain ⟨c, hc, hcid, hprocessed, htotal, _⟩ := hsame c' hc' hid
  rw [hprocessed, htotal]
  exact h c hc hcid

/-- The row of a watched object, before a step that leaves the watched objects their types. -/
theorem row_of_watched {b : Int} {p : Int → Prop} {db db' : Db} {x : Watch} {skip : Option Int}
    {r' : ObjectRecord} (hin : ∀ id ∈ x.ids, InBucket b db id) (hcarries : Carries p db db')
    (hr' : r' ∈ db'.object.rows) (hid : r'.id ∈ (x.shrink db' skip).ids) :
    ∃ r ∈ db.object.rows, r.id = r'.id ∧ r.id ∈ x.ids ∧ (¬ p r.id → r'.etagType = r.etagType) := by
  obtain ⟨hmem, _, _⟩ := mem_shrink.mp hid
  obtain ⟨r, hr, hrid, _⟩ := hin r'.id hmem
  rcases hcarries.rows r' hr' with hnew | ⟨a, ha, haid, _, _, htype⟩
  · have hlt := db.object.id_lt r hr
    omega
  · exact ⟨a, ha, haid, haid ▸ hmem, htype⟩

/-- A step that is none of the recalculation's own. -/
theorem reached_foreign {b : Int} {p : Int → Prop} {db db' : Db} {x : Watch} {t : Task}
    (skip : Option Int) (h : Reached b db x t) (hin : ∀ id ∈ x.ids, InBucket b db id)
    (hcarries : Carries p db db') (hsame : SameProgress b db db')
    (hp : ∀ id, p id → ¬ InBucket b db id) : Reached b db' (x.shrink db' skip) t := by
  cases h with
  | asked req stage hstage htype => exact .asked req stage hstage htype
  | counted req total htotal htype => exact .counted req total htotal htype
  | begun req total hfresh htype => exact .begun req total (unprocessed_same hfresh hsame) htype
  | spawned id etagType hfresh htype =>
    exact .spawned id etagType (unprocessed_same hfresh hsame) htype
  | listed id etagType stage hstage hroom hcovered htype =>
    refine .listed id etagType stage hstage (hasRoom_same hroom hsame) ?_ htype
    intro r' hr' hid
    obtain ⟨r, hr, heq, hmem, hkeeps⟩ := row_of_watched hin hcarries hr' hid
    have hnot : ¬ p r.id := fun hp' => hp r.id hp' (hin r.id hmem)
    rcases hcovered r hr hmem with htyped | ⟨o, ho, hoid⟩
    · exact Or.inl ((hkeeps hnot).trans htyped)
    · exact Or.inr ⟨o, ho, hoid.trans heq⟩

/-- The database and the history. -/
structure View where
  db : Db
  watch : Option Watch

structure Sound (b : Int) (v : View) : Prop where
  counters : ∀ c ∈ v.db.bucket.rows, c.id = b →
    0 ≤ c.etagRehashProcessed ∧ c.etagRehashProcessed ≤ c.etagRehashTotal
  watched : ∀ x, v.watch = some x → ∀ id ∈ x.ids, InBucket b v.db id

structure TaskOk (b : Int) (v : View) (t : Task) : Prop where
  /-- The two values that the first check lets through. -/
  apply : ∀ req, t = .put req .getBucket →
    trim req.apply = "new_only".toList ∨ trim req.apply = "recalculate_all".toList
  /-- A rehash lists objects of its own bucket. -/
  own : ∀ id etagType stage, t = .rehash id etagType stage → ∀ o ∈ left stage,
    o.id < v.db.object.nextId ∧ ∀ r ∈ v.db.object.rows, r.id = o.id → r.bucketId = id
  reached : recalculating b t = true → ∃ x, v.watch = some x ∧ Reached b v.db x t

/-- Two tasks are no recalculations of the bucket both. -/
def Apart (b : Int) (t u : Task) : Prop :=
  recalculating b t = true → recalculating b u = true → False

theorem apart_symm {b : Int} (t u : Task) (h : Apart b t u) : Apart b u t :=
  fun hu ht => h ht hu

abbrev Ok (b : Int) (v : View) (etags : List Task) : Prop :=
  Coherent (Sound b) (TaskOk b) (Apart b) ⟨v, etags⟩

theorem own_carries {p : Int → Prop} {db db' : Db} {id : Int} {o : ObjectRecord}
    (h : o.id < db.object.nextId ∧ ∀ r ∈ db.object.rows, r.id = o.id → r.bucketId = id)
    (hcarries : Carries p db db') :
    o.id < db'.object.nextId ∧ ∀ r ∈ db'.object.rows, r.id = o.id → r.bucketId = id := by
  refine ⟨lt_of_lt_of_le h.1 hcarries.nextId, fun r' hr' hid => ?_⟩
  rcases hcarries.rows r' hr' with hnew | ⟨r, hr, hrid, hbucket, _⟩
  · have hlt := h.1
    omega
  · rw [← hbucket]
    exact h.2 r hr (hrid.trans hid)

/-- What a step does to the database and to the history, when it lets no request through. -/
structure Turn (b : Int) (p : Int → Prop) (skip : Option Int) (v v' : View) : Prop where
  carries : Carries p v.db v'.db
  watch : v'.watch = v.watch.map fun x => x.shrink v'.db skip
  counters : ∀ c ∈ v'.db.bucket.rows, c.id = b →
    0 ≤ c.etagRehashProcessed ∧ c.etagRehashProcessed ≤ c.etagRehashTotal

theorem sound_turn {b : Int} {p : Int → Prop} {skip : Option Int} {v v' : View}
    (h : Sound b v) (hturn : Turn b p skip v v') : Sound b v' where
  counters := hturn.counters
  watched := by
    intro x' hx' id hid
    rw [hturn.watch] at hx'
    obtain ⟨x, hx, rfl⟩ := Option.map_eq_some_iff.mp hx'
    obtain ⟨hmem, hactive, _⟩ := mem_shrink.mp hid
    exact inBucket_carries (h.watched x hx id hmem) hturn.carries hactive

/-- A task that is no recalculation of the bucket has little to keep. -/
theorem taskOk_other {b : Int} {p : Int → Prop} {v v' : View} {t : Task} (h : TaskOk b v t)
    (hcarries : Carries p v.db v'.db) (ht : recalculating b t = true → False) :
    TaskOk b v' t where
  apply := h.apply
  own id etagType stage heq o ho := own_carries (h.own id etagType stage heq o ho) hcarries
  reached hrecalculating := (ht hrecalculating).elim

theorem taskOk_foreign {b : Int} {p : Int → Prop} {skip : Option Int} {v v' : View} {t : Task}
    (h : TaskOk b v t) (hsound : Sound b v) (hturn : Turn b p skip v v')
    (hsame : SameProgress b v.db v'.db) (hp : ∀ id, p id → ¬ InBucket b v.db id) :
    TaskOk b v' t where
  apply := h.apply
  own id etagType stage heq o ho := own_carries (h.own id etagType stage heq o ho) hturn.carries
  reached hrecalculating := by
    obtain ⟨x, hx, hreached⟩ := h.reached hrecalculating
    refine ⟨x.shrink v'.db skip, ?_, ?_⟩
    · rw [hturn.watch, hx, Option.map_some]
    · exact reached_foreign skip hreached (hsound.watched x hx) hturn.carries hsame hp

theorem counters_same {b : Int} {v : View} {db' : Db} (h : Sound b v)
    (hsame : SameProgress b v.db db') : ∀ c ∈ db'.bucket.rows, c.id = b →
      0 ≤ c.etagRehashProcessed ∧ c.etagRehashProcessed ≤ c.etagRehashTotal := by
  intro c' hc' hid
  obtain ⟨c, hc, hcid, hprocessed, htotal, _⟩ := hsame c' hc' hid
  rw [hprocessed, htotal]
  exact h.counters c hc hcid

/-- The history after a step that lets no request through. -/
def shrunk (watch : Option Watch) (db : Db) (skip : Option Int) : Option Watch :=
  watch.map fun x => x.shrink db skip

theorem turn_same {b : Int} {p : Int → Prop} {v : View} {db' : Db} (skip : Option Int)
    (h : Sound b v) (hcarries : Carries p v.db db') (hsame : SameProgress b v.db db') :
    Turn b p skip v ⟨db', shrunk v.watch db' skip⟩ where
  carries := hcarries
  watch := rfl
  counters := counters_same h hsame

/-- A task of the pool goes on. -/
theorem ok_replace {b : Int} {p : Int → Prop} {skip : Option Int} {v v' : View}
    {etags : List Task} {i : Nat} {t u : Task} (h : Ok b v etags) (hi : etags[i]? = some t)
    (hturn : Turn b p skip v v') (hu : TaskOk b v' u)
    (hforeign : recalculating b t = true ∨
      SameProgress b v.db v'.db ∧ ∀ id, p id → ¬ InBucket b v.db id)
    (hgoes : recalculating b u = true → recalculating b t = true) : Ok b v' (etags.set i u) := by
  refine Coherent.replace h apart_symm hi (sound_turn h.shared hturn) hu ?_
  intro w _ hapart hok
  rcases hforeign with ht | ⟨hsame, hp⟩
  · exact ⟨taskOk_other hok hturn.carries (hapart ht), fun _ hw => hapart ht hw⟩
  · exact ⟨taskOk_foreign hok h.shared hturn hsame hp, fun hu hw => hapart (hgoes hu) hw⟩

/-- The requests for objects leave the recalculations alone. -/
theorem ok_request {b : Int} {v : View} {db' : Db} {etags : List Task} (h : Ok b v etags)
    (hcarries : Carries (fun _ => False) v.db db') (hbucket : db'.bucket = v.db.bucket) :
    Ok b ⟨db', shrunk v.watch db' none⟩ etags := by
  have hsame : SameProgress b v.db db' := sameProgress_of_eq hbucket
  have hturn := turn_same none h.shared hcarries hsame
  exact ⟨sound_turn h.shared hturn,
    fun t ht => taskOk_foreign (h.tasks t ht) h.shared hturn hsame fun _ hp => hp.elim, h.apart⟩

/-- A request is let through while no other recalculation goes on. -/
theorem ok_letThrough {b : Int} {v : View} {etags : List Task} {i : Nat} {req : PutBucketEtag}
    (h : Ok b v etags) (hi : etags[i]? = some (.put req .getBucket))
    (halone : ∀ t ∈ etags, recalculating b t = false) :
    Ok b ⟨v.db, some ⟨req.etagType, watchable v.db b⟩⟩
      (etags.set i (.put req .setEtagType)) := by
  have hnone : ∀ t ∈ etags, recalculating b t = true → False := by
    intro t ht hrecalculating
    rw [halone t ht] at hrecalculating
    cases hrecalculating
  have hcarries : Carries (fun _ => False) v.db v.db := carries_of_eq rfl
  refine Coherent.replace h apart_symm hi ⟨h.shared.counters, ?_⟩ ⟨?_, ?_, ?_⟩ ?_
  · intro x hx id hid
    rw [← Option.some.inj hx] at hid
    exact inBucket_of_watchable hid
  · intro req' heq
    cases heq
  · intro id etagType stage heq
    cases heq
  · exact fun _ => ⟨_, rfl, .asked req _ (Or.inl rfl) rfl⟩
  · intro w hw _ hok
    exact ⟨taskOk_other hok hcarries (hnone w hw), fun _ hw' => hnone w hw hw'⟩

/-- A handler that is no recalculation of the bucket, at the next stage. -/
theorem taskOk_put {b : Int} {v : View} {req : PutBucketEtag} {stage : PutStage}
    (happly : stage = .getBucket →
      trim req.apply = "new_only".toList ∨ trim req.apply = "recalculate_all".toList)
    (hreached : recalculating b (.put req stage) = true →
      ∃ x, v.watch = some x ∧ Reached b v.db x (.put req stage)) : TaskOk b v (.put req stage) where
  apply req' heq := by
    simp only [Task.put.injEq] at heq
    obtain ⟨rfl, hstage⟩ := heq
    exact happly hstage
  own id etagType stage heq := by cases heq
  reached := hreached

/-- A handler ends. -/
theorem ok_ended {b : Int} {v : View} {etags : List Task} {i : Nat} {t : Task}
    {req : PutBucketEtag} {stage : PutStage} (h : Ok b v etags) (hi : etags[i]? = some t)
    (hstage : stage = .dropped ∨ ∃ answer, stage = .answered answer) :
    Ok b ⟨v.db, shrunk v.watch v.db none⟩ (etags.set i (.put req stage)) := by
  have hkeep := turn_same (p := fun _ => False) none h.shared (carries_of_eq rfl)
    (sameProgress_of_eq rfl)
  have hnot : recalculating b (.put req stage) = true → False := by
    rcases hstage with rfl | ⟨answer, rfl⟩
    · exact fun heq => by cases heq
    · exact fun heq => by cases heq
  have hne : stage ≠ .getBucket := by
    rcases hstage with rfl | ⟨answer, rfl⟩
    · exact fun heq => by cases heq
    · exact fun heq => by cases heq
  exact ok_replace h hi hkeep
    (taskOk_put (fun heq => absurd heq hne) fun heq => (hnot heq).elim)
    (Or.inr ⟨sameProgress_of_eq rfl, fun _ hp => hp.elim⟩) fun heq => (hnot heq).elim

theorem ok_put {b : Int} {s app : AppState} {failure : Option Text} {req : PutBucketEtag}
    {stage stage' : PutStage} {etags : List Task} {i : Nat} {watch : Option Watch}
    (h : Ok b ⟨s.db, watch⟩ etags) (hi : etags[i]? = some (.put req stage))
    (hmove : PutMove s failure req stage app stage')
    (hblocked : stage' = .setEtagType → recalculating b (.put req stage') = false) :
    Ok b ⟨app.db, shrunk watch app.db none⟩ (etags.set i (.put req stage')) := by
  have hkeep : Turn b (fun _ => False) none ⟨s.db, watch⟩ ⟨s.db, shrunk watch s.db none⟩ :=
    turn_same none h.shared (carries_of_eq rfl) (sameProgress_of_eq rfl)
  have hsame : SameProgress b s.db s.db ∧ ∀ id, False → ¬ InBucket b s.db id :=
    ⟨sameProgress_of_eq rfl, fun _ hp => hp.elim⟩
  have htask := h.tasks _ (List.mem_of_getElem? hi)
  cases hmove with
  | refuse stage status message hmarked => exact ok_ended h hi (Or.inr ⟨_, rfl⟩)
  | requireEditor happly =>
    refine ok_replace h hi hkeep (taskOk_put (fun _ => happly) ?_) (Or.inr hsame) ?_
    · exact fun heq => by cases heq
    · exact fun heq => by cases heq
  | getBucket c hc hrunning =>
    have hnot := hblocked rfl
    refine ok_replace h hi hkeep (taskOk_put ?_ ?_) (Or.inr hsame) ?_
    · exact fun heq => by cases heq
    · exact fun heq => absurd (hnot.symm.trans heq) (by decide)
    · exact fun heq => absurd (hnot.symm.trans heq) (by decide)
  | setEtagType db hset =>
    have hset' : SameProgress b s.db db := sameProgress_setEtagType hset
    have hturn := turn_same (p := fun _ => False) none h.shared
      (carries_of_eq (setBucketEtagType_object hset)) hset'
    have hforeign : SameProgress b s.db db ∧ ∀ id, False → ¬ InBucket b s.db id :=
      ⟨hset', fun _ hp => hp.elim⟩
    split_ifs with hnew
    · refine ok_replace h hi hturn (taskOk_put ?_ ?_) (Or.inr hforeign) ?_
      · exact fun heq => by cases heq
      · exact fun heq => by cases heq
      · exact fun heq => by cases heq
    · have hgoes : recalculating b (.put req .count) = true →
          recalculating b (.put req .setEtagType) = true := by
        intro hid
        simp only [recalculating, recalculates, Bool.and_eq_true, bne_iff_ne]
        exact ⟨hid, hnew⟩
      refine ok_replace h hi hturn (taskOk_put (fun heq => by cases heq) ?_) (Or.inr hforeign)
        hgoes
      intro hid
      obtain ⟨x, rfl, hreached⟩ := htask.reached (hgoes hid)
      cases hreached with
      | asked _ _ _ htype => exact ⟨x.shrink db none, rfl, .asked req _ (Or.inr rfl) htype⟩
  | count =>
    refine ok_replace h hi hkeep (taskOk_put (fun heq => by cases heq) ?_) (Or.inr hsame) id
    intro hid
    obtain ⟨x, rfl, hreached⟩ := htask.reached hid
    cases hreached with
    | asked _ _ _ htype =>
      exact ⟨x.shrink s.db none, rfl, .counted req _ (Int.natCast_nonneg _) htype⟩
  | begin total db hclean hbegin =>
    unfold beginBucketEtagRehash at hbegin
    split_ifs at hbegin
    rw [← Option.some.inj hbegin]
    by_cases hid : req.bucketId = b
    · have ht : recalculating b (.put req (.begin total)) = true := by
        simp only [recalculating, hid, beq_self_eq_true]
      obtain ⟨x, rfl, hreached⟩ := htask.reached ht
      cases hreached with
      | asked _ _ hstage _ => simp at hstage
      | counted _ _ htotal htype =>
        refine ok_replace h hi ⟨carries_of_eq (p := fun _ => False) rfl, rfl, ?_⟩
          (taskOk_put (fun heq => by cases heq) ?_) (Or.inl ht) fun _ => ht
        · intro c hc hcid
          obtain ⟨a, _, _, rfl⟩ := eq_of_mem_updateBucket hc (hcid.trans hid.symm)
          exact ⟨le_refl _, htotal⟩
        · intro _
          refine ⟨_, rfl, .begun req total ?_ htype⟩
          intro c hc hcid
          obtain ⟨a, _, _, rfl⟩ := eq_of_mem_updateBucket hc (hcid.trans hid.symm)
          rfl
    · have hsame' := sameProgress_update hid s.db (fun b => { b with
        etagRehashStatus := some "running".toList
        etagRehashProcessed := 0
        etagRehashTotal := total
        etagRehashError := none }) (fun _ => rfl) (fun _ => rfl)
      have hnot : recalculating b (.put req (.spawn total)) = true → False := by
        intro heq
        exact hid (by simpa [recalculating] using heq)
      refine ok_replace h hi (turn_same (p := fun _ => False) none h.shared (carries_of_eq rfl) hsame')
        (taskOk_put (fun heq => by cases heq) fun heq => (hnot heq).elim)
        (Or.inr ⟨hsame', fun _ hp => hp.elim⟩) fun heq => (hnot heq).elim

/-- The object that a stage updates. -/
def updates : RehashStage → Int → Prop
  | .update obj _ _ => fun id => id = obj.id
  | _ => fun _ => False

section Rehash

variable {P : Platform} {s app : AppState} {now : Instant} {failure : Option Text} {id : Int}
  {etagType : EtagType} {stage stage' : RehashStage}

theorem carries_rehash (h : RehashMove P s now failure id etagType stage app stage') :
    Carries (updates stage) s.db app.db := by
  cases h with
  | update obj etag rest db hupdate => exact carries_update hupdate
  | _ => exact carries_of_eq rfl

/-- The rehash of another bucket. -/
theorem sameProgress_rehash {b : Int} (hne : id ≠ b)
    (h : RehashMove P s now failure id etagType stage app stage') :
    SameProgress b s.db app.db := by
  cases h with
  | update obj etag rest db hupdate => exact sameProgress_of_eq (updateObjectEtag_bucket hupdate)
  | bump rehashed rest hclean => exact sameProgress_update hne _ _ _ _
  | finish fatal hclean => exact sameProgress_update hne _ _ _ _
  | _ => exact sameProgress_of_eq rfl

/-- What a rehash has left was left before, or has just been listed. -/
theorem left_rehash {o : ObjectRecord}
    (h : RehashMove P s now failure id etagType stage app stage') (ho : o ∈ left stage') :
    o ∈ left stage ∨ o ∈ listObjectsForEtagRehash s.db id := by
  cases h with
  | list hclean => exact Or.inr (by rwa [left_nextObject] at ho)
  | notHashed obj rest hhash => exact Or.inl (List.mem_cons_of_mem _ ho)
  | notUpdated obj etag rest hupdate => exact Or.inl (List.mem_cons_of_mem _ ho)
  | update obj etag rest db hupdate => exact Or.inl (List.mem_cons_of_mem _ ho)
  | notCounted rehashed rest message hfail =>
    cases rehashed with
    | true => cases ho
    | false =>
      simp only [Bool.false_eq_true, if_false, left_nextObject] at ho
      exact Or.inl ho
  | bump rehashed rest hclean => exact Or.inl (by rwa [left_nextObject] at ho)
  | _ => exact Or.inl ho

theorem mem_list {db : Db} {b : Int} {r : ObjectRecord} :
    r ∈ listObjectsForEtagRehash db b ↔ r ∈ db.object.rows ∧ r.bucketId = b ∧
      isActive r = true ∧ r.originalFilename ≠ ".keep".toList ∧
      like none "%/.keep".toList r.originalFilename = false := by
  unfold listObjectsForEtagRehash orderByUploadedDesc
  rw [List.mem_insertionSort, List.mem_filter]
  simp only [Bool.and_eq_true, beq_iff_eq, bne_iff_ne, Bool.not_eq_true', and_assoc]

theorem own_rehash {b : Int} {watch : Option Watch}
    (h : TaskOk b ⟨s.db, watch⟩ (.rehash id etagType stage))
    (hmove : RehashMove P s now failure id etagType stage app stage') :
    ∀ o ∈ left stage',
      o.id < app.db.object.nextId ∧ ∀ r ∈ app.db.object.rows, r.id = o.id → r.bucketId = id := by
  intro o ho
  refine own_carries ?_ (carries_rehash hmove)
  rcases left_rehash hmove ho with hleft | hlisted
  · exact h.own id etagType stage rfl o hleft
  · obtain ⟨hmem, hbucket, _⟩ := mem_list.mp hlisted
    refine ⟨s.db.object.id_lt o hmem, fun r hr hid => ?_⟩
    rw [s.db.object.eq_of_id hr hmem hid]
    exact hbucket

theorem taskOk_rehash {b : Int} {v : View}
    (hown : ∀ o ∈ left stage,
      o.id < v.db.object.nextId ∧ ∀ r ∈ v.db.object.rows, r.id = o.id → r.bucketId = id)
    (hreached : recalculating b (.rehash id etagType stage) = true →
      ∃ x, v.watch = some x ∧ Reached b v.db x (.rehash id etagType stage)) :
    TaskOk b v (.rehash id etagType stage) where
  apply req heq := by cases heq
  own id' etagType' stage' heq := by
    simp only [Task.rehash.injEq] at heq
    obtain ⟨rfl, rfl, rfl⟩ := heq
    exact hown
  reached := hreached

theorem ok_rehash_foreign {b : Int} {etags : List Task} {i : Nat} {watch : Option Watch}
    (hne : id ≠ b) (skip : Option Int) (h : Ok b ⟨s.db, watch⟩ etags)
    (hi : etags[i]? = some (.rehash id etagType stage))
    (hmove : RehashMove P s now failure id etagType stage app stage') :
    Ok b ⟨app.db, shrunk watch app.db skip⟩ (etags.set i (.rehash id etagType stage')) := by
  have htask := h.tasks _ (List.mem_of_getElem? hi)
  have hsame : SameProgress b s.db app.db := sameProgress_rehash hne hmove
  have hnot : ∀ stage, recalculating b (.rehash id etagType stage) = true → False := by
    intro stage heq
    simp only [recalculating, Bool.and_eq_true, beq_iff_eq] at heq
    exact hne heq.1
  refine ok_replace h hi (turn_same skip h.shared (carries_rehash hmove) hsame)
    (taskOk_rehash (own_rehash htask hmove) fun heq => (hnot _ heq).elim)
    (Or.inr ⟨hsame, ?_⟩) fun heq => (hnot _ heq).elim
  -- What the rehash updates is in its own bucket.
  intro x hx hin
  cases stage with
  | update obj etag rest =>
    obtain ⟨r, hr, hrid, _, hbucket, _⟩ := hin
    have hown := (htask.own id etagType _ rfl obj List.mem_cons_self).2 r hr (hrid.trans hx)
    exact hne (hown.symm.trans hbucket)
  | _ => exact hx.elim

theorem covered_shrink {db db' : Db} {x : Watch} {skip : Option Int}
    (h : Covered db x stage) (heq : db'.object = db.object)
    (hleft : ∀ o ∈ left stage, o ∈ left stage' ∨ o.id ∉ (x.shrink db' skip).ids) :
    Covered db' (x.shrink db' skip) stage' := by
  intro r hr hid
  rw [heq] at hr
  rcases h r hr (mem_shrink.mp hid).1 with htype | ⟨o, ho, hoid⟩
  · exact Or.inl htype
  · rcases hleft o ho with hstill | hgone
    · exact Or.inr ⟨o, hstill, hoid⟩
    · exact absurd (hoid ▸ hid) hgone

/-- A list of the objects that were counted has everything that is watched. -/
theorem listed_all {b : Int} {db : Db} {x : Watch} (skip : Option Int)
    (hfresh : Unprocessed b db) (hin : ∀ id ∈ x.ids, InBucket b db id)
    (hcounted : allCounted db b = true) (hmarkers : skipsMarkersOnly db b = true) :
    HasRoom b db (nextObject (listObjectsForEtagRehash db b)) ∧
      Covered db (x.shrink db skip) (nextObject (listObjectsForEtagRehash db b)) := by
  refine ⟨fun c hc hid => ?_, fun r hr hid => Or.inr ⟨r, ?_, rfl⟩⟩
  · have hle := List.all_eq_true.mp hcounted c hc
    simp only [hid, bne_self_eq_false, Bool.false_or, decide_eq_true_eq,
      countActiveObjectsInBucket_eq] at hle
    rw [hfresh c hc hid, uncounted_nextObject, zero_add]
    exact hle
  · obtain ⟨a, ha, haid, hactive, hbucket, hname⟩ := hin r.id (mem_shrink.mp hid).1
    obtain rfl := db.object.eq_of_id ha hr haid
    have hskip := List.all_eq_true.mp hmarkers a ha
    rw [left_nextObject]
    refine mem_list.mpr ⟨ha, hbucket, hactive, fun hkeep => hname (by rw [hkeep]; decide), ?_⟩
    simpa [hbucket, hactive, hname] using hskip

theorem not_watched_of_none {db : Db} {x : Watch} {skip : Option Int} {obj : ObjectRecord}
    {etag : Text} (h : updateObjectEtag db now obj.id etagType etag = none) :
    obj.id ∉ (x.shrink db skip).ids := by
  intro hid
  unfold updateObjectEtag at h
  split_ifs at h with hany
  exact hany (mem_shrink.mp hid).2.1

/-- The object of an update has the new type, and the others are covered as before. -/
theorem covered_update {b : Int} {db db' : Db} {x : Watch} {skip : Option Int}
    {obj : ObjectRecord} {etag : Text} {rest : List ObjectRecord}
    (hin : ∀ id ∈ x.ids, InBucket b db id) (h : Covered db x (.update obj etag rest))
    (hupdate : updateObjectEtag db now obj.id x.etagType etag = some db') :
    Covered db' (x.shrink db' skip) (.enqueue obj etag rest) := by
  intro r' hr' hid
  by_cases hobj : r'.id = obj.id
  · left
    have hrows := hr'
    rw [updateObjectEtag_rows hupdate] at hrows
    rcases mem_updateRows.mp hrows with ⟨_, hnot⟩ | ⟨a, _, _, rfl⟩
    · -- A watched row is active, so the update has met it.
      obtain ⟨u, hu, huid⟩ := List.any_eq_true.mp (mem_shrink.mp hid).2.1
      simp only [Bool.and_eq_true, beq_iff_eq] at huid
      obtain rfl := db'.object.eq_of_id hu hr' huid.1
      simp [hobj, huid.2] at hnot
    · rfl
  · obtain ⟨r, hr, heq, hmem, hkeeps⟩ := row_of_watched hin (carries_update hupdate) hr' hid
    rcases h r hr hmem with htype | ⟨o, ho, hoid⟩
    · exact Or.inl ((hkeeps (heq ▸ hobj)).trans htype)
    · rcases List.mem_cons.mp ho with rfl | ho
      · exact absurd (heq.symm.trans hoid.symm) hobj
      · exact Or.inr ⟨o, ho, hoid.trans heq⟩

/-- A stage of a listed rehash that leaves the progress as it is. -/
theorem reached_listed {b : Int} {x : Watch} {skip : Option Int}
    (hroom : HasRoom b s.db stage) (hsame : SameProgress b s.db app.db)
    (huncounted : uncounted stage' = uncounted stage) (hne : stage' ≠ .list)
    (hcovered : Covered app.db (x.shrink app.db skip) stage') (htype : etagType = x.etagType) :
    ∃ y, shrunk (some x) app.db skip = some y ∧
      Reached b app.db y (.rehash id etagType stage') := by
  refine ⟨x.shrink app.db skip, rfl, .listed id etagType stage' hne ?_ hcovered htype⟩
  intro c hc hid
  rw [huncounted]
  exact hasRoom_same hroom hsame c hc hid

/-- An object that is counted was not counted before. -/
theorem counters_bump {b : Int} {db : Db} {rehashed : Bool} {rest : List ObjectRecord}
    (hcounters : ∀ c ∈ db.bucket.rows, c.id = b →
      0 ≤ c.etagRehashProcessed ∧ c.etagRehashProcessed ≤ c.etagRehashTotal)
    (hroom : HasRoom b db (.bump rehashed rest)) :
    ∀ c ∈ (bumpBucketEtagRehashProcessed db b).bucket.rows, c.id = b →
      0 ≤ c.etagRehashProcessed ∧ c.etagRehashProcessed ≤ c.etagRehashTotal := by
  intro c' hc' hid
  obtain ⟨c, hc, hcid, rfl⟩ := eq_of_mem_updateBucket hc' hid
  have hle := hroom c hc hcid
  have hnonneg := (hcounters c hc hcid).1
  simp only [uncounted] at hle
  simp only
  omega

/-- The row of the bucket counts one more, and the list has one less to count. -/
theorem reached_bump {b : Int} {db : Db} {x : Watch} {rehashed : Bool}
    {rest : List ObjectRecord} (skip : Option Int) (hroom : HasRoom b db (.bump rehashed rest))
    (hcovered : Covered db x (.bump rehashed rest)) (htype : etagType = x.etagType) :
    ∃ y, shrunk (some x) (bumpBucketEtagRehashProcessed db b) skip = some y ∧
      Reached b (bumpBucketEtagRehashProcessed db b) y
        (.rehash b etagType (nextObject rest)) := by
  refine ⟨x.shrink _ skip, rfl, .listed b etagType _ (nextObject_ne_list _) ?_ ?_ htype⟩
  · intro c' hc' hid
    obtain ⟨c, hc, hcid, rfl⟩ := eq_of_mem_updateBucket hc' hid
    have hle := hroom c hc hcid
    simp only [uncounted] at hle
    simp only [uncounted_nextObject]
    omega
  · refine covered_shrink hcovered rfl fun o ho => Or.inl ?_
    rwa [left_nextObject]

/-- The rehash of the bucket itself. -/
theorem ok_rehash_own {b : Int} {etags : List Task} {i : Nat} {watch : Option Watch}
    (skip : Option Int) (h : Ok b ⟨s.db, watch⟩ etags)
    (hi : etags[i]? = some (.rehash b etagType stage))
    (hmove : RehashMove P s now failure b etagType stage app stage')
    (hclean : failure = none ∨ ∃ obj rest, stage = .hash obj rest)
    (hlist : stage = .list → allCounted s.db b = true ∧ skipsMarkersOnly s.db b = true)
    (hskip : ∀ obj rest, stage = .hash obj rest →
      query failure.isSome (hashFilepath P s obj.filepath etagType) = none →
      skip = some obj.id) :
    Ok b ⟨app.db, shrunk watch app.db skip⟩ (etags.set i (.rehash b etagType stage')) := by
  have htask := h.tasks _ (List.mem_of_getElem? hi)
  have ht : recalculating b (.rehash b etagType stage) = true := by
    cases hmove with
    | _ => simp [recalculating]
  obtain ⟨x, rfl, hreached⟩ := htask.reached ht
  have hin := h.shared.watched x rfl
  have hown := own_rehash htask hmove
  have hsame : SameProgress b s.db s.db := sameProgress_of_eq rfl
  have hcalm : (∀ obj rest, stage ≠ .hash obj rest) → failure = none := by
    intro hne
    exact hclean.resolve_right fun ⟨obj, rest, heq⟩ => hne obj rest heq
  -- A step that keeps the progress only has to say what is covered after it.
  have hquiet : SameProgress b s.db app.db →
      (∃ y, shrunk (some x) app.db skip = some y ∧
        Reached b app.db y (.rehash b etagType stage')) →
      Ok b ⟨app.db, shrunk (some x) app.db skip⟩ (etags.set i (.rehash b etagType stage')) := by
    intro hprogress hafter
    exact ok_replace h hi (turn_same skip h.shared (carries_rehash hmove) hprogress)
      (taskOk_rehash hown fun _ => hafter) (Or.inl ht) fun _ => ht
  cases hmove with
  | notListed hfail =>
    exact absurd (hcalm fun _ _ heq => by cases heq) hfail
  | list _ =>
    obtain ⟨hcounted, hmarkers⟩ := hlist rfl
    cases hreached with
    | listed _ _ _ hne _ _ _ => exact absurd rfl hne
    | spawned _ _ hfresh htype =>
      obtain ⟨hroom, hcovered⟩ := listed_all skip hfresh hin hcounted hmarkers
      refine hquiet hsame ⟨x.shrink s.db skip, rfl, ?_⟩
      exact .listed b etagType _ (nextObject_ne_list _) hroom hcovered htype
  | notHashed obj rest hhash =>
    cases hreached with
    | listed _ _ _ _ hroom hcovered htype =>
      refine hquiet hsame (reached_listed hroom hsame rfl (by simp) ?_ htype)
      refine covered_shrink hcovered rfl fun o ho => ?_
      rcases List.mem_cons.mp ho with rfl | ho
      · exact Or.inr fun hid => (mem_shrink.mp hid).2.2 (hskip o rest rfl hhash)
      · exact Or.inl ho
  | hash obj etag rest hhash =>
    cases hreached with
    | listed _ _ _ _ hroom hcovered htype =>
      refine hquiet hsame (reached_listed hroom hsame rfl (by simp) ?_ htype)
      exact covered_shrink hcovered rfl fun o ho => Or.inl ho
  | notUpdated obj etag rest hfail =>
    have hnone : updateObjectEtag s.db now obj.id etagType etag = none :=
      hfail.resolve_left fun hne => hne (hcalm fun _ _ heq => by cases heq)
    cases hreached with
    | listed _ _ _ _ hroom hcovered htype =>
      refine hquiet hsame (reached_listed hroom hsame rfl (by simp) ?_ htype)
      refine covered_shrink hcovered rfl fun o ho => ?_
      rcases List.mem_cons.mp ho with rfl | ho
      · exact Or.inr (not_watched_of_none hnone)
      · exact Or.inl ho
  | update obj etag rest db hupdate =>
    have hprogress : SameProgress b s.db db := sameProgress_of_eq (updateObjectEtag_bucket hupdate)
    cases hreached with
    | listed _ _ _ _ hroom hcovered htype =>
      subst htype
      exact hquiet hprogress
        (reached_listed hroom hprogress rfl (by simp) (covered_update hin hcovered hupdate) rfl)
  | notEnqueued obj etag rest hfail =>
    exact absurd (hcalm fun _ _ heq => by cases heq) hfail
  | enqueue obj etag rest =>
    cases hreached with
    | listed _ _ _ _ hroom hcovered htype =>
      refine hquiet (sameProgress_of_eq rfl)
        (reached_listed (s := s) hroom (sameProgress_of_eq rfl) rfl (by simp) ?_ htype)
      exact covered_shrink hcovered rfl fun o ho => Or.inl ho
  | notCounted rehashed rest message hfail =>
    exact absurd (hfail.symm.trans (hcalm fun _ _ heq => by cases heq)) (by simp)
  | bump rehashed rest _ =>
    cases hreached with
    | listed _ _ _ _ hroom hcovered htype =>
      exact ok_replace h hi
        ⟨carries_of_eq (p := fun _ => False) rfl, rfl, counters_bump h.shared.counters hroom⟩
        (taskOk_rehash hown fun _ => reached_bump skip hroom hcovered htype) (Or.inl ht)
        fun _ => ht
  | notFinished fatal hfail =>
    exact absurd (hcalm fun _ _ heq => by cases heq) hfail
  | finish fatal _ =>
    refine ok_replace h hi ⟨carries_of_eq (p := fun _ => False) rfl, rfl, ?_⟩
      (taskOk_rehash (fun o ho => by cases ho) fun heq => ?_) (Or.inl ht) fun _ => ht
    · intro c hc hid
      obtain ⟨a, ha, haid, rfl⟩ := eq_of_mem_updateBucket hc hid
      exact h.shared.counters a ha haid
    · simp [recalculating] at heq

end Rehash

theorem letThrough_put {b : Int} {s s' : State} {i : Nat} {now : Instant}
    {failure : Option Text} {req req' : PutBucketEtag} {stage stage' : PutStage}
    (hi : s.etags[i]? = some (.put req stage)) (hi' : s'.etags[i]? = some (.put req' stage')) :
    letThrough b s s' (.advance i now failure) =
      if stage = .getBucket ∧ stage' = .setEtagType ∧ req.bucketId = b ∧
        recalculates req = true then some req.etagType else none := by
  unfold letThrough
  simp only [hi, hi']
  cases stage with
  | getBucket =>
    cases stage' with
    | setEtagType => simp only [true_and]
    | _ => simp
  | _ => simp

theorem letThrough_rehash {b : Int} {s s' : State} {i : Nat} {now : Instant}
    {failure : Option Text} {id : Int} {etagType : EtagType} {stage : RehashStage}
    (hi : s.etags[i]? = some (.rehash id etagType stage)) :
    letThrough b s s' (.advance i now failure) = none := by
  unfold letThrough
  simp only [hi]

theorem unreadable_put {P : Platform} {s : State} {i : Nat} {now : Instant}
    {failure : Option Text} {req : PutBucketEtag} {stage : PutStage}
    (hi : s.etags[i]? = some (.put req stage)) :
    unreadable P s (.advance i now failure) = none := by
  unfold unreadable
  simp only [hi]

theorem follow_of_none {P : Platform} {b : Int} {w : Watched} {a : Action} {s' : State}
    (h : letThrough b w.state s' a = none) :
    follow P b w a s' = shrunk w.watch s'.server.app.db (unreadable P w.state a) := by
  unfold follow
  rw [h]
  rfl

/-- A request that is let through finds no other recalculation going on. -/
theorem alone_of_orderly {b : Int} {s : State} {i : Nat} {now : Instant}
    {failure : Option Text} {req : PutBucketEtag} {c : BucketRecord}
    (hi : s.etags[i]? = some (.put req .getBucket))
    (happly : trim req.apply = "new_only".toList ∨ trim req.apply = "recalculate_all".toList)
    (hc : getBucketById s.server.app.db req.bucketId = some c)
    (hrunning : ¬ (trim req.apply = "recalculate_all".toList ∧
      c.etagRehashStatus = some "running".toList))
    (hid : req.bucketId = b) (hrecalculates : recalculates req = true)
    (hok : orderly b s (.advance i now failure) = true) :
    ∀ t ∈ s.etags, recalculating b t = false := by
  have hnew : trim req.apply ≠ "new_only".toList := by
    simpa [recalculates] using hrecalculates
  have hall := happly.resolve_left hnew
  have hstatus : hasStatus s.server.app.db b "running".toList = false := by
    rw [Bool.eq_false_iff]
    intro hany
    obtain ⟨d, hd, hdid⟩ := List.any_eq_true.mp hany
    simp only [Bool.and_eq_true, beq_iff_eq] at hdid
    obtain ⟨hmem, hcid⟩ := BucketTable.byId_eq_some.mp hc
    have heq := s.server.app.db.bucket.eq_of_id hd hmem (by rw [hdid.1, hcid, hid])
    exact hrunning ⟨hall, heq ▸ hdid.2⟩
  unfold orderly at hok
  simp only [hi, hid, hrecalculates, hstatus, bne_self_eq_false, Bool.not_true, Bool.or_self,
    Bool.false_or] at hok
  intro t ht
  simpa using List.all_eq_true.mp hok t ht

theorem ok_spawn {b : Int} {v : View} {etags : List Task} {i : Nat} {req : PutBucketEtag}
    {total : Int} (h : Ok b v etags) (hi : etags[i]? = some (.put req (.spawn total))) :
    Ok b ⟨v.db, shrunk v.watch v.db none⟩
      (etags.set i (spawned req total) ++ [.rehash req.bucketId req.etagType .list]) := by
  have hgoes : recalculating b (.rehash req.bucketId req.etagType .list) = true →
      recalculating b (.put req (.spawn total)) = true := by
    intro heq
    simpa [recalculating] using heq
  have hset : Ok b ⟨v.db, shrunk v.watch v.db none⟩ (etags.set i (spawned req total)) :=
    ok_ended h hi (Or.inr ⟨_, rfl⟩)
  refine Coherent.spawn hset (taskOk_rehash (fun o ho => by cases ho) fun heq => ?_) ?_
  · have htask := h.tasks _ (List.mem_of_getElem? hi)
    obtain ⟨x, hx, hreached⟩ := htask.reached (hgoes heq)
    refine ⟨x.shrink v.db none, by rw [hx]; rfl, ?_⟩
    cases hreached with
    | asked _ _ hstage _ => simp at hstage
    | begun _ _ hfresh htype => exact .spawned _ _ hfresh htype
  · refine Coherent.forall_replace h apart_symm hi (C := fun (_ : View) u => Apart b u _) ?_ ?_
    · exact fun heq => by cases heq
    · exact fun u _ hapart _ hu heq => hapart (hgoes heq) hu

/-- A rehash meets no error but in reading a file. -/
theorem clean_of_undisturbed {s : State} {i : Nat} {now : Instant} {failure : Option Text}
    {id : Int} {etagType : EtagType} {stage : RehashStage}
    (hi : s.etags[i]? = some (.rehash id etagType stage))
    (h : undisturbed s (.advance i now failure) = true) :
    failure = none ∨ ∃ obj rest, stage = .hash obj rest := by
  unfold undisturbed at h
  simp only [hi] at h
  cases stage with
  | hash obj rest => exact Or.inr ⟨obj, rest, rfl⟩
  | _ => exact Or.inl (Option.isNone_iff_eq_none.mp h)

/-- A handler comes to set the type only from the look at the mark. -/
theorem getBucket_of_setEtagType {s app : AppState} {failure : Option Text}
    {req : PutBucketEtag} {stage : PutStage}
    (h : PutMove s failure req stage app .setEtagType) :
    stage = .getBucket ∧ app = s ∧ ∃ c, getBucketById s.db req.bucketId = some c ∧
      ¬ (trim req.apply = "recalculate_all".toList ∧
        c.etagRehashStatus = some "running".toList) := by
  generalize hstage : PutStage.setEtagType = stage' at h
  cases h with
  | getBucket c hc hrunning => exact ⟨rfl, rfl, c, hc, hrunning⟩
  | setEtagType db hset => split_ifs at hstage
  | _ => cases hstage

/-- The turn of a handler, whose request may be let through. -/
theorem ok_put_turn {P : Platform} {b : Int} {s : State} {app : AppState} {watch : Option Watch}
    {i : Nat} {now : Instant} {failure : Option Text} {req : PutBucketEtag}
    {stage stage' : PutStage} (h : Ok b ⟨s.server.app.db, watch⟩ s.etags)
    (hi : s.etags[i]? = some (.put req stage))
    (hmove : PutMove s.server.app failure req stage app stage')
    (hok : orderly b s (.advance i now failure) = true) :
    Ok b ⟨app.db, follow P b ⟨s, watch⟩ (.advance i now failure)
        { s with
          server := { s.server with app := app }, etags := s.etags.set i (.put req stage') }⟩
      (s.etags.set i (.put req stage')) := by
  obtain ⟨hlt, _⟩ := List.getElem?_eq_some_iff.mp hi
  have hlet : letThrough b s { s with
        server := { s.server with app := app }, etags := s.etags.set i (.put req stage') }
      (.advance i now failure) =
      if stage = .getBucket ∧ stage' = .setEtagType ∧ req.bucketId = b ∧
        recalculates req = true then some req.etagType else none :=
    letThrough_put hi (List.getElem?_set_self hlt)
  by_cases hthrough : stage = .getBucket ∧ stage' = .setEtagType ∧ req.bucketId = b ∧
    recalculates req = true
  · rw [if_pos hthrough] at hlet
    obtain ⟨rfl, rfl, hid, hrecalculates⟩ := hthrough
    obtain ⟨_, rfl, c, hc, hrunning⟩ := getBucket_of_setEtagType hmove
    unfold follow
    rw [hlet]
    have happly := (h.tasks _ (List.mem_of_getElem? hi)).apply req rfl
    exact ok_letThrough h hi (alone_of_orderly hi happly hc hrunning hid hrecalculates hok)
  · rw [if_neg hthrough] at hlet
    rw [follow_of_none hlet, unreadable_put hi]
    refine ok_put h hi hmove fun hstage => ?_
    subst hstage
    rw [Bool.eq_false_iff]
    intro heq
    simp only [recalculating, Bool.and_eq_true, beq_iff_eq] at heq
    exact hthrough ⟨(getBucket_of_setEtagType hmove).1, rfl, heq⟩

theorem ok_step {P : Platform} {b : Int} {w w' : Watched} {a : Action}
    (h : Ok b ⟨w.state.server.app.db, w.watch⟩ w.state.etags)
    (hclean : undisturbed w.state a = true) (hok : orderly b w.state a = true)
    (hstep : watchedStep P b w a = some w') :
    Ok b ⟨w'.state.server.app.db, w'.watch⟩ w'.state.etags := by
  obtain ⟨s', hnext, rfl⟩ := Option.map_eq_some_iff.mp hstep
  obtain ⟨s, watch⟩ := w
  cases a with
  | request a =>
    obtain ⟨p, hp, rfl⟩ := Option.map_eq_some_iff.mp hnext
    exact ok_request h (carries_request hp) (request_bucket hp)
  | putBucketEtag req =>
    unfold EtagRuns.step at hnext
    simp only at hnext
    split_ifs at hnext
    rw [← Option.some.inj hnext]
    refine Coherent.spawn (ok_request h (carries_of_eq rfl) rfl) (taskOk_put ?_ ?_) ?_
    · exact fun heq => by cases heq
    · exact fun heq => by cases heq
    · exact fun _ _ _ heq => by cases heq
  | restart cluster => cases hclean
  | drop i =>
    obtain ⟨t, hi, hdrop⟩ := Option.bind_eq_some_iff.mp hnext
    cases t with
    | rehash id etagType stage => cases hdrop
    | put req stage =>
      rw [← Option.some.inj hdrop]
      exact ok_ended h hi (Or.inl rfl)
  | advance i now failure =>
    rcases advance_cases hnext with ⟨req, total, hi, rfl⟩ |
      ⟨req, stage, app, stage', hi, _, hmove, rfl⟩ |
      ⟨id, etagType, stage, app, stage', hi, hmove, rfl⟩
    · obtain ⟨hlt, _⟩ := List.getElem?_eq_some_iff.mp hi
      have hi' : (s.etags.set i (spawned req total) ++
          [.rehash req.bucketId req.etagType .list])[i]? = some (spawned req total) := by
        rw [List.getElem?_append_left (by simpa using hlt), List.getElem?_set_self hlt]
      have hlet : letThrough b s { s with
          etags := s.etags.set i (spawned req total) ++
            [.rehash req.bucketId req.etagType .list] } (.advance i now failure) = none :=
        (letThrough_put hi hi').trans (if_neg (by simp))
      rw [follow_of_none hlet, unreadable_put hi]
      exact ok_spawn h hi
    · exact ok_put_turn h hi hmove hok
    · rw [follow_of_none (letThrough_rehash hi)]
      by_cases hid : id = b
      · subst hid
        refine ok_rehash_own _ h hi hmove (clean_of_undisturbed hi hclean) ?_ ?_
        · intro h'
          obtain rfl := h'
          unfold orderly at hok
          simpa [hi] using hok
        · intro obj rest h' hhash
          obtain rfl := h'
          unfold unreadable
          simp only [hi, hhash, if_true]
      · exact ok_rehash_foreign hid _ h hi hmove

theorem hasStatus_same {b : Int} {db db' : Db} {status : Text} (h : SameProgress b db db')
    (hstatus : hasStatus db' b status = true) : hasStatus db b status = true := by
  obtain ⟨c', hc', hid⟩ := List.any_eq_true.mp hstatus
  simp only [Bool.and_eq_true, beq_iff_eq] at hid
  obtain ⟨c, hc, hcid, _, _, heq⟩ := h c' hc' hid.1
  refine List.any_eq_true.mpr ⟨c, hc, ?_⟩
  simp only [Bool.and_eq_true, beq_iff_eq]
  exact ⟨hcid, heq.symm.trans hid.2⟩

/-- The status after an update of the columns of a bucket. -/
theorem hasStatus_update {b id : Int} {db : Db} {f : BucketRecord → BucketRecord}
    {hid : ∀ b, (f b).id = b.id} {hname : ∀ b, (f b).name = b.name} {status : Text}
    (h : hasStatus (updateBucket db id f hid hname) b status = true) :
    hasStatus db b status = true ∨ id = b ∧ ∃ c ∈ db.bucket.rows, c.id = b ∧
      (f c).etagRehashStatus = some status := by
  obtain ⟨c', hc', hcid⟩ := List.any_eq_true.mp h
  simp only [Bool.and_eq_true, beq_iff_eq] at hcid
  rcases mem_updateBucket.mp hc' with ⟨hc, _⟩ | ⟨c, hc, heq, rfl⟩
  · exact Or.inl (List.any_eq_true.mpr ⟨c', hc, by simpa using hcid⟩)
  · have hb : c.id = b := (hid c).symm.trans hcid.1
    exact Or.inr ⟨heq.symm.trans hb, c, hc, hb, hcid.2⟩

/-- The status of the bucket becomes done by the last step of its rehash. -/
theorem finish_of_done {P : Platform} {b : Int} {s s' : State} {a : Action}
    (hnext : EtagRuns.step P s a = some s') (hclean : undisturbed s a = true)
    (hnot : hasStatus s.server.app.db b "done".toList = false)
    (hdone : hasStatus s'.server.app.db b "done".toList = true) :
    ∃ i now failure etagType, a = .advance i now failure ∧
      s.etags[i]? = some (.rehash b etagType (.finish none)) ∧
      s'.server.app.db.object = s.server.app.db.object := by
  have hkept : hasStatus s.server.app.db b "done".toList = true → False := by
    rw [hnot]
    exact fun heq => by cases heq
  cases a with
  | request a =>
    obtain ⟨p, hp, rfl⟩ := Option.map_eq_some_iff.mp hnext
    exact (hkept (hasStatus_same (sameProgress_of_eq (request_bucket hp)) hdone)).elim
  | putBucketEtag req =>
    unfold EtagRuns.step at hnext
    simp only at hnext
    split_ifs at hnext
    rw [← Option.some.inj hnext] at hdone
    exact (hkept hdone).elim
  | restart cluster => cases hclean
  | drop i =>
    obtain ⟨t, hi, hdrop⟩ := Option.bind_eq_some_iff.mp hnext
    cases t with
    | rehash id etagType stage => cases hdrop
    | put req stage =>
      rw [← Option.some.inj hdrop] at hdone
      exact (hkept hdone).elim
  | advance i now failure =>
    rcases advance_cases hnext with ⟨req, total, hi, rfl⟩ |
      ⟨req, stage, app, stage', hi, _, hmove, rfl⟩ |
      ⟨id, etagType, stage, app, stage', hi, hmove, rfl⟩
    · exact (hkept hdone).elim
    · cases hmove with
      | setEtagType db hset =>
        exact (hkept (hasStatus_same (sameProgress_setEtagType hset) hdone)).elim
      | begin total db _ hbegin =>
        unfold beginBucketEtagRehash at hbegin
        split_ifs at hbegin
        rw [← Option.some.inj hbegin] at hdone
        rcases hasStatus_update hdone with hbefore | ⟨_, c, _, _, hrunning⟩
        · exact (hkept hbefore).elim
        · simp at hrunning
      | _ => exact (hkept hdone).elim
    · by_cases hid : id = b
      · subst hid
        cases hmove with
        | update obj etag rest db hupdate =>
          have hsame : SameProgress id s.server.app.db db :=
            sameProgress_of_eq (updateObjectEtag_bucket hupdate)
          exact (hkept (hasStatus_same hsame hdone)).elim
        | bump rehashed rest _ =>
          rcases hasStatus_update hdone with hbefore | ⟨_, c, hc, hcid, hstatus⟩
          · exact (hkept hbefore).elim
          · refine (hkept (List.any_eq_true.mpr ⟨c, hc, ?_⟩)).elim
            simpa [hcid] using hstatus
        | finish fatal _ =>
          rcases hasStatus_update hdone with hbefore | ⟨_, c, _, _, hstatus⟩
          · exact (hkept hbefore).elim
          · cases fatal with
            | some message => simp [finalStatus] at hstatus
            | none => exact ⟨i, now, failure, etagType, rfl, hi, rfl⟩
        | _ => exact (hkept hdone).elim
      · exact (hkept (hasStatus_same (sameProgress_rehash hid hmove) hdone)).elim

/-- What a recalculation that is done has to answer for has its ETag type. -/
theorem types_of_done {P : Platform} {b : Int} {w w' : Watched} {a : Action}
    (h : Ok b ⟨w.state.server.app.db, w.watch⟩ w.state.etags)
    (hclean : undisturbed w.state a = true) (hok : orderly b w.state a = true)
    (hstep : watchedStep P b w a = some w')
    (hnot : hasStatus w.state.server.app.db b "done".toList = false)
    (hdone : hasStatus w'.state.server.app.db b "done".toList = true) :
    ∃ x, w'.watch = some x ∧ ∀ id ∈ x.ids, ∃ r ∈ w'.state.server.app.db.object.rows,
      r.id = id ∧ isActive r = true ∧ r.etagType = x.etagType := by
  have hafter := ok_step h hclean hok hstep
  obtain ⟨s', hnext, rfl⟩ := Option.map_eq_some_iff.mp hstep
  obtain ⟨i, now, failure, etagType, rfl, hi, hobject⟩ := finish_of_done hnext hclean hnot hdone
  obtain ⟨x, hx, hreached⟩ := (h.tasks _ (List.mem_of_getElem? hi)).reached
    (by simp [recalculating])
  have hwatch : follow P b w (.advance i now failure) s' =
      some (x.shrink s'.server.app.db (unreadable P w.state (.advance i now failure))) := by
    rw [follow_of_none (letThrough_rehash hi)]
    exact congrArg (fun watch => shrunk watch _ _) hx
  refine ⟨_, hwatch, fun id hid => ?_⟩
  obtain ⟨r, hr, rfl, hactive, _⟩ := hafter.shared.watched _ hwatch id hid
  refine ⟨r, hr, rfl, hactive, ?_⟩
  cases hreached with
  | listed _ _ _ _ _ hcovered _ =>
    have hr' : r ∈ w.state.server.app.db.object.rows := by
      rwa [hobject] at hr
    rcases hcovered r hr' (mem_shrink.mp hid).1 with htype | ⟨o, ho, _⟩
    · exact htype
    · cases ho

/-- A step without crash or error that keeps to the condition. -/
def inOrder (b : Int) (w : Watched) (a : Action) : Bool :=
  undisturbed w.state a && orderly b w.state a

/-- The digests of one text, in two ways. -/
def twoDigests : Platform :=
  .tabulated [((.md5, [97]), "0cc175b9c0f1b6a831c399e269772661".toList),
    ((.sha256, [97]),
      "ca978112ca1bbdcafac231b39a23dc4da786eff8147c4e72b9807785afee48bb".toList)]

/-- An idle node with one account, which has the Owner role. -/
def start : Watched where
  state := {
    server := {
      app := { AppState.migrated "node-1".toList with
        db := { Db.migrated with
          account := [⟨1, "a1".toList, "p1".toList, [], false, none⟩]
          accountRole := [⟨1, 1⟩] } }
      writing := false }
    requests := []
    etags := [] }
  watch := none

def asking (etagType : EtagType) : PutBucketEtag := ⟨1, 1, etagType, "recalculate_all".toList⟩

def turns (i n : Nat) : List Action := List.replicate n (.advance i Instant.epoch none)

/-- An upload, from its begin to its end. -/
def uploading (key : Text) : List Action :=
  .request (.begin (.put (RequestInvariants.sampleUpload 1 key [97]) .received)) ::
    List.replicate 8 (.request (.advance 0 RequestInvariants.calm))

/-- A recalculation and its task, without the last step. -/
def almostDone : List Action :=
  .putBucketEtag (asking .sha256) :: turns 0 6 ++ turns 1 5

/-- Two requests are let through before the first one marks the bucket, and the tasks of both
take the object. -/
def overlapping : List Action :=
  [.putBucketEtag (asking .sha256), .putBucketEtag (asking .md5)] ++ turns 0 2 ++ turns 1 2 ++
    turns 0 4 ++ turns 1 4 ++ turns 3 3 ++ turns 2 5 ++ turns 3 2

/-- An upload after the count. -/
def uploadedLate : List Action :=
  .putBucketEtag (asking .sha256) :: turns 0 4 ++ uploading ['k'] ++ turns 0 2 ++ turns 1 5

def progress (w : Watched) : List (Int × Int) :=
  w.state.server.app.db.bucket.rows.map fun c => (c.etagRehashProcessed, c.etagRehashTotal)

def types (w : Watched) : List (Int × EtagType) :=
  w.state.server.app.db.object.rows.map fun r => (r.id, r.etagType)

end MyS3.EtagResults
