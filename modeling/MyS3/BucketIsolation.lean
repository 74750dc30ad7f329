import MyS3.WriteConfinement

/-!
A bucket seen from the accounts that may not write to it. Whatever requests they send, and in
whatever order these take their steps, the rows of the bucket stay.
-/

namespace MyS3.BucketIsolation

open Library.Interleaving Library.Runs
open Models Objects Database Engine Http Rbac WebWrites ConfinedWrites WriteConfinement

variable {account : Option Int} {db db' : Db}

/-- The two databases have the same rows of the bucket. -/
def SameRows (b : Int) (db db' : Db) : Prop :=
  ∀ r, r.bucketId = b → (r ∈ db'.object.rows ↔ r ∈ db.object.rows)

/-- No account of a request may write to the bucket, and nobody else does. -/
def Spares (b : Int) (s : WriteState) (act : WriteAction) : Prop :=
  (∀ task ∈ s.tasks, ∀ a, task.account = some a → ∀ action, action ≠ .read →
    checkPerm s.shared.app.db a b action = false) ∧
  ∀ app, act = .others app → SameRows b s.shared.app.db app.db

/-- Everything but writing to the bucket. -/
def elsewhere (b : Int) : Grant := fun _ b' action => b' ≠ b ∨ action = .read

theorem within_of_spares {b : Int} {s : WriteState} {act : WriteAction} (h : Spares b s act) :
    Within (elsewhere b) s act := by
  intro task htask a ha b' action hperm
  by_contra hnot
  simp only [elsewhere, not_or, not_not] at hnot
  obtain ⟨rfl, hwrite⟩ := hnot
  rw [h.1 task htask a ha action hwrite] at hperm
  cases hperm

theorem not_may_elsewhere (account : Option Int) (b : Int) {action : CrudAction} (hwrite : action ≠ .read) :
    ¬ May (elsewhere b) account b action := by
  intro h
  obtain ⟨a, _, hne | hread⟩ := h
  · exact hne rfl
  · exact hwrite hread

/-- A change that needs no permission on a bucket leaves its rows alone. -/
theorem sameRows_of_confined {b : Int} (h : Confined (elsewhere b) account db db') :
    SameRows b db db' := by
  have hcreate : ¬ May (elsewhere b) account b .create := not_may_elsewhere account b (by decide)
  have hupdate : ¬ May (elsewhere b) account b .update := not_may_elsewhere account b (by decide)
  have hdelete : ¬ May (elsewhere b) account b .delete := not_may_elsewhere account b (by decide)
  have hback : ∀ r ∈ db'.object.rows, r.bucketId = b → r ∈ db.object.rows := by
    intro r hr hb
    obtain rfl := hb
    rcases h.rows r hr with hmem | ⟨_, hmay | hmay⟩ | ⟨_, _, _, _, _, hmay | ⟨_, hmay | hmay⟩⟩
    · exact hmem
    · exact absurd hmay hcreate
    · exact absurd hmay hupdate
    · exact absurd hmay hupdate
    · exact absurd hmay hcreate
    · exact absurd hmay hdelete
  intro r hb
  refine ⟨fun hr => hback r hr hb, fun hr => ?_⟩
  rcases h.removed r hr with ⟨r', hr', hid⟩ | hmay
  · obtain ⟨r₀, hmem, hid', hbucket⟩ := h.follows.2 r' hr' (hid ▸ db.object.id_lt r hr)
    have hrow : r₀ = r := db.object.eq_of_id hmem hr (hid'.trans hid)
    have hb' : r'.bucketId = b := by rw [← hbucket, hrow, hb]
    have hsame : r' = r := db.object.eq_of_id (hback r' hr' hb') hr hid
    rwa [hsame] at hr'
  · rw [hb] at hmay
    exact absurd hmay hdelete

theorem sameRows_step {P : Platform} {b : Int} {s t : WriteState} {act : WriteAction}
    (hheld : AllHeld (elsewhere b) s) (hok : Spares b s act) (hstep : step P s act = some t) :
    SameRows b s.shared.app.db t.shared.app.db := by
  rcases step_cases hstep with ⟨task, rfl, hnew, rfl⟩ |
    ⟨i, io, task, e, task', writing, rfl, hi, htask, rfl⟩ | ⟨i, writing, rfl, rfl⟩ |
    ⟨app, writing, rfl, hfollows, rfl⟩
  · exact fun _ _ => Iff.rfl
  · have hmem := List.mem_of_getElem? hi
    exact (sound_step (within_of_spares hok task hmem) (hheld task hmem) htask).confined |> sameRows_of_confined
  · exact fun _ _ => Iff.rfl
  · exact hok.2 app rfl

/-- Requests of accounts that may not write to a bucket leave its rows as they are, in every
order of their steps. -/
theorem bucket_kept (P : Platform) (app : AppState) (b : Int) (s : WriteState)
    (hrun : Run (step P) (Spares b) (idleWrites app) s) :
    SameRows b app.db s.shared.app.db := by
  have hinv : ∀ s act t, AllHeld (elsewhere b) s ∧ SameRows b app.db s.shared.app.db →
      Spares b s act → step P s act = some t →
      AllHeld (elsewhere b) t ∧ SameRows b app.db t.shared.app.db := by
    intro s act t h hok hstep
    refine ⟨allHeld_step P _ s act t h.1 (within_of_spares hok) hstep, fun r hb => ?_⟩
    exact (sameRows_step h.1 hok hstep r hb).trans (h.2 r hb)
  have hidle : AllHeld (elsewhere b) (idleWrites app) := fun _ htask => by cases htask
  exact (hrun.invariant hinv ⟨hidle, fun _ _ => Iff.rfl⟩).2

def mayNotWrite (b : Int) (s : WriteState) (_ : WriteAction) : Bool :=
  s.tasks.all fun task => task.account.all fun a =>
    [CrudAction.create, .update, .delete].all fun action =>
      !checkPerm s.shared.app.db a b action

def isOthers : WriteAction → Bool
  | .others _ => true
  | _ => false

theorem spares_of_mayNotWrite {b : Int} {s : WriteState} {act : WriteAction}
    (hothers : isOthers act = false) (h : mayNotWrite b s act = true) : Spares b s act := by
  simp only [mayNotWrite, List.all_eq_true] at h
  constructor
  · intro task htask a ha action hwrite
    have hall := h task htask
    simp only [ha, Option.all_some, List.all_eq_true] at hall
    cases action with
    | read => exact absurd rfl hwrite
    | create => simpa using hall .create (by simp)
    | update => simpa using hall .update (by simp)
    | delete => simpa using hall .delete (by simp)
  · intro app heq
    rw [heq] at hothers
    cases hothers

/-- The same upload leaves the first bucket alone, in which account 2 may not write. -/
theorem upload_keeps_bucket : SameRows 1 twoBuckets.db (uploadedTo 12).shared.app.db := by
  have hcalm : ∀ a ∈ uploading 12, isOthers a = false := by
    intro a ha
    rcases List.mem_cons.mp ha with rfl | ha
    · rfl
    · rw [List.eq_of_mem_replicate ha]
      rfl
  have hrun : Run (step Platform.sample) (Spares 1) (idleWrites twoBuckets) (uploadedTo 12) :=
    run_of_execIf (mayNotWrite 1) (fun a ha _ h => spares_of_mayNotWrite (hcalm a ha) h)
      (rfl : execIf _ _ _ (uploading 12) = some (uploadedTo 12))
  exact bucket_kept Platform.sample twoBuckets 1 _ hrun

end MyS3.BucketIsolation
