import MyS3.BootstrapFailures
import MyS3.BucketPatches

/-!
What the settings requests that change accounts and buckets leave behind when they are
answered with an error. Each makes several writes that are not one transaction, so the
tables stay as they were only when no error follows the first write that changes a row.
-/

namespace MyS3.FailedRequests

open Library.Strings
open Models Database Accounts AccountRequests BootstrapFailures BucketPatches

inductive Request
  | authBootstrap (draw : Bootstrap.Draw)
  | createAccount (actor : Int) (body : NewAccount)
  | patchAccount (actor id : Int) (displayName : Option Text) (isDisabled : Option Bool)
  | patchBucket (actor id : Int) (name : Option Text) (ownerAccountId : Option Int)

/-- The calls that fail; no request makes one of them twice. -/
structure Faults where
  bootstrap : Bootstrap.Stage → Bool
  account : AccountRequests.Stage → Bool
  bucket : BucketOwners.Stage → Bool

/-- What a request leaves, and whether it is answered with an error. -/
def handle (settings : BucketOwners.Settings) (now : Instant) (fails : Faults) (s : Store) :
    Request → Store × Bool
  | .authBootstrap draw =>
    let result := authBootstrap now fails.bootstrap s.registry draw
    (s.inserted now result.1, bootstrapIsError result.2)
  | .createAccount actor body =>
    let result := run now fails.account s (.createRequireOwner actor body)
    (result.1, result.2.isError)
  | .patchAccount actor id displayName isDisabled =>
    let result := run now fails.account s (.patchRequireOwner actor id displayName isDisabled)
    (result.1, result.2.isError)
  | .patchBucket actor id name ownerAccountId =>
    let result := patchBucket settings fails.bucket s.registry actor id name ownerAccountId
    ({ s with registry := result.1 }, bucketIsError result.2)

/-- No error follows a write that changes a row. -/
def NoneHalfway (now : Instant) (fails : Faults) (s : Store) : Request → Prop
  | .authBootstrap draw =>
    Begins fails.bootstrap s.registry.db →
      Settles fails.bootstrap s.registry.db s.registry.nextAccountId draw.token
  | .createAccount actor body =>
    Creates fails.account s.registry.db actor body →
      Equips fails.account s.registry.db s.registry.nextAccountId body.roleIds
  | .patchAccount actor id displayName isDisabled =>
    ∀ name, Names fails.account s.registry.db actor id displayName isDisabled name →
      Stops fails.account actor id isDisabled → AlreadyNamed now s id name
  | .patchBucket actor id name ownerAccountId =>
    Clean fails.bucket s.registry.db actor id name ownerAccountId

variable {now : Instant} {s : Store}

theorem bootstrap_clean_iff {fails : Bootstrap.Stage → Bool} {draw : Bootstrap.Draw} :
    (bootstrapIsError (authBootstrap now fails s.registry draw).2 = true →
        Unchanged s (s.inserted now (authBootstrap now fails s.registry draw).1)) ↔
      (Begins fails s.registry.db →
        Settles fails s.registry.db s.registry.nextAccountId draw.token) := by
  by_cases hbegins : Begins fails s.registry.db
  · obtain ⟨haccount, hsuccess⟩ := authBootstrap_ends now draw hbegins
    rw [imp_iff_right hbegins, ← hsuccess, ← Bool.not_eq_true]
    constructor
    · intro hclean herror
      exact haccount (hclean herror).tables.account
    · intro hnone herror
      exact absurd herror hnone
  · refine iff_of_true ?_ fun h => absurd h hbegins
    intro _
    rw [authBootstrap_refused hbegins]
    refine ⟨⟨rfl, rfl, rfl, rfl⟩, ?_⟩
    intro a ha
    exact if_pos (accountExists_iff.mpr ⟨a, ha, rfl⟩)

/-- A request that is answered with an error leaves the tables as they were exactly when no
error follows a write that changes a row. -/
theorem error_leaves_tables_iff (settings : BucketOwners.Settings) (now : Instant)
    (fails : Faults) (s : Store) (req : Request) :
    ((handle settings now fails s req).2 = true →
        Unchanged s (handle settings now fails s req).1) ↔
      NoneHalfway now fails s req := by
  cases req with
  | authBootstrap draw => exact bootstrap_clean_iff
  | createAccount actor body => exact create_failsCleanly_iff
  | patchAccount actor id displayName isDisabled => exact patch_failsCleanly_iff
  | patchBucket actor id name ownerAccountId =>
    have hiff := patchBucket_clean_iff settings fails.bucket s.registry actor id name
      ownerAccountId
    refine Iff.trans (imp_congr_right fun _ => ?_) hiff
    exact ⟨fun h => h.tables, fun h => ⟨h, fun _ _ => rfl⟩⟩

def noFaults : Faults := ⟨fun _ => false, fun _ => false, fun _ => false⟩

def firstDraw : Bootstrap.Draw := ⟨none, "a1".toList, "p1".toList, "t1".toList⟩

def freshStore : Store := ⟨Registry.migrated, fun _ => Instant.epoch.currentTimestamp⟩

def sampleSettings : BucketOwners.Settings := ⟨"node-1".toList, .md5⟩

def bootstrapped : Store :=
  (handle sampleSettings Instant.epoch noFaults freshStore (.authBootstrap firstDraw)).1

/-- The bootstrap fails when it assigns the role. -/
def roleFails : Faults :=
  { noFaults with bootstrap := fun t => t == .assignRole 1 1 }

/-- An account with a role that is not there is created by a request that fails; and after a
failed bootstrap the next one is refused. -/
theorem failed_requests_leave_accounts :
    let created := handle sampleSettings Instant.epoch noFaults bootstrapped
      (.createAccount 1 ⟨none, some [7], "a2".toList, "p2".toList⟩)
    let failed := handle sampleSettings Instant.epoch roleFails freshStore
      (.authBootstrap firstDraw)
    created.2 = true ∧ created.1.registry.db.account.length = 2 ∧
      bootstrapped.registry.db.account.length = 1 ∧ ¬ Unchanged bootstrapped created.1 ∧
      failed.2 = true ∧ failed.1.registry.db.accountRole = [] ∧
      (authBootstrap Instant.epoch (fun _ => false) failed.1.registry firstDraw).2 =
        .answered (.conflict "bootstrap already completed".toList) := by
  have hafter : (handle sampleSettings Instant.epoch noFaults bootstrapped
      (.createAccount 1 ⟨none, some [7], "a2".toList, "p2".toList⟩)).1.registry.db.account.length =
      2 := by decide
  have hbefore : bootstrapped.registry.db.account.length = 1 := by decide
  refine ⟨by decide, hafter, hbefore, ?_, by decide, by decide, by decide⟩
  intro hsame
  rw [hsame.tables.account, hbefore] at hafter
  cases hafter

end MyS3.FailedRequests
