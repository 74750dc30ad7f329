import MyS3.AccountRequests
import MyS3.Bootstrap

/-!
The calls of `auth_bootstrap` with nobody in between, any of which may fail. The row of the
first account comes first and stays; an error after it leaves a node that has an account,
so that the bootstrap cannot be tried again.
-/

namespace MyS3.BootstrapFailures

open Library.Strings Library.Calls
open Models Database Rbac Accounts AccountRequests

/-- The calls of a bootstrap with the given body and draws. -/
def bootstraps (now : Instant) (draw : Bootstrap.Draw) : Machine Registry Bootstrap.Stage where
  isOver := Bootstrap.Stage.isOver
  onFailure _ := .answered (.failed none)
  call s stage := Prod.map id Bootstrap.Task.stage (Bootstrap.call now s ⟨draw, stage⟩)

theorem bootstrapCall_draw (now : Instant) (s : Registry) (t : Bootstrap.Task) :
    (Bootstrap.call now s t).2.draw = t.draw := by
  unfold Bootstrap.call
  split
  all_goals try split
  all_goals rfl

theorem bootstraps_step (now : Instant) (fails : Bool) (s : Registry) (t : Bootstrap.Task) :
    Bootstrap.authBootstrap now fails s t =
      ((bootstraps now t.draw).step fails s t.stage).map fun r => (r.1, ⟨t.draw, r.2⟩) := by
  obtain ⟨draw, stage⟩ := t
  rcases hcall : Bootstrap.call now s ⟨draw, stage⟩ with ⟨r, draw', stage'⟩
  have hdraw := bootstrapCall_draw now s ⟨draw, stage⟩
  rw [hcall] at hdraw
  obtain rfl : draw' = draw := hdraw
  unfold Bootstrap.authBootstrap Machine.step
  cases hover : stage.isOver with
  | true => simp [bootstraps, hover]
  | false =>
    cases fails with
    | true => simp [bootstraps, hover, Bootstrap.Task.fail, Bootstrap.Task.goOn]
    | false => simp [bootstraps, hover, hcall]

/-- A bootstrap that nobody interrupts. -/
def authBootstrap (now : Instant) (fails : Bootstrap.Stage → Bool) (s : Registry)
    (draw : Bootstrap.Draw) : Registry × Bootstrap.Stage :=
  (bootstraps now draw).alone fails 7 s .accountCount

def bootstrapIsError : Bootstrap.Stage → Bool
  | .answered (.conflict _) => true
  | .answered (.failed _) => true
  | _ => false

/-- How many calls are left at most. -/
def rank : Bootstrap.Stage → Nat
  | .accountCount => 7
  | .insertAccount => 6
  | .getAccountById _ => 5
  | .getOwnerRole _ => 4
  | .assignRole _ _ => 3
  | .claimUnownedBuckets _ => 2
  | .createSession _ => 1
  | .answered _ => 0
  | .dropped => 0

/-- Each call brings a bootstrap closer to its end. -/
theorem call_rank (now : Instant) (draw : Bootstrap.Draw) (s : Registry) (t : Bootstrap.Stage)
    (hover : t.isOver = false) : rank ((bootstraps now draw).call s t).2 < rank t := by
  cases t with
  | answered answer => cases hover
  | dropped => cases hover
  | _ =>
    simp only [bootstraps, Bootstrap.call]
    try split
    all_goals simp [rank, Bootstrap.Task.fail, Bootstrap.Task.goOn]

/-- Every request is answered. -/
theorem authBootstrap_isOver (now : Instant) (fails : Bootstrap.Stage → Bool) (s : Registry)
    (draw : Bootstrap.Draw) : (authBootstrap now fails s draw).2.isOver = true := by
  have hfailure : ∀ t : Bootstrap.Stage, (bootstraps now draw).isOver t = false →
      rank ((bootstraps now draw).onFailure t) < rank t := by
    intro t hover
    cases t with
    | answered answer => cases hover
    | dropped => cases hover
    | _ => exact Nat.succ_pos _
  exact alone_isOver (call_rank now draw) hfailure (Nat.le_refl 7)

/-- The row of the first account is written. -/
structure Begins (fails : Bootstrap.Stage → Bool) (db : Db) : Prop where
  counts : fails .accountCount = false
  empty : db.account = []
  inserts : fails .insertAccount = false

/-- Nothing goes wrong after the row of the first account, whose id is given. -/
structure Settles (fails : Bootstrap.Stage → Bool) (db : Db) (id : Int) (token : Text) :
    Prop where
  reloads : fails (.getAccountById id) = false
  role : ∃ owner, getOwnerRole db = some owner ∧ fails (.getOwnerRole id) = false ∧
    fails (.assignRole id owner.id) = false
  claims : fails (.claimUnownedBuckets id) = false
  sessions : fails (.createSession id) = false
  fresh : ∀ t ∈ db.session, t.token ≠ token

section bootstrap

variable {now : Instant} {fails : Bootstrap.Stage → Bool} {s : Registry}
  {draw : Bootstrap.Draw}

theorem countCall_some (h : s.db.account = []) :
    (bootstraps now draw).call s .accountCount = (s, .insertAccount) := by
  simp only [bootstraps, Bootstrap.call, h, List.length_nil, if_true]
  rfl

theorem countCall_none (h : s.db.account ≠ []) :
    (bootstraps now draw).call s .accountCount =
      (s, .answered (.conflict "bootstrap already completed".toList)) := by
  have hlength : ¬ s.db.account.length = 0 := fun hzero => h (List.length_eq_zero_iff.mp hzero)
  simp only [bootstraps, Bootstrap.call, if_neg hlength]
  rfl

/-- When the row of the first account is not written, nothing is. -/
theorem authBootstrap_refused (h : ¬ Begins fails s.db) :
    (authBootstrap now fails s draw).1 = s := by
  unfold authBootstrap
  cases hcounts : fails .accountCount with
  | true => rw [alone_failed rfl hcounts rfl]
  | false =>
    by_cases hempty : s.db.account = []
    · rw [alone_call_eq rfl hcounts (countCall_some hempty)]
      cases hinserts : fails .insertAccount with
      | true => rw [alone_failed rfl hinserts rfl]
      | false => exact absurd ⟨hcounts, hempty, hinserts⟩ h
    · rw [alone_last rfl hcounts (countCall_none hempty) rfl]

variable (now draw) in
theorem authBootstrap_begins (h : Begins fails s.db) :
    ∃ r, s.insertAccount draw.usernameHex draw.passwordHash
        (draw.displayName.getD "Owner".toList) none = some r ∧
      authBootstrap now fails s draw =
        (bootstraps now draw).alone fails 5 r (.getAccountById s.nextAccountId) := by
  have hsome : (s.insertAccount draw.usernameHex draw.passwordHash
      (draw.displayName.getD "Owner".toList) none).isSome = true := by
    rw [insertAccount_isSome, h.empty]
    simp
  obtain ⟨r, hr⟩ := Option.isSome_iff_exists.mp hsome
  have hcall : (bootstraps now draw).call s .insertAccount =
      (r, .getAccountById s.nextAccountId) := by
    simp only [bootstraps, Bootstrap.call, hr]
    rfl
  refine ⟨r, hr, ?_⟩
  unfold authBootstrap
  rw [alone_call_eq rfl h.counts (countCall_some h.empty), alone_call_eq rfl h.inserts hcall]

/-- The accounts stay as they are, and the answer is no error exactly under a condition. -/
structure Ends (s : Registry) (result : Registry × Bootstrap.Stage) (ok : Prop) : Prop where
  account : result.1.db.account = s.db.account
  success : bootstrapIsError result.2 = false ↔ ok

theorem ends_over {n : Nat} {t : Bootstrap.Stage} (hover : t.isOver = true) :
    Ends s ((bootstraps now draw).alone fails n s t) (bootstrapIsError t = false) := by
  rw [alone_over hover]
  exact ⟨rfl, Iff.rfl⟩

/-- A failing call ends a bootstrap with an error. -/
theorem ends_call {n : Nat} {t t' : Bootstrap.Stage} {r : Registry} {ok : Prop}
    (hover : t.isOver = false) (hcall : (bootstraps now draw).call s t = (r, t'))
    (haccount : r.db.account = s.db.account)
    (h : Ends r ((bootstraps now draw).alone fails n r t') ok) :
    Ends s ((bootstraps now draw).alone fails (n + 1) s t) (fails t = false ∧ ok) := by
  cases hfails : fails t with
  | true =>
    rw [alone_failed hover hfails rfl]
    exact ⟨rfl, by simp [bootstraps, bootstrapIsError]⟩
  | false =>
    rw [alone_call_eq hover hfails hcall]
    exact ⟨h.account.trans haccount, h.success.trans (and_iff_right rfl).symm⟩

theorem Ends.congr {result : Registry × Bootstrap.Stage} {ok ok' : Prop}
    (h : Ends s result ok) (hiff : ok ↔ ok') : Ends s result ok' :=
  ⟨h.account, h.success.trans hiff⟩

theorem createSession_ends {id : Int} (haccount : accountExists s.db id = true) :
    Ends s ((bootstraps now draw).alone fails 1 s (.createSession id))
      (fails (.createSession id) = false ∧ ∀ t ∈ s.db.session, t.token ≠ draw.token) := by
  cases hsession : s.createSession draw.token id
      (now.nanos + Bootstrap.sessionDays * (24 * 3600) * Library.Timestamps.nanosPerSec) with
  | none =>
    have hcall : (bootstraps now draw).call s (.createSession id) =
        (s, .answered (.failed none)) := by
      simp only [bootstraps, Bootstrap.call, hsession]
      rfl
    refine (ends_call rfl hcall rfl (ends_over rfl)).congr (and_congr_right fun _ => ?_)
    refine iff_of_false (by simp [bootstrapIsError]) ?_
    intro hfresh
    have htaken : s.db.session.any (fun t => t.token == draw.token) = false := by
      rw [List.any_eq_false]
      intro t ht htoken
      exact hfresh t ht (beq_iff_eq.mp htoken)
    unfold Registry.createSession at hsession
    rw [htaken, haccount] at hsession
    cases hsession
  | some r =>
    have hcall : (bootstraps now draw).call s (.createSession id) =
        (r, .answered (.created id draw.token)) := by
      simp only [bootstraps, Bootstrap.call, hsession]
      rfl
    have hdb := Registry.createSession_eq hsession
    refine (ends_call rfl hcall (by rw [hdb]) (ends_over rfl)).congr (and_congr_right fun _ => ?_)
    refine iff_of_true rfl ?_
    intro t ht htoken
    unfold Registry.createSession at hsession
    split_ifs at hsession with hrefused
    refine hrefused ?_
    rw [Bool.or_eq_true, List.any_eq_true]
    exact Or.inl ⟨t, ht, beq_iff_eq.mpr htoken⟩

variable (now fails draw) in
theorem claim_ends {id : Int} (haccount : accountExists s.db id = true) :
    Ends s ((bootstraps now draw).alone fails 2 s (.claimUnownedBuckets id))
      (fails (.claimUnownedBuckets id) = false ∧ fails (.createSession id) = false ∧
        ∀ t ∈ s.db.session, t.token ≠ draw.token) :=
  ends_call (r := s.claimUnownedBuckets id) rfl rfl rfl (createSession_ends haccount)

theorem assignRole_some {id roleId : Int} (haccount : accountExists s.db id = true)
    (hrole : roleExists s.db roleId = true) :
    ∃ r, s.assignRole id roleId = some r ∧ r.db.account = s.db.account ∧
      r.db.session = s.db.session := by
  unfold Registry.assignRole
  rw [haccount, hrole]
  simp only [Bool.not_true, Bool.or_false, Bool.false_eq_true, if_false]
  split_ifs
  · exact ⟨s, rfl, rfl, rfl⟩
  · exact ⟨_, rfl, rfl, rfl⟩

variable (now fails draw) in
theorem ownerRole_ends {id : Int} (haccount : accountExists s.db id = true) :
    Ends s ((bootstraps now draw).alone fails 4 s (.getOwnerRole id))
      ((∃ owner, getOwnerRole s.db = some owner ∧ fails (.getOwnerRole id) = false ∧
          fails (.assignRole id owner.id) = false) ∧
        fails (.claimUnownedBuckets id) = false ∧ fails (.createSession id) = false ∧
        ∀ t ∈ s.db.session, t.token ≠ draw.token) := by
  cases howner : getOwnerRole s.db with
  | none =>
    have hcall : (bootstraps now draw).call s (.getOwnerRole id) =
        (s, .answered (.failed (some "Owner role missing".toList))) := by
      simp only [bootstraps, Bootstrap.call, howner]
      rfl
    refine (ends_call rfl hcall rfl (ends_over rfl)).congr ?_
    exact iff_of_false (by simp [bootstrapIsError]) (by simp)
  | some owner =>
    have hcall : (bootstraps now draw).call s (.getOwnerRole id) =
        (s, .assignRole id owner.id) := by
      simp only [bootstraps, Bootstrap.call, howner]
      rfl
    have hrole : roleExists s.db owner.id = true :=
      List.any_eq_true.mpr ⟨owner, (getOwnerRole_eq_some howner).1, beq_self_eq_true _⟩
    obtain ⟨r, hassign, hsame, hsession⟩ := assignRole_some haccount hrole
    have hnext : (bootstraps now draw).call s (.assignRole id owner.id) =
        (r, .claimUnownedBuckets id) := by
      simp only [bootstraps, Bootstrap.call, hassign]
      rfl
    have hexists : accountExists r.db id = true := by
      unfold accountExists
      rw [hsame]
      exact haccount
    have hclaim := claim_ends now fails draw hexists
    rw [hsession] at hclaim
    refine (ends_call rfl hcall rfl (ends_call rfl hnext hsame hclaim)).congr ?_
    simp [and_assoc]

variable (now draw) in
/-- Once the row of the first account is written it stays, whatever happens after it. -/
theorem authBootstrap_ends (h : Begins fails s.db) :
    (authBootstrap now fails s draw).1.db.account ≠ s.db.account ∧
      (bootstrapIsError (authBootstrap now fails s draw).2 = false ↔
        Settles fails s.db s.nextAccountId draw.token) := by
  obtain ⟨r, hinsert, hrun⟩ := authBootstrap_begins now draw h
  have hdb := Registry.insertAccount_eq hinsert
  have haccount := getAccountById_insertAccount hinsert
  have hexists : accountExists r.db s.nextAccountId = true :=
    accountExists_iff.mpr ⟨_, (getAccountById_eq_some haccount).1, rfl⟩
  have hcall : (bootstraps now draw).call r (.getAccountById s.nextAccountId) =
      (r, .getOwnerRole s.nextAccountId) := by
    simp only [bootstraps, Bootstrap.call, haccount]
    rfl
  have hends := ends_call rfl hcall rfl (ownerRole_ends now fails draw hexists)
  refine ⟨?_, ?_⟩
  · rw [hrun, hends.account, hdb]
    simp
  · have hrole : getOwnerRole r.db = getOwnerRole s.db := by rw [hdb]; rfl
    have hsession : r.db.session = s.db.session := by rw [hdb]
    rw [hrun, hends.success, hrole, hsession]
    constructor
    · intro h'
      obtain ⟨hreloads, hrole, hclaims, hsessions, hfresh⟩ := h'
      exact ⟨hreloads, hrole, hclaims, hsessions, hfresh⟩
    · intro h
      exact ⟨h.reloads, h.role, h.claims, h.sessions, h.fresh⟩

end bootstrap

end MyS3.BootstrapFailures
