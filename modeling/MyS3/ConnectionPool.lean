import MyS3.Library.Permits
import MyS3.Library.Runs
import MyS3.Library.Strings

/-!
The connections that PUTs take from the pool of `connect_and_migrate`, in
`put_object_keyed_in_bucket` of `server/s3_routes.rs` and `check_hard_quota` of
`db/repository.rs`. A PUT that has begun its transaction keeps that connection, and takes
another one for each query that it makes through the pool; once as many PUTs as there are
connections have begun, each can wait for one that none of them gives back.
-/

namespace MyS3.ConnectionPool

open Library.Runs Library.Permits Library.Strings

/-- The calls that take a connection from the pool, in the order of the handler. -/
inductive Call
  | defaultBucketId
  | bucketEtagType
  | beginTx
  | previousSize
  | bucketUsedBytes
  | hardRows
  | softDeleteSelect
  | softDeleteUpdate
  deriving DecidableEq

/-- The transaction is open during the call. -/
def Call.inTx : Call → Bool
  | .defaultBucketId => false
  | .bucketEtagType => false
  | .beginTx => false
  | _ => true

inductive Stage
  /-- For a connection. -/
  | waits (call : Call)
  /-- With the connection it was given. -/
  | runs (call : Call)
  /-- The body goes to the disk. -/
  | streams
  -- On the connection of the transaction.
  | inserts
  | enqueues
  | commits
  | rollsBack
  /-- The blob is removed; `tx` is dropped only when the handler returns. -/
  | unlinks (inTx : Bool)
  | done
  deriving DecidableEq

/-- A PUT that is served, with what it has computed so far. -/
structure Put where
  stage : Stage
  filesizeBytes : Int := 0
  netGrowth : Int := 0
  used : Int := 0
  deriving DecidableEq

def Put.goOn (p : Put) (stage : Stage) : Put := { p with stage := stage }

def Put.received : Option Int → Put
  | none => { stage := .waits .defaultBucketId }
  | some _ => { stage := .waits .bucketEtagType }

/-- The connections a PUT holds. -/
def Put.held (p : Put) : Nat :=
  match p.stage with
  | .waits call => if call.inTx then 1 else 0
  | .runs call => if call.inTx then 2 else 1
  | .streams => 0
  | .inserts => 1
  | .enqueues => 1
  | .commits => 1
  | .rollsBack => 1
  | .unlinks inTx => if inTx then 1 else 0
  | .done => 0

/-- The PUT has begun its transaction and waits for a further connection. -/
def Put.begunWaits (p : Put) : Prop := ∃ call, call.inTx = true ∧ p.stage = .waits call

def Put.isActive (p : Put) : Bool := p.stage != .done

/-- A call failed, or the pool gave no connection in time. -/
def Put.callFailed (p : Put) : Call → Put
  | .defaultBucketId => p.goOn .done
  | .bucketEtagType => p.goOn .done
  | .beginTx => p.goOn (.unlinks false)
  | _ => p.goOn (.unlinks true)

/-- The row is over its allocation with the net growth. -/
def Put.exceeds (p : Put) (allocatedBytes : Int) : Bool :=
  decide (saturate (p.used + p.netGrowth) > allocatedBytes)

/-- A call returned: of each row, the column that the handler goes on with. -/
def Put.callReturned (p : Put) (rows : List Int) : Call → Put
  | .defaultBucketId => p.goOn (.waits .bucketEtagType)
  | .bucketEtagType => p.goOn .streams
  | .beginTx => p.goOn (.waits .previousSize)
  | .previousSize =>
    let netGrowth := saturate (p.filesizeBytes - rows.headD 0)
    let next := if netGrowth ≤ 0 then Call.softDeleteSelect else .bucketUsedBytes
    { p with netGrowth := netGrowth, stage := .waits next }
  | .bucketUsedBytes => { p with used := rows.headD 0, stage := .waits .hardRows }
  | .hardRows =>
    if rows.any p.exceeds then p.goOn (.unlinks true) else p.goOn (.waits .softDeleteSelect)
  | .softDeleteSelect =>
    match rows with
    | [] => p.goOn .inserts
    | _ :: _ => p.goOn (.waits .softDeleteUpdate)
  | .softDeleteUpdate => p.goOn .inserts

/-- What the PUT waited for came to its end: `none` is a failure. For the stream, the
result is the size of the file. -/
def Put.finish (p : Put) (result : Option (List Int)) : Option Put :=
  match p.stage, result with
  | .waits call, none => some (p.callFailed call)
  | .waits _, some _ => none
  | .runs call, none => some (p.callFailed call)
  | .runs call, some rows => some (p.callReturned rows call)
  | .streams, none => some (p.goOn .done)
  | .streams, some rows =>
    some { p with filesizeBytes := rows.headD 0, stage := .waits .beginTx }
  | .inserts, none => some (p.goOn .rollsBack)
  | .inserts, some _ => some (p.goOn .enqueues)
  | .enqueues, none => some (p.goOn .rollsBack)
  | .enqueues, some _ => some (p.goOn .commits)
  | .commits, none => some (p.goOn (.unlinks false))
  | .commits, some _ => some (p.goOn .done)
  | .rollsBack, _ => some (p.goOn (.unlinks false))
  | .unlinks _, _ => some (p.goOn .done)
  | .done, _ => none

def Put.acquire (p : Put) : Option Put :=
  match p.stage with
  | .waits call => some (p.goOn (.runs call))
  | _ => none

inductive Action
  | start (bucketId : Option Int)
  /-- The pool hands PUT `i` a connection. -/
  | acquire (i : Nat)
  | finish (i : Nat) (result : Option (List Int))
  /-- The client is gone, and the handler is dropped with all it holds. -/
  | abandon (i : Nat)

def stepPut (puts : List Put) (i : Nat) (f : Put → Option Put) : Option (List Put) :=
  (puts[i]?).bind fun p => (f p).map fun q => puts.set i q

/-- One step of the PUTs on a pool of `n` connections. -/
def step (n : Nat) (puts : List Put) : Action → Option (List Put)
  | .start bucketId => some (puts ++ [Put.received bucketId])
  | .acquire i => if taken Put.held puts < n then stepPut puts i Put.acquire else none
  | .finish i result => stepPut puts i fun p => p.finish result
  | .abandon i => stepPut puts i fun p => some (p.goOn .done)

/-- A PUT is started only while fewer than `m` are served. -/
def Within (m : Nat) (puts : List Put) : Action → Prop
  | .start _ => puts.countP Put.isActive < m
  | _ => True

/-- The `n` connections are all held by PUTs that have begun their transaction, and each
of these waits for a further one. -/
def Deadlocked (n : Nat) (puts : List Put) : Prop := Stuck Put.held Put.begunWaits n puts

theorem Put.begunWaits.held {p : Put} (h : p.begunWaits) : p.held = 1 := by
  obtain ⟨call, hin, hstage⟩ := h
  unfold Put.held
  rw [hstage]
  exact if_pos hin

theorem Put.begunWaits.active {p : Put} (h : p.begunWaits) : p.isActive = true := by
  obtain ⟨call, _, hstage⟩ := h
  simp [Put.isActive, hstage]

theorem stepPut_eq_some {puts next : List Put} {i : Nat} {f : Put → Option Put} :
    stepPut puts i f = some next ↔
      ∃ p q, puts[i]? = some p ∧ f p = some q ∧ next = puts.set i q := by
  unfold stepPut
  simp only [Option.bind_eq_some_iff, Option.map_eq_some_iff]
  constructor
  · intro h
    obtain ⟨p, hp, q, hq, hnext⟩ := h
    exact ⟨p, q, hp, hq, hnext.symm⟩
  · intro h
    obtain ⟨p, q, hp, hq, hnext⟩ := h
    exact ⟨p, hp, q, hq, hnext.symm⟩

/-- A PUT moves only while it is active. -/
theorem Put.active_of_finish {p q : Put} {result : Option (List Int)}
    (h : p.finish result = some q) : p.isActive = true := by
  by_contra hdone
  have hstage : p.stage = .done := by simpa [Put.isActive] using hdone
  unfold Put.finish at h
  rw [hstage] at h
  cases h

theorem Put.active_of_acquire {p q : Put} (h : p.acquire = some q) : p.isActive = true := by
  by_contra hdone
  have hstage : p.stage = .done := by simpa [Put.isActive] using hdone
  unfold Put.acquire at h
  rw [hstage] at h
  cases h

/-- A step of a PUT starts no other one. -/
theorem countP_set_le {puts : List Put} {i : Nat} {p q : Put} (hi : puts[i]? = some p)
    (h : q.isActive = true → p.isActive = true) :
    (puts.set i q).countP Put.isActive ≤ puts.countP Put.isActive := by
  obtain ⟨hlt, hp⟩ := List.getElem?_eq_some_iff.mp hi
  have hpos : p.isActive = true → 0 < puts.countP Put.isActive := fun hactive =>
    List.countP_pos_iff.mpr ⟨p, List.mem_of_getElem? hi, hactive⟩
  rw [List.countP_set hlt, hp]
  by_cases hq : q.isActive = true
  · have hpa := h hq
    have hcount := hpos hpa
    rw [if_pos hq, if_pos hpa]
    omega
  · rw [if_neg hq]
    omega

theorem stepPut_active {puts next : List Put} {i : Nat} {f : Put → Option Put}
    (hf : ∀ p q, f p = some q → q.isActive = true → p.isActive = true)
    (h : stepPut puts i f = some next) :
    next.countP Put.isActive ≤ puts.countP Put.isActive := by
  obtain ⟨p, q, hp, hq, rfl⟩ := stepPut_eq_some.mp h
  exact countP_set_le hp (hf p q hq)

/-- One step keeps the number of PUTs that are served within the bound. -/
theorem step_within {n m : Nat} {puts next : List Put} {a : Action}
    (hs : puts.countP Put.isActive ≤ m) (hok : Within m puts a)
    (h : step n puts a = some next) : next.countP Put.isActive ≤ m := by
  cases a with
  | start bucketId =>
    have hlt : puts.countP Put.isActive < m := hok
    have hone : [Put.received bucketId].countP Put.isActive ≤ 1 := List.countP_le_length
    rw [← Option.some.inj h, List.countP_append]
    omega
  | acquire i =>
    rw [step] at h
    split_ifs at h
    exact (stepPut_active (fun p q hq _ => Put.active_of_acquire hq) h).trans hs
  | finish i result =>
    exact (stepPut_active (fun p q hq _ => Put.active_of_finish hq) h).trans hs
  | abandon i =>
    refine (stepPut_active (fun p q hq hactive => ?_) h).trans hs
    rw [← Option.some.inj hq] at hactive
    cases hactive

theorem run_within {n m : Nat} {puts : List Put} (h : Run (step n) (Within m) [] puts) :
    puts.countP Put.isActive ≤ m := by
  induction h with
  | refl => exact Nat.zero_le m
  | tail a _ hok hnext ih => exact step_within ih hok hnext

theorem Put.callFailed_held_le (p : Put) (call : Call) :
    (p.callFailed call).held ≤ if call.inTx then 1 else 0 := by
  cases call <;> simp [Put.callFailed, Put.goOn, Put.held, Call.inTx]

theorem Put.callReturned_held_le (p : Put) (rows : List Int) (call : Call) :
    (p.callReturned rows call).held ≤ if call.inTx then 2 else 1 := by
  cases call with
  | previousSize =>
    simp only [Put.callReturned, Put.held]
    split_ifs <;> simp
  | hardRows =>
    simp only [Put.callReturned]
    split_ifs <;> simp [Put.goOn, Put.held, Call.inTx]
  | softDeleteSelect =>
    cases rows <;> simp [Put.callReturned, Put.goOn, Put.held, Call.inTx]
  | _ => simp [Put.callReturned, Put.goOn, Put.held, Call.inTx]

/-- A PUT takes a connection from the pool only where it acquires one. -/
theorem Put.finish_held_le {p q : Put} {result : Option (List Int)}
    (h : p.finish result = some q) : q.held ≤ p.held := by
  unfold Put.finish at h
  cases hstage : p.stage with
  | waits call =>
    rw [hstage] at h
    cases result with
    | none =>
      rw [← Option.some.inj h, Put.held.eq_def p, hstage]
      exact p.callFailed_held_le call
    | some rows => cases h
  | runs call =>
    rw [hstage] at h
    cases result with
    | none =>
      have hle := p.callFailed_held_le call
      rw [← Option.some.inj h, Put.held.eq_def p, hstage]
      dsimp only
      split_ifs at hle ⊢ <;> omega
    | some rows =>
      rw [← Option.some.inj h, Put.held.eq_def p, hstage]
      exact p.callReturned_held_le rows call
  | done =>
    rw [hstage] at h
    cases h
  | _ =>
    rw [hstage] at h
    cases result <;>
    · rw [← Option.some.inj h, Put.held.eq_def p, hstage]
      simp [Put.goOn, Put.held, Call.inTx]

theorem Put.acquire_held {p q : Put} (h : p.acquire = some q) : q.held = p.held + 1 := by
  unfold Put.acquire at h
  split at h
  · rename_i call hstage
    rw [← Option.some.inj h, Put.held.eq_def p, hstage]
    simp only [Put.goOn, Put.held]
    split_ifs <;> omega
  · cases h

theorem stepPut_taken_le {puts next : List Put} {i k : Nat} {f : Put → Option Put}
    (hf : ∀ p q, f p = some q → q.held ≤ p.held + k) (h : stepPut puts i f = some next) :
    taken Put.held next ≤ taken Put.held puts + k := by
  obtain ⟨p, q, hp, hq, rfl⟩ := stepPut_eq_some.mp h
  have hset : taken Put.held (puts.set i q) + p.held = taken Put.held puts + q.held :=
    taken_set hp q
  have hle := hf p q hq
  omega

/-- The pool never gives out more connections than it has. -/
theorem step_taken_le {n : Nat} {puts next : List Put} {a : Action}
    (hs : taken Put.held puts ≤ n) (h : step n puts a = some next) :
    taken Put.held next ≤ n := by
  cases a with
  | start bucketId =>
    have hnone : (Put.received bucketId).held = 0 := by cases bucketId <;> rfl
    rw [← Option.some.inj h, taken_append, taken_cons, hnone]
    exact hs
  | acquire i =>
    rw [step] at h
    split_ifs at h with hlt
    have hle := stepPut_taken_le (k := 1) (fun p q hq => (Put.acquire_held hq).le) h
    omega
  | finish i result =>
    exact (stepPut_taken_le (k := 0) (fun p q hq => Put.finish_held_le hq) h).trans hs
  | abandon i =>
    refine (stepPut_taken_le (k := 0) (fun p q hq => ?_) h).trans hs
    rw [← Option.some.inj hq]
    exact Nat.zero_le _

theorem run_taken_le {n m : Nat} {puts : List Put} (h : Run (step n) (Within m) [] puts) :
    taken Put.held puts ≤ n := by
  induction h with
  | refl => exact Nat.zero_le n
  | tail a _ _ hnext ih => exact step_taken_le ih hnext

/-- In a deadlock the pool gives no connection to anyone, and a PUT that holds one gets no
answer: it goes on only by giving up. -/
theorem deadlocked_stands_still {n : Nat} {puts : List Put} (h : Deadlocked n puts) :
    (∀ i, step n puts (.acquire i) = none) ∧
      ∀ p ∈ puts, 0 < p.held → ∀ rows, p.finish (some rows) = none := by
  constructor
  · intro i
    exact if_neg (by rw [h.taken]; exact Nat.lt_irrefl n)
  · intro p hp hheld rows
    obtain ⟨call, _, hstage⟩ := h.waits p hp hheld
    unfold Put.finish
    rw [hstage]

/-- A PUT that has begun its transaction and asks for the size of the version it replaces. -/
def asking (size : Int) : Put := { stage := .waits .previousSize, filesizeBytes := size }

theorem asking_begunWaits (size : Int) : (asking size).begunWaits := ⟨.previousSize, rfl, rfl⟩

/-- The last of the PUTs moves. -/
theorem stepPut_last {puts : List Put} {p q : Put} {f : Put → Option Put} (hf : f p = some q) :
    stepPut (puts ++ [p]) puts.length f = some (puts ++ [q]) := by
  simp [stepPut, hf]

theorem acquire_last {n : Nat} {puts : List Put} {p : Put} {call : Call}
    (hstage : p.stage = .waits call) (hlt : taken Put.held (puts ++ [p]) < n) :
    step n (puts ++ [p]) (.acquire puts.length) = some (puts ++ [p.goOn (.runs call)]) := by
  have hf : p.acquire = some (p.goOn (.runs call)) := by
    unfold Put.acquire
    rw [hstage]
  rw [step, if_pos hlt, stepPut_last hf]

/-- While a connection is left, one more PUT gets as far as its first query inside the
transaction. -/
theorem run_asking {n m : Nat} {puts : List Put} (size : Int)
    (htaken : taken Put.held puts < n) (hactive : puts.countP Put.isActive < m) :
    Run (step n) (Within m) puts (puts ++ [asking size]) := by
  have hlt : ∀ p : Put, p.held = 0 → taken Put.held (puts ++ [p]) < n := by
    intro p hp
    rw [taken_append, taken_cons, hp]
    exact htaken
  have hstart : Run (step n) (Within m) puts (puts ++ [Put.received (some 1)]) :=
    Run.tail (.start (some 1)) (Run.refl puts) hactive rfl
  have hetag := Run.tail (Action.acquire puts.length) hstart trivial
    (acquire_last rfl (hlt (.received (some 1)) rfl))
  have hstreams := Run.tail (Action.finish puts.length (some [])) hetag trivial (stepPut_last rfl)
  have hstored := Run.tail (Action.finish puts.length (some [size])) hstreams trivial
    (stepPut_last rfl)
  have hbegins := Run.tail (Action.acquire puts.length) hstored trivial
    (acquire_last rfl (hlt _ rfl))
  exact Run.tail (Action.finish puts.length (some [])) hbegins trivial (stepPut_last rfl)

theorem run_asking_replicate {n m : Nat} (hm : n ≤ m) (size : Int) (k : Nat) (hk : k ≤ n) :
    Run (step n) (Within m) [] (List.replicate k (asking size)) := by
  induction k with
  | zero => exact Run.refl []
  | succ k ih =>
    have htaken : taken Put.held (List.replicate k (asking size)) < n := by
      rw [taken_replicate, (asking_begunWaits size).held]
      omega
    have hactive : (List.replicate k (asking size)).countP Put.isActive < m := by
      have hle := List.countP_le_length (p := Put.isActive)
        (l := List.replicate k (asking size))
      rw [List.length_replicate] at hle
      omega
    rw [List.replicate_succ']
    exact (ih (by omega)).trans (run_asking size htaken hactive)

/-- However many PUTs are served at a time, and in whatever order they take and give back
their connections, they never deadlock exactly when that number stays below the number of
connections. -/
theorem puts_never_deadlock_iff (n m : Nat) :
    (∀ puts, Run (step n) (Within m) [] puts → ¬ Deadlocked n puts) ↔ m < n := by
  constructor
  · intro h
    by_contra hlt
    have hrun := run_asking_replicate (n := n) (m := m) (by omega) 1 n (Nat.le_refl n)
    have hasking := asking_begunWaits 1
    exact h _ hrun (stuck_replicate hasking.held hasking)
  · intro hlt puts hrun
    have hactive : puts.countP Put.isActive ≤ m := run_within hrun
    exact not_stuck_of_countP_lt (fun p hp => hp.held.le) (fun p hp => hp.active)
      (hactive.trans_lt hlt)

/-- Ten PUTs to a new key, on the ten connections of the default pool. -/
theorem ten_puts_deadlock :
    ∃ puts, Run (step 10) anyAction [] puts ∧ Deadlocked 10 puts := by
  have hasking := asking_begunWaits 1
  exact ⟨List.replicate 10 (asking 1),
    (run_asking_replicate (Nat.le_refl 10) 1 10 (Nat.le_refl 10)).mono fun _ _ _ => trivial,
    stuck_replicate hasking.held hasking⟩

end MyS3.ConnectionPool
