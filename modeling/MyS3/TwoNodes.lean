import MyS3.AntiEntropy
import MyS3.OutboxRefs

/-!
Two nodes that replicate to each other. Each has its database, the worker with the jobs
that it claimed, and one round of anti-entropy, and each of the loops takes its steps
on its own. A purge enqueues one DELETE; until it has reached the other node, and for
as long as that node sends a PUT of the object, the object can come back.
-/

namespace MyS3.TwoNodes

open Library.Strings Library.Tables Library.Runs
open Models Objects Database Engine Repository Outbox Rbac Http S3Routes GrpcServer GrpcClient
open Purge PeerManager UploadRuns AntiEntropy OutboxRefs

inductive Side
  | a
  | b
  deriving DecidableEq, Repr

def Side.other : Side → Side
  | .a => .b
  | .b => .a

@[simp] theorem Side.other_other (i : Side) : i.other.other = i := by cases i <;> rfl

theorem Side.other_ne (i : Side) : i.other ≠ i := by cases i <;> decide

theorem Side.eq_or_other (i j : Side) : j = i ∨ j = i.other := by cases i <;> cases j <;> simp [other]

/-- Where a round of anti-entropy stands with its peer. -/
inductive Round
  | idle
  | digested (own : List (Text × Text))
  /-- The filepaths still to push, and the object that is about to be enqueued. -/
  | pushing (missing : List Text) (found : Option ObjectRecord)

structure Node where
  app : AppState
  /-- The claimed jobs of the worker; the first one is being delivered. -/
  held : List OutboxJob
  /-- Whether the first job was acknowledged, once its answer is there. -/
  answer : Option Bool
  round : Round

abbrev Pair := Side → Node

inductive Action
  | upload (put : Put)
  /-- Any other request, and the purge of the recycle bin. -/
  | request (t : AppState)
  /-- A rehash of a bucket enqueues one of its objects again. -/
  | rehash (now : Instant) (objectId : Int) (filepath etag : Text)
  | claim (now : Instant)
  /-- The first held job is sent to the other node. -/
  | deliver (remoteNow : Instant) (faults : DeliveryFaults)
  /-- The worker completes or fails the job. -/
  | settle (now : Instant)
  /-- A round starts: the peer is listed, and the own digest is read. -/
  | digest
  /-- The peer answers its digest. -/
  | compare
  /-- One missing filepath, in the order of a hash map, is looked up again. -/
  | look (filepath : Text) (fails : Bool)
  | enqueue (now : Instant) (fails : Bool)
  /-- The round ends, or the peer cannot be reached. -/
  | finish
  | restart (config : ClusterConfig)

/-- The object that is enqueued for a missing filepath. -/
def lookUp (db : Db) (peerId filepath : Text) : Option ObjectRecord :=
  (objectByFilepath db filepath).filter fun o => peerShouldReceiveBucket db peerId o.bucketId

def Node.withDb (n : Node) (db : Db) : Node := { n with app := { n.app with db := db } }

/-- One step of a node, with the other node's state before and after it. -/
def Node.step (P : Platform) (remote : AppState) (n : Node) : Action → Option (Node × AppState)
  | .upload put => some ({ n with app := (put.run P n.app).2 }, remote)
  | .request t => some ({ n with app := t }, remote)
  | .rehash now objectId filepath etag =>
    some (n.withDb (enqueuePutForActivePeers n.app.db now objectId filepath etag
      n.app.config.nodeId), remote)
  | .claim now =>
    if n.held = [] then
      let (jobs, db) := claimOutboxJobs n.app.db now 50
      some ({ n.withDb db with held := jobs }, remote)
    else none
  | .deliver remoteNow faults =>
    match n.held, n.answer with
    | job :: _, none =>
      -- A job for any other peer reaches neither node.
      if job.peerId = remote.config.nodeId then
        let (acked, remote') := processJob P n.app remote remoteNow job faults
        some ({ n with answer := some acked }, remote')
      else some ({ n with answer := some false }, remote)
    | _, _ => none
  | .settle now =>
    match n.held, n.answer with
    | job :: rest, some acked =>
      let db := if acked then completeOutboxJob n.app.db job.id
        else failOutboxJob n.app.db now job.id
      some ({ n.withDb db with held := rest, answer := none }, remote)
    | _, _ => none
  | .digest =>
    match n.round with
    | .idle =>
      if ((listActivePeers n.app.db).any fun p => p.id == remote.config.nodeId) = true ∧
          remote.config.nodeId ≠ n.app.config.nodeId then
        some ({ n with round := .digested (digestMap n.app.db []) }, remote)
      else none
    | _ => none
  | .compare =>
    match n.round with
    | .digested own =>
      some ({ n with round := .pushing (missingEntries own (syncDigest remote [])) none }, remote)
    | _ => none
  | .look filepath fails =>
    match n.round with
    | .pushing missing none =>
      if filepath ∈ missing then
        let found := query fails (lookUp n.app.db remote.config.nodeId filepath)
        some ({ n with round := .pushing (missing.erase filepath) found }, remote)
      else none
    | _ => none
  | .enqueue now fails =>
    match n.round with
    | .pushing missing (some o) =>
      let enqueued := query fails
        (enqueuePutForPeer n.app.db now remote.config.nodeId o.id o.filepath o.etag)
      some ({ n.withDb (enqueued.getD n.app.db) with round := .pushing missing none }, remote)
    | _ => none
  | .finish => some ({ n with round := .idle }, remote)
  | .restart config =>
    some ({ app := { n.app with db := startNode n.app.db config }
            held := []
            answer := none
            round := .idle }, remote)

/-- The pair after a step of one node. -/
def Pair.set (s : Pair) (i : Side) (n : Node) (remote : AppState) : Pair :=
  Function.update (Function.update s i.other { s i.other with app := remote }) i n

def step (P : Platform) (s : Pair) (x : Side × Action) : Option Pair :=
  ((s x.1).step P (s x.1.other).app x.2).map fun r => s.set x.1 r.1 r.2

@[simp] theorem Pair.set_same (s : Pair) (i : Side) (n : Node) (remote : AppState) :
    s.set i n remote i = n := by
  simp [set]

@[simp] theorem Pair.set_other (s : Pair) (i : Side) (n : Node) (remote : AppState) :
    s.set i n remote i.other = { s i.other with app := remote } := by
  rw [set, Function.update_of_ne i.other_ne, Function.update_self]

/-- A node after its migrations and its start. -/
def startedNode (config : ClusterConfig) : Node where
  app := { AppState.migrated config.nodeId with db := startNode Db.migrated config }
  held := []
  answer := none
  round := .idle

def start (config : Side → ClusterConfig) : Pair := fun i => startedNode (config i)

/-- Requests bring in no object and no PUT job, and a rehash has its filepath from the
object that it enqueues. -/
def Node.Legal (n : Node) : Action → Prop
  | .request t => NoNewPut n.app.db t.db ∧ t.config = n.app.config
  | .rehash _ objectId filepath _ => Names n.app.db objectId (some filepath)
  | _ => True

def Legal (s : Pair) (x : Side × Action) : Prop := (s x.1).Legal x.2

/-- Where a PUT job of a node comes from when nothing is uploaded: an earlier one, a
rehash, or the object that a round of anti-entropy found. -/
def PutOrigin (n : Node) (peerId : Text) (action : Action) (j : OutboxRow) : Prop :=
  (∃ i ∈ n.app.db.replicationOutbox.rows, i.operation = .put ∧ i.peerId = j.peerId ∧
      i.filepathUuid = j.filepathUuid ∧ (j.objectId = none ∨ j.objectId = i.objectId)) ∨
    (∃ now id filepath etag, action = .rehash now id filepath etag ∧ j.objectId = some id ∧
      j.filepathUuid = some filepath ∧
      ∃ p ∈ targetPeers n.app.db id n.app.config.nodeId, j.peerId = p.id) ∨
    ∃ missing o, n.round = .pushing missing (some o) ∧ j.objectId = some o.id ∧
      j.filepathUuid = some o.filepath ∧ j.peerId = peerId

/-- What the other node receives: at most one row, of a PUT job that is held for it. -/
structure Incoming (P : Platform) (held : List OutboxJob) (remote remote' : AppState) : Prop where
  config : remote'.config = remote.config
  later : LaterRows remote.db remote'.db
  puts : OldPuts remote.db.replicationOutbox remote'.db.replicationOutbox
  rows : ∀ r ∈ remote'.db.object.rows, r ∈ remote.db.object.rows ∨
    ∃ job ∈ held, job.operation = .put ∧ job.peerId = remote.config.nodeId ∧
      ∃ m, putMetadata P job = some m ∧ r.filepath = m.filepathUuid

theorem incoming_refl (P : Platform) (held : List OutboxJob) (remote : AppState) :
    Incoming P held remote remote where
  config := rfl
  later := (oldRows_of_eq rfl).later
  puts := OldPuts.refl _
  rows _ hr := Or.inl hr

theorem incoming_processJob {P : Platform} {s remote : AppState} {held : List OutboxJob}
    {job : OutboxJob} (hjob : job ∈ held) (hpeer : job.peerId = remote.config.nodeId)
    (now : Instant) (faults : DeliveryFaults) :
    Incoming P held remote (processJob P s remote now job faults).2 := by
  have h := processed_processJob P s remote now job faults
  refine ⟨processJob_config P s remote now job faults, h.later, h.puts, fun r hr => ?_⟩
  exact (h.rows r hr).imp_right fun ⟨hput, hm⟩ => ⟨job, hjob, hput, hpeer, hm⟩

/-- What a step other than an upload does. -/
structure Effect (P : Platform) (remote : AppState) (n : Node) (action : Action) (n' : Node)
    (remote' : AppState) : Prop where
  config : n'.app.config = n.app.config
  rows : OldRows n.app.db n'.app.db
  puts : ∀ j ∈ n'.app.db.replicationOutbox.rows, j.operation = .put →
    PutOrigin n remote.config.nodeId action j
  held : ∀ job ∈ n'.held, job ∈ n.held ∨
    ∃ r ∈ n.app.db.replicationOutbox.rows, ∃ p, job = jobOf n.app.db r p
  found : ∀ missing o, n'.round = .pushing missing (some o) →
    n.round = .pushing missing (some o) ∨ ∃ filepath, action = .look filepath false ∧
      lookUp n.app.db remote.config.nodeId filepath = some o
  incoming : Incoming P n.held remote remote'

theorem putOrigin_of_old {n : Node} {t : OutboxTable} (h : OldPuts n.app.db.replicationOutbox t)
    (peerId : Text) (action : Action) :
    ∀ j ∈ t.rows, j.operation = .put → PutOrigin n peerId action j :=
  fun j hj hput => Or.inl (h j hj hput)

/-- A step that changes neither the database nor what the worker holds. -/
theorem effect_of_round {P : Platform} {remote : AppState} {n : Node} {action : Action}
    {round : Round} (hfound : ∀ missing o, round = .pushing missing (some o) →
      ∃ filepath, action = .look filepath false ∧
        lookUp n.app.db remote.config.nodeId filepath = some o) :
    Effect P remote n action { n with round := round } remote where
  config := rfl
  rows := oldRows_of_eq rfl
  puts := putOrigin_of_old (OldPuts.refl n.app.db.replicationOutbox) _ _
  held _ hjob := Or.inl hjob
  found missing o h := Or.inr (hfound missing o h)
  incoming := incoming_refl P n.held remote

/-- A change of the database that keeps what the worker and the round hold, or less. -/
theorem effect_of_db {P : Platform} {remote : AppState} {n n' : Node} {action : Action}
    (hconfig : n'.app.config = n.app.config) (hrows : OldRows n.app.db n'.app.db)
    (hputs : ∀ j ∈ n'.app.db.replicationOutbox.rows, j.operation = .put →
      PutOrigin n remote.config.nodeId action j)
    (hheld : n'.held ⊆ n.held)
    (hround : ∀ missing o, n'.round = .pushing missing (some o) → n'.round = n.round) :
    Effect P remote n action n' remote where
  config := hconfig
  rows := hrows
  puts := hputs
  held _ hjob := Or.inl (hheld hjob)
  found missing o h := Or.inl (hround missing o h ▸ h)
  incoming := incoming_refl P n.held remote

theorem step_effect {P : Platform} {remote remote' : AppState} {n n' : Node} {action : Action}
    (hlegal : n.Legal action) (hupload : ∀ put, action ≠ .upload put)
    (h : n.step P remote action = some (n', remote')) :
    Effect P remote n action n' remote' := by
  cases action with
  | upload put => exact absurd rfl (hupload put)
  | request t =>
    cases h
    exact effect_of_db hlegal.2 hlegal.1.rows (putOrigin_of_old hlegal.1.puts _ _)
      (List.Subset.refl _) fun _ _ _ => rfl
  | rehash now objectId filepath etag =>
    cases h
    refine effect_of_db rfl (oldRows_of_eq rfl) ?_ (List.Subset.refl _) fun _ _ _ => rfl
    intro j hj hput
    rcases mem_enqueueAll hj with hj | ⟨p, hp, id, rfl⟩
    · exact Or.inl ⟨j, hj, hput, rfl, rfl, Or.inr rfl⟩
    · exact Or.inr (Or.inl ⟨now, objectId, filepath, etag, rfl, rfl, rfl, p, hp, rfl⟩)
  | claim now =>
    simp only [Node.step] at h
    split_ifs at h
    cases h
    refine ⟨rfl, oldRows_of_eq rfl, putOrigin_of_old (oldPuts_claim _ _ _) _ _, ?_,
      fun _ _ hround => Or.inl hround, incoming_refl P n.held remote⟩
    intro job hjob
    obtain ⟨r, hr, p, _, rfl⟩ := mem_claimOutboxJobs hjob
    exact Or.inr ⟨r, (mem_claimRows hr).1, p, rfl⟩
  | deliver remoteNow faults =>
    simp only [Node.step] at h
    split at h
    · rename_i job rest hheld _
      have hkeep : ∀ acked remote', Incoming P n.held remote remote' →
          Effect P remote n (.deliver remoteNow faults) { n with answer := some acked } remote' :=
        fun acked remote' hincoming =>
          ⟨rfl, oldRows_of_eq rfl, putOrigin_of_old (OldPuts.refl n.app.db.replicationOutbox) _ _,
            fun _ hjob => Or.inl hjob, fun _ _ hround => Or.inl hround, hincoming⟩
      have hjob : job ∈ n.held := by simp [hheld]
      split_ifs at h with hpeer
      · cases h
        exact hkeep _ _ (incoming_processJob hjob hpeer remoteNow faults)
      · cases h
        exact hkeep false remote (incoming_refl P n.held remote)
    · cases h
  | settle now =>
    simp only [Node.step] at h
    split at h
    · rename_i job rest acked hheld _
      cases h
      refine effect_of_db rfl ?_ ?_ ?_ fun _ _ _ => rfl
      · cases acked <;> exact oldRows_of_eq rfl
      · cases acked
        · exact putOrigin_of_old (oldPuts_fail _ _ _) _ _
        · exact putOrigin_of_old (oldPuts_complete _ _) _ _
      · rw [hheld]
        exact List.subset_cons_self _ _
    · cases h
  | digest =>
    simp only [Node.step] at h
    split at h
    · split_ifs at h
      cases h
      exact effect_of_round fun _ _ hround => by cases hround
    · cases h
  | compare =>
    simp only [Node.step] at h
    split at h
    · cases h
      exact effect_of_round fun _ _ hround => by cases hround
    · cases h
  | look filepath fails =>
    simp only [Node.step] at h
    split at h
    · split_ifs at h
      cases h
      refine effect_of_round fun missing o hround => ⟨filepath, ?_⟩
      have hfound := (Round.pushing.inj hround).2
      cases fails
      · exact ⟨rfl, hfound⟩
      · cases hfound
    · cases h
  | enqueue now fails =>
    simp only [Node.step] at h
    split at h
    · rename_i missing o hround
      cases h
      cases hdb : query fails (enqueuePutForPeer n.app.db now remote.config.nodeId o.id o.filepath
          o.etag) with
      | none =>
        exact effect_of_db rfl (oldRows_of_eq rfl)
          (putOrigin_of_old (OldPuts.refl n.app.db.replicationOutbox) _ _)
          (List.Subset.refl _) fun _ _ hnext => by cases hnext
      | some db =>
        unfold query at hdb
        split_ifs at hdb
        refine effect_of_db rfl (oldRows_of_eq (enqueuePutForPeer_object hdb)) ?_
          (List.Subset.refl _) fun _ _ hnext => by cases hnext
        intro j hj hput
        rcases mem_enqueuePutForPeer hdb hj with hj | ⟨id, rfl⟩
        · exact Or.inl ⟨j, hj, hput, rfl, rfl, Or.inr rfl⟩
        · exact Or.inr (Or.inr ⟨missing, o, hround, rfl, rfl, rfl⟩)
    · cases h
  | finish =>
    cases h
    exact effect_of_round fun _ _ hround => by cases hround
  | restart config =>
    cases h
    have hstart := noNewPut_startNode n.app.db config
    exact effect_of_db rfl hstart.rows (putOrigin_of_old hstart.puts _ _)
      (List.nil_subset _) fun _ _ hround => by cases hround

/-- What a node's PUT jobs and its round refer to. -/
structure NodeLinked (n : Node) : Prop where
  jobs : Linked n.app.db
  found : ∀ missing o, n.round = .pushing missing (some o) →
    Names n.app.db o.id (some o.filepath)

theorem lookUp_eq_some {db : Db} {peerId filepath : Text} {o : ObjectRecord}
    (h : lookUp db peerId filepath = some o) : o ∈ db.object.rows ∧ o.filepath = filepath := by
  obtain ⟨hfound, _⟩ := Option.filter_eq_some_iff.mp h
  obtain ⟨ho, hpath, _⟩ := objectByFilepath_eq_some.mp hfound
  exact ⟨ho, hpath⟩

theorem Effect.linked {P : Platform} {remote remote' : AppState} {n n' : Node} {action : Action}
    (h : Effect P remote n action n' remote') (hlegal : n.Legal action) (hn : NodeLinked n) :
    NodeLinked n' := by
  constructor
  · intro j hj hput id hid
    refine Names.later ?_ h.rows.later
    rcases h.puts j hj hput with ⟨i, hi, hiput, _, hpath, hobject⟩ |
      ⟨now, id', filepath, etag, rfl, hobject, hpath, _⟩ | ⟨missing, o, hround, hobject, hpath, _⟩
    · rcases hobject with hnone | hsame
      · rw [hnone] at hid
        cases hid
      · exact hpath ▸ hn.jobs i hi hiput id (hsame ▸ hid)
    · cases hobject.symm.trans hid
      rw [hpath]
      exact hlegal
    · cases hobject.symm.trans hid
      rw [hpath]
      exact hn.found missing o hround
  · intro missing o hround
    refine Names.later ?_ h.rows.later
    rcases h.found missing o hround with hold | ⟨filepath, _, hfound⟩
    · exact hn.found missing o hold
    · exact names_of_mem (lookUp_eq_some hfound).1

end MyS3.TwoNodes
