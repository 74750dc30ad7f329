import MyS3.TwoNodes

/-!
What becomes of a purged object in a pair of nodes. The purge leaves no trace of the
object at its node, so a PUT of it from the other node is stored like a new one. It
stays away for as long as the other node sends no such PUT: none is under way at the
purge, and neither a rehash nor anti-entropy takes the object up there afterwards.
-/

namespace MyS3.PurgedObjects

open Library.Strings Library.Tables Library.Runs
open Models Objects Database Engine Repository Outbox Rbac Http S3Routes GrpcServer GrpcClient
open Purge PeerManager UploadRuns AntiEntropy OutboxRefs TwoNodes

/-- The node that acts, and what it leaves of the other one. -/
theorem step_eq {P : Platform} {s t : Pair} {x : Side × Action} (h : step P s x = some t) :
    ∃ n remote, (s x.1).step P (s x.1.other).app x.2 = some (n, remote) ∧ t x.1 = n ∧
      t x.1.other = { s x.1.other with app := remote } := by
  obtain ⟨⟨n, remote⟩, hstep, rfl⟩ := Option.map_eq_some_iff.mp h
  exact ⟨n, remote, hstep, Pair.set_same s x.1 n remote, Pair.set_other s x.1 n remote⟩

theorem linked_of_incoming {P : Platform} {n : Node} {app : AppState} {held : List OutboxJob}
    (h : NodeLinked n) (hincoming : Incoming P held n.app app) :
    NodeLinked { n with app := app } where
  jobs := h.jobs.later hincoming.later hincoming.puts
  found missing o hround := (h.found missing o hround).later hincoming.later

def PairLinked (s : Pair) : Prop := ∀ i, NodeLinked (s i)

theorem step_linked {P : Platform} {s t : Pair} {x : Side × Action} (hs : PairLinked s)
    (hlegal : Legal s x) (h : step P s x = some t) : PairLinked t := by
  obtain ⟨n, remote, hstep, hn, hremote⟩ := step_eq h
  have hboth : NodeLinked n ∧ NodeLinked { s x.1.other with app := remote } := by
    by_cases hupload : ∃ put, x.2 = .upload put
    · obtain ⟨put, hput⟩ := hupload
      rw [hput] at hstep
      cases hstep
      obtain ⟨hjobs, hlater, _⟩ := linked_upload P (hs x.1).jobs put
      exact ⟨⟨hjobs, fun missing o hround => ((hs x.1).found missing o hround).later hlater⟩,
        hs x.1.other⟩
    · simp only [not_exists] at hupload
      have heffect := step_effect hlegal hupload hstep
      exact ⟨heffect.linked hlegal (hs x.1), linked_of_incoming (hs x.1.other) heffect.incoming⟩
  intro i
  rcases Side.eq_or_other x.1 i with rfl | rfl
  · rw [hn]
    exact hboth.1
  · rw [hremote]
    exact hboth.2

/-- No PUT of the filepath to the peer is under way: none is in the outbox, held by the
worker, or about to be enqueued. -/
structure Quiet (P : Platform) (f peerId : Text) (n : Node) : Prop where
  jobs : ∀ j ∈ n.app.db.replicationOutbox.rows, j.operation = .put → j.peerId = peerId →
    j.filepathUuid ≠ some f
  held : ∀ job ∈ n.held, job.operation = .put → job.peerId = peerId →
    ∀ m, putMetadata P job = some m → m.filepathUuid ≠ f
  found : ∀ missing o, n.round = .pushing missing (some o) → o.filepath ≠ f

/-- A step that starts a PUT of the filepath to the peer: anti-entropy finds the object
active in a bucket that the peer receives, or a rehash enqueues it for the peer. -/
def TakesUp (n : Node) (f peerId : Text) : Action → Prop
  | .look filepath fails => filepath = f ∧ fails = false ∧ (lookUp n.app.db peerId f).isSome = true
  | .rehash _ objectId filepath _ => filepath = f ∧
    ∃ p ∈ targetPeers n.app.db objectId n.app.config.nodeId, p.id = peerId
  | _ => False

theorem quiet_of_effect {P : Platform} {remote remote' : AppState} {n n' : Node}
    {action : Action} {f : Text} (h : Effect P remote n action n' remote')
    (hlinked : Linked n.app.db) (hn : Quiet P f remote.config.nodeId n)
    (haction : ¬ TakesUp n f remote.config.nodeId action) :
    Quiet P f remote.config.nodeId n' := by
  refine ⟨?_, ?_, ?_⟩
  · rintro j hj hput hpeer hpath
    rcases h.puts j hj hput with ⟨i, hi, hiput, hipeer, hipath, _⟩ |
      ⟨now, id, filepath, etag, rfl, _, hfilepath, p, hp, hjpeer⟩ | ⟨missing, o, hround, _, ho, _⟩
    · exact hn.jobs i hi hiput (hipeer.trans hpeer) (hipath.trans hpath)
    · cases hfilepath.symm.trans hpath
      exact haction ⟨rfl, p, hp, hjpeer.symm.trans hpeer⟩
    · cases ho.symm.trans hpath
      exact hn.found missing o hround rfl
  · intro job hjob hput hpeer m hm hpath
    rcases h.held job hjob with hold | ⟨r, hr, p, rfl⟩
    · exact hn.held job hold hput hpeer m hm hpath
    · rw [← hpath] at hn
      exact hn.jobs r hr hput hpeer (filepathUuid_of_putMetadata hlinked hr hput hm)
  · intro missing o hround h'
    obtain rfl := h'
    rcases h.found missing o hround with hold | ⟨filepath, rfl, hfound⟩
    · exact hn.found missing o hold rfl
    · obtain rfl := (lookUp_eq_some hfound).2
      exact haction ⟨rfl, rfl, by rw [hfound]; rfl⟩

/-- A node without the filepath, whose peer sends no PUT of it. -/
structure Gone (P : Platform) (f : Text) (i : Side) (s : Pair) : Prop where
  linked : PairLinked s
  absent : ∀ r ∈ (s i).app.db.object.rows, r.filepath ≠ f
  quiet : Quiet P f (s i).app.config.nodeId (s i.other)

/-- No client uploads, and the other node does not take the filepath up. -/
def Ordered (f : Text) (i : Side) (s : Pair) (x : Side × Action) : Prop :=
  Legal s x ∧ (∀ put, x.2 ≠ .upload put) ∧
    (x.1 = i.other → ¬ TakesUp (s i.other) f (s i).app.config.nodeId x.2)

theorem quiet_of_incoming {P : Platform} {f peerId : Text} {n : Node} {app : AppState}
    {held : List OutboxJob} (hn : Quiet P f peerId n) (h : Incoming P held n.app app) :
    Quiet P f peerId { n with app := app } where
  jobs j hj hput hpeer hpath := by
    obtain ⟨i, hi, hiput, hipeer, hipath, _⟩ := h.puts j hj hput
    exact hn.jobs i hi hiput (hipeer.trans hpeer) (hipath.trans hpath)
  held := hn.held
  found := hn.found

theorem step_gone {P : Platform} {f : Text} {i : Side} {s t : Pair} {x : Side × Action}
    (hs : Gone P f i s) (hok : Ordered f i s x) (h : step P s x = some t) : Gone P f i t := by
  obtain ⟨hlegal, hupload, htakes⟩ := hok
  obtain ⟨n, remote, hstep, hn, hremote⟩ := step_eq h
  have heffect := step_effect hlegal hupload hstep
  have hincoming := heffect.incoming
  refine ⟨step_linked hs.linked hlegal h, ?_, ?_⟩
  all_goals rcases Side.eq_or_other i x.1 with hside | hside
  -- The purging node acts.
  · rw [hside] at hn heffect
    rw [hn]
    intro r hr
    obtain ⟨o, ho, _, hpath⟩ := heffect.rows.rows r hr
    exact hpath ▸ hs.absent o ho
  -- It receives what the other node sends.
  · rw [hside, Side.other_other] at hremote hincoming
    rw [hremote]
    intro r hr
    rcases hincoming.rows r hr with hr | ⟨job, hjob, hput, hpeer, m, hm, hpath⟩
    · exact hs.absent r hr
    · rw [hpath]
      exact hs.quiet.held job hjob hput hpeer m hm
  · rw [hside] at hn hremote heffect hincoming
    rw [hn, hremote, heffect.config]
    exact quiet_of_incoming hs.quiet hincoming
  · rw [hside] at hn
    rw [hside, Side.other_other] at hremote heffect hincoming
    rw [hn, hremote]
    have hconfig : remote.config = (s i).app.config := hincoming.config
    simp only [hconfig]
    exact quiet_of_effect heffect (hs.linked i.other).jobs hs.quiet (htakes hside)

theorem linked_start (config : Side → ClusterConfig) : PairLinked (start config) := by
  intro i
  constructor
  · have hempty : Linked Db.migrated := fun j hj => by cases hj
    exact hempty.noNewPut (noNewPut_startNode _ _)
  · intro missing o hround
    cases hround

/-- The pair after a purge at one node. -/
def purged (s : Pair) (i : Side) (app : AppState) : Pair :=
  Function.update s i { s i with app := app }

theorem gone_purged {P : Platform} {f : Text} {i : Side} {s : Pair} {now : Instant} {id : Int}
    {unlinkFails : Bool} {app : AppState} (hs : PairLinked s)
    (hpurge : hardPurgeObject (s i).app now id unlinkFails = some app)
    (hrecord : (getObjectById (s i).app.db id).map (·.filepath) = some f)
    (hquiet : Quiet P f (s i).app.config.nodeId (s i.other)) : Gone P f i (purged s i app) := by
  have hchange := noNewPut_hardPurge hpurge
  have hsame : purged s i app i = { s i with app := app } := Function.update_self _ _ _
  have hother : purged s i app i.other = s i.other := Function.update_of_ne i.other_ne _ _
  obtain ⟨record, hget, rfl⟩ := Option.map_eq_some_iff.mp hrecord
  obtain ⟨record', hget', rfl⟩ := Option.map_eq_some_iff.mp hpurge
  obtain rfl : record' = record := Option.some.inj (hget'.symm.trans hget)
  obtain ⟨hmem, hid⟩ := getObjectById_eq_some.mp hget
  refine ⟨?_, ?_, ?_⟩
  · intro j
    rcases Side.eq_or_other i j with rfl | rfl
    · rw [hsame]
      exact ⟨(hs j).jobs.noNewPut hchange,
        fun missing o hround => ((hs j).found missing o hround).later hchange.rows.later⟩
    · rw [hother]
      exact hs i.other
  · rw [hsame]
    intro r hr hpath
    obtain ⟨hold, hne⟩ := purgeRow_rows.mp hr
    exact hne (by rw [(s i).app.db.object.eq_of_filepath hold hmem hpath])
  · rw [hsame, hother]
    exact hquiet

/-- Once a node has purged an object, and no PUT of it is under way to that node, every
run without uploads in which the other node does not take the object up leaves the node
without a row of the filepath. -/
theorem purged_stays_gone (P : Platform) (config : Side → ClusterConfig) (i : Side) (f : Text)
    (s t : Pair) (now : Instant) (id : Int) (unlinkFails : Bool) (app : AppState)
    (hrun : Run (step P) Legal (start config) s)
    (hpurge : hardPurgeObject (s i).app now id unlinkFails = some app)
    (hrecord : (getObjectById (s i).app.db id).map (·.filepath) = some f)
    (hquiet : Quiet P f (s i).app.config.nodeId (s i.other))
    (hafter : Run (step P) (Ordered f i) (purged s i app) t) :
    ∀ r ∈ (t i).app.db.object.rows, r.filepath ≠ f := by
  have hlinked : PairLinked s :=
    hrun.invariant (fun _ _ _ hs hlegal h => step_linked hs hlegal h) (linked_start config)
  have hgone : Gone P f i t :=
    hafter.invariant (fun _ _ _ hs hok h => step_gone hs hok h)
      (gone_purged hlinked hpurge hrecord hquiet)
  exact hgone.absent

/-- Two nodes that list each other. -/
def samplePair : Side → ClusterConfig
  | .a => sampleCluster
  | .b => {
      clusterPeers := [("node-1".toList, "10.0.0.1:50051".toList)]
      nodeId := "node-2".toList
      grpcBindAddr := "10.0.0.2:50051".toList }

def samplePut : Put where
  now := Instant.epoch
  uuid := Uuid.numbered 1
  key := ['k']
  headers := []
  body := [some [97]]
  bucketId := none
  faults := {}

/-- The filepath of the uploaded object. -/
def sampleFilepath : Text := relativeFilepath (Uuid.numbered 1) "bin".toList

/-- An upload to one node, and its delivery to the other. -/
def replication : List (Side × Action) :=
  [(.a, .upload samplePut), (.a, .claim Instant.epoch), (.a, .deliver Instant.epoch {}),
    (.a, .settle Instant.epoch)]

def replicated : Pair :=
  (exec (step Platform.sample) (start samplePair) replication).getD (start samplePair)

theorem run_replicated : Run (step Platform.sample) Legal (start samplePair) replicated :=
  run_of_exec_of_ok (by simp [replication, Legal, Node.Legal])
    (rfl : exec _ _ replication = some replicated)

def purgedApp : AppState :=
  (hardPurgeObject (replicated .a).app Instant.epoch 1 false).getD (replicated .a).app

theorem quiet_replicated : Quiet Platform.sample sampleFilepath "node-1".toList
    (replicated .b) := by
  refine ⟨by decide, ?_, ?_⟩
  · intro job hjob
    cases hjob
  · intro missing o hround
    cases hround

/-- The other node reads the digests, receives the DELETE, and looks the object up. -/
def deletion : List (Side × Action) :=
  [(.b, .digest), (.b, .compare), (.a, .claim Instant.epoch), (.a, .deliver Instant.epoch {}),
    (.a, .settle Instant.epoch)]

def deleted : Pair :=
  (exec (step Platform.sample) (purged replicated .a purgedApp) deletion).getD replicated

/-- The DELETE overtakes a round that misses the object. -/
theorem purged_stays_gone_after_delete :
    ∃ t, step Platform.sample deleted (.b, .look sampleFilepath false) = some t ∧
      ∀ r ∈ (t .a).app.db.object.rows, r.filepath ≠ sampleFilepath := by
  have hdeleted : Run (step Platform.sample) (Ordered sampleFilepath .a)
      (purged replicated .a purgedApp) deleted :=
    run_of_exec_of_ok (by simp [deletion, Ordered, Legal, Node.Legal, TakesUp])
      (rfl : exec _ _ deletion = some deleted)
  have hlook : Ordered sampleFilepath .a deleted (.b, .look sampleFilepath false) := by
    refine ⟨trivial, by simp, ?_⟩
    intro _ h
    obtain ⟨_, _, hfound⟩ := h
    revert hfound
    decide
  have hrun := Run.tail _ hdeleted hlook rfl
  exact ⟨_, rfl, purged_stays_gone Platform.sample samplePair .a sampleFilepath replicated _
    Instant.epoch 1 false purgedApp run_replicated rfl rfl quiet_replicated hrun⟩

/-- A round of the other node that ends before the DELETE arrives, and its delivery. -/
def healing : List (Side × Action) :=
  [(.b, .digest), (.b, .compare), (.b, .look sampleFilepath false),
    (.b, .enqueue Instant.epoch false), (.b, .claim Instant.epoch),
    (.b, .deliver Instant.epoch {})]

def healed : Pair :=
  (exec (step Platform.sample) (purged replicated .a purgedApp) healing).getD replicated

/-- The purged object is active again, with no upload after the purge. -/
theorem purged_object_can_return :
    Run (step Platform.sample) Legal (start samplePair) replicated ∧
      (∀ i, (listActivePeers (replicated i).app.db).any
          (fun p => p.id == (replicated i.other).app.config.nodeId) = true ∧
        peerShouldReceiveBucket (replicated i).app.db (replicated i.other).app.config.nodeId 1 =
          true) ∧
      hardPurgeObject (replicated .a).app Instant.epoch 1 false = some purgedApp ∧
      (getObjectById (replicated .a).app.db 1).map (·.filepath) = some sampleFilepath ∧
      Run (step Platform.sample) (fun s x => Legal s x ∧ ∀ put, x.2 ≠ .upload put)
        (purged replicated .a purgedApp) healed ∧
      ∃ r ∈ (healed .a).app.db.object.rows, r.deletedAt = none ∧ r.filepath = sampleFilepath := by
  refine ⟨run_replicated, ?_, rfl, rfl, ?_, _, List.mem_singleton.mpr rfl, rfl, rfl⟩
  · intro i
    cases i <;> decide
  · exact run_of_exec_of_ok (by simp [healing, Legal, Node.Legal])
      (rfl : exec _ _ healing = some healed)

end MyS3.PurgedObjects
