import MyS3.ShareRights

/-!
What a visitor gets. An answer with content, a listing or metadata of a link was authorized by a
row that was neither revoked nor expired when it was read, for a visitor whom the link admits, and
stays in the scope of the link. So a link that is revoked or has expired is never used again by a
request that comes later.
-/

namespace MyS3.ShareUse

open Library.Strings Library.Tables Library.Interleaving Library.Runs
open Models Objects Database Repository Listings Rbac Http SessionAuth MediaAccess Shares
open ShareCreation ShareListings ContentRoutes S3Routes ShareRequests ShareLinks ShareRights

/-- The row that a visitor's request has read. -/
def ReadsLink (v : Visit) (share : ShareLinkRecord) (p : State) : Prop :=
  v.name.load p.shared.store.db = some share ∧ shareIsUsable share p.shared.now = .ok ()

/-- The visitor whom a link admits. -/
inductive Admits (node : Node) (v : Visit) (share : ShareLinkRecord) (p : State) : Prop
  | anybody (hmode : share.accessMode = .publicAccess)
  | holder (htoken :
      accessTokenGrantsShare node.codec p.shared.app p.shared.now share v.access = true)
  | reader (account : AccountRecord) (hauth : v.auth = some account)
      (hmode : share.accessMode = .bucketReaders) (hread : MayRead account.id share.bucketId p)
  | recipient (account : AccountRecord) (hauth : v.auth = some account)
      (hmode : share.accessMode = .specificUsers)
      (hlisted : shareAllowsAccount p.shared.store.db share.id account.id = true)

/-- A request to list the folder under a prefix in the scope of the link. -/
def Lists (v : Visit) (share : ShareLinkRecord) (pre : Text) : Prop :=
  share.targetKind = .folder ∧ ∃ raw, v.query = .list raw ∧ listPrefix share raw = .ok pre

/-- A request for a key in the scope of the link. -/
def Fetches (v : Visit) (share : ShareLinkRecord) (key : Text) (headers : Headers) : Prop :=
  keyInShareScope share key = true ∧ ∃ raw, v.query = .content raw headers ∧ parseKey raw = .ok key

section run

variable (node : Node) (p₀ p : State) (v : Visit) (share : ShareLinkRecord)

/-- The link was usable when it was read, and it admitted the visitor. -/
structure Authorized : Prop where
  reads : Since node p₀ p (ReadsLink v share)
  admits : Since node p₀ p (Admits node v share)

/-- An answer that a link stands for. -/
def AnswerOk : VisitAnswer → Prop
  | .refused _ => True
  | .loginRequired displayName kind mode => Since node p₀ p (ReadsLink v share) ∧
      displayName = displayNameFor share ∧ kind = share.targetKind ∧ mode = share.accessMode
  | .info body => Authorized node p₀ p v share ∧ v.query = .info ∧
      ∃ name object, body = shareMeta share name object
  | .listing result => Authorized node p₀ p v share ∧ ∃ pre, Lists v share pre ∧
      Since node p₀ p fun u => result = (listObjectsWithPrefix node.platform node.instant
        u.shared.store.db pre ['/'] none (some share.bucketId) 0 0).map hideMarkers
  | .content served => Authorized node p₀ p v share ∧ ∃ key headers, Fetches v share key headers ∧
      Since node p₀ p (TargetThere .file share.bucketId key) ∧
      Since node p₀ p fun u =>
        served = getObjectKeyedWithHeaders node.platform node.limit u.shared.app key headers

/-- What is known of a request that has read its link. -/
def StageOk : VisitStage → Prop
  | .authorize (.reader accountId) => Since node p₀ p (ReadsLink v share) ∧
      share.accessMode = .bucketReaders ∧ ∃ account, v.auth = some account ∧ account.id = accountId
  | .authorize (.recipient accountId) => Since node p₀ p (ReadsLink v share) ∧
      share.accessMode = .specificUsers ∧ ∃ account, v.auth = some account ∧ account.id = accountId
  | .bucketName => Authorized node p₀ p v share ∧ v.query = .info
  | .objectInfo _ => Authorized node p₀ p v share ∧ v.query = .info
  | .list pre => Authorized node p₀ p v share ∧ Lists v share pre
  | .lookUp key headers => Authorized node p₀ p v share ∧ Fetches v share key headers
  | .serve key headers => Authorized node p₀ p v share ∧ Fetches v share key headers ∧
      Since node p₀ p (TargetThere .file share.bucketId key)
  | .answered answer => AnswerOk node p₀ p v share answer

end run

variable {node : Node} {p₀ p q : State} {v : Visit} {share : ShareLinkRecord}

theorem Authorized.later (h : Authorized node p₀ p v share)
    (hrun : Run (step node) anyAction p q) : Authorized node p₀ q v share :=
  ⟨h.reads.later hrun, h.admits.later hrun⟩

theorem StageOk.later {stage : VisitStage} (h : StageOk node p₀ p v share stage)
    (hrun : Run (step node) anyAction p q) : StageOk node p₀ q v share stage := by
  cases stage with
  | authorize check =>
    cases check with
    | reader accountId => exact ⟨h.1.later hrun, h.2⟩
    | recipient accountId => exact ⟨h.1.later hrun, h.2⟩
  | bucketName => exact ⟨h.1.later hrun, h.2⟩
  | objectInfo name => exact ⟨h.1.later hrun, h.2⟩
  | list pre => exact ⟨h.1.later hrun, h.2⟩
  | lookUp key headers => exact ⟨h.1.later hrun, h.2⟩
  | serve key headers => exact ⟨h.1.later hrun, h.2.1, h.2.2.later hrun⟩
  | answered answer =>
    cases answer with
    | refused response => trivial
    | loginRequired displayName kind mode => exact ⟨h.1.later hrun, h.2⟩
    | info body => exact ⟨h.1.later hrun, h.2⟩
    | listing result =>
      obtain ⟨hauth, pre, hlists, hresult⟩ := h
      exact ⟨hauth.later hrun, pre, hlists, hresult.later hrun⟩
    | content served =>
      obtain ⟨hauth, key, headers, hfetches, hthere, hserved⟩ := h
      exact ⟨hauth.later hrun, key, headers, hfetches, hthere.later hrun, hserved.later hrun⟩

/-- What follows an authorization stays in the scope of the link. -/
theorem granted_ok (h : Authorized node p₀ p v share) :
    StageOk node p₀ p v share (v.granted share) := by
  unfold Visit.granted
  split
  · rename_i hquery
    exact ⟨h, hquery⟩
  · rename_i raw hquery
    split_ifs with hkind
    · trivial
    · split
      · trivial
      · rename_i pre hpre
        exact ⟨h, not_not.mp hkind, raw, hquery, hpre⟩
  · rename_i raw headers hquery
    split
    · trivial
    · rename_i key hkey
      split_ifs with hscope
      · exact ⟨h, hscope, raw, hquery, hkey⟩
      · trivial

/-- The load of the link. -/
theorem loaded_ok (hrun : Run (step node) anyAction p₀ p)
    (hload : v.name.load p.shared.store.db = some share) :
    StageOk node p₀ p v share (v.loaded node.codec p.shared share) := by
  unfold Visit.loaded
  split_ifs with hprobe
  · split
    · trivial
    · rename_i husable
      exact ⟨Once.now hrun ⟨hload, husable⟩, rfl, rfl, rfl⟩
  · unfold authorizeFirst
    cases husable : shareIsUsable share p.shared.now with
    | error reason => trivial
    | ok u =>
      have hreads : Since node p₀ p (ReadsLink v share) := Once.now hrun ⟨hload, husable⟩
      simp only
      by_cases hpublic : share.accessMode = .publicAccess
      · rw [if_pos hpublic]
        exact granted_ok ⟨hreads, Once.now hrun (.anybody hpublic)⟩
      rw [if_neg hpublic]
      by_cases htoken :
        accessTokenGrantsShare node.codec p.shared.app p.shared.now share v.access = true
      · rw [if_pos htoken]
        exact granted_ok ⟨hreads, Once.now hrun (.holder htoken)⟩
      rw [if_neg htoken]
      cases hauth : v.auth with
      | none => trivial
      | some account =>
        simp only
        split_ifs with hmode
        · exact ⟨hreads, hmode, account, hauth, rfl⟩
        · refine ⟨hreads, ?_, account, hauth, rfl⟩
          cases hkind : share.accessMode with
          | specificUsers => rfl
          | bucketReaders => exact absurd hkind hmode
          | publicAccess => exact absurd hkind hpublic

theorem afterBucketName_ok (h : Authorized node p₀ p v share) (hquery : v.query = .info)
    (name : Option Text) : StageOk node p₀ p v share (afterBucketName share name) := by
  unfold afterBucketName
  split_ifs
  · exact ⟨h, hquery⟩
  · exact ⟨h, hquery, name, none, rfl⟩

/-- A statement after the load. -/
theorem callVisit_ok (hrun : Run (step node) anyAction p₀ p) {stage : VisitStage}
    (h : StageOk node p₀ p v share stage) :
    StageOk node p₀ p v share (callVisit node p.shared v share stage) := by
  cases stage with
  | authorize check =>
    simp only [callVisit]
    split
    · trivial
    · rename_i hanswer
      cases check with
      | reader accountId =>
        obtain ⟨hreads, hmode, account, hauth, rfl⟩ := h
        refine granted_ok ⟨hreads, Once.now hrun (.reader account hauth hmode ?_)⟩
        simp only [LinkCheck.answer] at hanswer
        split_ifs at hanswer with hperm
        · exact hperm
        · cases hanswer
      | recipient accountId =>
        obtain ⟨hreads, hmode, account, hauth, rfl⟩ := h
        refine granted_ok ⟨hreads, Once.now hrun (.recipient account hauth hmode ?_)⟩
        simp only [LinkCheck.answer] at hanswer
        split_ifs at hanswer with hlisted
        · exact hlisted
        · cases hanswer
  | bucketName => exact afterBucketName_ok h.1 h.2 _
  | objectInfo name => exact ⟨h.1, h.2, name, _, rfl⟩
  | list pre => exact ⟨h.1, pre, h.2, Once.now hrun rfl⟩
  | lookUp key headers =>
    simp only [callVisit]
    split
    · rename_i object hobject
      refine ⟨h.1, h.2, Once.now hrun ?_⟩
      show (getObjectByFilenameInBucket p.shared.store.db key share.bucketId).isSome = true
      rw [hobject]
      rfl
    · trivial
  | serve key headers => exact ⟨h.1, key, headers, h.2.1, h.2.2, Once.now hrun rfl⟩
  | answered answer => exact h

theorem onFailure_ok {stage : VisitStage} (h : StageOk node p₀ p v share stage)
    (hover : ∀ answer, stage ≠ .answered answer) :
    StageOk node p₀ p v share (stage.onFailure share) := by
  cases stage with
  | bucketName => exact afterBucketName_ok h.1 h.2 none
  | objectInfo name => exact ⟨h.1, h.2, name, none, rfl⟩
  | answered answer => exact absurd rfl (hover answer)
  | _ => trivial

/-- A step to a loaded link: its load, or a statement after it. -/
theorem serve_loaded {fails : Bool} {s s' : Shared} {t : Task} {stage : VisitStage}
    (h : serve node fails s t = some (s', .loaded v share stage)) :
    s' = s ∧ (t = .visit v ∧ v.name.load s.store.db = some share ∧
        stage = v.loaded node.codec s share ∨
      ∃ stage₀, t = .loaded v share stage₀ ∧ (∀ answer, stage₀ ≠ .answered answer) ∧
        (stage = stage₀.onFailure share ∨ stage = callVisit node s v share stage₀)) := by
  cases t with
  | visit v' =>
    simp only [serve] at h
    split_ifs at h
    · cases h
    · split at h
      · cases h
      · rename_i hload
        cases h
        exact ⟨rfl, Or.inl ⟨rfl, hload, rfl⟩⟩
  | loaded v' share' stage₀ =>
    have hover : ∀ answer, stage₀ ≠ .answered answer := by
      intro answer heq
      rw [heq] at h
      cases h
    have hnext : some (s, Task.loaded v' share' (if fails then stage₀.onFailure share'
        else callVisit node s v' share' stage₀)) = some (s', .loaded v share stage) := by
      rw [← h]
      cases stage₀ with
      | answered answer => exact absurd rfl (hover answer)
      | _ =>
        simp only [serve]
        split_ifs <;> rfl
    cases hnext
    refine ⟨rfl, Or.inr ⟨stage₀, rfl, hover, ?_⟩⟩
    split_ifs
    · exact Or.inl rfl
    · exact Or.inr rfl
  | create actor body rng stage =>
    simp only [serve] at h
    split_ifs at h <;> cases h
  | list actor q stage =>
    simp only [serve] at h
    split_ifs at h <;> cases h
  | revoke actor id stage =>
    cases stage with
    | answered response => cases h
    | _ =>
      simp only [serve] at h
      split_ifs at h <;> cases h
  | missed response => cases h
  | dropped => cases h

/-- Every request that has read its link. -/
structure UseOk (node : Node) (p₀ p : State) : Prop where
  run : Run (step node) anyAction p₀ p
  visits : ∀ v share stage, Task.loaded v share stage ∈ p.tasks → StageOk node p₀ p v share stage

theorem use_step (a : Action) (h : UseOk node p₀ p) (hstep : step node p a = some q) :
    UseOk node p₀ q := by
  have hnext : Run (step node) anyAction p q := Run.tail a (Run.refl p) trivial hstep
  refine ⟨h.run.trans hnext, fun v share stage ht => ?_⟩
  obtain ⟨j, hj⟩ := List.mem_iff_getElem?.mp ht
  rcases step_tasks hstep hj with hold | hserved | hbegun
  · exact (h.visits v share stage (List.mem_of_getElem? hold)).later hnext
  · obtain ⟨t, fails, hj₀, hserve⟩ := hserved
    obtain ⟨_, hload | hcall⟩ := serve_loaded hserve
    · obtain ⟨rfl, hload, rfl⟩ := hload
      exact (loaded_ok h.run hload).later hnext
    · obtain ⟨stage₀, rfl, hover, hstage⟩ := hcall
      have hok := h.visits v share stage₀ (List.mem_of_getElem? hj₀)
      rcases hstage with rfl | rfl
      · exact (onFailure_ok hok hover).later hnext
      · exact (callVisit_ok h.run hok).later hnext
  · cases hbegun

theorem mem_of_load {name : ShareName} {db : Db} (h : name.load db = some share) :
    share ∈ db.shareLink := by
  cases name with
  | token t => exact List.mem_of_find?_eq_some h
  | code c => exact List.mem_of_find?_eq_some h

/-- The link that was read was not revoked, and it is still there, unless it is revoked now. -/
theorem link_of_reads {s₀ : Shared} (h : Since node ⟨s₀, []⟩ p (ReadsLink v share)) :
    share.revokedAt = none ∧ ∃ row ∈ p.shared.links, Later share row := by
  obtain ⟨u, _, hup, hload, husable⟩ := h
  refine ⟨?_, (run_grown hup).kept share (mem_of_load hload)⟩
  unfold shareIsUsable at husable
  split_ifs at husable with hrevoked
  simpa using hrevoked

/-- Everything but a refusal shows something of the link. -/
def VisitAnswer.isRefusal : VisitAnswer → Bool
  | .refused _ => true
  | _ => false

theorem AnswerOk.reads {answer : VisitAnswer} (h : AnswerOk node p₀ p v share answer)
    (hshown : VisitAnswer.isRefusal answer = false) : Since node p₀ p (ReadsLink v share) := by
  cases answer with
  | refused response => cases hshown
  | loginRequired displayName kind mode => exact h.1
  | info body => exact h.1.reads
  | listing result => exact h.1.reads
  | content served => exact h.1.reads

/-- Every row of a link is revoked or has expired. -/
def Dead (id : Int) (s : Shared) : Prop :=
  AllOf s id fun row =>
    row.revokedAt.isSome = true ∨ row.expiresAt.any (· < s.now.nanos) = true

theorem Dead.grown {id : Int} {s s' : Shared} (h : Dead id s) (hg : Grown s s') : Dead id s' := by
  refine AllOf.mono (AllOf.grown h hg fun row row' hlater hrow => ?_) fun row hrow => ?_
  · rcases hrow with hrevoked | hexpired
    · rw [hlater.revoked hrevoked]
      exact Or.inl hrevoked
    · rw [hlater.same.field (·.expiresAt) fun _ => rfl] at hexpired
      exact Or.inr hexpired
  · refine hrow.imp_right fun hexpired => ?_
    cases he : row.expiresAt with
    | none =>
      rw [he] at hexpired
      cases hexpired
    | some e =>
      rw [he, Option.any_some, decide_eq_true_eq] at hexpired
      exact decide_eq_true (lt_of_lt_of_le hexpired hg.now)

def gone : VisitStage := .refuse .gone "share is no longer available"

/-- A dead link is refused as soon as it is read. -/
theorem loaded_dead {s : Shared} (hdead : Dead share.id s)
    (hload : v.name.load s.store.db = some share) : v.loaded node.codec s share = gone := by
  have hmem : share ∈ s.links := mem_of_load hload
  have husable : ∃ reason, shareIsUsable share s.now = .error reason := by
    unfold shareIsUsable
    split_ifs with hrevoked hexpired
    · exact ⟨_, rfl⟩
    · exact ⟨_, rfl⟩
    · exact absurd (hdead.rows share hmem rfl) (not_or.mpr ⟨hrevoked, hexpired⟩)
  obtain ⟨reason, hreason⟩ := husable
  unfold Visit.loaded authorizeFirst
  rw [hreason]
  split_ifs <;> rfl

/-- The requests that had read the link before, and those that were refused. -/
structure Closed (node : Node) (id : Int) (p q : State) : Prop where
  run : Run (step node) anyAction p q
  visits : ∀ (j : Nat) v share stage, q.tasks[j]? = some (Task.loaded v share stage) →
    share.id = id → (∃ stage₀, p.tasks[j]? = some (Task.loaded v share stage₀)) ∨ stage = gone

theorem closed_step {id : Int} {r : State} (a : Action) (hdead : Dead id p.shared)
    (h : Closed node id p q) (hstep : step node q a = some r) : Closed node id p r := by
  refine ⟨Run.tail a h.run trivial hstep, fun j v share stage hj hid => ?_⟩
  rcases step_tasks hstep hj with hold | hserved | hbegun
  · exact h.visits j v share stage hold hid
  · obtain ⟨t, fails, hj₀, hserve⟩ := hserved
    obtain ⟨_, hload | hcall⟩ := serve_loaded hserve
    · obtain ⟨rfl, hload, rfl⟩ := hload
      have hstill : Dead share.id q.shared := hid ▸ hdead.grown (run_grown h.run)
      exact Or.inr (loaded_dead hstill hload)
    · obtain ⟨stage₀, rfl, hover, _⟩ := hcall
      rcases h.visits j v share stage₀ hj₀ hid with hbefore | hgone
      · exact Or.inl hbefore
      · exact absurd hgone (hover _)
  · cases hbegun

/-- Once a revocation has been answered with success, or the time of a link has run out, every
request that reads this link from then on is refused as gone, whoever sends it and with whatever
access token. -/
theorem dead_link_refused (node : Node) (s₀ : Shared) (hunique : s₀.links.Pairwise Apart)
    {p q : State} (hp : Run (step node) anyAction ⟨s₀, []⟩ p)
    (hq : Run (step node) anyAction p q) (id : Int)
    (hdead : (∃ actor, Task.revoke actor id (.answered .noContent) ∈ p.tasks) ∨
      ∃ row ∈ p.shared.links, row.id = id ∧
        row.expiresAt.any (· < p.shared.now.nanos) = true)
    (j : Nat) (v : Visit) (share : ShareLinkRecord) (stage : VisitStage)
    (hj : q.tasks[j]? = some (.loaded v share stage)) (hid : share.id = id)
    (hlate : ∀ share' stage', p.tasks[j]? ≠ some (.loaded v share' stage')) : stage = gone := by
  have hrights := rights_of_run hunique hp
  have hdead' : Dead id p.shared := by
    rcases hdead with hrevoke | hexpired
    · obtain ⟨actor, ht⟩ := hrevoke
      have hrevoked : AllOf p.shared id fun row => row.revokedAt.isSome = true :=
        hrights.tasks _ ht rfl
      exact hrevoked.mono fun row hrow => Or.inl hrow
    · obtain ⟨row, hrow, hrowid, hexpires⟩ := hexpired
      refine ⟨hrowid ▸ p.shared.store.link_lt row hrow, fun row' hrow' hid' => Or.inr ?_⟩
      rw [eq_of_pairwise_ne (hrights.unique.imp And.left) hrow' hrow (hid'.trans hrowid.symm)]
      exact hexpires
  have hclosed : Closed node id p q := hq.invariant
    (fun _ a _ h _ hstep => closed_step a hdead' h hstep)
    ⟨Run.refl p, fun _ v share stage hj _ => Or.inl ⟨stage, hj⟩⟩
  rcases hclosed.visits j v share stage hj hid with hbefore | hgone
  · obtain ⟨stage₀, hbefore⟩ := hbefore
    exact absurd hbefore (hlate share stage₀)
  · exact hgone

/-- A visitor opens the link by its token. -/
def visitor : Visit := ⟨.token (List.replicate 22 '1'), none, none, .content "d/a".toList []⟩

def fetching : List Action := .visit visitor :: turns 2 3

def fetchedAndRevoked : List Action := sharing ++ fetching ++ .revoke 1 1 :: turns 3 4

/-- The same request after the revocation. -/
def fetchingLate : List Action := .visit visitor :: turns 4 1

theorem dead_link_refused_revoked :
    ∃ p q share stage, exec (step sampleNode) ⟨sampleShared, []⟩ fetchedAndRevoked = some p ∧
      exec (step sampleNode) p fetchingLate = some q ∧
      q.tasks[4]? = some (.loaded visitor share stage) ∧ share.id = 1 ∧ stage = gone := by
  refine ⟨_, _, _, _, rfl, rfl, rfl, rfl, ?_⟩
  exact dead_link_refused sampleNode sampleShared List.Pairwise.nil
    (run_of_exec (show exec (step sampleNode) _ fetchedAndRevoked = some _ from rfl))
    (run_of_exec (show exec (step sampleNode) _ fetchingLate = some _ from rfl)) 1
    (Or.inl ⟨1, List.mem_of_getElem? (i := 3) rfl⟩) 4 visitor _ _ rfl rfl
    (fun share stage h => by cases h)

end MyS3.ShareUse
