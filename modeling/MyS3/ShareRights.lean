import MyS3.ShareLinks

/-!
Who makes and who revokes a link. In every run a link was made by an account that could read the
bucket, for a target that was there and for a time to come; and it is revoked only by its creator,
if that account can still read the bucket, or by an Owner.
-/

namespace MyS3.ShareRights

open Library.Strings Library.Tables Library.Interleaving Library.Runs
open Models Database Engine Repository Listings Rbac Http SessionAuth MediaAccess Shares
open ShareCreation ShareRequests ShareLinks

/-- The account may read the bucket. -/
def MayRead (actor bucketId : Int) (p : State) : Prop :=
  checkPerm p.shared.store.db actor bucketId .read = true

def IsOwner (actor : Int) (p : State) : Prop := accountIsOwner p.shared.store.db actor = true

/-- The file of a link is there, or an object of its folder. -/
def TargetThere (kind : ShareTargetKind) (bucketId : Int) (key : Text) (p : State) : Prop :=
  match kind with
  | .file => (getObjectByFilenameInBucket p.shared.store.db key bucketId).isSome = true
  | .folder => prefixHasObjects p.shared.store.db bucketId key = true

theorem targetThere_of_targetError {p : State} {req : NewShare}
    (h : targetError p.shared.store.db req = none) :
    TargetThere req.targetKind req.bucketId req.targetKey p := by
  unfold targetError at h
  unfold TargetThere
  cases hkind : req.targetKind with
  | file =>
    simp only [hkind] at h ⊢
    split_ifs at h with hnone
    rwa [Option.isNone_iff_eq_none, ← ne_eq, ← Option.isSome_iff_ne_none] at hnone
  | folder =>
    simp only [hkind] at h ⊢
    split_ifs at h with hsome
    exact hsome

section run

variable (node : Node) (p₀ p : State)

/-- At some time since the beginning. -/
abbrev Since (P : State → Prop) : Prop := Once (step node) anyAction P p₀ p

/-- A link that its creator had the right to make. -/
structure Rightful (row : ShareLinkRecord) : Prop where
  reader : Since node p₀ p (MayRead row.createdByAccountId row.bucketId)
  target : Since node p₀ p (TargetThere row.targetKind row.bucketId row.targetKey)
  future : ∀ e, row.expiresAt = some e → Since node p₀ p fun u => u.shared.now.nanos < e

/-- The account had the right to revoke the link. -/
def MayRevoke (actor : Int) (row : ShareLinkRecord) : Prop :=
  Since node p₀ p (IsOwner actor) ∨
    row.createdByAccountId = actor ∧ Since node p₀ p (MayRead actor row.bucketId)

/-- A link whose id is in use, with a fact about every row of it. -/
structure AllOf (s : Shared) (id : Int) (F : ShareLinkRecord → Prop) : Prop where
  used : id < s.store.nextId
  rows : ∀ row ∈ s.links, row.id = id → F row

/-- The request of a new link is from an account that could read the bucket. -/
structure Asked (actor : Int) (req : NewShare) : Prop where
  creator : req.createdByAccountId = actor
  reader : Since node p₀ p (MayRead actor req.bucketId)
  future : ∀ e, req.expiresAt = some e → Since node p₀ p fun u => u.shared.now.nanos < e

def CreateOk (actor : Int) : CreateStage → Prop
  | .target req => Asked node p₀ p actor req
  | .link req _ => Asked node p₀ p actor req ∧
      Since node p₀ p (TargetThere req.targetKind req.bucketId req.targetKey)
  | _ => True

def RevokeOk (actor id : Int) : RevokeStage → Prop
  | .isOwner => True
  | .get owner => owner = true → Since node p₀ p (IsOwner actor)
  | .perm owner bucketId => owner = false ∧ AllOf p.shared id fun row => row.bucketId = bucketId
  | .again owner => (owner = true → Since node p₀ p (IsOwner actor)) ∧
      (owner = false → AllOf p.shared id fun row => Since node p₀ p (MayRead actor row.bucketId))
  | .update => AllOf p.shared id (MayRevoke node p₀ p actor)
  | .answered response => response = .noContent →
      AllOf p.shared id fun row => row.revokedAt.isSome = true

def TaskOk : Task → Prop
  | .create actor _ _ stage => CreateOk node p₀ p actor stage
  | .revoke actor id stage => RevokeOk node p₀ p actor id stage
  | _ => True

end run

variable {node : Node} {p₀ p q : State}

theorem AllOf.mono {s : Shared} {id : Int} {F G : ShareLinkRecord → Prop} (h : AllOf s id F)
    (himp : ∀ row, F row → G row) : AllOf s id G :=
  ⟨h.used, fun row hrow hid => himp row (h.rows row hrow hid)⟩

theorem AllOf.grown {s s' : Shared} {id : Int} {F : ShareLinkRecord → Prop} (h : AllOf s id F)
    (hg : Grown s s') (hF : ∀ row row', Later row row' → F row → F row') : AllOf s' id F :=
  ⟨lt_of_lt_of_le h.used hg.nextId, hg.forall_id hF h.used h.rows⟩

/-- The row that is found stands for all rows of the id. -/
theorem allOf_of_get {s : Shared} {id : Int} {share : ShareLinkRecord} {F : ShareLinkRecord → Prop}
    (hs : s.links.Pairwise Apart) (hget : getShareById s.store.db id = some share) (hF : F share) :
    AllOf s id F := by
  have hmem : share ∈ s.links := List.mem_of_find?_eq_some hget
  have hid : share.id = id := by simpa using List.find?_some hget
  refine ⟨hid ▸ s.store.link_lt share hmem, fun row hrow hrowid => ?_⟩
  rw [eq_of_pairwise_ne (hs.imp And.left) hrow hmem (hrowid.trans hid.symm)]
  exact hF

/-- What is known of a task goes on while others take their turns. -/
theorem TaskOk.later {t : Task} (h : TaskOk node p₀ p t) (hrun : Run (step node) anyAction p q) :
    TaskOk node p₀ q t := by
  have hg := run_grown hrun
  have hasked : ∀ actor req, Asked node p₀ p actor req → Asked node p₀ q actor req :=
    fun actor req ha => ⟨ha.creator, ha.reader.later hrun, fun e he => (ha.future e he).later hrun⟩
  cases t with
  | create actor body rng stage =>
    cases stage with
    | target req => exact hasked actor req h
    | link req attempt => exact ⟨hasked actor req h.1, h.2.later hrun⟩
    | _ => exact h
  | revoke actor id stage =>
    cases stage with
    | isOwner => exact h
    | get owner => exact fun howner => Once.later (h howner) hrun
    | perm owner bucketId =>
      refine ⟨h.1, h.2.grown hg fun row row' hlater hrow => ?_⟩
      rw [← hrow, hlater.same.field (·.bucketId) fun _ => rfl]
    | again owner =>
      refine ⟨fun howner => (h.1 howner).later hrun, fun howner => ?_⟩
      refine ((h.2 howner).grown hg fun row row' hlater hrow => ?_).mono fun row hrow =>
        hrow.later hrun
      rwa [← hlater.same.field (·.bucketId) fun _ => rfl]
    | update =>
      have hall : AllOf p.shared id (MayRevoke node p₀ p actor) := h
      refine (hall.grown hg fun row row' hlater hrow => ?_).mono fun row hrow => ?_
      · unfold MayRevoke at hrow ⊢
        rwa [← hlater.same.field (·.bucketId) fun _ => rfl,
          ← hlater.same.field (·.createdByAccountId) fun _ => rfl]
      · exact hrow.imp (·.later hrun) fun hcreator => ⟨hcreator.1, hcreator.2.later hrun⟩
    | answered response =>
      intro hresponse
      refine (h hresponse).grown hg fun row row' hlater hrow => ?_
      rw [hlater.revoked hrow]
      exact hrow
  | _ => exact h

section step

variable (hrun : Run (step node) anyAction p₀ p)
include hrun

/-- A statement of `create_share`. -/
theorem callCreate_ok {actor : Int} {stage : CreateStage} (body : CreateShareBody)
    (rng : ShareRandom) (h : CreateOk node p₀ p actor stage) :
    CreateOk node p₀ p actor (callCreate p.shared actor body rng stage).2 := by
  cases stage with
  | resolve =>
    simp only [callCreate]
    split <;> trivial
  | perm bucketId =>
    simp only [callCreate]
    split
    · trivial
    · rename_i hperm
      have hread : Since node p₀ p (MayRead actor bucketId) :=
        Once.now hrun (requireBucketPerm_ok hperm)
      unfold CreateShareBody.check
      split
      · trivial
      · split_ifs with hexpired
        · trivial
        · refine ⟨rfl, hread, fun e he => Once.now hrun ?_⟩
          have hexpires : body.expiresAt = some e := he
          rw [hexpires, Option.any_some, decide_eq_true_eq, not_le] at hexpired
          exact hexpired
  | target req =>
    simp only [callCreate]
    split
    · trivial
    · rename_i htarget
      split_ifs
      · trivial
      · exact ⟨h, Once.now hrun (targetThere_of_targetError htarget)⟩
  | link req attempt =>
    simp only [callCreate]
    split
    · unfold afterRecipients
      split <;> trivial
    · split_ifs
      · exact h
      · trivial
    · trivial
  | recipients req id accountIds =>
    cases accountIds with
    | nil => trivial
    | cons accountId rest =>
      simp only [callCreate]
      split
      · trivial
      · unfold afterRecipients
        split <;> trivial
  | reload id =>
    simp only [callCreate]
    split <;> trivial
  | listRecipients share => trivial
  | created view => trivial
  | refused response => trivial

/-- A statement of `revoke_share` that does not write. -/
theorem callRevoke_ok {actor id : Int} {stage : RevokeStage}
    (hunique : p.shared.links.Pairwise Apart) (h : RevokeOk node p₀ p actor id stage)
    (hupdate : stage ≠ .update) :
    RevokeOk node p₀ p actor id (callRevoke p.shared actor id stage).2 := by
  cases stage with
  | isOwner => exact fun howner => Once.now hrun howner
  | get owner =>
    simp only [callRevoke]
    split
    · intro hresponse
      cases hresponse
    · rename_i share hget
      cases owner with
      | true => exact ⟨h, fun howner => by cases howner⟩
      | false => exact ⟨rfl, allOf_of_get hunique hget rfl⟩
  | perm owner bucketId =>
    simp only [callRevoke]
    split
    · rename_i response hperm
      intro hresponse
      rw [hresponse] at hperm
      unfold requireBucketPerm at hperm
      split_ifs at hperm
      cases hperm
    · rename_i hperm
      refine ⟨fun howner => ?_, fun _ => h.2.mono fun row hrow => ?_⟩
      · rw [h.1] at howner
        cases howner
      · rw [hrow]
        exact Once.now hrun (requireBucketPerm_ok hperm)
  | again owner =>
    simp only [callRevoke]
    split
    · intro hresponse
      cases hresponse
    · rename_i share hget
      split_ifs with hrevoked hcreator
      · exact fun _ => allOf_of_get hunique hget hrevoked
      · intro hresponse
        cases hresponse
      · refine allOf_of_get hunique hget ?_
        cases howner : owner with
        | true => exact Or.inl (h.1 howner)
        | false =>
          have hmine : share.createdByAccountId = actor := by
            by_contra hne
            exact hcreator ⟨howner, hne⟩
          have hread := (h.2 howner).rows share (List.mem_of_find?_eq_some hget)
            (by simpa using List.find?_some hget)
          exact Or.inr ⟨hmine, hread⟩
  | update => exact absurd rfl hupdate
  | answered response => exact h

theorem serve_ok {t u : Task} {fails : Bool} (hunique : p.shared.links.Pairwise Apart)
    (hnext : Run (step node) anyAction p q)
    (hserve : serve node fails p.shared t = some (q.shared, u)) (h : TaskOk node p₀ p t) :
    TaskOk node p₀ q u := by
  cases t with
  | create actor body rng stage =>
    simp only [serve] at hserve
    split_ifs at hserve
    · rw [← (Prod.mk.inj (Option.some.inj hserve)).2]
      cases stage <;> trivial
    · rw [← (Prod.mk.inj (Option.some.inj hserve)).2]
      have hcall : TaskOk node p₀ p
          (.create actor body rng (callCreate p.shared actor body rng stage).2) :=
        callCreate_ok hrun body rng h
      exact hcall.later hnext
  | list actor q' stage =>
    simp only [serve] at hserve
    split_ifs at hserve <;>
      rw [← (Prod.mk.inj (Option.some.inj hserve)).2] <;> trivial
  | revoke actor id stage =>
    have hcall : ∀ stage, TaskOk node p₀ p (.revoke actor id stage) → stage ≠ .update →
        TaskOk node p₀ q (.revoke actor id (callRevoke p.shared actor id stage).2) := by
      intro stage hstage hupdate
      have hp : TaskOk node p₀ p (.revoke actor id (callRevoke p.shared actor id stage).2) :=
        callRevoke_ok hrun hunique hstage hupdate
      exact hp.later hnext
    cases stage with
    | answered response => cases hserve
    | update =>
      simp only [serve] at hserve
      split_ifs at hserve
      · rw [← (Prod.mk.inj (Option.some.inj hserve)).2]
        intro hresponse
        cases hresponse
      · obtain ⟨hshared, hu⟩ := Prod.mk.inj (Option.some.inj hserve)
        rw [← hu]
        have hall : AllOf p.shared id (MayRevoke node p₀ p actor) := h
        refine fun _ => ⟨?_, fun row hrow hid => ?_⟩
        · rw [← hshared]
          exact hall.used
        · rw [← hshared] at hrow
          obtain ⟨row₀, _, rfl⟩ := List.mem_map.mp hrow
          exact revokeRow_self ((revokeRow_id id p.shared.now row₀).symm.trans hid)
    | _ =>
      simp only [serve] at hserve
      split_ifs at hserve
      · rw [← (Prod.mk.inj (Option.some.inj hserve)).2]
        intro hresponse
        cases hresponse
      · rw [← (Prod.mk.inj (Option.some.inj hserve)).2]
        refine hcall _ h ?_
        intro heq
        cases heq
  | visit v =>
    simp only [serve] at hserve
    split_ifs at hserve
    · rw [← (Prod.mk.inj (Option.some.inj hserve)).2]
      trivial
    · split at hserve <;> rw [← (Prod.mk.inj (Option.some.inj hserve)).2] <;> trivial
  | missed response => cases hserve
  | loaded v share stage =>
    cases stage with
    | answered answer => cases hserve
    | _ =>
      simp only [serve] at hserve
      split_ifs at hserve <;>
        rw [← (Prod.mk.inj (Option.some.inj hserve)).2] <;> trivial
  | dropped => cases hserve

end step

theorem Rightful.later {row row' : ShareLinkRecord} (h : Rightful node p₀ p row)
    (hlater : Later row row') (hrun : Run (step node) anyAction p q) :
    Rightful node p₀ q row' := by
  obtain ⟨hreader, htarget, hfuture⟩ := h
  refine ⟨?_, ?_, fun e he => ?_⟩
  · rw [← hlater.same.field (·.createdByAccountId) fun _ => rfl,
      ← hlater.same.field (·.bucketId) fun _ => rfl]
    exact hreader.later hrun
  · rw [← hlater.same.field (·.targetKind) fun _ => rfl,
      ← hlater.same.field (·.bucketId) fun _ => rfl,
      ← hlater.same.field (·.targetKey) fun _ => rfl]
    exact htarget.later hrun
  · rw [← hlater.same.field (·.expiresAt) fun _ => rfl] at he
    exact (hfuture e he).later hrun

/-- Somebody who had the right to revoke the link has asked for it. -/
def RevokedBy (node : Node) (p₀ p : State) (actor : Int) (row : ShareLinkRecord) : Prop :=
  MayRevoke node p₀ p actor row ∧
    Since node p₀ p fun u => ∃ stage, Task.revoke actor row.id stage ∈ u.tasks

theorem RevokedBy.later {actor : Int} {row : ShareLinkRecord}
    (h : RevokedBy node p₀ p actor row) (hrun : Run (step node) anyAction p q) :
    RevokedBy node p₀ q actor row :=
  ⟨h.1.imp (·.later hrun) fun hcreator => ⟨hcreator.1, hcreator.2.later hrun⟩, h.2.later hrun⟩

/-- What holds of all links and requests since the beginning. -/
structure RightsOk (node : Node) (p₀ p : State) : Prop where
  run : Run (step node) anyAction p₀ p
  unique : p.shared.links.Pairwise Apart
  tasks : ∀ t ∈ p.tasks, TaskOk node p₀ p t
  rows : ∀ row ∈ p.shared.links,
    (∃ row₀ ∈ p₀.shared.links, Later row₀ row) ∨ Rightful node p₀ p row
  revoked : ∀ row ∈ p.shared.links, row.revokedAt.isSome = true →
    row ∈ p₀.shared.links ∨ ∃ actor, RevokedBy node p₀ p actor row

theorem rightsOk_nil {s₀ : Shared} (hunique : s₀.links.Pairwise Apart) :
    RightsOk node ⟨s₀, []⟩ ⟨s₀, []⟩ where
  run := Run.refl _
  unique := hunique
  tasks := List.forall_mem_nil _
  rows row hrow := Or.inl ⟨row, hrow, later_refl row⟩
  revoked _ hrow _ := Or.inl hrow

/-- The table of links in the next state: rows of before, or a new one that was asked for, or
rows that have been revoked. -/
theorem rows_step {a : Action} (h : RightsOk node p₀ p) (hstep : step node p a = some q) :
    ∀ row ∈ q.shared.links, (∃ row₀ ∈ p.shared.links, Later row₀ row ∧
        (row.revokedAt.isSome = true → row₀.revokedAt.isSome = true ∨
          ∃ actor, RevokedBy node p₀ p actor row₀)) ∨
      (row.revokedAt = none ∧ Rightful node p₀ p row) := by
  have hkeep : ∀ row ∈ p.shared.links, (∃ row₀ ∈ p.shared.links, Later row₀ row ∧
        (row.revokedAt.isSome = true → row₀.revokedAt.isSome = true ∨
          ∃ actor, RevokedBy node p₀ p actor row₀)) ∨
      (row.revokedAt = none ∧ Rightful node p₀ p row) :=
    fun row hrow => Or.inl ⟨row, hrow, later_refl row, Or.inl⟩
  cases a with
  | advance i fails =>
    obtain ⟨t, s', u, hi, hserve, rfl⟩ := Pool.turn_eq_some.mp hstep
    have htask := h.tasks t (List.mem_of_getElem? hi)
    have hlinks := (serve_wrote hserve).links
    intro row hrow
    have hrow' : row ∈ s'.store.db.shareLink := hrow
    generalize s'.store = store at hlinks hrow'
    cases hlinks with
    | same t _ hsame hid =>
      rw [hsame] at hrow'
      exact hkeep row hrow'
    | made actor body rng req attempt hfree =>
      rcases List.mem_append.mp hrow' with hold | hnew
      · exact hkeep row hold
      · rw [List.mem_singleton.mp hnew]
        obtain ⟨hasked, htarget⟩ := htask
        refine Or.inr ⟨rfl, ?_, htarget, hasked.future⟩
        have hcreator : req.createdByAccountId = actor := hasked.creator
        have hread : Since node p₀ p (MayRead req.createdByAccountId req.bucketId) := by
          rw [hcreator]
          exact hasked.reader
        exact hread
    | revoked actor id =>
      obtain ⟨row₀, hrow₀, rfl⟩ := List.mem_map.mp hrow'
      refine Or.inl ⟨row₀, hrow₀, revokeRow_later id _ row₀, fun hrevoked => ?_⟩
      by_cases hid : row₀.id = id
      · have hall : AllOf p.shared id (MayRevoke node p₀ p actor) := htask
        refine Or.inr ⟨actor, hall.rows row₀ hrow₀ hid, Once.now h.run ⟨.update, ?_⟩⟩
        rw [hid]
        exact List.mem_of_getElem? hi
      · unfold revokeRow at hrevoked
        rw [if_neg fun hrow => hid hrow.1] at hrevoked
        exact Or.inl hrevoked
  | drop i =>
    obtain ⟨t, _, rfl⟩ := Option.map_eq_some_iff.mp hstep
    exact hkeep
  | tick now =>
    simp only [step] at hstep
    split_ifs at hstep
    rw [← Option.some.inj hstep]
    exact hkeep
  | _ =>
    rw [← Option.some.inj hstep]
    exact hkeep

theorem RevokedBy.same {actor : Int} {row row' : ShareLinkRecord}
    (h : RevokedBy node p₀ p actor row) (hsame : SameLink row row') :
    RevokedBy node p₀ p actor row' := by
  unfold RevokedBy MayRevoke at h ⊢
  rwa [← hsame.field (·.createdByAccountId) fun _ => rfl, ← hsame.field (·.bucketId) fun _ => rfl,
    ← hsame.id_eq]

theorem rights_step (a : Action) (h : RightsOk node p₀ p) (hstep : step node p a = some q) :
    RightsOk node p₀ q := by
  have hnext : Run (step node) anyAction p q := Run.tail a (Run.refl p) trivial hstep
  have hrows := rows_step h hstep
  refine ⟨h.run.trans hnext, step_unique h.unique hstep, fun t ht => ?_, fun row hrow => ?_,
    fun row hrow hrevoked => ?_⟩
  · obtain ⟨j, hj⟩ := List.mem_iff_getElem?.mp ht
    rcases step_tasks hstep hj with hold | hserved | hbegun
    · exact (h.tasks t (List.mem_of_getElem? hold)).later hnext
    · obtain ⟨t₀, fails, hj₀, hserve⟩ := hserved
      exact serve_ok h.run h.unique hnext hserve (h.tasks t₀ (List.mem_of_getElem? hj₀))
    · cases hbegun <;> trivial
  · rcases hrows row hrow with hold | hnew
    · obtain ⟨row₁, hrow₁, hlater, _⟩ := hold
      rcases h.rows row₁ hrow₁ with hfirst | hrightful
      · obtain ⟨row₀, hrow₀, hlater₀⟩ := hfirst
        exact Or.inl ⟨row₀, hrow₀, hlater₀.trans hlater⟩
      · exact Or.inr (hrightful.later hlater hnext)
    · exact Or.inr (hnew.2.later (later_refl row) hnext)
  · rcases hrows row hrow with hold | hnew
    · obtain ⟨row₁, hrow₁, hlater, hby⟩ := hold
      rcases hby hrevoked with hbefore | hnow
      · rcases h.revoked row₁ hrow₁ hbefore with hstart | hactor
        · rw [hlater.revoked hbefore]
          exact Or.inl hstart
        · obtain ⟨actor, hactor⟩ := hactor
          exact Or.inr ⟨actor, (hactor.same hlater.same).later hnext⟩
      · obtain ⟨actor, hactor⟩ := hnow
        exact Or.inr ⟨actor, (hactor.same hlater.same).later hnext⟩
    · rw [hnew.1] at hrevoked
      cases hrevoked

theorem rights_of_run {s₀ : Shared} (hunique : s₀.links.Pairwise Apart)
    (hrun : Run (step node) anyAction ⟨s₀, []⟩ p) : RightsOk node ⟨s₀, []⟩ p :=
  hrun.invariant (fun _ a _ h _ hstep => rights_step a h hstep) (rightsOk_nil hunique)

/-- A node with the object `d/a`, an Owner and a second account. -/
def sampleShared : Shared where
  config := (FolderPrefixes.holding ["d/a".toList]).config
  store := withOthers twoAccounts { twoAccounts.db with accountRole := [⟨1, 1⟩] }
  disk := (FolderPrefixes.holding ["d/a".toList]).disk
  now := Instant.epoch

def sampleNode : Node where
  platform := Platform.sample
  codec := .tabulated [] []
  limit := .first
  instant := fun _ => 0
  order := .stable

def turns (i n : Nat) : List Action := List.replicate n (.advance i false)

/-- The Owner shares the object with everybody, and the second account may not revoke that. -/
def sharing : List Action :=
  .create 1 ⟨none, "d/a".toList, .file, .publicAccess, [], none, false⟩ firstDraws :: turns 0 6 ++
    .revoke 2 1 :: turns 1 3

/-- The Owner revokes the link. -/
def revoking : List Action := .revoke 1 1 :: turns 2 4

end MyS3.ShareRights
