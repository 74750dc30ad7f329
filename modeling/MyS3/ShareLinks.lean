import MyS3.ShareRequests

/-!
What happens to the links themselves. A link is only ever added, by an account that could read
the bucket and for a target that was there; its row stays, and only its revocation is written,
by its creator or by an Owner. Ids, tokens and short codes stay unique.
-/

namespace MyS3.ShareLinks

open Library.Strings Library.Tables Library.Interleaving Library.Runs
open Models Database Repository Listings Rbac Http SessionAuth MediaAccess Shares ShareCreation
open ShareRequests

/-- The same link, revoked or not. -/
def SameLink (a b : ShareLinkRecord) : Prop :=
  { a with revokedAt := none } = { b with revokedAt := none }

theorem sameLink_refl (a : ShareLinkRecord) : SameLink a a := rfl

theorem SameLink.trans {a b c : ShareLinkRecord} (h : SameLink a b) (h' : SameLink b c) :
    SameLink a c := Eq.trans h h'

/-- Equal in every field but the revocation. -/
theorem SameLink.field {a b : ShareLinkRecord} (h : SameLink a b) {β : Type}
    (f : ShareLinkRecord → β) (hf : ∀ r : ShareLinkRecord, f { r with revokedAt := none } = f r) :
    f a = f b := by
  have h' : f { a with revokedAt := none } = f { b with revokedAt := none } := congrArg f h
  rwa [hf a, hf b] at h'

theorem SameLink.id_eq {a b : ShareLinkRecord} (h : SameLink a b) : a.id = b.id :=
  h.field (·.id) fun _ => rfl

theorem revokeRow_same (id : Int) (now : Instant) (row : ShareLinkRecord) :
    SameLink row (revokeRow id now row) := by
  unfold revokeRow
  split_ifs <;> rfl

/-- A revoked link is left as it is. -/
theorem revokeRow_revoked {id : Int} {now : Instant} {row : ShareLinkRecord}
    (h : row.revokedAt.isSome = true) : revokeRow id now row = row := by
  unfold revokeRow
  rw [if_neg]
  intro hrow
  rw [hrow.2] at h
  cases h

theorem revokeRow_self {id : Int} {now : Instant} {row : ShareLinkRecord} (hid : row.id = id) :
    (revokeRow id now row).revokedAt.isSome = true := by
  unfold revokeRow
  split_ifs with h
  · rfl
  · cases hrevoked : row.revokedAt with
    | none => exact absurd ⟨hid, hrevoked⟩ h
    | some at' => rfl

/-- A link later on: a revoked one has not changed at all. -/
structure Later (a b : ShareLinkRecord) : Prop where
  same : SameLink a b
  revoked : a.revokedAt.isSome = true → b = a

theorem later_refl (a : ShareLinkRecord) : Later a a := ⟨sameLink_refl a, fun _ => rfl⟩

theorem Later.trans {a b c : ShareLinkRecord} (h : Later a b) (h' : Later b c) : Later a c where
  same := h.same.trans h'.same
  revoked hrevoked := by
    have heq := h.revoked hrevoked
    rw [← heq] at hrevoked
    exact (h'.revoked hrevoked).trans heq

theorem revokeRow_later (id : Int) (now : Instant) (row : ShareLinkRecord) :
    Later row (revokeRow id now row) := ⟨revokeRow_same id now row, revokeRow_revoked⟩

/-- What a statement of a task does to the table of links. -/
inductive LinkWrite (s : Shared) : Task → ShareStore → Prop
  | same (t : Task) (store : ShareStore) (hlinks : store.db.shareLink = s.store.db.shareLink)
      (hnext : store.nextId = s.store.nextId) : LinkWrite s t store
  | made (actor : Int) (body : CreateShareBody) (rng : ShareRandom) (req : NewShare) (attempt : Nat)
      (hfree : isTaken s.store.db (tokenAt rng attempt) (shortCodeAt rng req attempt) = false) :
      LinkWrite s (.create actor body rng (.link req attempt))
        (s.store.addLink s.now req (tokenAt rng attempt) (shortCodeAt rng req attempt))
  | revoked (actor id : Int) :
      LinkWrite s (.revoke actor id .update) (revokeLink s.store id s.now)

/-- A statement writes links as its kind says, and the table of recipients only grows. -/
structure Wrote (s : Shared) (t : Task) (s' : Shared) : Prop where
  links : LinkWrite s t s'.store
  users : s.store.db.shareLinkUser ⊆ s'.store.db.shareLinkUser
  now : s'.now = s.now
  config : s'.config = s.config

theorem wrote_same (s : Shared) (t : Task) : Wrote s t s where
  links := .same t s.store rfl rfl
  users := List.Subset.refl _
  now := rfl
  config := rfl

theorem insertShareLink_ok {s s' : ShareStore} {now : Instant} {req : NewShare} {token : Text}
    {code : Option Text} (h : insertShareLink s now req token code = .ok s') :
    isTaken s.db token code = false ∧ s' = s.addLink now req token code := by
  unfold insertShareLink at h
  split_ifs at h with htaken hrefers
  · rw [Bool.not_eq_true] at htaken
    exact ⟨htaken, (Except.ok.inj h).symm⟩

theorem insertShareLinkUser_keeps {s s' : ShareStore} {shareId accountId : Int}
    (h : insertShareLinkUser s shareId accountId = .ok s') :
    s'.db.shareLink = s.db.shareLink ∧ s'.nextId = s.nextId ∧
      s.db.shareLinkUser ⊆ s'.db.shareLinkUser := by
  unfold insertShareLinkUser at h
  split_ifs at h
  rw [← Except.ok.inj h]
  exact ⟨rfl, rfl, List.subset_append_left _ _⟩

theorem callCreate_wrote (s : Shared) (actor : Int) (body : CreateShareBody) (rng : ShareRandom)
    (stage : CreateStage) :
    Wrote s (.create actor body rng stage) (callCreate s actor body rng stage).1 := by
  have hsame := wrote_same s (.create actor body rng stage)
  cases stage with
  | resolve =>
    simp only [callCreate]
    split <;> exact hsame
  | perm bucketId =>
    simp only [callCreate]
    split <;> exact hsame
  | target req =>
    simp only [callCreate]
    split
    · exact hsame
    · split_ifs <;> exact hsame
  | link req attempt =>
    simp only [callCreate]
    split
    · rename_i store hinsert
      obtain ⟨hfree, rfl⟩ := insertShareLink_ok hinsert
      exact ⟨.made actor body rng req attempt hfree, List.Subset.refl _, rfl, rfl⟩
    · split_ifs <;> exact hsame
    · exact hsame
  | recipients req id accountIds =>
    cases accountIds with
    | nil => exact hsame
    | cons accountId rest =>
      simp only [callCreate]
      split
      · exact hsame
      · rename_i store hinsert
        obtain ⟨hlinks, hnext, husers⟩ := insertShareLinkUser_keeps hinsert
        exact ⟨.same _ store hlinks hnext, husers, rfl, rfl⟩
  | reload id =>
    simp only [callCreate]
    split <;> exact hsame
  | listRecipients share => exact hsame
  | created view => exact hsame
  | refused response => exact hsame

theorem callRevoke_wrote (s : Shared) (actor id : Int) (stage : RevokeStage) :
    Wrote s (.revoke actor id stage) (callRevoke s actor id stage).1 := by
  have hsame := wrote_same s (.revoke actor id stage)
  cases stage with
  | isOwner => exact hsame
  | get owner =>
    simp only [callRevoke]
    split <;> exact hsame
  | perm owner bucketId =>
    simp only [callRevoke]
    split <;> exact hsame
  | again owner =>
    simp only [callRevoke]
    split
    · exact hsame
    · split_ifs <;> exact hsame
  | update => exact ⟨.revoked actor id, List.Subset.refl _, rfl, rfl⟩
  | answered response => exact hsame

theorem serve_wrote {node : Node} {fails : Bool} {s s' : Shared} {t u : Task}
    (h : serve node fails s t = some (s', u)) : Wrote s t s' := by
  have hsame : s' = s → Wrote s t s' := fun heq => heq ▸ wrote_same s t
  cases t with
  | create actor body rng stage =>
    simp only [serve] at h
    split_ifs at h with hover hfails
    · exact hsame (Prod.mk.inj (Option.some.inj h)).1.symm
    · rw [← (Prod.mk.inj (Option.some.inj h)).1]
      exact callCreate_wrote s actor body rng stage
  | list actor q stage =>
    simp only [serve] at h
    split_ifs at h <;> exact hsame (Prod.mk.inj (Option.some.inj h)).1.symm
  | revoke actor id stage =>
    cases stage with
    | answered response => cases h
    | _ =>
      simp only [serve] at h
      split_ifs at h
      · exact hsame (Prod.mk.inj (Option.some.inj h)).1.symm
      · rw [← (Prod.mk.inj (Option.some.inj h)).1]
        exact callRevoke_wrote s actor id _
  | visit v =>
    simp only [serve] at h
    split_ifs at h
    · exact hsame (Prod.mk.inj (Option.some.inj h)).1.symm
    · split at h <;> exact hsame (Prod.mk.inj (Option.some.inj h)).1.symm
  | missed response => cases h
  | loaded v share stage =>
    cases stage with
    | answered answer => cases h
    | _ =>
      simp only [serve] at h
      split_ifs at h <;> exact hsame (Prod.mk.inj (Option.some.inj h)).1.symm
  | dropped => cases h

/-- From one state of the node to a later one, no link goes away, a revoked one stays revoked,
and the recipients stay. -/
structure Grown (s s' : Shared) : Prop where
  kept : ∀ row ∈ s.links, ∃ row' ∈ s'.links, Later row row'
  fresh : ∀ row' ∈ s'.links, (∃ row ∈ s.links, Later row row') ∨ s.store.nextId ≤ row'.id
  users : s.store.db.shareLinkUser ⊆ s'.store.db.shareLinkUser
  nextId : s.store.nextId ≤ s'.store.nextId
  now : s.now.nanos ≤ s'.now.nanos

theorem grown_of_same {s s' : Shared} (hlinks : s'.links = s.links)
    (husers : s.store.db.shareLinkUser ⊆ s'.store.db.shareLinkUser)
    (hnext : s'.store.nextId = s.store.nextId) (hnow : s.now.nanos ≤ s'.now.nanos) :
    Grown s s' where
  kept row hrow := ⟨row, hlinks ▸ hrow, later_refl row⟩
  fresh row hrow := Or.inl ⟨row, hlinks ▸ hrow, later_refl row⟩
  users := husers
  nextId := le_of_eq hnext.symm
  now := hnow

theorem grown_refl (s : Shared) : Grown s s :=
  grown_of_same rfl (List.Subset.refl _) rfl le_rfl

theorem Grown.trans {s t u : Shared} (h : Grown s t) (h' : Grown t u) : Grown s u where
  kept row hrow := by
    obtain ⟨row₁, hrow₁, hlater₁⟩ := h.kept row hrow
    obtain ⟨row₂, hrow₂, hlater₂⟩ := h'.kept row₁ hrow₁
    exact ⟨row₂, hrow₂, hlater₁.trans hlater₂⟩
  fresh row hrow := by
    rcases h'.fresh row hrow with hold | hnew
    · obtain ⟨row₁, hrow₁, hlater₁⟩ := hold
      rcases h.fresh row₁ hrow₁ with hold | hnew
      · obtain ⟨row₀, hrow₀, hlater₀⟩ := hold
        exact Or.inl ⟨row₀, hrow₀, hlater₀.trans hlater₁⟩
      · exact Or.inr (hlater₁.same.id_eq ▸ hnew)
    · exact Or.inr (h.nextId.trans hnew)
  users := List.Subset.trans h.users h'.users
  nextId := h.nextId.trans h'.nextId
  now := h.now.trans h'.now

/-- A fact about the links of an id that is in use goes on with them. -/
theorem Grown.forall_id {s s' : Shared} (h : Grown s s') {F : ShareLinkRecord → Prop} {id : Int}
    (hF : ∀ row row', Later row row' → F row → F row') (hid : id < s.store.nextId)
    (hall : ∀ row ∈ s.links, row.id = id → F row) : ∀ row ∈ s'.links, row.id = id → F row := by
  intro row hrow hrowid
  rcases h.fresh row hrow with hold | hnew
  · obtain ⟨row₀, hrow₀, hlater⟩ := hold
    exact hF row₀ row hlater (hall row₀ hrow₀ (hlater.same.id_eq.trans hrowid))
  · omega

theorem Wrote.grown {s s' : Shared} {t : Task} (h : Wrote s t s') : Grown s s' := by
  obtain ⟨hlinks, husers, hnow, _⟩ := h
  have htime : s.now.nanos ≤ s'.now.nanos := le_of_eq (congrArg Instant.nanos hnow).symm
  generalize hstore : s'.store = store at hlinks
  have hrows : s'.links = store.db.shareLink :=
    congrArg (fun store : ShareStore => store.db.shareLink) hstore
  have hnext : s'.store.nextId = store.nextId := congrArg ShareStore.nextId hstore
  cases hlinks with
  | same t _ hsame hid => exact grown_of_same (hrows.trans hsame) husers (hnext.trans hid) htime
  | made actor body rng req attempt hfree =>
    refine ⟨fun row hrow => ⟨row, ?_, later_refl row⟩, fun row hrow => ?_, husers, ?_, htime⟩
    · rw [hrows]
      exact List.mem_append_left _ hrow
    · rw [hrows] at hrow
      rcases List.mem_append.mp hrow with hrow | hrow
      · exact Or.inl ⟨row, hrow, later_refl row⟩
      · rw [List.mem_singleton.mp hrow]
        exact Or.inr le_rfl
    · rw [hnext]
      exact le_of_lt (Int.lt_succ _)
  | revoked actor id =>
    refine ⟨fun row hrow => ⟨revokeRow id s.now row, ?_, revokeRow_later id s.now row⟩,
      fun row hrow => ?_, husers, le_of_eq hnext.symm, htime⟩
    · rw [hrows]
      exact List.mem_map_of_mem hrow
    · rw [hrows] at hrow
      obtain ⟨row₀, hrow₀, rfl⟩ := List.mem_map.mp hrow
      exact Or.inl ⟨row₀, hrow₀, revokeRow_later id s.now row₀⟩

theorem step_grown {node : Node} {p q : State} {a : Action} (h : step node p a = some q) :
    Grown p.shared q.shared := by
  cases a with
  | advance i fails =>
    obtain ⟨t, s', u, _, hserve, rfl⟩ := Pool.turn_eq_some.mp h
    exact (serve_wrote hserve).grown
  | drop i =>
    obtain ⟨t, _, rfl⟩ := Option.map_eq_some_iff.mp h
    exact grown_refl p.shared
  | tick now =>
    simp only [step] at h
    split_ifs at h with hnow
    rw [← Option.some.inj h]
    exact grown_of_same rfl (List.Subset.refl _) rfl hnow
  | others db disk =>
    rw [← Option.some.inj h]
    exact grown_of_same rfl (List.Subset.refl _) rfl le_rfl
  | _ =>
    rw [← Option.some.inj h]
    exact grown_refl p.shared

theorem run_grown {node : Node} {p q : State} (h : Run (step node) anyAction p q) :
    Grown p.shared q.shared := by
  induction h with
  | refl => exact grown_refl p.shared
  | tail a _ _ hnext ih => exact ih.trans (step_grown hnext)

/-- A request as it comes in, or after its client went away. -/
inductive Begun : Task → Prop
  | create (actor : Int) (body : CreateShareBody) (rng : ShareRandom) :
      Begun (.create actor body rng .resolve)
  | list (actor : Int) (q : ListSharesQuery) : Begun (.list actor q .resolve)
  | revoke (actor id : Int) : Begun (.revoke actor id .isOwner)
  | visit (v : Visit) : Begun (.visit v)
  | dropped : Begun .dropped

theorem mem_spawn {p : State} {t u : Task} {j : Nat} (h : (p.spawn t).tasks[j]? = some u) :
    p.tasks[j]? = some u ∨ u = t := by
  simp only [Pool.spawn, List.getElem?_append] at h
  split_ifs at h with hlt
  · exact Or.inl h
  · rw [List.getElem?_singleton] at h
    split_ifs at h
    exact Or.inr (Option.some.inj h).symm

/-- Where a request of the next state comes from. -/
theorem step_tasks {node : Node} {p q : State} {a : Action} (h : step node p a = some q) {j : Nat}
    {u : Task} (hj : q.tasks[j]? = some u) :
    p.tasks[j]? = some u ∨
      (∃ t fails, p.tasks[j]? = some t ∧ serve node fails p.shared t = some (q.shared, u)) ∨
        Begun u := by
  have hspawn : ∀ t, Begun t → p.spawn t = q → p.tasks[j]? = some u ∨ (∃ t fails,
      p.tasks[j]? = some t ∧ serve node fails p.shared t = some (q.shared, u)) ∨ Begun u := by
    intro t ht hq
    rw [← hq] at hj
    rcases mem_spawn hj with hold | hnew
    · exact Or.inl hold
    · exact Or.inr (Or.inr (hnew.symm ▸ ht))
  cases a with
  | create actor body rng => exact hspawn _ (.create actor body rng) (Option.some.inj h)
  | list actor q => exact hspawn _ (.list actor q) (Option.some.inj h)
  | revoke actor id => exact hspawn _ (.revoke actor id) (Option.some.inj h)
  | visit v => exact hspawn _ (.visit v) (Option.some.inj h)
  | advance i fails =>
    obtain ⟨t, s', u', hi, hserve, rfl⟩ := Pool.turn_eq_some.mp h
    rcases eq_or_ne i j with rfl | hij
    · rw [Pool.replace_self hi, Option.some.injEq] at hj
      exact Or.inr (Or.inl ⟨t, fails, hi, hj ▸ hserve⟩)
    · rw [Pool.replace_ne p hij] at hj
      exact Or.inl hj
  | drop i =>
    obtain ⟨t, hi, rfl⟩ := Option.map_eq_some_iff.mp h
    rcases eq_or_ne i j with rfl | hij
    · rw [Pool.replace_self hi, Option.some.injEq] at hj
      exact Or.inr (Or.inr (hj ▸ .dropped))
    · rw [Pool.replace_ne p hij] at hj
      exact Or.inl hj
  | tick now =>
    simp only [step] at h
    split_ifs at h
    rw [← Option.some.inj h] at hj
    exact Or.inl hj
  | others db disk =>
    rw [← Option.some.inj h] at hj
    exact Or.inl hj

/-- Two links differ in their ids, their tokens and their short codes, as far as they have one. -/
def Apart (a b : ShareLinkRecord) : Prop :=
  a.id ≠ b.id ∧ a.token ≠ b.token ∧ (a.shortCode = b.shortCode → a.shortCode = none)

theorem Apart.congr {a a' b b' : ShareLinkRecord} (ha : SameLink a a') (hb : SameLink b b')
    (h : Apart a b) : Apart a' b' := by
  unfold Apart
  rw [← ha.id_eq, ← hb.id_eq, ← ha.field (·.token) fun _ => rfl, ← hb.field (·.token) fun _ => rfl,
    ← ha.field (·.shortCode) fun _ => rfl, ← hb.field (·.shortCode) fun _ => rfl]
  exact h

theorem Wrote.unique {s s' : Shared} {t : Task} (h : Wrote s t s') (hs : s.links.Pairwise Apart) :
    s'.links.Pairwise Apart := by
  have hlinks := h.links
  generalize hstore : s'.store = store at hlinks
  have hrows : s'.links = store.db.shareLink :=
    congrArg (fun store : ShareStore => store.db.shareLink) hstore
  rw [hrows]
  cases hlinks with
  | same t _ hsame hid =>
    rw [hsame]
    exact hs
  | made actor body rng req attempt hfree =>
    refine List.pairwise_append.mpr ⟨hs, List.pairwise_singleton _ _, fun a ha b hb => ?_⟩
    rw [List.mem_singleton.mp hb]
    have hrow := List.any_eq_false.mp hfree a ha
    simp only [Bool.or_eq_true, beq_iff_eq, Bool.and_eq_true, not_or, not_and] at hrow
    refine ⟨?_, hrow.1, fun hcode => ?_⟩
    · have hlt := s.store.link_lt a ha
      intro heq
      rw [heq] at hlt
      exact lt_irrefl _ hlt
    · have hcode' : a.shortCode = shortCodeAt rng req attempt := hcode
      by_contra hsome
      rw [hcode', ← ne_eq, ← Option.isSome_iff_ne_none] at hsome
      exact hrow.2 hsome hcode'
  | revoked actor id =>
    refine List.pairwise_map.mpr (hs.imp fun hab => ?_)
    exact Apart.congr (revokeRow_same id s.now _) (revokeRow_same id s.now _) hab

theorem step_unique {node : Node} {p q : State} {a : Action} (hp : p.shared.links.Pairwise Apart)
    (h : step node p a = some q) : q.shared.links.Pairwise Apart := by
  cases a with
  | advance i fails =>
    obtain ⟨t, s', u, _, hserve, rfl⟩ := Pool.turn_eq_some.mp h
    exact (serve_wrote hserve).unique hp
  | drop i =>
    obtain ⟨t, _, rfl⟩ := Option.map_eq_some_iff.mp h
    exact hp
  | tick now =>
    simp only [step] at h
    split_ifs at h
    rw [← Option.some.inj h]
    exact hp
  | _ =>
    rw [← Option.some.inj h]
    exact hp

end MyS3.ShareLinks
