import MyS3.ShareRights
import MyS3.Library.UriComponents

/-!
The URL of a link. A caller is shown the path of the share page; the page reads the token or the
code from its own path, and calls the API with it; and the router reads it again. Each of the
three steps encodes or decodes the text, and in the end the row of the link is found by it, in
every later state.
-/

namespace MyS3.ShareUrls

open Library.Strings Library.Tables Library.Interleaving Library.Runs Library.Encodings
open Library.SigV4 Library.UriComponents
open Models Database Engine Repository Listings Rbac Http SessionAuth MediaAccess Shares
open ShareCreation CoveringShares ShareRequests ShareLinks ShareRights

/-- `none` is a `URIError`. -/
def decodeURIComponent (t : Text) : Option Text :=
  if wellEscaped t then fromUtf8 (percentDecode t) else none

/-- What follows a prefix, when it is one nonempty segment. -/
def segmentAfter (pre path : Text) : Option Text :=
  (stripPrefix pre path).filter fun rest => rest ≠ [] && !rest.contains '/'

/-- `parseSharePath` of the share page. -/
def parseSharePath (pathname : Text) : Option ShareName :=
  let path := trimEndMatches (· == '/') pathname
  match segmentAfter "/s/".toList path with
  | some code => (decodeURIComponent code).map .code
  | none =>
    match segmentAfter "/share/".toList path with
    | some token => (decodeURIComponent token).map .token
    | none => none

def apiBase : ShareName → Text
  | .code code => "/api/v1/shares/by-code/".toList ++ encodeURIComponent code
  | .token token => "/api/v1/shares/by-token/".toList ++ encodeURIComponent token

/-- The parameter of the route that a path has. -/
def routedName (path : Text) : Option ShareName :=
  match segmentAfter "/api/v1/shares/by-token/".toList path with
  | some token => (fromUtf8 (percentDecode token)).map .token
  | none =>
    match segmentAfter "/api/v1/shares/by-code/".toList path with
    | some code => (fromUtf8 (percentDecode code)).map .code
    | none => none

/-- The link that the page under a path asks for. -/
def openedBy (pathname : Text) : Option ShareName :=
  (parseSharePath pathname).bind fun name => routedName (apiBase name)

theorem segmentAfter_append {pre rest : Text} (hne : rest ≠ []) (hslash : '/' ∉ rest) :
    segmentAfter pre (pre ++ rest) = some rest := by
  have hstrip : stripPrefix pre (pre ++ rest) = some rest := stripPrefix_eq_some.mpr rfl
  unfold segmentAfter
  rw [hstrip, Option.filter_some]
  simp [hne, hslash]

/-- A text that the page and the router read as it is written. -/
structure Plain (t : Text) : Prop where
  ne_nil : t ≠ []
  slash : '/' ∉ t
  percent : '%' ∉ t

theorem decodeURIComponent_plain {t : Text} (h : Plain t) : decodeURIComponent t = some t := by
  unfold decodeURIComponent
  rw [if_pos (wellEscaped_plain h.percent), percentDecode_plain h.percent]
  exact fromUtf8_asBytes t

/-- The router reads what the page has encoded, whatever the text is. -/
theorem decode_component (t : Text) :
    fromUtf8 (percentDecode (encodeURIComponent t)) = some t := by
  rw [percentDecode_encodeURIComponent]
  exact fromUtf8_asBytes t

theorem routedName_token {t : Text} (h : t ≠ []) :
    routedName (apiBase (.token t)) = some (.token t) := by
  unfold routedName apiBase
  rw [segmentAfter_append (encodeURIComponent_ne_nil h) (slash_encodeURIComponent t)]
  simp only [decode_component, Option.map_some]

theorem stripPrefix_byToken (rest : Text) : stripPrefix "/api/v1/shares/by-token/".toList
    ("/api/v1/shares/by-code/".toList ++ rest) = none := by rfl

theorem routedName_code {t : Text} (h : t ≠ []) :
    routedName (apiBase (.code t)) = some (.code t) := by
  have hother : segmentAfter "/api/v1/shares/by-token/".toList (apiBase (.code t)) = none := by
    unfold segmentAfter apiBase
    rw [stripPrefix_byToken]
    rfl
  unfold routedName
  rw [hother]
  unfold apiBase
  simp only
  rw [segmentAfter_append (encodeURIComponent_ne_nil h) (slash_encodeURIComponent t)]
  simp only [decode_component, Option.map_some]

/-- The path of a link has no slash at its end. -/
theorem trimEnd_path {pre t : Text} (h : Plain t) :
    trimEndMatches (· == '/') (pre ++ t) = pre ++ t := by
  refine trimEndMatches_eq_self fun c hc => ?_
  rw [List.getLast?_append_of_ne_nil _ h.ne_nil] at hc
  have hmem := List.mem_of_getLast? hc
  rw [beq_eq_false_iff_ne]
  intro heq
  exact h.slash (heq ▸ hmem)

theorem parseSharePath_code {t : Text} (h : Plain t) :
    parseSharePath ("/s/".toList ++ t) = some (.code t) := by
  unfold parseSharePath
  rw [trimEnd_path h]
  simp only [segmentAfter_append h.ne_nil h.slash, decodeURIComponent_plain h, Option.map_some]

theorem parseSharePath_token {t : Text} (h : Plain t) :
    parseSharePath ("/share/".toList ++ t) = some (.token t) := by
  have hother : segmentAfter "/s/".toList ("/share/".toList ++ t) = none := by
    unfold segmentAfter
    rfl
  unfold parseSharePath
  rw [trimEnd_path h]
  simp only [hother, segmentAfter_append h.ne_nil h.slash, decodeURIComponent_plain h,
    Option.map_some]

/-- The name of a link that its path has: the code, where there is one. -/
def nameOf (share : ShareLinkRecord) : ShareName :=
  match share.shortCode with
  | some code => .code code
  | none => .token share.token

/-- The token and the code of a link are read as they are written. -/
def WellNamed (share : ShareLinkRecord) : Prop :=
  Plain share.token ∧ ∀ code, share.shortCode = some code → Plain code

theorem openedBy_shareUrlPath {share : ShareLinkRecord} (h : WellNamed share) :
    openedBy (shareUrlPath share) = some (nameOf share) := by
  unfold openedBy shareUrlPath nameOf
  cases hcode : share.shortCode with
  | none =>
    simp only
    rw [parseSharePath_token h.1, Option.bind_some, routedName_token h.1.ne_nil]
  | some code =>
    have hplain := h.2 code hcode
    simp only
    rw [parseSharePath_code hplain, Option.bind_some, routedName_code hplain.ne_nil]

/-- Links that an account has made, with one of them for a view. -/
def Mine (actor : Int) (s : Shared) (share : ShareLinkRecord) : Prop :=
  share.createdByAccountId = actor ∧ ∃ row ∈ s.links, SameLink share row

def ViewOk (actor : Int) (s : Shared) (view : ShareView) : Prop :=
  ∃ share, Mine actor s share ∧ toView share view.accountIds = view

def CreateViewOk (actor : Int) (s : Shared) : CreateStage → Prop
  | .target req => req.createdByAccountId = actor
  | .link req _ => req.createdByAccountId = actor
  | .recipients _ id _ => AllOf s id fun row => row.createdByAccountId = actor
  | .reload id => AllOf s id fun row => row.createdByAccountId = actor
  | .listRecipients share => Mine actor s share
  | .created view => ViewOk actor s view
  | _ => True

def ListViewOk (actor : Int) (s : Shared) : ListStage → Prop
  | .recipients share rest out => Mine actor s share ∧ (∀ x ∈ rest, Mine actor s x) ∧
      ∀ view ∈ out, ViewOk actor s view
  | .listed views => ∀ view ∈ views, ViewOk actor s view
  | _ => True

/-- What a caller is shown, or is to be shown, is of its own links. -/
def ShowsOwn (s : Shared) : Task → Prop
  | .create actor _ _ stage => CreateViewOk actor s stage
  | .list actor _ stage => ListViewOk actor s stage
  | _ => True

variable {s s' : Shared} {actor : Int}

theorem Mine.grown {share : ShareLinkRecord} (h : Mine actor s share) (hg : Grown s s') :
    Mine actor s' share := by
  obtain ⟨hcreator, row, hrow, hsame⟩ := h
  obtain ⟨row', hrow', hlater⟩ := hg.kept row hrow
  exact ⟨hcreator, row', hrow', hsame.trans hlater.same⟩

theorem ViewOk.grown {view : ShareView} (h : ViewOk actor s view) (hg : Grown s s') :
    ViewOk actor s' view := by
  obtain ⟨share, hmine, hview⟩ := h
  exact ⟨share, hmine.grown hg, hview⟩

theorem viewOk_toView {share : ShareLinkRecord} (h : Mine actor s share) (accountIds : List Int) :
    ViewOk actor s (toView share accountIds) := ⟨share, h, rfl⟩

/-- The creator of a link stays. -/
theorem creator_grown {id : Int} (h : AllOf s id fun row => row.createdByAccountId = actor)
    (hg : Grown s s') : AllOf s' id fun row => row.createdByAccountId = actor := by
  refine h.grown hg fun row row' hlater hrow => ?_
  rw [← hrow, hlater.same.field (·.createdByAccountId) fun _ => rfl]

theorem ShowsOwn.grown {t : Task} (h : ShowsOwn s t) (hg : Grown s s') : ShowsOwn s' t := by
  cases t with
  | create actor body rng stage =>
    cases stage with
    | recipients req id accountIds => exact creator_grown h hg
    | reload id => exact creator_grown h hg
    | listRecipients share => exact Mine.grown h hg
    | created view => exact ViewOk.grown h hg
    | _ => exact h
  | list actor q stage =>
    cases stage with
    | recipients share rest out =>
      exact ⟨h.1.grown hg, fun x hx => (h.2.1 x hx).grown hg, fun view hv => (h.2.2 view hv).grown hg⟩
    | listed views => exact fun view hv => (h view hv).grown hg
    | _ => exact h
  | _ => exact h

theorem nextUsable_ok (now : Instant) {out : List ShareView} (rest : List ShareLinkRecord)
    (hout : ∀ view ∈ out, ViewOk actor s view) (hrest : ∀ x ∈ rest, Mine actor s x) :
    ListViewOk actor s (nextUsable now out rest) := by
  induction rest with
  | nil => exact hout
  | cons share rest ih =>
    obtain ⟨hshare, htail⟩ := List.forall_mem_cons.mp hrest
    unfold nextUsable
    split_ifs
    · exact ⟨hshare, htail, hout⟩
    · exact ih htail

theorem forall_mem_append_view {out : List ShareView} {share : ShareLinkRecord}
    (hout : ∀ view ∈ out, ViewOk actor s view) (hshare : Mine actor s share) (ids : List Int) :
    ∀ view ∈ out ++ [toView share ids], ViewOk actor s view := by
  intro view hview
  rcases List.mem_append.mp hview with hold | hnew
  · exact hout view hold
  · rw [List.mem_singleton.mp hnew]
    exact viewOk_toView hshare ids

theorem callList_ok {node : Node} {q : ListSharesQuery} {stage : ListStage}
    (h : ListViewOk actor s stage) : ListViewOk actor s (callList node s actor q stage) := by
  cases stage with
  | resolve =>
    simp only [callList]
    split <;> trivial
  | perm bucketId =>
    simp only [callList]
    split
    · trivial
    · split_ifs <;> trivial
  | select bucketId key =>
    refine nextUsable_ok s.now _ (List.forall_mem_nil _) fun x hx => ?_
    have hmem := (node.order.perm _).mem_iff.mp hx
    rw [List.mem_filter] at hmem
    obtain ⟨hrow, hfilter⟩ := hmem
    simp only [Bool.and_eq_true, beq_iff_eq] at hfilter
    exact ⟨hfilter.1.2, x, hrow, sameLink_refl x⟩
  | recipients share rest out =>
    exact nextUsable_ok s.now rest (forall_mem_append_view h.2.2 h.1 _) h.2.1
  | listed views => exact h
  | refused response => exact h

/-- The new link is its creator's. -/
theorem allOf_addLink {req : NewShare} (token : Text) (code : Option Text)
    (h : req.createdByAccountId = actor) :
    AllOf { s with store := s.store.addLink s.now req token code } s.store.nextId
      fun row => row.createdByAccountId = actor := by
  refine ⟨Int.lt_succ _, fun row hrow hid => ?_⟩
  rcases List.mem_append.mp hrow with hold | hnew
  · have hlt := s.store.link_lt row hold
    omega
  · rw [List.mem_singleton.mp hnew]
    exact h

/-- A statement of `create_share`, which may add the link. -/
theorem callCreate_shows {body : CreateShareBody} {rng : ShareRandom} {stage : CreateStage}
    (h : CreateViewOk actor s stage) :
    CreateViewOk actor (callCreate s actor body rng stage).1
      (callCreate s actor body rng stage).2 := by
  have hgrown := (callCreate_wrote s actor body rng stage).grown
  cases stage with
  | resolve =>
    simp only [callCreate]
    split <;> trivial
  | perm bucketId =>
    simp only [callCreate]
    split
    · trivial
    · unfold CreateShareBody.check
      split
      · trivial
      · split_ifs
        · trivial
        · rfl
  | target req =>
    simp only [callCreate]
    split
    · trivial
    · split_ifs
      · trivial
      · exact h
  | link req attempt =>
    simp only [callCreate]
    split
    · rename_i store hinsert
      obtain ⟨_, rfl⟩ := insertShareLink_ok hinsert
      have hall := allOf_addLink (s := s) (tokenAt rng attempt) (shortCodeAt rng req attempt) h
      unfold afterRecipients
      split
      · exact hall
      · exact hall
    · split_ifs
      · exact h
      · trivial
    · trivial
  | recipients req id accountIds =>
    have hall : AllOf s id fun row => row.createdByAccountId = actor := h
    cases accountIds with
    | nil => exact hall
    | cons accountId rest =>
      simp only [callCreate] at hgrown ⊢
      split at hgrown
      · trivial
      · have hall' := creator_grown hall hgrown
        unfold afterRecipients
        split
        · exact hall'
        · exact hall'
  | reload id =>
    simp only [callCreate]
    split
    · trivial
    · rename_i share hget
      have hmem : share ∈ s.links := List.mem_of_find?_eq_some hget
      have hid : share.id = id := by simpa using List.find?_some hget
      have hall : AllOf s id fun row => row.createdByAccountId = actor := h
      exact ⟨hall.rows share hmem hid, share, hmem, sameLink_refl share⟩
  | listRecipients share => exact viewOk_toView h _
  | created view => exact h
  | refused response => exact h

theorem serve_shows {node : Node} {fails : Bool} {t u : Task} (h : ShowsOwn s t)
    (hserve : serve node fails s t = some (s', u)) : ShowsOwn s' u := by
  cases t with
  | create actor body rng stage =>
    simp only [serve] at hserve
    split_ifs at hserve
    · cases hserve
      cases stage with
      | listRecipients share => exact viewOk_toView h []
      | _ => trivial
    · cases hserve
      exact callCreate_shows h
  | list actor q stage =>
    simp only [serve] at hserve
    split_ifs at hserve
    · cases hserve
      cases stage with
      | recipients share rest out =>
        exact nextUsable_ok s.now rest (forall_mem_append_view h.2.2 h.1 []) h.2.1
      | _ => trivial
    · cases hserve
      exact callList_ok h
  | revoke actor id stage =>
    cases stage with
    | answered response => cases hserve
    | _ =>
      simp only [serve] at hserve
      split_ifs at hserve <;> cases hserve <;> trivial
  | visit v =>
    simp only [serve] at hserve
    split_ifs at hserve
    · cases hserve
      trivial
    · split at hserve <;> cases hserve <;> trivial
  | missed response => cases hserve
  | loaded v share stage =>
    cases stage with
    | answered answer => cases hserve
    | _ =>
      simp only [serve] at hserve
      split_ifs at hserve <;> cases hserve <;> trivial
  | dropped => cases hserve

/-- Every link is named well, and callers are shown their own links. -/
structure UrlsOk (p : State) : Prop where
  named : ∀ row ∈ p.shared.links, WellNamed row
  shown : ∀ t ∈ p.tasks, ShowsOwn p.shared t

theorem mem_randomShareCode {draw : Nat → Fin shareCharset.length} {len : Nat} {c : Char}
    (h : c ∈ randomShareCode draw len) : c ∈ shareCharset := by
  obtain ⟨i, _, rfl⟩ := List.mem_map.mp h
  exact List.getElem_mem _

/-- No character that is drawn means anything in a URL. -/
theorem plain_randomShareCode (draw : Nat → Fin shareCharset.length) {len : Nat} (hlen : 0 < len) :
    Plain (randomShareCode draw len) := by
  have hall : ∀ c ∈ shareCharset, c ≠ '/' ∧ c ≠ '%' := forall_mem_of_all (by decide)
  refine ⟨fun hnil => ?_, fun h => (hall _ (mem_randomShareCode h)).1 rfl,
    fun h => (hall _ (mem_randomShareCode h)).2 rfl⟩
  have hlength := congrArg List.length hnil
  unfold randomShareCode at hlength
  rw [List.length_map, List.length_range, List.length_nil] at hlength
  omega

theorem wellNamed_shareRow (now : Instant) (req : NewShare) (id : Int) (rng : ShareRandom)
    (attempt : Nat) :
    WellNamed (shareRow now req id (tokenAt rng attempt) (shortCodeAt rng req attempt)) := by
  refine ⟨plain_randomShareCode _ (by decide), fun code hcode => ?_⟩
  have hcode' : shortCodeAt rng req attempt = some code := hcode
  unfold shortCodeAt at hcode'
  split_ifs at hcode'
  rw [← Option.some.inj hcode']
  exact plain_randomShareCode _ (by decide)

theorem WellNamed.same {a b : ShareLinkRecord} (h : WellNamed a) (hsame : SameLink a b) :
    WellNamed b := by
  unfold WellNamed
  rw [← hsame.field (·.token) fun _ => rfl, ← hsame.field (·.shortCode) fun _ => rfl]
  exact h

/-- What is true of every link that is made, and does not depend on its revocation. -/
structure Lasting (F : ShareLinkRecord → Prop) : Prop where
  same : ∀ {a b}, F a → SameLink a b → F b
  made : ∀ now req id rng attempt,
    F (shareRow now req id (tokenAt rng attempt) (shortCodeAt rng req attempt))

theorem Wrote.forall_links {F : ShareLinkRecord → Prop} (hF : Lasting F) {t : Task}
    (h : Wrote s t s') (hs : ∀ row ∈ s.links, F row) : ∀ row ∈ s'.links, F row := by
  have hlinks := h.links
  intro row hrow
  have hrow' : row ∈ s'.store.db.shareLink := hrow
  generalize s'.store = store at hlinks hrow'
  cases hlinks with
  | same t _ hsame hid =>
    rw [hsame] at hrow'
    exact hs row hrow'
  | made actor body rng req attempt hfree =>
    rcases List.mem_append.mp hrow' with hold | hnew
    · exact hs row hold
    · rw [List.mem_singleton.mp hnew]
      exact hF.made s.now req _ rng attempt
  | revoked actor id =>
    obtain ⟨row₀, hrow₀, rfl⟩ := List.mem_map.mp hrow'
    exact hF.same (hs row₀ hrow₀) (revokeRow_same id s.now row₀)

theorem links_step {F : ShareLinkRecord → Prop} (hF : Lasting F) {node : Node} {p q : State}
    {a : Action} (h : ∀ row ∈ p.shared.links, F row) (hstep : step node p a = some q) :
    ∀ row ∈ q.shared.links, F row := by
  cases a with
  | advance i fails =>
    obtain ⟨t, s', u, _, hserve, rfl⟩ := Pool.turn_eq_some.mp hstep
    exact Wrote.forall_links hF (serve_wrote hserve) h
  | drop i =>
    obtain ⟨t, _, rfl⟩ := Option.map_eq_some_iff.mp hstep
    exact h
  | tick now =>
    simp only [step] at hstep
    split_ifs at hstep
    rw [← Option.some.inj hstep]
    exact h
  | _ =>
    rw [← Option.some.inj hstep]
    exact h

theorem lasting_wellNamed : Lasting WellNamed := ⟨WellNamed.same, wellNamed_shareRow⟩

theorem urls_step {node : Node} (p : State) (a : Action) (q : State) (h : UrlsOk p)
    (hstep : step node p a = some q) : UrlsOk q := by
  have hgrown := step_grown hstep
  refine ⟨links_step lasting_wellNamed h.named hstep, fun t ht => ?_⟩
  obtain ⟨j, hj⟩ := List.mem_iff_getElem?.mp ht
  rcases step_tasks hstep hj with hold | hserved | hbegun
  · exact (h.shown t (List.mem_of_getElem? hold)).grown hgrown
  · obtain ⟨t₀, fails, hj₀, hserve⟩ := hserved
    exact serve_shows (h.shown t₀ (List.mem_of_getElem? hj₀)) hserve
  · cases hbegun <;> trivial

/-- The row that a name of a link finds, where names are unique. -/
theorem load_nameOf {row : ShareLinkRecord} (hs : s.links.Pairwise Apart) (hrow : row ∈ s.links) :
    (nameOf row).load s.store.db = some row := by
  unfold nameOf
  cases hcode : row.shortCode with
  | none => exact (find_key_eq_some (hs.imp fun hab => hab.2.1)).mpr ⟨hrow, rfl⟩
  | some code =>
    have hunique : UniqueOn (fun r : ShareLinkRecord => r.shortCode) s.links :=
      hs.imp fun hab => (Classical.em _).imp hab.2.2 fun hne => hne
    refine find_eq_of_unique hrow (beq_iff_eq.mpr hcode) fun other hother heq => ?_
    have hother' : other.shortCode = some code := beq_iff_eq.mp heq
    exact hunique.eq_of_mem hother hrow (by simp [hother']) (hother'.trans hcode.symm)

/-- A view that a caller is shown. -/
inductive Shown (p : State) (actor : Int) (view : ShareView) : Prop
  | created (body : CreateShareBody) (rng : ShareRandom)
      (ht : Task.create actor body rng (.created view) ∈ p.tasks)
  | listed (q : ListSharesQuery) (views : List ShareView)
      (ht : Task.list actor q (.listed views) ∈ p.tasks) (hview : view ∈ views)

/-- Whatever `create_share` and `list_shares` show a caller is of a link that this account has
made, and the page under its URL asks for exactly this link, in this state and in every later
one. -/
theorem shown_url_opens (node : Node) (s₀ : Shared) (hunique : s₀.links.Pairwise Apart)
    (hnamed : ∀ row ∈ s₀.links, WellNamed row) {p q : State}
    (hp : Run (step node) anyAction ⟨s₀, []⟩ p) (hq : Run (step node) anyAction p q) (actor : Int)
    (view : ShareView) (hshown : Shown p actor view) :
    ∃ row ∈ q.shared.links, row.createdByAccountId = actor ∧ toView row view.accountIds = view ∧
      ∃ name, openedBy view.urlPath = some name ∧ name.load q.shared.store.db = some row := by
  have hinit : UrlsOk ⟨s₀, []⟩ := ⟨hnamed, List.forall_mem_nil _⟩
  have hpok : UrlsOk p := hp.invariant (fun s a t h _ hstep => urls_step s a t h hstep) hinit
  have hqok : UrlsOk q := hq.invariant (fun s a t h _ hstep => urls_step s a t h hstep) hpok
  have hview : ViewOk actor p.shared view := by
    cases hshown with
    | created body rng ht => exact hpok.shown _ ht
    | listed query views ht hview => exact hpok.shown _ ht view hview
  obtain ⟨share, ⟨hcreator, row, hrow, hsame⟩, hview⟩ := hview.grown (run_grown hq)
  have hrowview : toView row view.accountIds = view :=
    (hsame.field (fun r => toView r view.accountIds) fun _ => rfl).symm.trans hview
  have hapart := (rights_of_run hunique (hp.trans hq)).unique
  refine ⟨row, hrow, ?_, hrowview, nameOf row, ?_, load_nameOf hapart hrow⟩
  · rw [← hsame.field (·.createdByAccountId) fun _ => rfl, hcreator]
  · rw [← hrowview]
    exact openedBy_shareUrlPath (hqok.named row hrow)

/-- The Owner lists its links after it has shared the object under a short code. -/
def listing : List Action :=
  .create 1 ⟨none, "d/a".toList, .file, .publicAccess, [], none, true⟩ firstDraws :: turns 0 6 ++
    .list 1 ⟨none, "d/a".toList⟩ :: turns 1 4

/-- The link is revoked afterwards, and its page still asks for it. -/
theorem shown_url_opens_revoked :
    ∃ p q views, exec (step sampleNode) ⟨sampleShared, []⟩ listing = some p ∧
      p.tasks[1]? = some (.list 1 ⟨none, "d/a".toList⟩ (.listed views)) ∧
      exec (step sampleNode) p (.revoke 1 1 :: turns 2 4) = some q ∧
      views.map (·.urlPath) = ["/s/11111111".toList] ∧
      ∀ view ∈ views, ∃ row ∈ q.shared.links, row.createdByAccountId = 1 ∧
        toView row view.accountIds = view ∧ ∃ name, openedBy view.urlPath = some name ∧
          name.load q.shared.store.db = some row := by
  refine ⟨_, _, _, rfl, rfl, rfl, rfl, fun view hview => ?_⟩
  exact shown_url_opens sampleNode sampleShared List.Pairwise.nil (fun row h => by cases h)
    (run_of_exec (show exec (step sampleNode) _ listing = some _ from rfl))
    (run_of_exec (show exec (step sampleNode) _ (.revoke 1 1 :: turns 2 4) = some _ from rfl)) 1 view
    (.listed ⟨none, "d/a".toList⟩ _ (List.mem_of_getElem? (i := 1) rfl) hview)

end MyS3.ShareUrls
