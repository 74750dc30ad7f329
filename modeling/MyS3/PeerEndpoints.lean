import Mathlib.Algebra.Order.Ring.Rat
import MyS3.BucketReceivers
import MyS3.EtagRuns

/-!
Peers that are added by their endpoint, by `add_bucket_node` in `server/settings_routes.rs`.
Without an id in the request the id is derived from the host: the port is dropped, and every
character but ASCII letters and digits becomes a hyphen. The peer is then inserted or, where
its id is registered, gets the endpoint of the request.
-/

namespace MyS3.PeerEndpoints

open Library.Strings Library.Tables
open Models Database Outbox Http PeerManager ReplicationEdits BucketReceivers
open EtagRuns (canEditBucketReplication)

/-- An allocation in GiB is a 64-bit float; `none` is one that is not finite. -/
structure AddBucketNode where
  actor : Int
  bucketId : Int
  nodeId : Option Text
  endpoint : Option Text
  allocatedGb : Option Rat
  quotaMode : QuotaMode := .soft

/-- The queries of a request that fail. -/
structure AddFaults where
  permission : Bool := false
  upsert : Bool := false
  assign : Bool := false
  deriving DecidableEq

/-- A product that is more than the largest float fails the same check. -/
def gbToBytes : Option Rat → Except Text Int
  | none => .error "allocated_gb must be a positive number".toList
  | some gb =>
    if gb ≤ 0 then .error "allocated_gb must be a positive number".toList
    else
      let bytes := (gb * 1073741824 + 1 / 2).floor
      if 2 ^ 63 < bytes then .error "allocated_gb is too large".toList
      else .ok (min bytes i64Max)

def trimMatches (p : Char → Bool) (t : Text) : Text := trimEndMatches p (trimStartMatches p t)

def defaultPort : Text := "50051".toList

def withoutScheme (t : Text) : Text :=
  (((stripPrefix "https://".toList t).or (stripPrefix "http://".toList t)).or
    (stripPrefix "grpc://".toList t)).getD t

/-- The host and the port; an IPv6 address keeps its brackets. -/
def splitHostPort (hostport : Text) : Except Text (Text × Text) :=
  if hostport.head? = some '[' then
    match findText [']'] hostport with
    | none => .error "invalid IPv6 endpoint".toList
    | some last =>
      let host := hostport.take (last + 1)
      let rest := hostport.drop (last + 1)
      match stripPrefix [':'] rest with
      | some port =>
        if port = [] || !port.all isDigit then .error "invalid peer port".toList
        else .ok (host, port)
      | none =>
        if rest = [] then .ok (host, defaultPort) else .error "invalid IPv6 endpoint".toList
  else
    match rsplitOnce ':' hostport with
    | some (host, port) =>
      if host = [] || port = [] || !port.all isDigit then .error "invalid peer endpoint".toList
      else .ok (host, port)
    | none => .ok (hostport, defaultPort)

def suggestedId (host : Text) : Text :=
  let plain := trimMatches (fun c => c == '[' || c == ']') host
  let dashed := plain.map fun c => if c.isAlphanum then c else '-'
  "node-".toList ++ (trimMatches (· == '-') dashed).map Char.toLower

/-- `parse_peer_endpoint`: `host:port` and a suggested node id. -/
def parsePeerEndpoint (raw : Text) : Except Text (Text × Text) :=
  let trimmed := trim raw
  if trimmed = [] then .error "endpoint is required".toList
  else
    let hostport := trim ((split '/' (withoutScheme trimmed)).head?.getD [])
    if hostport = [] then .error "invalid peer endpoint".toList
    else
      match splitHostPort hostport with
      | .error msg => .error msg
      | .ok (host, port) =>
        if host = [] then .error "invalid peer host".toList
        else if suggestedId host = "node-".toList then
          .error "could not derive node id from endpoint".toList
        else .ok (host ++ ':' :: port, suggestedId host)

/-- A field of the request that is there and not blank. -/
def given (field : Option Text) : Option Text := (field.map trim).filter (· ≠ [])

/-- The endpoint is the bind address, or the same port on the loopback. -/
def refersToSelf (grpcBindAddr endpoint : Text) : Bool :=
  let port := ((rsplitOnce ':' grpcBindAddr).map (·.2)).getD []
  endpoint == grpcBindAddr || endpoint == "127.0.0.1:".toList ++ port ||
    endpoint == "localhost:".toList ++ port

def badRequest (msg : Text) : Response := .failure .badRequest (.message msg)

/-- The peer that the request names, registered if it gives an endpoint. -/
def namedPeer (s : AppState) (grpcBindAddr : Text) (req : AddBucketNode) (faults : AddFaults) :
    Except Response (Text × Db) :=
  match given req.endpoint with
  | some raw =>
    match parsePeerEndpoint raw with
    | .error msg => .error (badRequest msg)
    | .ok (endpoint, suggested) =>
      let nodeId := (given req.nodeId).getD suggested
      if nodeId = s.config.nodeId then
        .error (badRequest "cannot add the local node via peer URL".toList)
      else if refersToSelf grpcBindAddr endpoint then
        .error (badRequest "endpoint refers to this node".toList)
      else if faults.upsert then .error databaseError
      else .ok (nodeId, upsertPeer s.db nodeId endpoint)
  | none =>
    match given req.nodeId with
    | none => .error (badRequest "endpoint or node_id is required".toList)
    | some nodeId =>
      if nodeId = s.config.nodeId then
        .error (badRequest "cannot add the local node again".toList)
      else .ok (nodeId, s.db)

def assignFailure (err : EditError) : Response :=
  match err.message with
  | none => databaseError
  | some msg =>
    if (findText "not found".toList msg).isSome then .failure .notFound (.message msg)
    else if (findText "must be".toList msg).isSome then .failure .badRequest (.message msg)
    else .failure .internalServerError (.message msg)

def addBucketNode (s : AppState) (grpcBindAddr : Text) (req : AddBucketNode)
    (faults : AddFaults) : Response × Db :=
  if faults.permission then (databaseError, s.db)
  else if canEditBucketReplication s.db req.actor req.bucketId = false then
    (.failure .forbidden (.message "bucket owner or edit permission required".toList), s.db)
  else
    match gbToBytes req.allocatedGb with
    | .error msg => (badRequest msg, s.db)
    | .ok bytes =>
      match namedPeer s grpcBindAddr req faults with
      | .error answer => (answer, s.db)
      | .ok (nodeId, db) =>
        if faults.assign then (databaseError, db)
        else
          match assignBucketNode db req.bucketId nodeId bytes req.quotaMode with
          | .ok db' => (.noContent, db')
          | .error err => (assignFailure err, db)

example : parsePeerEndpoint "https://db.a/x".toList =
    .ok ("db.a:50051".toList, "node-db-a".toList) := by decide

/-- A request changes the endpoint of no registered peer; it registers a new one, or fails. -/
structure AddsOnly (db db' : Db) (endpoint : Text) (answer : Response) : Prop where
  endpoints : ∀ p ∈ db.clusterPeer.rows, ∃ p' ∈ db'.clusterPeer.rows,
    p'.id = p.id ∧ p'.wireguardEndpoint = p.wireguardEndpoint
  outcome : answer.isFailure = true ∨ ∃ p' ∈ db'.clusterPeer.rows,
    p'.wireguardEndpoint = endpoint ∧ ∀ p ∈ db.clusterPeer.rows, p.id ≠ p'.id

/-- The request is refused before the peer is written. -/
def RefusedEarly (s : AppState) (grpcBindAddr : Text) (req : AddBucketNode) (faults : AddFaults)
    (endpoint id : Text) : Prop :=
  faults.permission = true ∨ canEditBucketReplication s.db req.actor req.bucketId = false ∨
    (∃ msg, gbToBytes req.allocatedGb = .error msg) ∨ id = s.config.nodeId ∨
    refersToSelf grpcBindAddr endpoint = true ∨ faults.upsert = true

theorem addsOnly_refused {db : Db} {endpoint : Text} {answer : Response}
    (h : answer.isFailure = true) : AddsOnly db db endpoint answer :=
  ⟨fun p hp => ⟨p, hp, rfl, rfl⟩, Or.inl h⟩

/-- A peer with a new endpoint is inserted, or takes the place of the endpoint of the peer
that has its id. -/
theorem addsOnly_upsert_iff {db db' : Db} {endpoint id : Text} {answer : Response}
    (hnew : ∀ p ∈ db.clusterPeer.rows, p.wireguardEndpoint ≠ endpoint)
    (hdb' : db'.clusterPeer = (upsertPeer db id endpoint).clusterPeer) :
    AddsOnly db db' endpoint answer ↔ ∀ p ∈ db.clusterPeer.rows, p.id ≠ id := by
  have hrows : db'.clusterPeer = upsertPeerRow db.clusterPeer id endpoint := hdb'
  constructor
  · intro h p hp hid
    obtain ⟨p', hp', hid', hendpoint⟩ := h.endpoints p hp
    have htaken : ¬ ∀ p ∈ db.clusterPeer.rows, p.id ≠ id := fun hall => hall p hp hid
    rw [hrows, upsertPeerRow, dif_neg htaken] at hp'
    rcases mem_updateRows.mp hp' with ⟨_, hother⟩ | ⟨a, _, _, rfl⟩
    · rw [hid', hid] at hother
      simp at hother
    · exact hnew p hp hendpoint.symm
  · intro hfree
    rw [upsertPeerRow, dif_pos hfree] at hrows
    refine ⟨fun p hp => ⟨p, ?_, rfl, rfl⟩, Or.inr ⟨⟨id, endpoint, true⟩, ?_, rfl, hfree⟩⟩
    · rw [hrows]
      exact List.mem_append_left _ hp
    · rw [hrows]
      exact List.mem_append_right _ (List.mem_singleton.mpr rfl)

section request

variable {s : AppState} {grpcBindAddr : Text} {req : AddBucketNode} {faults : AddFaults}
  {raw endpoint id : Text}

theorem namedPeer_derived (hraw : given req.endpoint = some raw) (hid : given req.nodeId = none)
    (hparse : parsePeerEndpoint raw = .ok (endpoint, id)) :
    namedPeer s grpcBindAddr req faults =
      if id = s.config.nodeId then
        .error (badRequest "cannot add the local node via peer URL".toList)
      else if refersToSelf grpcBindAddr endpoint then
        .error (badRequest "endpoint refers to this node".toList)
      else if faults.upsert then .error databaseError
      else .ok (id, upsertPeer s.db id endpoint) := by
  unfold namedPeer
  rw [hraw, hid]
  simp only [hparse, Option.getD_none]

theorem refused_run (hraw : given req.endpoint = some raw) (hid : given req.nodeId = none)
    (hparse : parsePeerEndpoint raw = .ok (endpoint, id))
    (h : RefusedEarly s grpcBindAddr req faults endpoint id) :
    ∃ answer, answer.isFailure = true ∧
      addBucketNode s grpcBindAddr req faults = (answer, s.db) := by
  unfold addBucketNode
  by_cases hpermission : faults.permission = true
  · rw [if_pos hpermission]
    exact ⟨_, rfl, rfl⟩
  rw [if_neg hpermission]
  by_cases hcan : canEditBucketReplication s.db req.actor req.bucketId = false
  · rw [if_pos hcan]
    exact ⟨_, rfl, rfl⟩
  rw [if_neg hcan]
  cases hgb : gbToBytes req.allocatedGb with
  | error msg => exact ⟨_, rfl, rfl⟩
  | ok bytes =>
    simp only [namedPeer_derived hraw hid hparse]
    by_cases hlocal : id = s.config.nodeId
    · rw [if_pos hlocal]
      exact ⟨_, rfl, rfl⟩
    rw [if_neg hlocal]
    by_cases hself : refersToSelf grpcBindAddr endpoint = true
    · rw [if_pos hself]
      exact ⟨_, rfl, rfl⟩
    rw [if_neg hself]
    by_cases hupsert : faults.upsert = true
    · rw [if_pos hupsert]
      exact ⟨_, rfl, rfl⟩
    · unfold RefusedEarly at h
      simp [hpermission, hcan, hgb, hlocal, hself, hupsert] at h

/-- A request that is not refused writes the peer, and the assignment leaves the peers. -/
theorem written_run (hraw : given req.endpoint = some raw) (hid : given req.nodeId = none)
    (hparse : parsePeerEndpoint raw = .ok (endpoint, id))
    (h : ¬ RefusedEarly s grpcBindAddr req faults endpoint id) :
    (addBucketNode s grpcBindAddr req faults).2.clusterPeer =
      (upsertPeer s.db id endpoint).clusterPeer := by
  unfold RefusedEarly at h
  push Not at h
  obtain ⟨hpermission, hcan, hgb, hlocal, hself, hupsert⟩ := h
  unfold addBucketNode
  rw [if_neg hpermission, if_neg hcan]
  cases hbytes : gbToBytes req.allocatedGb with
  | error msg => exact absurd hbytes (hgb msg)
  | ok bytes =>
    simp only [namedPeer_derived hraw hid hparse, if_neg hlocal, if_neg hself, if_neg hupsert]
    by_cases hassign : faults.assign = true
    · rw [if_pos hassign]
    · rw [if_neg hassign]
      cases hedit : assignBucketNode (upsertPeer s.db id endpoint) req.bucketId id bytes
          req.quotaMode with
      | error err => rfl
      | ok db' => exact (assignBucketNode_edits hedit).peers

end request

/-- A request with an endpoint that no registered peer has, and without an id, leaves the
endpoints of the registered peers alone exactly when it is refused before the write, or none
of them has the id that is derived from the host. -/
theorem add_node_keeps_endpoints_iff (s : AppState) (grpcBindAddr : Text) (req : AddBucketNode)
    (faults : AddFaults) (raw endpoint id : Text) (hraw : given req.endpoint = some raw)
    (hid : given req.nodeId = none) (hparse : parsePeerEndpoint raw = .ok (endpoint, id))
    (hnew : ∀ p ∈ s.db.clusterPeer.rows, p.wireguardEndpoint ≠ endpoint) :
    AddsOnly s.db (addBucketNode s grpcBindAddr req faults).2 endpoint
        (addBucketNode s grpcBindAddr req faults).1 ↔
      RefusedEarly s grpcBindAddr req faults endpoint id ∨
        ∀ p ∈ s.db.clusterPeer.rows, p.id ≠ id := by
  by_cases hrefused : RefusedEarly s grpcBindAddr req faults endpoint id
  · obtain ⟨answer, hfailure, hrun⟩ := refused_run hraw hid hparse hrefused
    rw [hrun]
    exact iff_of_true (addsOnly_refused hfailure) (Or.inl hrefused)
  · rw [or_iff_right hrefused]
    exact addsOnly_upsert_iff hnew (written_run hraw hid hparse hrefused)

/-- A node with the peer `db.a`, and an account with the Owner role. -/
def registered : AppState :=
  { AppState.migrated "node-1".toList with
    db := { upsertPeer Db.migrated "node-db-a".toList "db.a:50051".toList with
      accountRole := [⟨1, 1⟩] } }

def addEndpoint (endpoint : Text) : AddBucketNode where
  actor := 1
  bucketId := 1
  nodeId := none
  endpoint := some endpoint
  allocatedGb := some 100

theorem add_node_keeps_endpoints_iff_db_b :
    let run := addBucketNode registered "10.0.0.1:50051".toList (addEndpoint "db.b".toList) {}
    AddsOnly registered.db run.2 "db.b:50051".toList run.1 ↔
      RefusedEarly registered "10.0.0.1:50051".toList (addEndpoint "db.b".toList) {}
          "db.b:50051".toList "node-db-b".toList ∨
        ∀ p ∈ registered.db.clusterPeer.rows, p.id ≠ "node-db-b".toList :=
  add_node_keeps_endpoints_iff registered "10.0.0.1:50051".toList (addEndpoint "db.b".toList) {}
    "db.b".toList "db.b:50051".toList "node-db-b".toList (by decide) (by decide) (by decide)
    (by decide)

/-- A peer on the host `db-a` takes the place of the one on the host `db.a`. -/
theorem added_node_replaces_peer :
    let run := addBucketNode registered "10.0.0.1:50051".toList (addEndpoint "db-a".toList) {}
    parsePeerEndpoint "db-a".toList = .ok ("db-a:50051".toList, "node-db-a".toList) ∧
      (∀ p ∈ registered.db.clusterPeer.rows, p.wireguardEndpoint ≠ "db-a:50051".toList) ∧
      run.1 = .noContent ∧
      registered.db.clusterPeer.rows = [⟨"node-db-a".toList, "db.a:50051".toList, true⟩] ∧
      run.2.clusterPeer.rows = [⟨"node-db-a".toList, "db-a:50051".toList, true⟩] := by
  decide +kernel

end MyS3.PeerEndpoints
