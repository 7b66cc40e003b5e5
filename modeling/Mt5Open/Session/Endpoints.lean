import Mathlib.Data.List.Rotate
import Mt5Open.Lib.Net
import Mt5Open.Lib.Run
import Mt5Open.Native.Sync

/-!
# Bootstrap addresses and learned access points

A pool holds the routes to the servers: the seeds that the caller gave, and the
access points that an authenticated session has advertised.  A connect resolves the
routes and dials what they resolve to, and a seed may be a private address but an
advertised route may not.

Name resolution and the network are given to each connect: what a name resolves to,
and how each attempt to connect ends.  The peer of a session is what its socket reports,
and a connection to an unspecified address reaches the machine itself.
-/

namespace Mt5Open.Session

open Lib.Net Native

structure Route where
  address : String
  learned : Bool
  deriving DecidableEq, Repr

structure EndpointPool where
  routes : List Route
  lastPeer : Option SocketAddr
  deriving DecidableEq, Repr

def validAddress (address : String) : Bool :=
  match parseSocketAddr address with
  | some socket => socket.port != 0
  | none =>
    match rsplitOnce ':' address.toList with
    | none => false
    | some (host, port) =>
      !host.isEmpty && host.length ≤ 253 &&
        (host.all fun c => c.isAlphanum || c == '.' || c == '-') &&
          (parseU16 port).any (· != 0)

/-- The branch of `public_address` for IPv4. -/
def publicIpv4 (ip : Ipv4Addr) : Bool :=
  !(ip.isPrivate || ip.isLoopback || ip.isLinkLocal || ip.isUnspecified || ip.isBroadcast ||
    ip.isMulticast)

def publicAddress : SocketAddr → Bool
  | .v4 ip _ => publicIpv4 ip
  | .v6 ip _ _ _ =>
    !(ip.isLoopback || ip.isUnspecified || ip.isMulticast || ip.isUniqueLocal ||
      ip.isUnicastLinkLocal) && ip.toIpv4Mapped.all publicIpv4

/-- `to_socket_addrs` on a text: a literal address, or what the resolver answers. -/
def toSocketAddrs (resolve : String → Option (List SocketAddr)) (address : String) :
    Option (List SocketAddr) :=
  match parseSocketAddr address with
  | some socket => some [socket]
  | none => resolve address

/-- How an attempt to connect ends: the deadline for all attempts had passed before
it, the peer could not be reached, the socket could not be set up, or it is connected.
The flow and the scope of an IPv6 peer are those that the system reports. -/
inductive Attempt where
  | expired
  | refused
  | unusable
  | connected (flowinfo scopeId : UInt32)
  deriving DecidableEq, Repr

/-- Where a connection to an IPv4 address ends. -/
def reachedIpv4 (ip : Ipv4Addr) : Ipv4Addr := if ip.isUnspecified then .localhost else ip

/-- Where a connection to an IPv6 address ends. -/
def reachedIpv6 (ip : Ipv6Addr) : Ipv6Addr :=
  if ip.isUnspecified then .localhost
  else if ip.toIpv4Mapped.any (·.isUnspecified) then .mappedLocalhost
  else ip

/-- `peer_addr` of a socket that was connected to this address. -/
def peerAddr (flowinfo scopeId : UInt32) : SocketAddr → SocketAddr
  | .v4 ip port => .v4 (reachedIpv4 ip) port
  | .v6 ip port _ _ => .v6 (reachedIpv6 ip) port flowinfo scopeId

/-- The loop of `Connection::connect`: the targets that are dialed, and the peer of
the connection if there is one. -/
def dial : List SocketAddr → List Attempt → List SocketAddr × Option SocketAddr
  | target :: targets, .refused :: attempts =>
    (target :: (dial targets attempts).1, (dial targets attempts).2)
  | target :: _, .unusable :: _ => ([target], none)
  | target :: _, .connected flowinfo scopeId :: _ =>
    ([target], some (peerAddr flowinfo scopeId target))
  | _, _ => ([], none)

namespace EndpointPool

/-- One round of the loop in `EndpointPool::new`. -/
def addSeed (routes : List Route) (address : String) : Result (List Route) :=
  if !validAddress address then reject "invalid native bootstrap address"
  else if routes.any (·.address == address) then .ok routes
  else .ok (routes ++ [{ address, learned := false }])

/-- The comma-separated addresses. -/
def seedList (seeds : String) : List String :=
  (seeds.toList.splitOn ',').map fun seed => .ofList (trim seed)

/-- `EndpointPool::new`. -/
def new (seeds : String) : Result EndpointPool := do
  let routes ← (seedList seeds).foldlM addSeed []
  if routes = [] ∨ 32 < routes.length then reject "native bootstrap requires 1..32 addresses"
  else return { routes, lastPeer := none }

/-- The loop of `EndpointPool::learn`. -/
def learnRoutes (routes : List Route) : List String → List Route
  | [] => routes
  | address :: rest =>
    if 64 ≤ routes.length then routes
    else if validAddress address && !routes.any (·.address == address) then
      learnRoutes (routes ++ [{ address, learned := true }]) rest
    else learnRoutes routes rest

/-- `EndpointPool::learn`. -/
def learn (pool : EndpointPool) (points : List AccessPoint) : EndpointPool :=
  { pool with routes := learnRoutes pool.routes (points.flatMap (·.addresses)) }

/-- `EndpointPool::authenticated`. -/
def authenticated (pool : EndpointPool) (peer : SocketAddr) : EndpointPool :=
  { pool with lastPeer := some peer }

/-- One round over the addresses of a route. -/
def addTarget (learned : Bool) (targets : List SocketAddr) (address : SocketAddr) :
    List SocketAddr :=
  if learned && !publicAddress address then targets
  else if targets.length < 64 ∧ address ∉ targets then targets ++ [address]
  else targets

/-- One round over the routes. -/
def addRoute (resolve : String → Option (List SocketAddr)) (targets : List SocketAddr)
    (route : Route) : List SocketAddr :=
  match toSocketAddrs resolve route.address with
  | none => targets
  | some addresses => addresses.foldl (addTarget route.learned) targets

/-- The addresses that a connect tries, the preferred one first. -/
def targets (pool : EndpointPool) (resolve : String → Option (List SocketAddr)) :
    List SocketAddr :=
  pool.routes.foldl (addRoute resolve) pool.lastPeer.toList

/-- `EndpointPool::connect`: what it dials, the peer of the session that it returns,
and the pool behind it. -/
def connect (pool : EndpointPool) (resolve : String → Option (List SocketAddr))
    (attempts : List Attempt) : List SocketAddr × Option SocketAddr × EndpointPool :=
  let (dialed, peer) := dial (pool.targets resolve) attempts
  (dialed, peer, { routes := pool.routes.rotate 1, lastPeer := none })

end EndpointPool

/-! ## Runs -/

/-- What is done with a pool. -/
inductive Action where
  | learn (points : List AccessPoint)
  | connect (resolve : String → Option (List SocketAddr)) (attempts : List Attempt)
  | authenticated (peer : SocketAddr)

/-- A pool, and the peers of the sessions that its connects have returned. -/
structure World where
  pool : EndpointPool
  peers : List SocketAddr
  deriving DecidableEq

/-- One action.  Only the peer of a session is authenticated. -/
def act (w : World) : Action → Option World
  | .learn points => some { w with pool := w.pool.learn points }
  | .connect resolve attempts =>
    let (_, peer, pool) := w.pool.connect resolve attempts
    some { pool, peers := w.peers ++ peer.toList }
  | .authenticated peer =>
    if peer ∈ w.peers then some { w with pool := w.pool.authenticated peer } else none

/-- An explicit seed has resolved to the address in one of the connects. -/
def SeedResolved (seeds : String) (actions : List Action) (address : SocketAddr) : Prop :=
  ∃ resolve attempts, Action.connect resolve attempts ∈ actions ∧
    ∃ seed ∈ EndpointPool.seedList seeds, ∃ addresses,
      toSocketAddrs resolve seed = some addresses ∧ address ∈ addresses

/-- The address of a seed, or the peer of a connection to it. -/
def SeedReached (seeds : String) (actions : List Action) (address : SocketAddr) : Prop :=
  ∃ target, SeedResolved seeds actions target ∧
    (address = target ∨ ∃ flowinfo scopeId, address = peerAddr flowinfo scopeId target)

/-- The peers that were authenticated since the last connect. -/
def authenticatedSince (actions : List Action) : List SocketAddr :=
  actions.foldl (fun peers action =>
    match action with
    | .learn _ => peers
    | .connect _ _ => []
    | .authenticated peer => peers ++ [peer]) []

/-- The routes of a pool with these seeds. -/
structure Routes (seeds : String) (routes : List Route) : Prop where
  length_pos : 1 ≤ routes.length
  length_le : routes.length ≤ 64
  nodup : (routes.map Route.address).Nodup
  valid : ∀ r ∈ routes, validAddress r.address
  seeded : ∀ seed ∈ EndpointPool.seedList seeds, Route.mk seed false ∈ routes
  explicit : ∀ r ∈ routes, r.learned = false → r.address ∈ EndpointPool.seedList seeds

/-- A route with a new address. -/
theorem nodup_append {routes : List Route} {address : String} {learned : Bool}
    (h : (routes.map Route.address).Nodup) (hnew : ∀ r ∈ routes, ¬(r.address == address)) :
    ((routes ++ [Route.mk address learned]).map Route.address).Nodup := by
  rw [List.map_append, List.map_singleton]
  refine List.Nodup.append h (List.nodup_singleton _) fun a ha hsingle => ?_
  obtain ⟨r, hr, rfl⟩ := List.mem_map.mp ha
  exact hnew r hr (beq_iff_eq.mpr (List.mem_singleton.mp hsingle))

/-- The routes behind these seeds. -/
structure Seeded (seeds : List String) (routes : List Route) : Prop where
  nodup : (routes.map Route.address).Nodup
  valid : ∀ r ∈ routes, validAddress r.address
  mem_iff : ∀ r, r ∈ routes ↔ r.learned = false ∧ r.address ∈ seeds

theorem Seeded.addSeed {seeds : List String} {routes next : List Route} {address : String}
    (h : Seeded seeds routes) (hadd : EndpointPool.addSeed routes address = .ok next) :
    Seeded (seeds ++ [address]) next := by
  unfold EndpointPool.addSeed at hadd
  split at hadd
  · cases hadd
  rename_i hvalid
  rw [Bool.not_eq_true', Bool.not_eq_false] at hvalid
  split at hadd
  · rename_i hold
    cases hadd
    obtain ⟨old, hmem, heq⟩ := List.any_eq_true.mp hold
    rw [beq_iff_eq] at heq
    refine ⟨h.nodup, h.valid, fun r => ?_⟩
    rw [h.mem_iff, List.mem_append, List.mem_singleton]
    refine and_congr_right fun _ => ⟨.inl, fun hr => hr.elim id fun hr => ?_⟩
    rw [hr, ← heq]
    exact ((h.mem_iff old).mp hmem).2
  · rename_i hnew
    cases hadd
    refine ⟨nodup_append h.nodup (List.any_eq_false.mp (Bool.eq_false_iff.mpr hnew)), ?_, ?_⟩
    · intro r hr
      rcases List.mem_append.mp hr with hr | hr
      · exact h.valid r hr
      · rw [List.mem_singleton.mp hr]
        exact hvalid
    · intro r
      rw [List.mem_append, h.mem_iff, List.mem_append, List.mem_singleton, List.mem_singleton]
      obtain ⟨other, learned⟩ := r
      rw [Route.mk.injEq]
      tauto

theorem Seeded.foldlM {seeds addresses : List String} {routes final : List Route}
    (h : Seeded seeds routes) (hfold : addresses.foldlM EndpointPool.addSeed routes = .ok final) :
    Seeded (seeds ++ addresses) final := by
  induction addresses generalizing seeds routes with
  | nil =>
    cases hfold
    rw [List.append_nil]
    exact h
  | cons address addresses ih =>
    rw [List.foldlM_cons] at hfold
    obtain ⟨next, hadd, hrest⟩ := Lib.except_bind_eq_ok.mp hfold
    have hfinal := ih (h.addSeed hadd) hrest
    rwa [List.append_assoc] at hfinal

namespace Routes

variable {seeds : String} {routes : List Route}

theorem rotate (h : Routes seeds routes) : Routes seeds (routes.rotate 1) where
  length_pos := by
    rw [List.length_rotate]
    exact h.length_pos
  length_le := by
    rw [List.length_rotate]
    exact h.length_le
  nodup := by
    rw [List.map_rotate]
    exact List.nodup_rotate.mpr h.nodup
  valid r hr := h.valid r (List.mem_rotate.mp hr)
  seeded seed hseed := List.mem_rotate.mpr (h.seeded seed hseed)
  explicit r hr := h.explicit r (List.mem_rotate.mp hr)

theorem learn (h : Routes seeds routes) (addresses : List String) :
    Routes seeds (EndpointPool.learnRoutes routes addresses) := by
  induction addresses generalizing routes with
  | nil => exact h
  | cons address rest ih =>
    rw [EndpointPool.learnRoutes]
    split
    · exact h
    rename_i hroom
    split
    · rename_i hnew
      rw [Bool.and_eq_true, Bool.not_eq_true', List.any_eq_false] at hnew
      refine ih ⟨?_, ?_, ?_, ?_, ?_, ?_⟩
      · rw [List.length_append]
        exact Nat.le_trans h.length_pos (Nat.le_add_right _ _)
      · rw [List.length_append, List.length_singleton]
        omega
      · exact nodup_append h.nodup hnew.2
      · intro r hr
        rcases List.mem_append.mp hr with hr | hr
        · exact h.valid r hr
        · rw [List.mem_singleton.mp hr]
          exact hnew.1
      · exact fun seed hseed => List.mem_append_left _ (h.seeded seed hseed)
      · intro r hr hlearned
        rcases List.mem_append.mp hr with hr | hr
        · exact h.explicit r hr hlearned
        · rw [List.mem_singleton.mp hr] at hlearned
          cases hlearned
    · exact ih h

end Routes

/-! ## One connect -/

/-- The targets behind these first ones, each of which is allowed. -/
structure Targets (first : List SocketAddr) (allowed : SocketAddr → Prop)
    (targets : List SocketAddr) : Prop where
  starts : first <+: targets
  nodup : targets.Nodup
  length_le : targets.length ≤ 64
  allowed : ∀ address ∈ targets, address ∈ first ∨ allowed address

namespace Targets

variable {first targets : List SocketAddr} {allowed : SocketAddr → Prop}

theorem addTarget (h : Targets first allowed targets) {learned : Bool} {address : SocketAddr}
    (hallowed : (learned = true → publicAddress address = true) → allowed address) :
    Targets first allowed (EndpointPool.addTarget learned targets address) := by
  unfold EndpointPool.addTarget
  split
  · exact h
  rename_i hguard
  split
  · rename_i hroom
    obtain ⟨hroom, hnew⟩ := hroom
    refine ⟨h.starts.trans (List.prefix_append _ _), ?_, ?_, ?_⟩
    · exact List.Nodup.append h.nodup (List.nodup_singleton _) fun a ha hsingle =>
        hnew (List.mem_singleton.mp hsingle ▸ ha)
    · rw [List.length_append, List.length_singleton]
      exact hroom
    · intro a ha
      rcases List.mem_append.mp ha with ha | ha
      · exact h.allowed a ha
      · rw [List.mem_singleton.mp ha]
        refine .inr (hallowed fun hlearned => ?_)
        simpa [hlearned] using hguard
  · exact h

theorem addRoute (h : Targets first allowed targets)
    {resolve : String → Option (List SocketAddr)} {route : Route}
    (hallowed : ∀ addresses, toSocketAddrs resolve route.address = some addresses →
      ∀ address ∈ addresses, (route.learned = true → publicAddress address = true) →
        allowed address) :
    Targets first allowed (EndpointPool.addRoute resolve targets route) := by
  unfold EndpointPool.addRoute
  split
  · exact h
  · rename_i addresses hresolved
    refine List.foldlRecOn addresses _ h fun _ hbefore address hmem => ?_
    exact hbefore.addTarget (hallowed addresses hresolved address hmem)

end Targets

/-- A remembered peer stands first, and the others are what routes have resolved to. -/
theorem targets_connect (pool : EndpointPool) (resolve : String → Option (List SocketAddr)) :
    Targets pool.lastPeer.toList
      (fun address => ∃ route ∈ pool.routes, ∃ addresses,
        toSocketAddrs resolve route.address = some addresses ∧ address ∈ addresses ∧
          (route.learned = true → publicAddress address = true))
      (pool.targets resolve) := by
  unfold EndpointPool.targets
  refine List.foldlRecOn pool.routes _ ?_ fun _ hbefore route hroute => ?_
  · refine ⟨List.prefix_rfl, ?_, ?_, fun address h => .inl h⟩
    · cases pool.lastPeer with
      | none => exact List.nodup_nil
      | some peer => exact List.nodup_singleton peer
    · cases pool.lastPeer with
      | none => exact Nat.zero_le _
      | some peer => exact Nat.le_of_ble_eq_true rfl
  · exact hbefore.addRoute fun addresses hresolved address hmem hpublic =>
      ⟨route, hroute, addresses, hresolved, hmem, hpublic⟩

/-- The targets are dialed in their order. -/
theorem dialed_of_targets (targets : List SocketAddr) (attempts : List Attempt) :
    (dial targets attempts).1 <+: targets := by
  fun_induction dial targets attempts with
  | case1 target targets attempts ih => exact List.cons_prefix_cons.mpr ⟨rfl, ih⟩
  | case2 target targets attempts => exact List.prefix_append [target] targets
  | case3 target targets attempts => exact List.prefix_append [target] targets
  | case4 targets attempts => exact List.nil_prefix

/-- A session is with the peer of one of the targets that were dialed. -/
theorem mem_dialed {targets : List SocketAddr} {attempts : List Attempt} {peer : SocketAddr}
    (h : (dial targets attempts).2 = some peer) :
    ∃ target ∈ (dial targets attempts).1, ∃ flowinfo scopeId,
      peer = peerAddr flowinfo scopeId target := by
  fun_induction dial targets attempts with
  | case1 target targets attempts ih =>
    obtain ⟨dialed, hmem, hpeer⟩ := ih h
    exact ⟨dialed, List.mem_cons_of_mem _ hmem, hpeer⟩
  | case2 target targets attempts => cases h
  | case3 target targets flowinfo scopeId attempts =>
    exact ⟨target, List.mem_singleton_self target, flowinfo, scopeId, (Option.some.inj h).symm⟩
  | case4 targets attempts => cases h

/-! ## The peer of a connection -/

theorem reachedIpv4_idem (ip : Ipv4Addr) : reachedIpv4 (reachedIpv4 ip) = reachedIpv4 ip := by
  by_cases hany : ip.isUnspecified = true
  · rw [reachedIpv4, reachedIpv4, if_pos hany]
    rfl
  · rw [reachedIpv4, reachedIpv4, if_neg hany, if_neg hany]

theorem reachedIpv6_idem (ip : Ipv6Addr) : reachedIpv6 (reachedIpv6 ip) = reachedIpv6 ip := by
  by_cases hany : ip.isUnspecified = true
  · have hreached : reachedIpv6 ip = .localhost := if_pos hany
    rw [hreached]
    decide
  by_cases hmapped : ip.toIpv4Mapped.any (·.isUnspecified) = true
  · have hreached : reachedIpv6 ip = .mappedLocalhost := by
      rw [reachedIpv6, if_neg hany, if_pos hmapped]
    rw [hreached]
    decide
  · have hreached : reachedIpv6 ip = ip := by rw [reachedIpv6, if_neg hany, if_neg hmapped]
    rw [hreached, hreached]

/-- The peer of a connection to a peer is that peer, up to the flow and the scope. -/
theorem peerAddr_peerAddr (flowinfo scopeId flowinfo' scopeId' : UInt32) (target : SocketAddr) :
    peerAddr flowinfo scopeId (peerAddr flowinfo' scopeId' target) =
      peerAddr flowinfo scopeId target := by
  cases target with
  | v4 ip port => rw [peerAddr, peerAddr, peerAddr, reachedIpv4_idem]
  | v6 ip port flow scope => rw [peerAddr, peerAddr, peerAddr, reachedIpv6_idem]

/-- A public address is its own peer. -/
theorem publicAddress_peerAddr {flowinfo scopeId : UInt32} {target : SocketAddr}
    (h : publicAddress target = true) :
    publicAddress (peerAddr flowinfo scopeId target) = true := by
  have hipv4 : ∀ ip : Ipv4Addr, publicIpv4 ip = true → ip.isUnspecified = false := by
    intro ip hip
    simp only [publicIpv4, Bool.not_eq_true', Bool.or_eq_false_iff] at hip
    exact hip.1.1.2
  cases target with
  | v4 ip port =>
    rw [peerAddr, reachedIpv4, if_neg (Bool.eq_false_iff.mp (hipv4 ip h))]
    exact h
  | v6 ip port flow scope =>
    have hpublic := h
    simp only [publicAddress, Bool.and_eq_true, Bool.not_eq_true', Bool.or_eq_false_iff] at h
    have hany : ¬ip.isUnspecified = true := Bool.eq_false_iff.mp h.1.1.1.1.2
    have hmapped : ¬ip.toIpv4Mapped.any (·.isUnspecified) = true := by
      cases hv4 : ip.toIpv4Mapped with
      | none => exact Bool.false_ne_true
      | some v4 =>
        rw [hv4] at h
        exact Bool.eq_false_iff.mp (hipv4 v4 h.2)
    rw [peerAddr, reachedIpv6, if_neg hany, if_neg hmapped]
    exact hpublic

/-! ## Every run -/

/-- The address of an explicit seed or the peer there, or a public one. -/
def Admitted (seeds : String) (actions : List Action) (address : SocketAddr) : Prop :=
  SeedReached seeds actions address ∨ publicAddress address = true

theorem Admitted.append {seeds : String} {actions : List Action} {address : SocketAddr}
    (h : Admitted seeds actions address) (action : Action) :
    Admitted seeds (actions ++ [action]) address := by
  rcases h with ⟨target, ⟨resolve, attempts, hmem, hseed⟩, hreached⟩ | hpublic
  · exact .inl ⟨target, ⟨resolve, attempts, List.mem_append_left _ hmem, hseed⟩, hreached⟩
  · exact .inr hpublic

theorem Admitted.peerAddr {seeds : String} {actions : List Action} {address : SocketAddr}
    (h : Admitted seeds actions address) (flowinfo scopeId : UInt32) :
    Admitted seeds actions (peerAddr flowinfo scopeId address) := by
  rcases h with ⟨target, hseed, rfl | ⟨flow, scope, rfl⟩⟩ | hpublic
  · exact .inl ⟨_, hseed, .inr ⟨flowinfo, scopeId, rfl⟩⟩
  · exact .inl ⟨target, hseed, .inr ⟨flowinfo, scopeId, peerAddr_peerAddr _ _ _ _ _⟩⟩
  · exact .inr (publicAddress_peerAddr hpublic)

/-- What holds after these actions. -/
structure Inv (seeds : String) (actions : List Action) (w : World) : Prop where
  routes : Routes seeds w.pool.routes
  lastPeer : w.pool.lastPeer = (authenticatedSince actions).getLast?
  peers : ∀ peer ∈ w.peers, Admitted seeds actions peer
  remembered : ∀ peer, w.pool.lastPeer = some peer → peer ∈ w.peers

namespace Inv

variable {seeds : String} {actions : List Action} {w : World}

/-- What a connect dials. -/
theorem admitted_of_mem_dialed (h : Inv seeds actions w)
    {resolve : String → Option (List SocketAddr)} {attempts : List Attempt} {address : SocketAddr}
    (hmem : address ∈ (dial (w.pool.targets resolve) attempts).1) :
    Admitted seeds (actions ++ [.connect resolve attempts]) address := by
  have htarget := (dialed_of_targets _ _).subset hmem
  rcases (targets_connect w.pool resolve).allowed address htarget with hfirst | hroute
  · exact (h.peers address (h.remembered address (Option.mem_toList.mp hfirst))).append _
  · obtain ⟨route, hroute, addresses, hresolved, hin, hpublic⟩ := hroute
    -- an advertised route is public, and an explicit one has resolved just now
    cases hlearned : route.learned with
    | true => exact .inr (hpublic hlearned)
    | false =>
      refine .inl ⟨address, ⟨resolve, attempts, ?_, route.address, ?_⟩, .inl rfl⟩
      · exact List.mem_append_right _ (List.mem_singleton_self _)
      · exact ⟨h.routes.explicit route hroute hlearned, addresses, hresolved, hin⟩

theorem learn (h : Inv seeds actions w) (points : List AccessPoint) :
    Inv seeds (actions ++ [.learn points]) { w with pool := w.pool.learn points } where
  routes := h.routes.learn _
  lastPeer := by
    rw [authenticatedSince, List.foldl_append]
    exact h.lastPeer
  peers peer hpeer := (h.peers peer hpeer).append _
  remembered := h.remembered

theorem connect (h : Inv seeds actions w) (resolve : String → Option (List SocketAddr))
    (attempts : List Attempt) :
    Inv seeds (actions ++ [.connect resolve attempts])
      { pool := (w.pool.connect resolve attempts).2.2
        peers := w.peers ++ (w.pool.connect resolve attempts).2.1.toList } where
  routes := h.routes.rotate
  lastPeer := by
    rw [authenticatedSince, List.foldl_append]
    rfl
  peers peer hpeer := by
    rcases List.mem_append.mp hpeer with hold | hnew
    · exact (h.peers peer hold).append _
    · obtain ⟨target, hdialed, flowinfo, scopeId, rfl⟩ := mem_dialed (Option.mem_toList.mp hnew)
      exact (h.admitted_of_mem_dialed hdialed).peerAddr flowinfo scopeId
  remembered peer hpeer := by cases hpeer

theorem authenticated (h : Inv seeds actions w) {peer : SocketAddr} (hmem : peer ∈ w.peers) :
    Inv seeds (actions ++ [.authenticated peer])
      { w with pool := w.pool.authenticated peer } where
  routes := h.routes
  lastPeer := by
    rw [authenticatedSince, List.foldl_append]
    exact List.getLast?_concat.symm
  peers other hother := (h.peers other hother).append _
  remembered other hother := Option.some.inj hother ▸ hmem

theorem step (h : Inv seeds actions w) {action : Action} {next : World}
    (hact : act w action = some next) : Inv seeds (actions ++ [action]) next := by
  cases action with
  | learn points =>
    obtain rfl := Option.some.inj hact
    exact h.learn points
  | connect resolve attempts =>
    obtain rfl := Option.some.inj hact
    exact h.connect resolve attempts
  | authenticated peer =>
    obtain ⟨hmem, hnext⟩ := Option.ite_none_right_eq_some.mp hact
    obtain rfl := Option.some.inj hnext
    exact h.authenticated hmem

end Inv

end Mt5Open.Session
