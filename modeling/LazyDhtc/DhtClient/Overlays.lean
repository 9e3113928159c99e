-- SUMMARY: The services of a manager are separate overlays: each table has addresses of its own family, and a message for one service does no more to another than probe an address.
import LazyDhtc.DhtClient.IndexingService

/-!
# Overlays

All that a message for one service can do to another are probes, by the handler that the
manager has set. A probe leaves the routing table and the pending queries of the other
service as they are.
-/

namespace DhtClient

open Transition

/-! ## The system -/

inductive ManagerAction (n : Nat) where
  | receive (i : Fin n) (msg : Message) (addr : AddrPort)
  | runMaintenance (i : Fin n) (lookups : List (List Bytes × UInt16))
  | updateTokenSecret (i : Fin n)
  | terminate

def Manager.act {n : Nat} (env : Environment) (m : Manager n) : ManagerAction n → Manager n
  | .receive i msg addr => m.receive env i msg addr
  | .runMaintenance i lookups => m.runMaintenance env i lookups
  | .updateTokenSecret i => m.updateTokenSecret env i
  | .terminate => m.terminate

/-- A manager that handles messages of its services, one after the other. -/
def managerSystem (env : Environment) (endpoints : List ListenEndpoint) (interval : Int)
    (maxNeighbors : UInt64) :
    System (Manager endpoints.length) (ManagerAction endpoints.length) where
  init m := ∃ startup, m = Manager.new endpoints interval maxNeighbors startup
  step m a m' := m' = m.act env a

/-- Every node of the table has a 20-byte ID and an address of the family of the network, with
    a port. -/
def IndexingService.OwnFamily (s : IndexingService) : Prop :=
  ∀ node ∈ s.routingTable.snapshot, node.id.toList.length = 20 ∧ node.addr.port ≠ 0 ∧
    (s.network = ascii "udp4" → node.addr.addr.is4 = true) ∧
    (s.network = ascii "udp6" → node.addr.addr.is6 = true)

/-- What a probe does to the service: the transport takes the query or not. -/
def IndexingService.probed (s : IndexingService) (addr : AddrPort) (now : Int) (target : Bytes)
    (taken : Bool) : IndexingService :=
  { s with
    probeCache := s.probeCache.insert addr.addr now
    probes := s.probes ++ [⟨addr, now⟩]
    sent := if taken then s.sent ++ [(newFindNodeQuery s.nodeID target s.want, addr)] else s.sent }

/-- A probe, at some call, of an address that is not in the table, and whose IP address no
    probe has been sent to for ten minutes. -/
def IndexingService.Probes (env : Environment) (s s' : IndexingService) : Prop :=
  ∃ (addr : AddrPort) (call : Nat) (target : Bytes) (taken : Bool),
    s.routingTable.containsAddr addr = false ∧
    (∀ p ∈ s.probes, p.addr.addr = addr.addr → p.time + tenMinutes ≤ env.now call) ∧
    s' = s.probed addr (env.now call) target taken

/-! ## The invariant -/

/-- A probe is in the cache with this or a later time, or it was ten minutes ago at some
    earlier call. -/
def IndexingService.ProbesCached (env : Environment) (calls : Nat) (s : IndexingService) : Prop :=
  ∀ p ∈ s.probes, (∃ last, s.probeCache.lookup p.addr.addr = some last ∧ p.time ≤ last) ∨
    ∃ j < calls, p.time + tenMinutes ≤ env.now j

structure Manager.Sound {n : Nat} (env : Environment) (m : Manager n) : Prop where
  cached : ∀ k, (m.services k).ProbesCached env m.calls
  ipv6Service : ∀ j, m.ipv6Service = some j → (m.services j).network = ascii "udp6"

/-- What handling a message of service `i` may do. -/
structure Isolated {n : Nat} (env : Environment) (i : Fin n) (m m' : Manager n) : Prop where
  network : ∀ k, (m'.services k).network = (m.services k).network
  own : (m.services i).OwnFamily → (m'.services i).OwnFamily
  others : ∀ k ≠ i, m'.services k = m.services k ∨
    (m.services i).network = ascii "udp4" ∧ (m.services k).network = ascii "udp6" ∧
      Relation.ReflTransGen (IndexingService.Probes env) (m.services k) (m'.services k)

/-- A part of a handler of service `i` keeps the invariant and the other services apart. -/
def Handles {n : Nat} (env : Environment) (i : Fin n) (m m' : Manager n) : Prop :=
  m.Sound env → m'.Sound env ∧ Isolated env i m m'

section

variable {n : Nat} {env : Environment} {i : Fin n} {m m' m'' : Manager n}

theorem Isolated.refl : Isolated env i m m := ⟨fun _ => rfl, id, fun _ _ => .inl rfl⟩

theorem Isolated.trans (h : Isolated env i m m') (h' : Isolated env i m' m'') :
    Isolated env i m m'' := by
  refine ⟨fun k => (h'.network k).trans (h.network k), fun hown => h'.own (h.own hown), ?_⟩
  intro k hk
  have hthen := h'.others k hk
  rw [h.network, h.network] at hthen
  rcases h.others k hk with hsame | ⟨hudp4, hudp6, hprobes⟩
  · rw [hsame] at hthen
    exact hthen
  · refine .inr ⟨hudp4, hudp6, ?_⟩
    rcases hthen with hsame' | ⟨-, -, hprobes'⟩
    · rw [hsame']
      exact hprobes
    · exact hprobes.trans hprobes'

theorem Handles.refl : Handles env i m m := fun hm => ⟨hm, .refl⟩

theorem Handles.trans (h : Handles env i m m') (h' : Handles env i m' m'') :
    Handles env i m m'' := fun hm => by
  obtain ⟨hm', hisolated⟩ := h hm
  obtain ⟨hm'', hisolated'⟩ := h' hm'
  exact ⟨hm'', hisolated.trans hisolated'⟩

/-- A loop, if every round keeps the services apart. -/
theorem Handles.foldl {α : Type} {f : Manager n → α → Manager n} {as : List α}
    (h : ∀ m a, Handles env i m (f m a)) (m : Manager n) : Handles env i m (as.foldl f m) := by
  induction as generalizing m with
  | nil => exact .refl
  | cons a as ih => exact (h m a).trans (ih (f m a))

/-! ## Parts of handlers -/

theorem IndexingService.ProbesCached.mono {s : IndexingService} {calls calls' : Nat}
    (h : s.ProbesCached env calls) (hle : calls ≤ calls') : s.ProbesCached env calls' :=
  fun p hp => (h p hp).imp_right fun ⟨j, hj, hold⟩ => ⟨j, Nat.lt_of_lt_of_le hj hle, hold⟩

theorem Manager.Sound.of_services (hm : m.Sound env) (hservices : m'.services = m.services)
    (hipv6 : m'.ipv6Service = m.ipv6Service) (hcalls : m.calls ≤ m'.calls) : m'.Sound env := by
  refine ⟨fun k => ?_, fun j hj => ?_⟩
  · rw [hservices]
    exact (hm.cached k).mono hcalls
  · rw [hservices]
    exact hm.ipv6Service j (hipv6 ▸ hj)

theorem Handles.of_services (hservices : m'.services = m.services)
    (hipv6 : m'.ipv6Service = m.ipv6Service) (hcalls : m.calls ≤ m'.calls) :
    Handles env i m m' := fun hm =>
  ⟨hm.of_services hservices hipv6 hcalls, by
    refine ⟨fun k => ?_, ?_, fun k _ => .inl ?_⟩
    · rw [hservices]
    · rw [hservices]
      exact id
    · rw [hservices]⟩

theorem Handles.tick : Handles env i m m.tick := .of_services rfl rfl (Nat.le_succ _)

/-- The service itself is changed. -/
theorem Handles.update {f : IndexingService → IndexingService}
    (hnetwork : (f (m.services i)).network = (m.services i).network)
    (hown : (m.services i).OwnFamily → (f (m.services i)).OwnFamily)
    (hcached : (m.services i).ProbesCached env m.calls →
      (f (m.services i)).ProbesCached env m.calls) : Handles env i m (m.update i f) := by
  intro hm
  have hself : (m.update i f).services i = f (m.services i) := Function.update_self _ _ _
  have hothers : ∀ k ≠ i, (m.update i f).services k = m.services k := fun k hk =>
    Function.update_of_ne hk _ _
  have hnetworks : ∀ k, ((m.update i f).services k).network = (m.services k).network := by
    intro k
    by_cases hk : k = i
    · rw [hk, hself, hnetwork]
    · rw [hothers k hk]
  refine ⟨⟨fun k => ?_, fun j hj => ?_⟩, hnetworks, ?_, fun k hk => .inl (hothers k hk)⟩
  · by_cases hk : k = i
    · rw [hk, hself]
      exact hcached (hm.cached i)
    · rw [hothers k hk]
      exact hm.cached k
  · rw [hnetworks]
    exact hm.ipv6Service j hj
  · rw [hself]
    exact hown

/-- The change is none of the network, the table or the probes. -/
theorem Handles.update_rest {f : IndexingService → IndexingService}
    (hnetwork : (f (m.services i)).network = (m.services i).network)
    (htable : (f (m.services i)).routingTable = (m.services i).routingTable)
    (hprobes : (f (m.services i)).probes = (m.services i).probes)
    (hcache : (f (m.services i)).probeCache = (m.services i).probeCache) :
    Handles env i m (m.update i f) := by
  refine .update hnetwork ?_ ?_
  · intro hown
    unfold IndexingService.OwnFamily
    rw [htable, hnetwork]
    exact hown
  · intro hcached
    unfold IndexingService.ProbesCached
    rw [hprobes, hcache]
    exact hcached

theorem sendMessage_handles (m : Manager n) (msg : Message) (addr : AddrPort) :
    Handles env i m (m.sendMessage env i msg addr).1 := by
  unfold Manager.sendMessage
  split
  · exact .refl
  split
  · dsimp only
    exact Handles.tick.trans (.update_rest rfl rfl rfl rfl)
  · exact .tick

theorem onIndexingResult_handles (m : Manager n) (res : Result) :
    Handles env i m (m.onIndexingResult env res) := by
  unfold Manager.onIndexingResult
  split
  · exact .of_services rfl rfl (Nat.le_succ _)
  split
  · exact .tick
  · exact .of_services rfl rfl (Nat.le_succ _)

theorem acceptsAddress_family {network : Bytes} {addr : AddrPort}
    (h : acceptsAddress network addr = true) : addr.port ≠ 0 ∧
      (network = ascii "udp4" → addr.addr.is4 = true) ∧
      (network = ascii "udp6" → addr.addr.is6 = true) := by
  obtain ⟨hvalid, hport⟩ := acceptsAddress_valid h
  obtain ⟨addr, port⟩ := addr
  unfold acceptsAddress at h
  rw [if_neg (by simp [hvalid, hport])] at h
  refine ⟨hport, ?_, ?_⟩
  · rintro rfl
    simpa [ascii] using h
  · rintro rfl
    cases addr with
    | invalid => cases hvalid
    | v4 bytes => simp [ascii, Addr.is4] at h
    | v6 bytes zone => rfl

/-- A service adds only nodes that its network accepts. -/
theorem IndexingService.OwnFamily.add {s : IndexingService} (hs : s.OwnFamily) {addr : AddrPort}
    (haddr : acceptsAddress s.network addr = true) (id : Bytes) (seen : Int) :
    IndexingService.OwnFamily { s with routingTable := (s.routingTable.add id addr seen).1 } := by
  intro node hnode
  rcases RoutingTable.mem_add hnode with hnew | hold
  · have hfamily := acceptsAddress_family haddr
    rw [← hnew] at hfamily
    exact ⟨by simp, hfamily⟩
  · exact hs node hold

theorem addNode_handles (m : Manager n) (id : Bytes) (addr : AddrPort) :
    Handles env i m (m.addNode env i id addr) := by
  unfold Manager.addNode
  split
  · exact .refl
  split
  · exact .refl
  next hrefused =>
  have haddr : acceptsAddress (m.services i).network addr = true := by
    simpa using hrefused
  have hadded : Handles env i m (m.tick.update i fun s => { s with
      routingTable := ((m.services i).routingTable.add id addr (env.now m.calls)).1 }) :=
    Handles.tick.trans (.update rfl (fun hown => hown.add haddr id _) fun hcached => hcached)
  dsimp only
  split
  · exact hadded
  · exact hadded.trans (Handles.tick.trans (sendMessage_handles _ _ _))

/-! ## Probes -/

theorem probe_eq (m : Manager n) (j : Fin n) (addr : AddrPort) :
    ∃ taken calls, m.calls < calls ∧ m.probe env j addr = { m with
      calls := calls
      services := Function.update m.services j ((m.services j).probed addr (env.now m.calls)
        (env.random (m.calls + 1)) taken) } := by
  unfold Manager.probe Manager.sendMessage
  dsimp only
  split
  · refine ⟨false, m.calls + 2, by omega, ?_⟩
    simp [Manager.update, Manager.tick, IndexingService.probed]
  split
  · refine ⟨true, m.calls + 3, by omega, ?_⟩
    simp [Manager.update, Manager.tick, IndexingService.probed]
  · refine ⟨false, m.calls + 3, by omega, ?_⟩
    simp [Manager.update, Manager.tick, IndexingService.probed]

theorem IndexingService.ProbesCached.probed {s : IndexingService} {calls calls' : Nat}
    (h : s.ProbesCached env calls) (hle : calls ≤ calls') {addr : AddrPort} {now : Int}
    (hprobes : ∀ p ∈ s.probes, p.addr.addr = addr.addr → p.time + tenMinutes ≤ now)
    (target : Bytes) (taken : Bool) : (s.probed addr now target taken).ProbesCached env calls' := by
  intro p hp
  have hlookup : (s.probed addr now target taken).probeCache.lookup p.addr.addr =
      if p.addr.addr = addr.addr then some now else s.probeCache.lookup p.addr.addr :=
    AList.lookup_insert_eq_ite _ _ _ _
  rw [hlookup]
  rcases List.mem_append.1 hp with hold | hnew
  · by_cases heq : p.addr.addr = addr.addr
    · have hten : 0 ≤ tenMinutes := by decide
      have htime := hprobes p hold heq
      rw [if_pos heq]
      exact .inl ⟨now, rfl, by omega⟩
    · rw [if_neg heq]
      exact h.mono hle p hold
  · obtain rfl := List.mem_singleton.1 hnew
    rw [if_pos rfl]
    exact .inl ⟨now, rfl, Int.le_refl _⟩

/-- A probe of service `j` on behalf of service `i`. -/
theorem probe_handles {m : Manager n} {j : Fin n} (hij : i ≠ j)
    (hudp4 : (m.services i).network = ascii "udp4")
    (hudp6 : (m.services j).network = ascii "udp6") {addr : AddrPort}
    (hcontains : (m.services j).routingTable.containsAddr addr = false)
    (hprobes : m.Sound env → ∀ p ∈ (m.services j).probes, p.addr.addr = addr.addr →
      p.time + tenMinutes ≤ env.now m.calls) : Handles env i m (m.probe env j addr) := by
  intro hm
  have hfresh := hprobes hm
  obtain ⟨taken, calls, hcalls, heq⟩ := @probe_eq n env m j addr
  generalize hprobed : (m.services j).probed addr (env.now m.calls) (env.random (m.calls + 1))
    taken = s at heq
  have hself : (m.probe env j addr).services j = s := by
    rw [heq]
    exact Function.update_self _ _ _
  have hothers : ∀ k ≠ j, (m.probe env j addr).services k = m.services k := fun k hk => by
    rw [heq]
    exact Function.update_of_ne hk _ _
  have hnetwork : ∀ k, ((m.probe env j addr).services k).network = (m.services k).network := by
    intro k
    by_cases hk : k = j
    · rw [hk, hself, ← hprobed]
      rfl
    · rw [hothers k hk]
  have hcalls' : m.calls ≤ (m.probe env j addr).calls := by
    rw [heq]
    exact Nat.le_of_lt hcalls
  refine ⟨⟨fun k => ?_, fun k hk => ?_⟩, hnetwork, ?_, fun k hk => ?_⟩
  · by_cases hk : k = j
    · rw [hk, hself, ← hprobed]
      exact (hm.cached j).probed hcalls' hfresh _ _
    · rw [hothers k hk]
      exact (hm.cached k).mono hcalls'
  · rw [hnetwork]
    rw [heq] at hk
    exact hm.ipv6Service k hk
  · rw [hothers i hij]
    exact id
  · by_cases hkj : k = j
    · rw [hkj, hself]
      exact .inr ⟨hudp4, hudp6, .single ⟨addr, _, _, taken, hcontains, hfresh, hprobed.symm⟩⟩
    · exact .inl (hothers k hkj)

theorem probeBootstrapCandidate_handles {m : Manager n} {j : Fin n} (hij : i ≠ j)
    (hudp4 : (m.services i).network = ascii "udp4")
    (hudp6 : (m.services j).network = ascii "udp6") {addr : AddrPort}
    (hcontains : (m.services j).routingTable.containsAddr addr = false) :
    Handles env i m (m.probeBootstrapCandidate env j addr) := by
  unfold Manager.probeBootstrapCandidate
  split
  · exact .refl
  split
  · next last hlast =>
    split
    · exact .tick
    · next hold =>
      refine Handles.tick.trans (probe_handles (m := m.tick) hij hudp4 hudp6 hcontains ?_)
      intro hm p hp heq
      have hmono : env.now m.calls ≤ env.now (m.calls + 1) := env.monotone _ _ (Nat.le_succ _)
      rcases hm.cached j p hp with ⟨last', hlast', hle⟩ | ⟨k, hk, hle⟩
      · rw [heq] at hlast'
        cases hlast.symm.trans hlast'
        change p.time + tenMinutes ≤ env.now (m.calls + 1)
        omega
      · exact hle.trans (env.monotone _ _ (Nat.le_of_lt hk))
  · next hnone =>
    refine probe_handles hij hudp4 hudp6 hcontains fun hm p hp heq => ?_
    rcases hm.cached j p hp with ⟨last', hlast', -⟩ | ⟨k, hk, hle⟩
    · rw [heq, hnone] at hlast'
      cases hlast'
    · exact hle.trans (env.monotone _ _ (Nat.le_of_lt hk))

theorem handleDiscoveredNode_handles (m : Manager n) (node : CompactNodeInfo) :
    Handles env i m (m.handleDiscoveredNode env i node) := by
  unfold Manager.handleDiscoveredNode
  split
  · exact addNode_handles _ _ _
  split
  · next hcandidate =>
    unfold Manager.onBootstrapCandidate
    split
    · exact .refl
    next j hj =>
    split
    · exact .refl
    · next hcontains =>
      intro hm
      have hudp6 := hm.ipv6Service j hj
      have hij : i ≠ j := by
        rintro rfl
        exact absurd (hcandidate.1.symm.trans hudp6) (by decide)
      exact probeBootstrapCandidate_handles hij hcandidate.1 hudp6 (by simpa using hcontains) hm
  · exact .refl

/-! ## Handlers -/

theorem updateRequests_handles (m : Manager n) (f : IndexingService → Requests) :
    Handles env i m (m.update i fun s => { s with requests := f s }) :=
  .update_rest rfl rfl rfl rfl

theorem requestPeers_handles (m : Manager n) (infoHash : Bytes) (addr : AddrPort) :
    Handles env i m (m.requestPeers env i infoHash addr).1 := by
  unfold Manager.requestPeers
  split
  · exact .refl
  dsimp only
  split
  · exact .tick
  · dsimp only
    exact Handles.tick.trans (updateRequests_handles _ _)
  · next requests t hrequest =>
    have hentered : Handles env i m _ :=
      Handles.tick.trans (updateRequests_handles m.tick fun _ => requests)
    split
    · exact hentered.trans (sendMessage_handles _ _ _)
    · dsimp only
      exact hentered.trans ((sendMessage_handles _ _ _).trans (updateRequests_handles _ _))

theorem addNodes_handles (m : Manager n) (r : ResponseValues) :
    Handles env i m (m.addNodes env i r) :=
  (Handles.foldl (fun _ _ => addNode_handles _ _ _) m).trans
    (.foldl (fun _ _ => handleDiscoveredNode_handles _ _) _)

theorem onGetPeersResponse_handles (m : Manager n) (msg : Message) (addr : AddrPort) :
    Handles env i m (m.onGetPeersResponse env i msg addr) := by
  unfold Manager.onGetPeersResponse
  split
  · exact .refl
  dsimp only
  have hanswered : Handles env i m _ := (addNode_handles m msg.r.id addr).trans
    (updateRequests_handles _ fun _ =>
      (((m.addNode env i msg.r.id addr).services i).requests.onGetPeersResponseLocked msg.t).1)
  split
  · exact hanswered
  split
  · exact hanswered
  · exact hanswered.trans (onIndexingResult_handles _ _)

/-- Handling a message. -/
theorem receive_handles (m : Manager n) (msg : Message) (addr : AddrPort) :
    Handles env i m (m.receive env i msg addr) := by
  unfold Manager.receive
  split
  · exact (addNode_handles _ _ _).trans (sendMessage_handles _ _ _)
  · exact (addNode_handles _ _ _).trans (sendMessage_handles _ _ _)
  · exact (addNode_handles _ _ _).trans (sendMessage_handles _ _ _)
  · unfold Manager.onAnnouncePeerQuery
    split
    · exact .refl
    · exact (onIndexingResult_handles _ _).trans (sendMessage_handles _ _ _)
  · unfold Manager.onFindNodeResponse
    split
    · exact .refl
    · exact (addNode_handles _ _ _).trans (addNodes_handles _ _)
  · exact onGetPeersResponse_handles _ _ _
  · unfold Manager.onSampleInfohashesQuery
    split
    · exact .refl
    · exact sendMessage_handles _ _ _
  · unfold Manager.onSampleInfohashesResponse
    split
    · exact .refl
    · exact (addNode_handles _ _ _).trans
        ((Handles.foldl (fun _ _ => requestPeers_handles _ _ _) _).trans
          ((Handles.foldl (fun _ _ => requestPeers_handles _ _ _) _).trans (addNodes_handles _ _)))
  · exact .refl
  · exact .refl

/-! ## Maintenance -/

theorem bootstrap_handles (m : Manager n) (lookups : List (List Bytes × UInt16)) :
    Handles env i m (m.bootstrap env i lookups) := by
  refine .foldl (fun m lookup => ?_) m
  split
  · exact .refl
  · exact Handles.tick.trans (.foldl (fun _ _ => sendMessage_handles _ _ _) _)

theorem findNeighbors_handles (m : Manager n) : Handles env i m (m.findNeighbors env i) := by
  refine .foldl (fun m node => ?_) m
  split
  · exact .refl
  · exact Handles.tick.trans (sendMessage_handles _ _ _)

/-- Only entries that are ten minutes old go. -/
theorem pruneProbeCache_lookup (s : IndexingService) (now : Int) {addr : Addr} {last : Int}
    (h : s.probeCache.lookup addr = some last) :
    (s.pruneProbeCache now).probeCache.lookup addr = some last ∨ last + tenMinutes ≤ now := by
  by_cases hold : last + tenMinutes ≤ now
  · exact .inr hold
  refine .inl ?_
  have hfold : ∀ (es : List ((_ : Addr) × Int)) (c : GoMap Addr Int),
      (∀ e ∈ es, e.1 = addr → e.2 = last) → c.lookup addr = some last →
      (es.foldl (fun c e => if e.2 < now - tenMinutes then c.erase e.1 else c) c).lookup addr =
        some last := by
    intro es
    induction es with
    | nil => exact fun c _ hc => hc
    | cons e es ih =>
      intro c hes hc
      refine ih _ (fun e' he' => hes e' (List.mem_cons_of_mem _ he')) ?_
      dsimp only
      split
      · next hexpired =>
        have hne : addr ≠ e.1 := by
          intro heq
          have := hes e List.mem_cons_self heq.symm
          omega
        rw [AList.lookup_erase_ne hne]
        exact hc
      · exact hc
  refine hfold _ _ (fun e he heq => ?_) h
  have hmem := AList.mem_entries_iff.1 he
  rw [heq, h] at hmem
  exact (Option.some_inj.1 hmem).symm

theorem pruneProbeCache_handles (m : Manager n) :
    Handles env i m (m.tick.update i fun s => s.pruneProbeCache (env.now m.calls)) := by
  refine Handles.tick.trans (.update rfl (fun hown => hown) fun hcached p hp => ?_)
  rcases hcached p hp with ⟨last, hlast, hle⟩ | hold
  · rcases pruneProbeCache_lookup _ (env.now m.calls) hlast with hkept | hexpired
    · exact .inl ⟨last, hkept, hle⟩
    · exact .inr ⟨m.calls, Nat.lt_succ_self _, by omega⟩
  · exact .inr hold

theorem pruneTable_handles (m : Manager n) (before : Int) :
    Handles env i m (m.update i fun s => { s with routingTable := s.routingTable.prune before }) :=
  .update rfl (fun hown node hnode => hown node (RoutingTable.mem_prune hnode))
    fun hcached => hcached

theorem updateTokenSecret_handles (m : Manager n) :
    Handles env i m (m.updateTokenSecret env i) := by
  unfold Manager.updateTokenSecret
  exact Handles.tick.trans (.update_rest rfl rfl rfl rfl)

theorem runMaintenance_handles (m : Manager n) (lookups : List (List Bytes × UInt16)) :
    Handles env i m (m.runMaintenance env i lookups) := by
  have hfind : Handles env i m
      (if (m.services i).routingTable.size < 8 then m.bootstrap env i lookups else m) := by
    split
    · exact bootstrap_handles m lookups
    · exact .refl
  unfold Manager.runMaintenance
  dsimp only
  refine Handles.trans ?_ ((pruneProbeCache_handles _).trans
    (Handles.tick.trans (updateRequests_handles _ _)))
  split
  · exact hfind.trans ((findNeighbors_handles _).trans
      (Handles.tick.trans (pruneTable_handles _ _)))
  · exact hfind

end

/-! ## Runs -/

/-- The invariant of a run. -/
structure Manager.Good {n : Nat} (env : Environment) (m : Manager n) : Prop where
  sound : m.Sound env
  ownFamily : ∀ k, (m.services k).OwnFamily

theorem probes_table {env : Environment} {s s' : IndexingService}
    (h : Relation.ReflTransGen (IndexingService.Probes env) s s') :
    s'.network = s.network ∧ s'.routingTable = s.routingTable ∧ s'.requests = s.requests := by
  induction h with
  | refl => exact ⟨rfl, rfl, rfl⟩
  | tail _ hprobe ih =>
    obtain ⟨addr, call, target, taken, -, -, rfl⟩ := hprobe
    exact ih

theorem Isolated.table {n : Nat} {env : Environment} {i k : Fin n} {m m' : Manager n}
    (h : Isolated env i m m') (hk : k ≠ i) : (m'.services k).routingTable = (m.services k).routingTable ∧
      (m'.services k).requests = (m.services k).requests := by
  rcases h.others k hk with hsame | ⟨-, -, hprobes⟩
  · rw [hsame]
    exact ⟨rfl, rfl⟩
  · exact (probes_table hprobes).2

theorem Manager.Good.handles {n : Nat} {env : Environment} {i : Fin n} {m m' : Manager n}
    (hm : m.Good env) (h : Handles env i m m') : m'.Good env := by
  obtain ⟨hsound, hisolated⟩ := h hm.sound
  refine ⟨hsound, fun k => ?_⟩
  by_cases hk : k = i
  · rw [hk]
    exact hisolated.own (hm.ownFamily i)
  · unfold IndexingService.OwnFamily
    rw [(hisolated.table hk).1, hisolated.network]
    exact hm.ownFamily k

theorem restoreEntry_mem {network : Bytes} {now : Int} {t : RoutingTable}
    {e : RoutingCacheEntry} {node : RoutingNode}
    (h : node ∈ (restoreEntry network now t e).snapshot) :
    acceptsAddress network node.addr = true ∨ node ∈ t.snapshot := by
  unfold restoreEntry at h
  split at h
  · exact .inr h
  split at h
  · exact .inr h
  split at h
  · exact .inr h
  dsimp only at h
  split at h
  · next haccepts =>
    rcases RoutingTable.mem_add h with hnew | hold
    · exact .inl (hnew ▸ haccepts)
    · exact .inr hold
  · exact .inr h

/-- Only nodes that the network accepts are restored. -/
theorem loadRoutingTable_mem {network : Bytes} {now : Nat → Int} {file : Option Bytes}
    {t : RoutingTable} {node : RoutingNode}
    (h : node ∈ (loadRoutingTable network now file t).snapshot) :
    acceptsAddress network node.addr = true ∨ node ∈ t.snapshot := by
  have hfold : ∀ (es : List (RoutingCacheEntry × Nat)) (t : RoutingTable),
      node ∈ (es.foldl (fun t p => restoreEntry network (now p.2) t p.1) t).snapshot →
      acceptsAddress network node.addr = true ∨ node ∈ t.snapshot := by
    intro es
    induction es with
    | nil => exact fun t h => .inr h
    | cons e es ih => exact fun t h => (ih _ h).elim .inl restoreEntry_mem
  unfold loadRoutingTable at h
  split at h
  · exact .inr h
  split at h
  · exact .inr h
  split at h
  split at h
  · exact hfold _ _ h
  · exact .inr h

theorem new_service (endpoints : List ListenEndpoint) (interval : Int) (maxNeighbors : UInt64)
    (startup : Startup) (i : Fin endpoints.length) :
    ((Manager.new endpoints interval maxNeighbors startup).services i).network =
        (endpoints.get i).network ∧
      ((Manager.new endpoints interval maxNeighbors startup).services i).probes = [] ∧
      ((Manager.new endpoints interval maxNeighbors startup).services i).routingTable =
        loadRoutingTable (endpoints.get i).network (startup.now i)
          (startup.files (endpoints.get i).cachePath) (newRoutingTable (startup.nodeID i) maxNeighbors) := by
  simp only [Manager.new, IndexingService.start]
  split
  · exact ⟨rfl, rfl, rfl⟩
  · exact ⟨rfl, rfl, rfl⟩

theorem Manager.Good.new (env : Environment) (endpoints : List ListenEndpoint) (interval : Int)
    (maxNeighbors : UInt64) (startup : Startup) :
    (Manager.new endpoints interval maxNeighbors startup).Good env := by
  refine ⟨⟨fun k p hp => ?_, fun j hj => ?_⟩, fun k node hnode => ?_⟩
  · rw [(new_service endpoints interval maxNeighbors startup k).2.1] at hp
    exact (List.not_mem_nil hp).elim
  · rw [(new_service endpoints interval maxNeighbors startup j).1]
    have hmem := List.mem_of_getLast? hj
    exact of_decide_eq_true (List.mem_filter.1 hmem).2
  · obtain ⟨hnetwork, -, htable⟩ := new_service endpoints interval maxNeighbors startup k
    rw [htable] at hnode
    rcases loadRoutingTable_mem hnode with haccepts | hempty
    · rw [hnetwork]
      exact ⟨by simp, acceptsAddress_family haccepts⟩
    · simp [newRoutingTable, RoutingTable.snapshot] at hempty

theorem Manager.Good.act {n : Nat} {env : Environment} {m : Manager n} (hm : m.Good env)
    (a : ManagerAction n) : (m.act env a).Good env := by
  cases a with
  | receive i msg addr => exact hm.handles (receive_handles (i := i) m msg addr)
  | runMaintenance i lookups => exact hm.handles (runMaintenance_handles (i := i) m lookups)
  | updateTokenSecret i => exact hm.handles (updateTokenSecret_handles (i := i) m)
  | terminate => exact ⟨⟨hm.sound.cached, hm.sound.ipv6Service⟩, hm.ownFamily⟩

/-- In every state, each table has addresses of its own family only; and a message for one
    service leaves the table and the pending queries of each other service as they are. It
    leaves all of another service as it is, unless it is for a `udp4` service: then it may
    probe, for the `udp6` service, addresses that are not in its table and have not been
    probed for ten minutes. -/
theorem overlays_isolated {env : Environment} {endpoints : List ListenEndpoint} {interval : Int}
    {maxNeighbors : UInt64} {m : Manager endpoints.length}
    (h : (managerSystem env endpoints interval maxNeighbors).Reachable m) :
    (∀ k, (m.services k).OwnFamily) ∧
    ∀ i msg addr, ∀ k ≠ i,
      ((m.receive env i msg addr).services k).routingTable = (m.services k).routingTable ∧
      ((m.receive env i msg addr).services k).requests = (m.services k).requests ∧
      ((m.receive env i msg addr).services k = m.services k ∨
        (m.services i).network = ascii "udp4" ∧ (m.services k).network = ascii "udp6" ∧
          Relation.ReflTransGen (IndexingService.Probes env) (m.services k)
            ((m.receive env i msg addr).services k)) := by
  have hm : m.Good env := by
    refine System.invariant (P := Manager.Good env) ?_ ?_ h
    · rintro _ ⟨startup, rfl⟩
      exact .new env endpoints interval maxNeighbors startup
    · rintro m a _ - hm rfl
      exact hm.act a
  refine ⟨hm.ownFamily, fun i msg addr k hk => ?_⟩
  obtain ⟨-, hisolated⟩ := receive_handles (i := i) m msg addr hm.sound
  obtain ⟨htable, hrequests⟩ := hisolated.table hk
  exact ⟨htable, hrequests, hisolated.others k hk⟩

/-! ## A candidate -/

def quietEnvironment : Environment where
  now _ := 0
  monotone _ _ _ := Int.le_refl _
  random _ := List.replicate 20 7
  ready _ := true
  order _ entries := entries
  perm _ _ := .refl _
  sha1 b := b

def dualStack : List ListenEndpoint := [⟨ascii "udp4", []⟩, ⟨ascii "udp6", []⟩]

def dualStackManager : Manager 2 :=
  .new dualStack (seconds 10) 16 ⟨fun _ => List.replicate 20 1, fun _ => List.replicate 20 2,
    fun _ _ => 0, fun _ => none⟩

/-- A response with an IPv6 node. -/
def candidateResponse : Message :=
  { y := ascii "r", t := ascii "aa",
    r := { id := List.replicate 20 3,
           nodes6 := [⟨List.replicate 20 4, ⟨.v6 (Vector.replicate 16 0x20) [], 6881⟩⟩] } }

/-- The IPv6 node is probed by the other service and enters no table. -/
theorem overlays_isolated_candidate :
    ((dualStackManager.receive quietEnvironment 0 candidateResponse
      ⟨.v4 #v[192, 0, 2, 1], 6881⟩).services 1).probes.length = 1 ∧
    ((dualStackManager.receive quietEnvironment 0 candidateResponse
      ⟨.v4 #v[192, 0, 2, 1], 6881⟩).services 1).routingTable =
        (dualStackManager.services 1).routingTable := by
  have hreach : (managerSystem quietEnvironment dualStack (seconds 10) 16).Reachable
      dualStackManager := .init ⟨_, rfl⟩
  exact ⟨by decide +kernel, ((overlays_isolated hreach).2 ⟨0, by decide⟩ candidateResponse _
    ⟨1, by decide⟩ (by decide)).1⟩

end DhtClient
