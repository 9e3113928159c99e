-- SUMMARY: What a service sends over whole runs of its manager: queries of its own, one reply at most for each query, and every requested info hash sent or counted.
import LazyDhtc.DhtClient.HandlerCalls
import LazyDhtc.DhtClient.Overlays
import LazyDhtc.DhtClient.PeerStrings
import LazyDhtc.DhtClient.Transport

/-!
# Serving

The handlers share the functions by which a service asks: it probes, bootstraps, samples and
requests peers. Whatever they do, they send nothing but queries, and count the requests for
peers that come to nothing. A reply is only sent at the end of the handler of a query.
-/

namespace DhtClient

open Transition

/-! ## Queries -/

/-- The queries that a service with this node ID sends. -/
inductive OwnQuery (env : Environment) (id : Bytes) : Message → Prop where
  | findNode {call : Nat} {want : List Bytes} :
      OwnQuery env id (newFindNodeQuery id (env.random call) want)
  | sampleInfohashes {call : Nat} {want : List Bytes} :
      OwnQuery env id (newSampleInfohashesQuery id (ascii "aa") (env.random call) want)
  | getPeers {infoHash t : Bytes} {want : List Bytes} :
      infoHash.length = 20 ∨ infoHash.length = 32 →
      OwnQuery env id { newGetPeersQuery id infoHash want with t := t }

theorem OwnQuery.y_eq {env : Environment} {id : Bytes} {msg : Message}
    (h : OwnQuery env id msg) : msg.y = ascii "q" := by
  cases h <;> rfl

/-- The requests for peers that came to nothing: rejected, doubles, or not sent. -/
def Requests.lost (s : Requests) : Nat :=
  s.requestsRejected + s.requestsDeduped + s.requestsSendDropped

/-- The requests for peers that have been sent or counted. -/
def IndexingService.accounted (s : IndexingService) : Nat :=
  s.sent.countP (fun p => queueOf p.1 = .sendChan) + s.requests.lost

namespace IndexingService

/-- What a service makes of itself while it requests peers `calls` times. -/
structure Asks (env : Environment) (calls : Nat) (s s' : IndexingService) : Prop where
  nodeID : s'.nodeID = s.nodeID
  stopped : s'.stopped = s.stopped
  sent : ∃ asked, s'.sent = s.sent ++ asked ∧ ∀ p ∈ asked, OwnQuery env s.nodeID p.1
  requests : s.requests.Inv → s'.requests.Inv ∧ s'.accounted = s.accounted + calls

variable {env : Environment} {s s' s'' : IndexingService} {c c' : Nat}

theorem Asks.refl : Asks env 0 s s where
  nodeID := rfl
  stopped := rfl
  sent := ⟨[], (List.append_nil _).symm, fun _ hp => (List.not_mem_nil hp).elim⟩
  requests h := ⟨h, rfl⟩

theorem Asks.trans (h : Asks env c s s') (h' : Asks env c' s' s'') : Asks env (c + c') s s'' where
  nodeID := h'.nodeID.trans h.nodeID
  stopped := h'.stopped.trans h.stopped
  sent := by
    obtain ⟨asked, hsent, hasked⟩ := h.sent
    obtain ⟨asked', hsent', hasked'⟩ := h'.sent
    refine ⟨asked ++ asked', by rw [hsent', hsent, List.append_assoc], fun p hp => ?_⟩
    rcases List.mem_append.1 hp with hp | hp
    · exact hasked p hp
    · exact h.nodeID ▸ hasked' p hp
  requests hinv := by
    obtain ⟨hinv', hcount⟩ := h.requests hinv
    obtain ⟨hinv'', hcount'⟩ := h'.requests hinv'
    exact ⟨hinv'', by rw [hcount', hcount, Nat.add_assoc]⟩

/-- Nothing changes that is sent or counted. -/
theorem Asks.of_eq (hnodeID : s'.nodeID = s.nodeID) (hstopped : s'.stopped = s.stopped)
    (hsent : s'.sent = s.sent) (hrequests : s'.requests = s.requests) : Asks env 0 s s' where
  nodeID := hnodeID
  stopped := hstopped
  sent := ⟨[], by rw [hsent, List.append_nil], fun _ hp => (List.not_mem_nil hp).elim⟩
  requests hinv := by
    refine ⟨hrequests ▸ hinv, ?_⟩
    unfold accounted
    rw [hsent, hrequests, Nat.add_zero]

/-- The table of pending queries changes, and none of its counters. -/
theorem Asks.of_requests {r : Requests} (hinv : s.requests.Inv → r.Inv)
    (hlost : r.lost = s.requests.lost) : Asks env 0 s { s with requests := r } where
  nodeID := rfl
  stopped := rfl
  sent := ⟨[], (List.append_nil _).symm, fun _ hp => (List.not_mem_nil hp).elim⟩
  requests h := by
    refine ⟨hinv h, ?_⟩
    unfold accounted
    rw [hlost, Nat.add_zero]

/-- A query other than `get_peers` is put into its queue. -/
theorem Asks.of_sent {msg : Message} {addr : AddrPort} (h : OwnQuery env s.nodeID msg)
    (hq : msg.q ≠ ascii "get_peers") : Asks env 0 s { s with sent := s.sent ++ [(msg, addr)] } where
  nodeID := rfl
  stopped := rfl
  sent := ⟨_, rfl, fun p hp => by rw [List.mem_singleton.1 hp]; exact h⟩
  requests hinv := by
    refine ⟨hinv, ?_⟩
    have hqueue : queueOf msg ≠ .sendChan := by simp [queueOf, h.y_eq, hq]
    simp [accounted, hqueue]

end IndexingService

/-- A part of a handler of service `i` that requests peers `calls` times. -/
def Asks {n : Nat} (env : Environment) (i : Fin n) (calls : Nat) (m m' : Manager n) : Prop :=
  ∀ k, (m.services k).Asks env (if k = i then calls else 0) (m'.services k)

section

variable {n : Nat} {env : Environment} {i : Fin n} {m m' m'' : Manager n} {c c' : Nat}

theorem Asks.of_services (h : m'.services = m.services) : Asks env i 0 m m' := by
  intro k
  rw [h, ite_self]
  exact .refl

theorem Asks.refl : Asks env i 0 m m := .of_services rfl

theorem Asks.trans (h : Asks env i c m m') (h' : Asks env i c' m' m'') :
    Asks env i (c + c') m m'' := by
  intro k
  have hk := (h k).trans (h' k)
  split at hk
  · next heq => rwa [if_pos heq]
  · next hne => rwa [if_neg hne]

theorem Asks.then (h : Asks env i c m m') (h' : Asks env i 0 m' m'') : Asks env i c m m'' :=
  h.trans h'

theorem Asks.after (h : Asks env i 0 m m') (h' : Asks env i c m' m'') : Asks env i c m m'' := by
  simpa using h.trans h'

theorem Asks.foldl {α : Type} {f : Manager n → α → Manager n} {as : List α}
    (h : ∀ m a, Asks env i 0 m (f m a)) (m : Manager n) : Asks env i 0 m (as.foldl f m) := by
  induction as generalizing m with
  | nil => exact .refl
  | cons a as ih => exact (h m a).then (ih (f m a))

/-- A loop of which each round requests peers once, while the service is not stopped. -/
theorem Asks.foldl_one {α : Type} {f : Manager n → α → Manager n} (as : List α)
    (h : ∀ m, ∀ a ∈ as, (m.services i).stopped = false → Asks env i 1 m (f m a)) {m : Manager n}
    (hm : (m.services i).stopped = false) : Asks env i as.length m (as.foldl f m) := by
  induction as generalizing m with
  | nil => exact .refl
  | cons a as ih =>
    have hfirst := h m a List.mem_cons_self hm
    have hrest := ih (fun m b hb => h m b (List.mem_cons_of_mem _ hb))
      ((hfirst i).stopped.trans hm)
    rw [List.length_cons, Nat.add_comm]
    exact hfirst.trans hrest

/-! ## Parts of handlers -/

theorem Asks.tick : Asks env i 0 m m.tick := .of_services rfl

theorem Asks.of_update {s : IndexingService} (h : (m.services i).Asks env c s)
    (hservices : m'.services = Function.update m.services i s) : Asks env i c m m' := by
  intro k
  rw [hservices]
  by_cases hk : k = i
  · rw [hk, if_pos rfl, Function.update_self]
    exact h
  · rw [if_neg hk, Function.update_of_ne hk]
    exact .refl

/-- Another service, or the same one, is changed without a request for peers. -/
theorem Asks.of_other {j : Fin n} {s : IndexingService} (h : (m.services j).Asks env 0 s)
    (hservices : m'.services = Function.update m.services j s) : Asks env i 0 m m' := by
  intro k
  rw [hservices, ite_self]
  by_cases hk : k = j
  · rw [hk, Function.update_self]
    exact h
  · rw [Function.update_of_ne hk]
    exact .refl

theorem Asks.update {j : Fin n} {f : IndexingService → IndexingService}
    (h : (m.services j).Asks env 0 (f (m.services j))) : Asks env i 0 m (m.update j f) :=
  .of_other h rfl

/-- The transport takes the message, or nothing happens to any service. -/
theorem sendMessage_cases (m : Manager n) (j : Fin n) (msg : Message) (addr : AddrPort) :
    ((m.sendMessage env j msg addr).2 = true ∧ (m.sendMessage env j msg addr).1.services =
      Function.update m.services j
        { m.services j with sent := (m.services j).sent ++ [(msg, addr)] }) ∨
    ((m.sendMessage env j msg addr).2 = false ∧
      (m.sendMessage env j msg addr).1.services = m.services) := by
  unfold Manager.sendMessage
  split
  · exact .inr ⟨rfl, rfl⟩
  split
  · exact .inl ⟨rfl, rfl⟩
  · exact .inr ⟨rfl, rfl⟩

theorem sendMessage_asks {j : Fin n} {msg : Message} {addr : AddrPort}
    (h : OwnQuery env (m.services j).nodeID msg) (hq : msg.q ≠ ascii "get_peers") :
    Asks env i 0 m (m.sendMessage env j msg addr).1 := by
  rcases @sendMessage_cases n env m j msg addr with ⟨-, hsent⟩ | ⟨-, hsame⟩
  · exact .of_other (.of_sent h hq) hsent
  · exact .of_services hsame

theorem onIndexingResult_asks (m : Manager n) (res : Result) :
    Asks env i 0 m (m.onIndexingResult env res) :=
  .of_services (Manager.services_onIndexingResult env m res)

theorem addNode_asks (m : Manager n) (j : Fin n) (id : Bytes) (addr : AddrPort) :
    Asks env i 0 m (m.addNode env j id addr) := by
  unfold Manager.addNode
  split
  · exact .refl
  split
  · exact .refl
  dsimp only
  have hadded : Asks env i 0 m (m.tick.update j fun s => { s with
      routingTable := ((m.services j).routingTable.add id addr (env.now m.calls)).1 }) :=
    Asks.tick.then (.update (.of_eq rfl rfl rfl rfl))
  split
  · exact hadded
  · have hq : ascii "sample_infohashes" ≠ ascii "get_peers" := by decide
    exact hadded.then (Asks.tick.then (sendMessage_asks .sampleInfohashes hq))

theorem probe_asks (m : Manager n) (j : Fin n) (addr : AddrPort) :
    Asks env i 0 m (m.probe env j addr) := by
  unfold Manager.probe
  dsimp only
  have hq : ascii "find_node" ≠ ascii "get_peers" := by decide
  exact (Asks.tick.then (.update (.of_eq rfl rfl rfl rfl))).then
    (Asks.tick.then (sendMessage_asks .findNode hq))

theorem probeBootstrapCandidate_asks (m : Manager n) (j : Fin n) (addr : AddrPort) :
    Asks env i 0 m (m.probeBootstrapCandidate env j addr) := by
  unfold Manager.probeBootstrapCandidate
  split
  · exact .refl
  split
  · split
    · exact .tick
    · exact Asks.tick.then (probe_asks _ _ _)
  · exact probe_asks _ _ _

theorem handleDiscoveredNode_asks (m : Manager n) (j : Fin n) (node : CompactNodeInfo) :
    Asks env i 0 m (m.handleDiscoveredNode env j node) := by
  unfold Manager.handleDiscoveredNode
  split
  · exact addNode_asks _ _ _ _
  split
  · unfold Manager.onBootstrapCandidate
    split
    · exact .refl
    split
    · exact .refl
    · exact probeBootstrapCandidate_asks _ _ _
  · exact .refl

theorem addNodes_asks (m : Manager n) (j : Fin n) (r : ResponseValues) :
    Asks env i 0 m (m.addNodes env j r) :=
  (Asks.foldl (fun _ _ => addNode_asks _ _ _ _) m).then
    (.foldl (fun _ _ => handleDiscoveredNode_asks _ _ _) _)

/-! ## Requests for peers -/

theorem lost_remove (s : Requests) (t : TransactionID) (e : GetPeersEntry) :
    (s.removeGetPeersRequestLocked t e).lost = s.lost := rfl

theorem lost_expireStep (cutoff : Int) (acc : Requests × Option Int)
    (e : (_ : TransactionID) × GetPeersEntry) :
    (Requests.expireStep cutoff acc e).1.lost = acc.1.lost := by
  unfold Requests.expireStep
  split
  · exact lost_remove _ _ _
  · cases acc.2 <;> rfl

theorem lost_expire (s : Requests) (now : Int)
    (order : List ((_ : TransactionID) × GetPeersEntry)) :
    (s.expireOldGetPeersRequestsLocked now order).lost = s.lost := by
  have hfold : ∀ acc : Requests × Option Int, (order.foldl
      (Requests.expireStep (now - getPeersRequestTimeout)) acc).1.lost = acc.1.lost := by
    induction order with
    | nil => exact fun acc => rfl
    | cons e order ih => exact fun acc => (ih _).trans (lost_expireStep _ acc e)
  have hall : (Requests.expireOldGetPeersRequestsLocked.expireAll s now order).lost = s.lost :=
    hfold (s, none)
  unfold Requests.expireOldGetPeersRequestsLocked
  cases s.nextRequestExpiry with
  | none => exact hall
  | some expiry =>
    dsimp only
    split
    · rfl
    · exact hall

/-- A request that gets no transaction ID is counted. -/
theorem lost_requestPeersLocked {s s' : Requests} {infoHash : Bytes} {now : Int}
    {order : List ((_ : TransactionID) × GetPeersEntry)} {t : Option TransactionID}
    (h : s.requestPeersLocked infoHash now order = some (s', t)) :
    s'.lost = s.lost + if t.isSome then 0 else 1 := by
  have hexpire := lost_expire s now order
  unfold Requests.requestPeersLocked at h
  generalize s.expireOldGetPeersRequestsLocked now order = s₁ at hexpire h
  unfold Requests.lost at hexpire ⊢
  dsimp only at h
  split at h
  · cases h
    simp only [Option.isSome_none, Bool.false_eq_true, if_false]
    omega
  split at h
  · cases h
    simp only [Option.isSome_none, Bool.false_eq_true, if_false]
    omega
  split at h
  · cases h
  · cases h
    exact hexpire

theorem lost_rollback (s : Requests) (t : TransactionID) :
    (s.rollbackLocked t).lost = s.lost + 1 := by
  unfold Requests.rollbackLocked Requests.lost
  split
  · exact (Nat.add_assoc _ _ _).symm
  · exact (Nat.add_assoc _ _ _).symm

/-- A request that is entered is sent, or taken back and counted. -/
theorem IndexingService.Asks.of_entered {s : IndexingService} {requests : Requests}
    (hinv : s.requests.Inv → requests.Inv) (hlost : requests.lost = s.requests.lost)
    {infoHash : Bytes} (hlen : infoHash.length = 20 ∨ infoHash.length = 32) (t : TransactionID)
    (want : List Bytes) (addr : AddrPort) :
    Asks env 1 s { s with
        requests := requests
        sent := s.sent ++ [({ newGetPeersQuery s.nodeID infoHash want with t := t.bytes }, addr)] } ∧
      Asks env 1 s { s with requests := requests.rollbackLocked t } := by
  refine ⟨⟨rfl, rfl, ⟨_, rfl, ?_⟩, fun h => ⟨hinv h, ?_⟩⟩,
    ⟨rfl, rfl, ⟨[], (List.append_nil _).symm, ?_⟩, fun h => ⟨(hinv h).rollback t, ?_⟩⟩⟩
  · intro p hp
    rw [List.mem_singleton.1 hp]
    exact .getPeers hlen
  · have hqueue : queueOf { newGetPeersQuery s.nodeID infoHash want with t := t.bytes } =
        .sendChan := rfl
    simp only [accounted, List.countP_append, List.countP_singleton, hqueue, hlost, decide_true,
      if_true]
    omega
  · exact fun _ hp => (List.not_mem_nil hp).elim
  · simp only [accounted, lost_rollback, hlost]
    omega

theorem requestPeers_asks (hstopped : (m.services i).stopped = false) {infoHash : Bytes}
    (hlen : infoHash.length = 20 ∨ infoHash.length = 32) (addr : AddrPort) :
    Asks env i 1 m (m.requestPeers env i infoHash addr).1 := by
  unfold Manager.requestPeers
  rw [if_neg (by simp [hstopped])]
  dsimp only
  have hspec : (m.services i).requests.Inv → ∃ s' t, (m.services i).requests.requestPeersLocked
      infoHash (env.now m.calls) (env.order m.calls
        (m.services i).requests.getPeersRequests.entries) = some (s', t) ∧ s'.Inv := by
    intro hinv
    obtain ⟨s', t, hlocked, hinv', -⟩ := hinv.requestPeers infoHash (env.now m.calls)
      (env.perm m.calls (m.services i).requests.getPeersRequests.entries)
    exact ⟨s', t, hlocked, hinv'⟩
  split
  · next hnone =>
    refine .of_update (s := m.services i) ⟨rfl, rfl, ⟨[], (List.append_nil _).symm, ?_⟩, ?_⟩
      (Function.update_eq_self i m.services).symm
    · exact fun _ hp => (List.not_mem_nil hp).elim
    · intro hinv
      obtain ⟨s', t, hlocked, -⟩ := hspec hinv
      rw [hnone] at hlocked
      cases hlocked
  · next requests hrefused =>
    refine .of_update (s := { m.services i with requests := requests })
      ⟨rfl, rfl, ⟨[], (List.append_nil _).symm, ?_⟩, ?_⟩ rfl
    · exact fun _ hp => (List.not_mem_nil hp).elim
    · intro hinv
      obtain ⟨s', t, hlocked, hinv'⟩ := hspec hinv
      rw [hrefused] at hlocked
      cases hlocked
      have hlost := lost_requestPeersLocked hrefused
      refine ⟨hinv', ?_⟩
      simp only [IndexingService.accounted, hlost]
      rfl
  · next requests t hentered =>
    have hlost : requests.lost = (m.services i).requests.lost := lost_requestPeersLocked hentered
    have hinv : (m.services i).requests.Inv → requests.Inv := by
      intro hinv
      obtain ⟨s', t', hlocked, hinv'⟩ := hspec hinv
      rw [hentered] at hlocked
      cases hlocked
      exact hinv'
    obtain ⟨hsent, hback⟩ := IndexingService.Asks.of_entered hinv hlost hlen t
      (m.services i).want addr
    generalize hm₁ : m.tick.update i (fun s => { s with requests := requests }) = m₁
    have hservices : m₁.services = Function.update m.services i
        { m.services i with requests := requests } := by
      rw [← hm₁]
      rfl
    have hself : m₁.services i = { m.services i with requests := requests } := by
      rw [hservices, Function.update_self]
    rw [hself]
    rcases @sendMessage_cases n env m₁ i
      { newGetPeersQuery (m.services i).nodeID infoHash (m.services i).want with t := t.bytes } addr
      with ⟨htaken, htakes⟩ | ⟨hrefused, hsame⟩
    · rw [if_pos htaken]
      refine .of_update hsent ?_
      rw [htakes, hself, hservices, Function.update_idem]
    · rw [if_neg (by simp [hrefused])]
      refine .of_update hback ?_
      simp only [Manager.update, hsame, hself, hservices, Function.update_idem]

/-! ## Replies -/

/-- The nodes of a reply: eight at most, in the list of their family, with IDs of 20 bytes. -/
structure ServedNodes (nodes nodes6 : List CompactNodeInfo) : Prop where
  length_le : nodes.length + nodes6.length ≤ 8
  is4 : ∀ node ∈ nodes, node.addr.addr.is4 = true ∧ node.id.length = 20
  not_is4 : ∀ node ∈ nodes6, node.addr.addr.is4 = false ∧ node.id.length = 20

/-- The replies that a service with this node ID sends to a query. -/
inductive OwnReply (env : Environment) (id : Bytes) (query : Message) : Message → Prop where
  | basic : OwnReply env id query (newBasicResponse query.t id)
  | nodes {nodes nodes6 : List CompactNodeInfo} : ServedNodes nodes nodes6 →
      OwnReply env id query (newNodeResponse query.t id nodes nodes6)
  | getPeers {secret : Bytes} {nodes nodes6 : List CompactNodeInfo} : ServedNodes nodes nodes6 →
      OwnReply env id query (newGetPeersResponse query.t id (env.sha1 secret) nodes nodes6)
  | samples {interval : Int64} {nodes nodes6 : List CompactNodeInfo} : ServedNodes nodes nodes6 →
      OwnReply env id query (newSampleInfohashesResponse query.t id interval nodes nodes6 0 [])

theorem splitNodes_served (entries : List RoutingNode) {nodes nodes6 : List CompactNodeInfo}
    (h : ServedNodes nodes nodes6) (hlt : nodes.length + nodes6.length < 8) :
    ServedNodes (IndexingService.splitNodes 8 entries nodes nodes6).1
      (IndexingService.splitNodes 8 entries nodes nodes6).2 := by
  induction entries generalizing nodes nodes6 with
  | nil => exact h
  | cons entry entries ih =>
    have hid : entry.id.toList.length = 20 := by simp
    unfold IndexingService.splitNodes
    dsimp only
    by_cases hfamily : entry.addr.addr.is4 = true
    · have hnext : ServedNodes (nodes ++ [⟨entry.id.toList, entry.addr⟩]) nodes6 := by
        refine ⟨by simp; omega, fun node hnode => ?_, h.not_is4⟩
        rcases List.mem_append.1 hnode with hnode | hnode
        · exact h.is4 node hnode
        · rw [List.mem_singleton.1 hnode]
          exact ⟨hfamily, hid⟩
      rw [if_pos hfamily]
      split
      · exact hnext
      · next hfull => exact ih hnext (Nat.lt_of_not_le hfull)
    · have hnext : ServedNodes nodes (nodes6 ++ [⟨entry.id.toList, entry.addr⟩]) := by
        refine ⟨by simp; omega, h.is4, fun node hnode => ?_⟩
        rcases List.mem_append.1 hnode with hnode | hnode
        · exact h.not_is4 node hnode
        · rw [List.mem_singleton.1 hnode]
          exact ⟨by simpa using hfamily, hid⟩
      rw [if_neg hfamily]
      split
      · exact hnext
      · next hfull => exact ih hnext (Nat.lt_of_not_le hfull)

theorem responseNodes_served (s : IndexingService) (target : Bytes) :
    ServedNodes (s.responseNodes target 8).1 (s.responseNodes target 8).2 :=
  splitNodes_served _ ⟨by simp, fun _ h => (List.not_mem_nil h).elim,
    fun _ h => (List.not_mem_nil h).elim⟩ (by simp)

/-! ## Handlers -/

/-- What a message makes of the services: queries are sent, and then a reply may be sent if the
    message is a query. -/
structure Serves (env : Environment) (i : Fin n) (calls : Nat) (msg : Message) (addr : AddrPort)
    (m m' : Manager n) : Prop where
  split : ∃ m₁ : Manager n, Asks env i calls m m₁ ∧ (m'.services = m₁.services ∨
    msg.y = ascii "q" ∧ ∃ reply, OwnReply env (m.services i).nodeID msg reply ∧
      m'.services = Function.update m₁.services i
        { m₁.services i with sent := (m₁.services i).sent ++ [(reply, addr)] })

variable {msg : Message} {addr : AddrPort}

theorem Serves.of_asks (h : Asks env i c m m') : Serves env i c msg addr m m' := ⟨m', h, .inl rfl⟩

/-- The end of the handler of a query. -/
theorem Serves.of_reply {m₁ : Manager n} (h : Asks env i 0 m m₁) (hy : msg.y = ascii "q")
    {reply : Message} (hreply : OwnReply env (m.services i).nodeID msg reply) :
    Serves env i 0 msg addr m (m₁.sendMessage env i reply addr).1 := by
  rcases @sendMessage_cases n env m₁ i reply addr with ⟨-, htakes⟩ | ⟨-, hsame⟩
  · exact ⟨m₁, h, .inr ⟨hy, reply, hreply, htakes⟩⟩
  · exact ⟨m₁, h, .inl hsame⟩

/-- The handler is for queries. -/
def Handler.isQuery : Handler → Bool
  | .onPingQuery => true
  | .onFindNodeQuery => true
  | .onGetPeersQuery => true
  | .onAnnouncePeerQuery => true
  | .onSampleInfohashesQuery => true
  | _ => false

theorem onMessage_query {handler : Handler} (h : onMessage msg = some handler)
    (hquery : handler.isQuery = true) : msg.y = ascii "q" := by
  by_contra hy
  rw [onMessage, if_neg hy] at h
  split_ifs at h <;> cases h <;> cases hquery

/-- The requests for peers that a message leads to. -/
def Manager.requestCalls (m : Manager n) (i : Fin n) (msg : Message) : Nat :=
  if onMessage msg = some .onSampleInfohashesResponse ∧ (m.services i).stopped = false then
    (groups 20 msg.r.samples).length + msg.r.samples2.length
  else 0

theorem sampleResponse_asks (hstopped : (m.services i).stopped = false) (msg : Message)
    (addr : AddrPort) : Asks env i ((groups 20 msg.r.samples).length + msg.r.samples2.length) m
      (m.onSampleInfohashesResponse env i msg addr) := by
  unfold Manager.onSampleInfohashesResponse
  rw [if_neg (by simp [hstopped])]
  have hnode : Asks env i 0 m (m.addNode env i msg.r.id addr) := addNode_asks m i msg.r.id addr
  have hstopped₁ := (hnode i).stopped.trans hstopped
  have hsamples := Asks.foldl_one (groups 20 msg.r.samples) (fun m h hmem hm =>
    show Asks env i 1 m (m.requestPeers env i h addr).1 from
      requestPeers_asks hm (.inl (length_of_mem_groups hmem)) addr) hstopped₁
  have hstopped₂ := (hsamples i).stopped.trans hstopped₁
  have hsamples2 := Asks.foldl_one msg.r.samples2 (fun m h _ hm =>
    show Asks env i 1 m (m.requestPeers env i (padTo 32 h) addr).1 from
      requestPeers_asks hm (.inr (length_padTo 32 h)) addr) hstopped₂
  exact (hnode.after (hsamples.trans hsamples2)).then (addNodes_asks _ _ _)

theorem getPeersResponse_asks (m : Manager n) (msg : Message) (addr : AddrPort) :
    Asks env i 0 m (m.onGetPeersResponse env i msg addr) := by
  unfold Manager.onGetPeersResponse
  split
  · exact .refl
  dsimp only
  have hnode : Asks env i 0 m (m.addNode env i msg.r.id addr) := addNode_asks m i msg.r.id addr
  generalize m.addNode env i msg.r.id addr = m₁ at hnode
  have hlost : ((m₁.services i).requests.onGetPeersResponseLocked msg.t).1.lost =
      (m₁.services i).requests.lost := by
    unfold Requests.onGetPeersResponseLocked
    split
    · exact lost_remove _ _ _
    · rfl
  have hanswered := hnode.then (.update (f := fun s => { s with
    requests := ((m₁.services i).requests.onGetPeersResponseLocked msg.t).1 })
    (.of_requests (fun hinv => hinv.response msg.t) hlost))
  split
  · exact hanswered
  split
  · exact hanswered
  · exact hanswered.then (onIndexingResult_asks _ _)

theorem requestCalls_of_ne {handler : Handler} (h : onMessage msg = some handler)
    (hne : handler ≠ .onSampleInfohashesResponse) : m.requestCalls i msg = 0 := by
  rw [Manager.requestCalls, h, if_neg]
  rintro ⟨heq, -⟩
  exact hne (Option.some.inj heq)

@[simp]
theorem addNode_nodeID (m : Manager n) (j : Fin n) (id : Bytes) (addr : AddrPort) :
    ((m.addNode env j id addr).services i).nodeID = (m.services i).nodeID :=
  (addNode_asks (i := i) m j id addr i).nodeID

theorem receive_serves (m : Manager n) (msg : Message) (addr : AddrPort) :
    Serves env i (m.requestCalls i msg) msg addr m (m.receive env i msg addr) := by
  unfold Manager.receive
  split
  · next h =>
    rw [requestCalls_of_ne h (by decide)]
    refine .of_reply (addNode_asks m i msg.a.id addr) (onMessage_query h rfl) ?_
    rw [addNode_nodeID]
    exact .basic
  · next h =>
    rw [requestCalls_of_ne h (by decide)]
    refine .of_reply (addNode_asks m i msg.a.id addr) (onMessage_query h rfl) ?_
    rw [addNode_nodeID]
    exact .nodes (responseNodes_served _ _)
  · next h =>
    rw [requestCalls_of_ne h (by decide)]
    refine .of_reply (addNode_asks m i msg.a.id addr) (onMessage_query h rfl) ?_
    rw [addNode_nodeID]
    exact .getPeers (responseNodes_served _ _)
  · next h =>
    rw [requestCalls_of_ne h (by decide)]
    unfold Manager.onAnnouncePeerQuery
    split
    · exact .of_asks .refl
    · refine .of_reply (onIndexingResult_asks m _) (onMessage_query h rfl) ?_
      rw [Manager.services_onIndexingResult]
      exact .basic
  · next h =>
    rw [requestCalls_of_ne h (by decide)]
    unfold Manager.onFindNodeResponse
    split
    · exact .of_asks .refl
    · exact .of_asks ((addNode_asks _ _ _ _).then (addNodes_asks _ _ _))
  · next h =>
    rw [requestCalls_of_ne h (by decide)]
    exact .of_asks (getPeersResponse_asks m msg addr)
  · next h =>
    rw [requestCalls_of_ne h (by decide)]
    unfold Manager.onSampleInfohashesQuery
    split
    · exact .of_asks .refl
    · exact .of_reply .refl (onMessage_query h rfl) (.samples (responseNodes_served _ _))
  · next h =>
    by_cases hstopped : (m.services i).stopped = false
    · rw [Manager.requestCalls, if_pos ⟨h, hstopped⟩]
      exact .of_asks (sampleResponse_asks hstopped msg addr)
    · rw [Manager.requestCalls, if_neg (fun hboth => hstopped hboth.2)]
      unfold Manager.onSampleInfohashesResponse
      rw [if_pos (by simpa using hstopped)]
      exact .of_asks .refl
  · next h =>
    rw [requestCalls_of_ne h (by decide)]
    exact .of_asks .refl
  · next h =>
    rw [Manager.requestCalls, h, if_neg (by simp)]
    exact .of_asks .refl

/-! ## Maintenance -/

theorem bootstrap_asks (m : Manager n) (j : Fin n) (lookups : List (List Bytes × UInt16)) :
    Asks env i 0 m (m.bootstrap env j lookups) := by
  have hq : ascii "find_node" ≠ ascii "get_peers" := by decide
  refine .foldl (fun m lookup => ?_) m
  split
  · exact .refl
  · exact Asks.tick.then (.foldl (fun _ _ => sendMessage_asks .findNode hq) _)

theorem findNeighbors_asks (m : Manager n) (j : Fin n) :
    Asks env i 0 m (m.findNeighbors env j) := by
  have hq : ascii "sample_infohashes" ≠ ascii "get_peers" := by decide
  refine .foldl (fun m node => ?_) m
  split
  · exact .refl
  · exact Asks.tick.then (sendMessage_asks .sampleInfohashes hq)

theorem runMaintenance_asks (m : Manager n) (j : Fin n) (lookups : List (List Bytes × UInt16)) :
    Asks env i 0 m (m.runMaintenance env j lookups) := by
  have hfind : Asks env i 0 m
      (if (m.services j).routingTable.size < 8 then m.bootstrap env j lookups else m) := by
    split
    · exact bootstrap_asks m j lookups
    · exact .refl
  have hexpire : ∀ m : Manager n, Asks env i 0 m (m.tick.update j fun s => { s with
      requests := s.requests.expireOldGetPeersRequestsLocked (env.now m.calls)
        (env.order m.calls (m.services j).requests.getPeersRequests.entries) }) := fun m =>
    Asks.tick.then (.update (.of_requests
      (fun hinv => (hinv.expire (env.now m.calls) (env.perm m.calls _)).1) (lost_expire _ _ _)))
  have hprobes : ∀ m : Manager n, Asks env i 0 m
      (m.tick.update j fun s => s.pruneProbeCache (env.now m.calls)) := fun m =>
    Asks.tick.then (.update (.of_eq rfl rfl rfl rfl))
  unfold Manager.runMaintenance
  dsimp only
  refine Asks.then ?_ ((hprobes _).then (hexpire _))
  split
  · exact hfind.then ((findNeighbors_asks _ _).then
      (Asks.tick.then (.update (.of_eq rfl rfl rfl rfl))))
  · exact hfind

theorem updateTokenSecret_asks (m : Manager n) (j : Fin n) :
    Asks env i 0 m (m.updateTokenSecret env j) := by
  unfold Manager.updateTokenSecret
  exact Asks.tick.then (.update (.of_eq rfl rfl rfl rfl))

/-! ## Runs -/

/-- The queries that service `k` receives. -/
def queriesFor (k : Fin n) (actions : List (ManagerAction n)) : List (Message × AddrPort) :=
  actions.filterMap fun
    | .receive i msg addr => if i = k ∧ msg.y = ascii "q" then some (msg, addr) else none
    | _ => none

/-- The requests for peers that an action of the manager asks of service `k`. -/
def Manager.actionCalls (m : Manager n) (k : Fin n) : ManagerAction n → Nat
  | .receive i msg _ => if k = i then m.requestCalls i msg else 0
  | _ => 0

def requestCallsAlong (env : Environment) (k : Fin n) :
    Manager n → List (ManagerAction n) → Nat
  | _, [] => 0
  | m, a :: actions => m.actionCalls k a + requestCallsAlong env k (m.act env a) actions

/-- The replies among the messages that were sent. -/
def IndexingService.replies (s : IndexingService) : List (Message × AddrPort) :=
  s.sent.filter fun p => queueOf p.1 = .responseChan

/-- What service `k` has sent and counted after these queries and requests for peers. -/
structure Served (env : Environment) (id : Bytes) (queries : List (Message × AddrPort))
    (calls : Nat) (s : IndexingService) : Prop where
  nodeID : s.nodeID = id
  inv : s.requests.Inv
  accounted : s.accounted = calls
  asked : ∀ p ∈ s.sent, queueOf p.1 ≠ .responseChan → OwnQuery env id p.1
  replied : ∃ answered, answered.Sublist queries ∧
    List.Forall₂ (fun q p => p.2 = q.2 ∧ OwnReply env id q.1 p.1) answered s.replies

theorem OwnQuery.queue_ne {id : Bytes} {msg : Message} (h : OwnQuery env id msg) :
    queueOf msg ≠ .responseChan := by
  unfold queueOf
  rw [if_neg (not_not.2 h.y_eq)]
  split
  · decide
  · decide

theorem OwnReply.queue_eq {id : Bytes} {query reply : Message} (h : OwnReply env id query reply) :
    queueOf reply = .responseChan := by
  cases h <;> rfl

theorem Served.asks {id : Bytes} {queries : List (Message × AddrPort)} {calls : Nat}
    {s s' : IndexingService} (h : Served env id queries calls s) (hasks : s.Asks env c s') :
    Served env id queries (calls + c) s' := by
  obtain ⟨hnodeID, -, ⟨asked, hsent, hasked⟩, hrequests⟩ := hasks
  obtain ⟨hinv, haccounted⟩ := hrequests h.inv
  rw [h.nodeID] at hasked
  refine ⟨hnodeID.trans h.nodeID, hinv, by rw [haccounted, h.accounted], fun p hp hne => ?_, ?_⟩
  · rw [hsent] at hp
    exact (List.mem_append.1 hp).elim (fun hp => h.asked p hp hne) (hasked p)
  · have hnone : asked.filter (fun p => queueOf p.1 = .responseChan) = [] :=
      List.filter_eq_nil_iff.2 fun p hp => by simpa using (hasked p hp).queue_ne
    unfold IndexingService.replies
    rw [hsent, List.filter_append, hnone, List.append_nil]
    exact h.replied

theorem Served.more {id : Bytes} {queries : List (Message × AddrPort)} {calls : Nat}
    {s : IndexingService} (h : Served env id queries calls s) (more : List (Message × AddrPort)) :
    Served env id (queries ++ more) calls s :=
  ⟨h.nodeID, h.inv, h.accounted, h.asked,
    h.replied.imp fun _ hr => ⟨hr.1.trans (List.sublist_append_left _ _), hr.2⟩⟩

theorem Served.reply {id : Bytes} {queries : List (Message × AddrPort)} {calls : Nat}
    {s : IndexingService} (h : Served env id queries calls s) {reply : Message}
    (hreply : OwnReply env id msg reply) :
    Served env id (queries ++ [(msg, addr)]) calls
      { s with sent := s.sent ++ [(reply, addr)] } := by
  refine ⟨h.nodeID, h.inv, ?_, fun p hp hne => ?_, ?_⟩
  · rw [← h.accounted]
    simp [IndexingService.accounted, hreply.queue_eq]
  · rcases List.mem_append.1 hp with hp | hp
    · exact h.asked p hp hne
    · rw [List.mem_singleton.1 hp] at hne
      exact (hne hreply.queue_eq).elim
  · obtain ⟨answered, hsub, hall⟩ := h.replied
    refine ⟨answered ++ [(msg, addr)], hsub.append (.refl _), ?_⟩
    have hreplies : IndexingService.replies { s with sent := s.sent ++ [(reply, addr)] } =
        s.replies ++ [(reply, addr)] := by
      simp [IndexingService.replies, hreply.queue_eq]
    rw [hreplies]
    exact List.rel_append hall (.cons ⟨rfl, hreply⟩ .nil)

theorem Served.same {id : Bytes} {queries : List (Message × AddrPort)} {calls : Nat}
    {s s' : IndexingService} (h : Served env id queries calls s) (hnodeID : s'.nodeID = s.nodeID)
    (hsent : s'.sent = s.sent) (hrequests : s'.requests = s.requests) :
    Served env id queries calls s' := by
  refine ⟨hnodeID.trans h.nodeID, hrequests ▸ h.inv, ?_, hsent ▸ h.asked, ?_⟩
  · rw [← h.accounted, IndexingService.accounted, hsent, hrequests, IndexingService.accounted]
  · rw [IndexingService.replies, hsent]
    exact h.replied

theorem Served.receive {k : Fin n} {id : Bytes} {queries : List (Message × AddrPort)}
    {calls : Nat} (h : Served env id queries calls (m.services k)) (i : Fin n) (msg : Message)
    (addr : AddrPort) : Served env id (queries ++ queriesFor k [.receive i msg addr])
      (calls + m.actionCalls k (.receive i msg addr)) ((m.receive env i msg addr).services k) := by
  obtain ⟨m₁, hasks, hreply⟩ : Serves env i _ msg addr m (m.receive env i msg addr) :=
    receive_serves m msg addr
  have hasked := h.asks (hasks k)
  rcases hreply with hsame | ⟨hy, reply, hown, hsent⟩
  · rw [hsame]
    exact hasked.more _
  · rw [hsent]
    by_cases hk : k = i
    · subst hk
      rw [Function.update_self]
      rw [h.nodeID] at hown
      have hqueries : queriesFor k [.receive k msg addr] = [(msg, addr)] := by
        simp [queriesFor, hy]
      rw [hqueries]
      exact hasked.reply hown
    · rw [Function.update_of_ne hk]
      exact hasked.more _

/-- One action of the manager. -/
theorem Served.act {k : Fin n} {id : Bytes} {queries : List (Message × AddrPort)} {calls : Nat}
    (h : Served env id queries calls (m.services k)) (a : ManagerAction n) :
    Served env id (queries ++ queriesFor k [a]) (calls + m.actionCalls k a)
      ((m.act env a).services k) := by
  cases a with
  | receive i msg addr => exact h.receive i msg addr
  | runMaintenance i lookups =>
    have hasks : Asks env k 0 m (m.runMaintenance env i lookups) := runMaintenance_asks m i lookups
    have hasks := hasks k
    rw [if_pos rfl] at hasks
    exact (h.asks hasks).more _
  | updateTokenSecret i =>
    have hasks : Asks env k 0 m (m.updateTokenSecret env i) := updateTokenSecret_asks m i
    have hasks := hasks k
    rw [if_pos rfl] at hasks
    exact (h.asks hasks).more _
  | terminate =>
    refine Served.more ?_ _
    exact h.same rfl rfl rfl

theorem Served.run {k : Fin n} {id : Bytes} {queries : List (Message × AddrPort)} {calls : Nat}
    (h : Served env id queries calls (m.services k)) (actions : List (ManagerAction n)) :
    Served env id (queries ++ queriesFor k actions) (calls + requestCallsAlong env k m actions)
      ((actions.foldl (Manager.act env) m).services k) := by
  induction actions generalizing m queries calls with
  | nil => simpa [queriesFor, requestCallsAlong] using h
  | cons a actions ih =>
    have hrest := ih (h.act a)
    rw [Nat.add_assoc, List.append_assoc] at hrest
    rw [show queriesFor k (a :: actions) = queriesFor k [a] ++ queriesFor k actions from
      List.filterMap_append (l := [a])]
    exact hrest

end

theorem new_served (env : Environment) (endpoints : List ListenEndpoint) (interval : Int)
    (maxNeighbors : UInt64) (startup : Startup) (k : Fin endpoints.length) :
    Served env (startup.nodeID k) [] 0
      ((Manager.new endpoints interval maxNeighbors startup).services k) := by
  have hservice : ∃ s : IndexingService,
      s = (Manager.new endpoints interval maxNeighbors startup).services k ∧
      s.nodeID = startup.nodeID k ∧ s.sent = [] ∧ s.requests = newRequests := by
    refine ⟨_, rfl, ?_⟩
    simp only [Manager.new, IndexingService.start]
    split
    · exact ⟨rfl, rfl, rfl⟩
    · exact ⟨rfl, rfl, rfl⟩
  obtain ⟨s, heq, hnodeID, hsent, hrequests⟩ := hservice
  rw [← heq]
  refine ⟨hnodeID, hrequests ▸ Requests.newRequests_inv, ?_, fun p hp => ?_, [], .refl _, ?_⟩
  · rw [IndexingService.accounted, hsent, hrequests]
    rfl
  · rw [hsent] at hp
    exact (List.not_mem_nil hp).elim
  · rw [IndexingService.replies, hsent]
    exact .nil

/-- A manager that has gone through these actions. -/
def runManager (env : Environment) (endpoints : List ListenEndpoint) (interval : Int)
    (maxNeighbors : UInt64) (startup : Startup) (actions : List (ManagerAction endpoints.length)) :
    Manager endpoints.length :=
  actions.foldl (Manager.act env) (Manager.new endpoints interval maxNeighbors startup)

theorem run_served (env : Environment) (endpoints : List ListenEndpoint) (interval : Int)
    (maxNeighbors : UInt64) (startup : Startup) (actions : List (ManagerAction endpoints.length))
    (k : Fin endpoints.length) :
    Served env (startup.nodeID k) (queriesFor k actions)
      (requestCallsAlong env k (Manager.new endpoints interval maxNeighbors startup) actions)
      ((runManager env endpoints interval maxNeighbors startup actions).services k) := by
  have h := (new_served env endpoints interval maxNeighbors startup k).run actions
  rwa [List.nil_append, Nat.zero_add] at h

/-- What a reply has in common with the query that it answers. -/
structure Answers (id : Bytes) (query reply : Message × AddrPort) : Prop where
  addr : reply.2 = query.2
  y : reply.1.y = ascii "r"
  t : reply.1.t = query.1.t
  id : reply.1.r.id = id
  nodes : ServedNodes reply.1.r.nodes reply.1.r.nodes6
  silent : reply.1.r.values = [] ∧ reply.1.r.samples = [] ∧ reply.1.r.samples2 = []

theorem OwnReply.answers {env : Environment} {id : Bytes} {query reply : Message × AddrPort}
    (h : OwnReply env id query.1 reply.1) (haddr : reply.2 = query.2) : Answers id query reply := by
  have hnone : ServedNodes [] [] :=
    ⟨by simp, fun _ h => (List.not_mem_nil h).elim, fun _ h => (List.not_mem_nil h).elim⟩
  obtain ⟨reply, addr⟩ := reply
  cases h with
  | basic => exact ⟨haddr, rfl, rfl, rfl, hnone, rfl, rfl, rfl⟩
  | nodes hnodes => exact ⟨haddr, rfl, rfl, rfl, hnodes, rfl, rfl, rfl⟩
  | getPeers hnodes => exact ⟨haddr, rfl, rfl, rfl, hnodes, rfl, rfl, rfl⟩
  | samples hnodes => exact ⟨haddr, rfl, rfl, rfl, hnodes, rfl, rfl, rfl⟩

/-- Whatever messages a manager handles, in whatever order and between whatever maintenance, each
    reply of a service answers a query of its own: the replies are, in order, to some of the
    queries that the service has received, each sent to the address that its query came from,
    with its transaction ID, the ID of the service and eight nodes at most. No reply has peers or
    samples. -/
theorem replies_answer_queries (env : Environment) (endpoints : List ListenEndpoint)
    (interval : Int) (maxNeighbors : UInt64) (startup : Startup)
    (actions : List (ManagerAction endpoints.length)) (k : Fin endpoints.length) :
    ∃ answered, answered.Sublist (queriesFor k actions) ∧
      List.Forall₂ (Answers (startup.nodeID k)) answered
        ((runManager env endpoints interval maxNeighbors startup actions).services k).replies := by
  obtain ⟨answered, hsub, hall⟩ :=
    (run_served env endpoints interval maxNeighbors startup actions k).replied
  exact ⟨answered, hsub, hall.imp fun _ _ h => h.2.answers h.1⟩

theorem OwnQuery.accepted {env : Environment} (hrandom : ∀ call, (env.random call).length = 20)
    {id : Bytes} (hid : id.length = 20) {msg : Message} (h : OwnQuery env id msg) :
    onMessage msg = some .onFindNodeQuery ∨ onMessage msg = some .onGetPeersQuery ∨
      onMessage msg = some .onSampleInfohashesQuery := by
  cases h with
  | @findNode call want =>
    generalize hmsg : newFindNodeQuery id (env.random call) want = msg
    have hy : msg.y = ascii "q" := hmsg ▸ rfl
    have hq : msg.q = ascii "find_node" := hmsg ▸ rfl
    have hvalid : validateFindNodeQueryMessage msg = true := by
      rw [← hmsg]
      simp [validateFindNodeQueryMessage, newFindNodeQuery, hid, hrandom]
    rw [onMessage, if_pos hy, if_neg (by rw [hq]; decide), if_pos hq, if_pos hvalid]
    exact .inl rfl
  | @sampleInfohashes call want =>
    generalize hmsg : newSampleInfohashesQuery id (ascii "aa") (env.random call) want = msg
    have hy : msg.y = ascii "q" := hmsg ▸ rfl
    have hq : msg.q = ascii "sample_infohashes" := hmsg ▸ rfl
    have hvalid : validateSampleInfohashesQueryMessage msg = true := by
      rw [← hmsg]
      simp [validateSampleInfohashesQueryMessage, newSampleInfohashesQuery, hid, hrandom]
    rw [onMessage, if_pos hy, if_neg (by rw [hq]; decide), if_neg (by rw [hq]; decide),
      if_neg (by rw [hq]; decide), if_neg (by rw [hq]; decide), if_pos hq, if_pos hvalid]
    exact .inr (.inr rfl)
  | @getPeers infoHash t want hlen =>
    generalize hmsg : { newGetPeersQuery id infoHash want with t := t } = msg
    have hy : msg.y = ascii "q" := hmsg ▸ rfl
    have hq : msg.q = ascii "get_peers" := hmsg ▸ rfl
    have hvalid : validateGetPeersQueryMessage msg = true := by
      rw [← hmsg]
      rcases hlen with hlen | hlen <;>
        simp [validateGetPeersQueryMessage, newGetPeersQuery, hid, hlen]
    rw [onMessage, if_pos hy, if_neg (by rw [hq]; decide), if_neg (by rw [hq]; decide),
      if_pos hq, if_pos hvalid]
    exact .inr (.inl rfl)

/-- The handler for a reply without peers and samples. -/
def replyHandler (r : ResponseValues) : Option Handler :=
  if r.nodes = [] ∧ r.nodes6 = [] then
    if r.token = [] then some .onPingORAnnouncePeerResponse else none
  else if r.token = [] then some .onFindNodeResponse
  else some .onGetPeersResponse

theorem Answers.handler {id : Bytes} (hid : id.length = 20) {query reply : Message × AddrPort}
    (h : Answers id query reply) : onMessage reply.1 = replyHandler reply.1.r := by
  obtain ⟨-, hy, -, hrid, -, hvalues, hsamples, -⟩ := h
  have hquery : reply.1.y ≠ ascii "q" := by rw [hy]; decide
  rw [← hrid] at hid
  rw [onMessage, if_neg hquery, if_pos hy, if_neg (by simp [hsamples]), replyHandler]
  by_cases htoken : reply.1.r.token = []
  · rw [if_neg (by simp [htoken])]
    by_cases hnodes : reply.1.r.nodes = [] ∧ reply.1.r.nodes6 = []
    · simp [hnodes, htoken, validatePingORannouncePeerResponseMessage, hid]
    · have hnil := not_and_or.1 hnodes
      have hsome : reply.1.r.nodes.length ≠ 0 ∨ reply.1.r.nodes6.length ≠ 0 := by
        simpa only [ne_eq, List.length_eq_zero_iff] using hnil
      have hvalid : validateFindNodeResponseMessage reply.1 = true := by
        simp [validateFindNodeResponseMessage, hid, Nat.pos_iff_ne_zero, hnil]
      rw [if_pos hsome, if_pos hvalid, if_neg hnodes, if_pos htoken]
  · rw [if_pos (by simpa using htoken)]
    by_cases hnodes : reply.1.r.nodes = [] ∧ reply.1.r.nodes6 = []
    · simp [hnodes, htoken, validateGetPeersResponseMessage, hid, hvalues]
    · have hvalid : validateGetPeersResponseMessage reply.1 = true := by
        simp [validateGetPeersResponseMessage, hid, htoken, hvalues, List.length_pos_iff,
          not_and_or.1 hnodes]
      rw [if_pos hvalid, if_neg hnodes, if_neg htoken]

/-- The IDs and the secrets of `dualStackManager`. -/
def pingStartup : Startup :=
  ⟨fun _ => List.replicate 20 1, fun _ => List.replicate 20 2, fun _ _ => 0, fun _ => none⟩

def pingQuery : Message :=
  { y := ascii "q", q := ascii "ping", t := ascii "aa", a := { id := List.replicate 20 3 } }

end DhtClient
