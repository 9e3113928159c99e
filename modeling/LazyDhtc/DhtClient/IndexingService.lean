-- SUMMARY: The indexing services of a manager: their message handlers, their maintenance, and how the manager connects the services of its networks.
import LazyDhtc.DhtClient.Attribution
import LazyDhtc.DhtClient.Protocol
import LazyDhtc.DhtClient.RoutingCache

/-!
# Indexing services

A manager runs one service for each of its endpoints. A handler changes the service whose
socket has received the message. A service on `udp4` also passes addresses of IPv6 nodes on
to the `udp6` service of the manager, which probes them.
-/

namespace DhtClient

/-! ## Data -/

def Addr.is6 : Addr → Bool
  | .v6 _ _ => true
  | _ => false

/-- The answers to the calls that a process makes, in order, and the functions that it is
    given. -/
structure Environment where
  /-- `time.Now` -/
  now : Nat → Int
  monotone : ∀ i j, i ≤ j → now i ≤ now j
  /-- 20 bytes of `crypto/rand` -/
  random : Nat → Bytes
  /-- whether a channel takes a value that is sent without waiting -/
  ready : Nat → Bool
  /-- in which order a loop visits a map -/
  order : Nat → List ((_ : TransactionID) × GetPeersEntry) →
    List ((_ : TransactionID) × GetPeersEntry)
  perm : ∀ i entries, (order i entries).Perm entries
  sha1 : Bytes → Bytes

structure Probe where
  addr : AddrPort
  time : Int

structure IndexingService where
  network : Bytes
  want : List Bytes
  interval : Int
  /-- the handler is set -/
  onBootstrapCandidate : Bool
  /-- `done` is closed -/
  stopped : Bool
  /-- the protocol is started -/
  started : Bool
  previousTokenSecret : Bytes
  currentTokenSecret : Bytes
  nodeID : Bytes
  routingTable : RoutingTable
  requests : Requests
  probeCache : GoMap Addr Int
  /-- What the transport has taken. -/
  sent : List (Message × AddrPort)
  /-- All probes of this service. -/
  probes : List Probe

/-- A manager with `n` services. -/
structure Manager (n : Nat) where
  services : Fin n → IndexingService
  /-- The service that the handlers `OnBootstrapCandidate` refer to. -/
  ipv6Service : Option (Fin n)
  done : Bool
  /-- What has been sent on the channel. -/
  output : List Result
  outputDropped : UInt64
  /-- How many calls have been answered. -/
  calls : Nat

def tenMinutes : Int := seconds (10 * 60)

namespace IndexingService

/-- The nodes that a response has room for, by the family of their addresses. -/
def splitNodes (limit : Nat) : List RoutingNode → List CompactNodeInfo → List CompactNodeInfo →
    List CompactNodeInfo × List CompactNodeInfo
  | [], nodes4, nodes6 => (nodes4, nodes6)
  | entry :: entries, nodes4, nodes6 =>
    let node : CompactNodeInfo := ⟨entry.id.toList, entry.addr⟩
    let nodes := if entry.addr.addr.is4 then (nodes4 ++ [node], nodes6)
      else (nodes4, nodes6 ++ [node])
    if limit ≤ nodes.1.length + nodes.2.length then nodes
    else splitNodes limit entries nodes.1 nodes.2

def responseNodes (s : IndexingService) (target : Bytes) (limit : Nat) :
    List CompactNodeInfo × List CompactNodeInfo :=
  splitNodes limit (s.routingTable.closest target limit) [] []

def calculateToken (env : Environment) (s : IndexingService) (address : Addr) : Bytes :=
  env.sha1 (s.currentTokenSecret ++ address.asSlice)

def verifyToken (env : Environment) (s : IndexingService) (address : Addr) (token : Bytes) : Bool :=
  env.sha1 (s.currentTokenSecret ++ address.asSlice) = token ||
    env.sha1 (s.previousTokenSecret ++ address.asSlice) = token

/-- `int(is.interval.Seconds())`. -/
def intervalSeconds (s : IndexingService) : Int64 := .ofInt (s.interval.tdiv (seconds 1))

/-- `pruneProbeCache` at some time. -/
def pruneProbeCache (s : IndexingService) (now : Int) : IndexingService :=
  { s with
    probeCache := s.probeCache.entries.foldl
      (fun c e => if e.2 < now - tenMinutes then c.erase e.1 else c) s.probeCache }

end IndexingService

namespace Manager

variable {n : Nat}

/-- A call has been answered. -/
def tick (m : Manager n) : Manager n := { m with calls := m.calls + 1 }

def update (m : Manager n) (i : Fin n) (f : IndexingService → IndexingService) : Manager n :=
  { m with services := Function.update m.services i (f (m.services i)) }

/-! ## Sending -/

variable (env : Environment)

/-- The message is put into the queue of the transport, unless that is full. -/
def sendMessage (m : Manager n) (i : Fin n) (msg : Message) (addr : AddrPort) :
    Manager n × Bool :=
  if (m.services i).started = false then (m, false)
  else if env.ready m.calls then
    (m.tick.update i fun s => { s with sent := s.sent ++ [(msg, addr)] }, true)
  else (m.tick, false)

def onIndexingResult (m : Manager n) (res : Result) : Manager n :=
  if env.ready m.calls then { m.tick with output := m.output ++ [res] }
  else if m.done then m.tick
  else { m.tick with outputDropped := m.outputDropped + 1 }

/-! ## Nodes -/

def addNode (m : Manager n) (i : Fin n) (id : Bytes) (addr : AddrPort) : Manager n :=
  if (m.services i).stopped then m
  else if acceptsAddress (m.services i).network addr = false then m
  else
    let added := (m.services i).routingTable.add id addr (env.now m.calls)
    let m := m.tick.update i fun s => { s with routingTable := added.1 }
    if added.2 = false then m
    else
      let target := env.random m.calls
      (m.tick.sendMessage env i (newSampleInfohashesQuery (m.services i).nodeID (ascii "aa") target
        (m.services i).want) addr).1

/-- The end of `probeBootstrapCandidate`. -/
def probe (m : Manager n) (i : Fin n) (addr : AddrPort) : Manager n :=
  let now := env.now m.calls
  let m := m.tick.update i fun s => { s with
    probeCache := s.probeCache.insert addr.addr now
    probes := s.probes ++ [⟨addr, now⟩] }
  let target := env.random m.calls
  (m.tick.sendMessage env i (newFindNodeQuery (m.services i).nodeID target (m.services i).want)
    addr).1

def probeBootstrapCandidate (m : Manager n) (i : Fin n) (addr : AddrPort) : Manager n :=
  if acceptsAddress (m.services i).network addr = false ∨ (m.services i).stopped then m
  else
    match (m.services i).probeCache.lookup addr.addr with
    | some last =>
      if env.now m.calls - last < tenMinutes then m.tick else m.tick.probe env i addr
    | none => m.probe env i addr

/-- The handler that `NewManager` sets. -/
def onBootstrapCandidate (m : Manager n) (addr : AddrPort) : Manager n :=
  match m.ipv6Service with
  | none => m
  | some j =>
    if (m.services j).routingTable.containsAddr addr then m
    else m.probeBootstrapCandidate env j addr

def handleDiscoveredNode (m : Manager n) (i : Fin n) (node : CompactNodeInfo) : Manager n :=
  if acceptsAddress (m.services i).network node.addr then m.addNode env i node.id node.addr
  else if (m.services i).network = ascii "udp4" ∧ node.addr.addr.is6 ∧
      (m.services i).onBootstrapCandidate then m.onBootstrapCandidate env node.addr
  else m

/-! ## Queries -/

def onPingQuery (m : Manager n) (i : Fin n) (msg : Message) (addr : AddrPort) : Manager n :=
  let m := m.addNode env i msg.a.id addr
  (m.sendMessage env i (newBasicResponse msg.t (m.services i).nodeID) addr).1

def onFindNodeQuery (m : Manager n) (i : Fin n) (msg : Message) (addr : AddrPort) : Manager n :=
  let m := m.addNode env i msg.a.id addr
  let nodes := (m.services i).responseNodes msg.a.target 8
  (m.sendMessage env i (newNodeResponse msg.t (m.services i).nodeID nodes.1 nodes.2) addr).1

def onGetPeersQuery (m : Manager n) (i : Fin n) (msg : Message) (addr : AddrPort) : Manager n :=
  let m := m.addNode env i msg.a.id addr
  let nodes := (m.services i).responseNodes msg.a.infoHash 8
  let token := (m.services i).calculateToken env addr.addr
  (m.sendMessage env i (newGetPeersResponse msg.t (m.services i).nodeID token nodes.1 nodes.2)
    addr).1

def onAnnouncePeerQuery (m : Manager n) (i : Fin n) (msg : Message) (addr : AddrPort) :
    Manager n :=
  if (m.services i).verifyToken env addr.addr msg.a.token = false then m
  else
    let port := if msg.a.impliedPort ≠ 0 then addr.port else msg.a.port.toUInt64.toUInt16
    let m := m.onIndexingResult env
      ⟨msg.a.infoHash, [⟨addr.addr, port⟩], addressFamily (m.services i).network⟩
    (m.sendMessage env i (newBasicResponse msg.t (m.services i).nodeID) addr).1

def onSampleInfohashesQuery (m : Manager n) (i : Fin n) (msg : Message) (addr : AddrPort) :
    Manager n :=
  if (m.services i).stopped then m
  else
    let nodes := (m.services i).responseNodes msg.a.target 8
    (m.sendMessage env i (newSampleInfohashesResponse msg.t (m.services i).nodeID
      (m.services i).intervalSeconds nodes.1 nodes.2 0 []) addr).1

/-! ## Responses -/

def requestPeers (m : Manager n) (i : Fin n) (infoHash : Bytes) (addr : AddrPort) :
    Manager n × Bool :=
  if (m.services i).stopped then (m, false)
  else
    let order := env.order m.calls (m.services i).requests.getPeersRequests.entries
    match (m.services i).requests.requestPeersLocked infoHash (env.now m.calls) order with
    -- the loop does not end
    | none => (m.tick, false)
    | some (requests, none) => (m.tick.update i fun s => { s with requests := requests }, false)
    | some (requests, some t) =>
      let m := m.tick.update i fun s => { s with requests := requests }
      let msg := newGetPeersQuery (m.services i).nodeID infoHash (m.services i).want
      let sent := m.sendMessage env i { msg with t := t.bytes } addr
      if sent.2 then sent
      else (sent.1.update i fun s => { s with requests := s.requests.rollbackLocked t }, false)

/-- The loops over the nodes of a response. -/
def addNodes (m : Manager n) (i : Fin n) (r : ResponseValues) : Manager n :=
  r.nodes6.foldl (fun m node => m.handleDiscoveredNode env i node)
    (r.nodes.foldl (fun m node => m.addNode env i node.id node.addr) m)

def onFindNodeResponse (m : Manager n) (i : Fin n) (msg : Message) (addr : AddrPort) : Manager n :=
  if (m.services i).stopped then m else (m.addNode env i msg.r.id addr).addNodes env i msg.r

def onGetPeersResponse (m : Manager n) (i : Fin n) (msg : Message) (addr : AddrPort) : Manager n :=
  if (m.services i).stopped then m
  else
    let m := m.addNode env i msg.r.id addr
    let answered := (m.services i).requests.onGetPeersResponseLocked msg.t
    let m := m.update i fun s => { s with requests := answered.1 }
    match answered.2 with
    | none => m
    | some entry =>
      match onResult (m.services i).network entry (msg.r.values.map CompactPeer.addr) with
      | none => m
      | some res => m.onIndexingResult env res

def onSampleInfohashesResponse (m : Manager n) (i : Fin n) (msg : Message) (addr : AddrPort) :
    Manager n :=
  if (m.services i).stopped then m
  else
    let m := m.addNode env i msg.r.id addr
    let m := (groups 20 msg.r.samples).foldl (fun m h => (m.requestPeers env i h addr).1) m
    let m := msg.r.samples2.foldl (fun m h => (m.requestPeers env i (padTo 32 h) addr).1) m
    m.addNodes env i msg.r

/-! ## Messages -/

/-- A message that the service has received from an address. -/
def receive (m : Manager n) (i : Fin n) (msg : Message) (addr : AddrPort) : Manager n :=
  match onMessage msg with
  | some .onPingQuery => m.onPingQuery env i msg addr
  | some .onFindNodeQuery => m.onFindNodeQuery env i msg addr
  | some .onGetPeersQuery => m.onGetPeersQuery env i msg addr
  | some .onAnnouncePeerQuery => m.onAnnouncePeerQuery env i msg addr
  | some .onFindNodeResponse => m.onFindNodeResponse env i msg addr
  | some .onGetPeersResponse => m.onGetPeersResponse env i msg addr
  | some .onSampleInfohashesQuery => m.onSampleInfohashesQuery env i msg addr
  | some .onSampleInfohashesResponse => m.onSampleInfohashesResponse env i msg addr
  -- a service sets no handler for these
  | some .onPingORAnnouncePeerResponse => m
  | none => m

/-! ## Maintenance -/

/-- The addresses that a name resolves to, and the port after it. -/
def resolveBootstrapAddresses (network : Bytes) (ips : List Bytes) (port : UInt16) :
    List AddrPort :=
  ((ips.filterMap addrFromSlice).map Addr.unmap).filterMap fun addr =>
    if network = ascii "udp4" ∧ addr.is4 = false ∨ network = ascii "udp6" ∧ addr.is4 then none
    else some ⟨addr, port⟩

/-- `lookups` are the answers for the names that resolve, with their ports. -/
def bootstrap (m : Manager n) (i : Fin n) (lookups : List (List Bytes × UInt16)) : Manager n :=
  lookups.foldl (fun m lookup =>
    if (m.services i).stopped then m
    else
      let target := env.random m.calls
      (resolveBootstrapAddresses (m.services i).network lookup.1 lookup.2).foldl (fun m addr =>
        (m.sendMessage env i (newFindNodeQuery (m.services i).nodeID target (m.services i).want)
          addr).1) m.tick) m

def findNeighbors (m : Manager n) (i : Fin n) : Manager n :=
  (m.services i).routingTable.snapshot.foldl (fun m node =>
    if (m.services i).stopped then m
    else
      let target := env.random m.calls
      (m.tick.sendMessage env i (newSampleInfohashesQuery (m.services i).nodeID (ascii "aa") target
        (m.services i).want) node.addr).1) m

def runMaintenance (m : Manager n) (i : Fin n) (lookups : List (List Bytes × UInt16)) :
    Manager n :=
  let routingTableLen := (m.services i).routingTable.size
  let m := if routingTableLen < 8 then m.bootstrap env i lookups else m
  let m :=
    if 0 < routingTableLen then
      let m := m.findNeighbors env i
      m.tick.update i fun s =>
        { s with routingTable := s.routingTable.prune (env.now m.calls - seconds (5 * 60)) }
    else m
  let m := m.tick.update i fun s => s.pruneProbeCache (env.now m.calls)
  let order := env.order m.calls (m.services i).requests.getPeersRequests.entries
  m.tick.update i fun s =>
    { s with requests := s.requests.expireOldGetPeersRequestsLocked (env.now m.calls) order }

def updateTokenSecret (m : Manager n) (i : Fin n) : Manager n :=
  let secret := env.random m.calls
  m.tick.update i fun s =>
    { s with previousTokenSecret := s.currentTokenSecret, currentTokenSecret := secret }

/-- `Manager.Terminate`. -/
def terminate (m : Manager n) : Manager n :=
  { m with
    done := true
    services := fun i => { m.services i with stopped := true, started := false } }

end Manager

/-! ## New managers -/

structure ListenEndpoint where
  network : Bytes
  cachePath : Bytes

/-- What a new manager draws and reads, for each of its services. -/
structure Startup where
  nodeID : Nat → Bytes
  tokenSecret : Nat → Bytes
  /-- the clock, for each entry of the cache file -/
  now : Nat → Nat → Int
  files : Bytes → Option Bytes

def newIndexingService (network : Bytes) (interval : Int) (maxNeighbors : UInt64)
    (nodeID tokenSecret : Bytes) : IndexingService where
  network := network
  want := if network = ascii "udp6" then [ascii "n6"] else [ascii "n4"]
  interval := interval
  onBootstrapCandidate := false
  stopped := false
  started := false
  previousTokenSecret := tokenSecret
  currentTokenSecret := tokenSecret
  nodeID := nodeID
  routingTable := newRoutingTable nodeID maxNeighbors
  requests := newRequests
  probeCache := ∅
  sent := []
  probes := []

/-- `Start` up to the goroutines. -/
def IndexingService.start (s : IndexingService) (now : Nat → Int) (file : Option Bytes) :
    IndexingService :=
  { s with routingTable := loadRoutingTable s.network now file s.routingTable, started := true }

/-- The last endpoint on `udp6`. -/
def ipv6Endpoint (endpoints : List ListenEndpoint) : Option (Fin endpoints.length) :=
  ((List.finRange endpoints.length).filter fun i => endpoints[i].network = ascii "udp6").getLast?

def Manager.new (endpoints : List ListenEndpoint) (interval : Int) (maxNeighbors : UInt64)
    (startup : Startup) : Manager endpoints.length where
  services i :=
    let s := newIndexingService endpoints[i].network interval maxNeighbors (startup.nodeID i)
      (startup.tokenSecret i)
    let s := if (ipv6Endpoint endpoints).isSome ∧ s.network = ascii "udp4" then
      { s with want := [ascii "n4", ascii "n6"], onBootstrapCandidate := true } else s
    s.start (startup.now i) (startup.files endpoints[i].cachePath)
  ipv6Service := ipv6Endpoint endpoints
  done := false
  output := []
  outputDropped := 0
  calls := 0

end DhtClient
