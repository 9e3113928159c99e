-- SUMMARY: The calls that the handlers of samples and of announced peers make, which samples are requested and which peers are reported.
import LazyDhtc.DhtClient.Overlays
import LazyDhtc.Lib.Sha1

/-!
# Calls of handlers

A handler changes its service by calls of other functions. Here two handlers are lists of
such calls: the one that requests the peers of advertised info hashes, and the one that
reports an announced peer.
-/

namespace DhtClient

/-! ## Calls -/

/-- A call that a handler makes. -/
inductive HandlerCall where
  | addNode (id : Bytes) (addr : AddrPort)
  | requestPeers (infoHash : Bytes) (addr : AddrPort)
  | handleDiscoveredNode (node : CompactNodeInfo)
  | onResult (res : Result)
  | sendMessage (msg : Message) (addr : AddrPort)
deriving DecidableEq

namespace Manager

variable {n : Nat} (env : Environment)

def runCall (i : Fin n) (m : Manager n) : HandlerCall → Manager n
  | .addNode id addr => m.addNode env i id addr
  | .requestPeers infoHash addr => (m.requestPeers env i infoHash addr).1
  | .handleDiscoveredNode node => m.handleDiscoveredNode env i node
  | .onResult res => m.onIndexingResult env res
  | .sendMessage msg addr => (m.sendMessage env i msg addr).1

def runCalls (i : Fin n) (m : Manager n) (calls : List HandlerCall) : Manager n :=
  calls.foldl (runCall env i) m

/-- The calls of `onSampleInfohashesResponse`. -/
def sampleCalls (m : Manager n) (i : Fin n) (msg : Message) (addr : AddrPort) :
    List HandlerCall :=
  if (m.services i).stopped then []
  else
    .addNode msg.r.id addr ::
      (groups 20 msg.r.samples).map (fun h => .requestPeers h addr) ++
      msg.r.samples2.map (fun h => .requestPeers (padTo 32 h) addr) ++
      msg.r.nodes.map (fun node => .addNode node.id node.addr) ++
      msg.r.nodes6.map .handleDiscoveredNode

/-- The calls of `onAnnouncePeerQuery`. -/
def announceCalls (m : Manager n) (i : Fin n) (msg : Message) (addr : AddrPort) :
    List HandlerCall :=
  if (m.services i).verifyToken env addr.addr msg.a.token = false then []
  else
    let port := if msg.a.impliedPort ≠ 0 then addr.port else msg.a.port.toUInt64.toUInt16
    [.onResult ⟨msg.a.infoHash, [⟨addr.addr, port⟩], addressFamily (m.services i).network⟩,
      .sendMessage (newBasicResponse msg.t (m.services i).nodeID) addr]

theorem onSampleInfohashesResponse_eq (m : Manager n) (i : Fin n) (msg : Message)
    (addr : AddrPort) : m.onSampleInfohashesResponse env i msg addr =
      runCalls env i m (m.sampleCalls i msg addr) := by
  unfold onSampleInfohashesResponse sampleCalls
  split
  · rfl
  · simp only [runCalls, List.foldl_append, List.foldl_cons, List.foldl_map, addNodes, runCall]

theorem services_onIndexingResult (m : Manager n) (res : Result) :
    (m.onIndexingResult env res).services = m.services := by
  unfold onIndexingResult
  split
  · rfl
  split <;> rfl

theorem onAnnouncePeerQuery_eq (m : Manager n) (i : Fin n) (msg : Message) (addr : AddrPort) :
    m.onAnnouncePeerQuery env i msg addr = runCalls env i m (m.announceCalls env i msg addr) := by
  unfold onAnnouncePeerQuery announceCalls
  split
  · rfl
  · simp only [runCalls, List.foldl_cons, List.foldl_nil, runCall, services_onIndexingResult]

end Manager

/-! ## Advertised samples -/

/-- The requests for peers among some calls. -/
def requested (calls : List HandlerCall) : List (Bytes × AddrPort) :=
  calls.filterMap fun
    | .requestPeers infoHash addr => some (infoHash, addr)
    | _ => none

theorem requested_append (calls calls' : List HandlerCall) :
    requested (calls ++ calls') = requested calls ++ requested calls' := List.filterMap_append

theorem requested_map_requestPeers {α : Type} (f : α → Bytes) (addr : AddrPort) (l : List α) :
    requested (l.map fun a => .requestPeers (f a) addr) = l.map fun a => (f a, addr) := by
  rw [requested, List.filterMap_map, ← List.filterMap_eq_map]
  rfl

theorem requested_map_of_none {α : Type} {f : α → HandlerCall}
    (h : ∀ a infoHash addr, f a ≠ .requestPeers infoHash addr) (l : List α) :
    requested (l.map f) = [] := by
  rw [requested, List.filterMap_map, List.filterMap_eq_nil_iff]
  intro a _
  rw [Function.comp_apply]
  split
  · next infoHash addr heq => exact absurd heq (h a infoHash addr)
  · rfl

/-- A response with samples as `validateSampleInfohashesResponseMessage` has them, in one of
    its two fields at least. -/
structure SampleResponse (msg : Message) : Prop where
  response : msg.y = ascii "r"
  id : msg.r.id.length = 20
  interval : 0 ≤ msg.r.interval
  num : 0 ≤ msg.r.num
  samples : msg.r.samples.length % 20 = 0
  samples2 : ∀ sample ∈ msg.r.samples2, sample.length = 32
  nonempty : msg.r.samples ≠ [] ∨ msg.r.samples2 ≠ []

/-- The info hashes that a response advertises: each 20 bytes of its samples, and then the
    samples of 32 bytes. -/
def advertised (r : ResponseValues) : List Bytes :=
  (List.range (r.samples.length / 20)).map (fun k => (r.samples.drop (20 * k)).take 20) ++ r.samples2

/-- The response gets to its handler, which requests the peers of every advertised info hash
    from the sender, in order. -/
structure SamplesRequested {n : Nat} (m : Manager n) (i : Fin n) (msg : Message)
    (addr : AddrPort) : Prop where
  dispatched : onMessage msg = some .onSampleInfohashesResponse
  requests : requested (m.sampleCalls i msg addr) = (advertised msg.r).map fun h => (h, addr)

theorem onMessage_of_samples {msg : Message} (h : SampleResponse msg)
    (hsamples : msg.r.samples ≠ []) : onMessage msg = some .onSampleInfohashesResponse := by
  have hlen : msg.r.samples.length ≠ 0 := fun hzero => hsamples (List.length_eq_zero_iff.1 hzero)
  have hvalid : validateSampleInfohashesResponseMessage msg = true := by
    simp only [validateSampleInfohashesResponseMessage, h.id, h.samples, ne_eq, not_true_eq_false,
      false_or, if_false]
    rw [if_neg (not_or.2 ⟨Int64.not_lt.2 h.interval, Int64.not_lt.2 h.num⟩)]
    exact List.all_eq_true.2 fun sample hsample => decide_eq_true (h.samples2 sample hsample)
  have hy : ¬ msg.y = ascii "q" := by rw [h.response]; decide
  rw [onMessage, if_neg hy, if_pos h.response, if_pos hlen, if_pos hvalid]

/-- Samples of 32 bytes alone do not make a message a response with samples. -/
theorem onMessage_of_no_samples {msg : Message} (hy : msg.y = ascii "r")
    (hsamples : msg.r.samples = []) : onMessage msg ≠ some .onSampleInfohashesResponse := by
  have hq : ¬ msg.y = ascii "q" := by rw [hy]; decide
  have hlen : ¬ msg.r.samples.length ≠ 0 := by rw [hsamples]; simp
  rw [onMessage, if_neg hq, if_pos hy, if_neg hlen]
  split_ifs <;> simp

theorem requested_sampleCalls {n : Nat} {m : Manager n} {i : Fin n} {msg : Message}
    (hstopped : (m.services i).stopped = false) (h : SampleResponse msg) (addr : AddrPort) :
    requested (m.sampleCalls i msg addr) = (advertised msg.r).map fun h => (h, addr) := by
  have hpad : msg.r.samples2.map (fun h => (padTo 32 h, addr)) =
      msg.r.samples2.map fun h => (h, addr) :=
    List.map_congr_left fun sample hsample => by rw [padTo_of_length (h.samples2 sample hsample)]
  have hgroups : groups 20 msg.r.samples =
      (List.range (msg.r.samples.length / 20)).map fun k => (msg.r.samples.drop (20 * k)).take 20 := by
    simp only [groups, Nat.mul_comm]
  have hnodes := requested_map_of_none (f := fun node : CompactNodeInfo =>
    HandlerCall.addNode node.id node.addr) (fun _ _ _ => nofun) msg.r.nodes
  have hnodes6 := requested_map_of_none (f := HandlerCall.handleDiscoveredNode)
    (fun _ _ _ => nofun) msg.r.nodes6
  rw [Manager.sampleCalls, hstopped, if_neg (by decide), requested_append, requested_append,
    requested_append, hnodes, hnodes6, List.append_nil, List.append_nil,
    requested_map_requestPeers (fun h => padTo 32 h), hpad, advertised, List.map_append, ← hgroups]
  congr 1
  exact requested_map_requestPeers (fun h => h) addr _

/-- The samples of a response are requested exactly when some of them have 20 bytes, and the
    service has not been stopped. -/
theorem samples_requested_iff {n : Nat} (m : Manager n) (i : Fin n) {msg : Message}
    (h : SampleResponse msg) (addr : AddrPort) :
    SamplesRequested m i msg addr ↔
      msg.r.samples ≠ [] ∧ (m.services i).stopped = false := by
  constructor
  · intro hreq
    have hsamples : msg.r.samples ≠ [] := fun hnil =>
      onMessage_of_no_samples h.response hnil hreq.dispatched
    refine ⟨hsamples, ?_⟩
    rw [← Bool.not_eq_true]
    intro hstopped
    have hnone := hreq.requests
    rw [Manager.sampleCalls, if_pos hstopped] at hnone
    have hadvertised : advertised msg.r = [] := List.map_eq_nil_iff.1 hnone.symm
    have hlen := congrArg List.length hadvertised
    have hmod := h.samples
    have hpos := List.length_pos_of_ne_nil hsamples
    simp only [advertised, List.length_append, List.length_map, List.length_range,
      List.length_nil] at hlen
    omega
  · rintro ⟨hsamples, hstopped⟩
    exact ⟨onMessage_of_samples h hsamples, requested_sampleCalls hstopped h addr⟩

/-! ## Announced peers -/

/-- The peers that are reported among some calls. -/
def reported (calls : List HandlerCall) : List Result :=
  calls.filterMap fun
    | .onResult res => some res
    | _ => none

/-- A report of one peer, with the info hash that has been announced. -/
def ReportsPeer (reports : List Result) (msg : Message) (peer : AddrPort) : Prop :=
  ∃ family, reports = [⟨msg.a.infoHash, [peer], family⟩]

/-- What an announcement should lead to: the peer is reported with the sender's port if that is
    implied, and else with the port in the message; one that is no port is not reported. -/
structure FaithfulReport (reports : List Result) (msg : Message) (addr : AddrPort) : Prop where
  implied : msg.a.impliedPort ≠ 0 → ReportsPeer reports msg addr
  announced : msg.a.impliedPort = 0 → 1 ≤ msg.a.port.toInt → msg.a.port.toInt ≤ 65535 →
    ∃ port : UInt16, (port.toNat : Int) = msg.a.port.toInt ∧
      ReportsPeer reports msg ⟨addr.addr, port⟩
  unfit : msg.a.impliedPort = 0 → ¬ (1 ≤ msg.a.port.toInt ∧ msg.a.port.toInt ≤ 65535) →
    reports = []

theorem port_of_accepted {msg : Message} (h : onMessage msg = some .onAnnouncePeerQuery) :
    0 < msg.a.port.toInt := by
  have hvalid : validateAnnouncePeerQueryMessage msg = true := validate_of_onMessage h
  simp only [validateAnnouncePeerQueryMessage, Bool.and_eq_true, decide_eq_true_eq] at hvalid
  exact Int64.lt_iff_toInt_lt.1 hvalid.1.2

/-- `uint16` of a number that is not negative keeps it modulo `2 ^ 16`. -/
theorem toNat_toUInt16 {x : Int64} (h : 0 ≤ x.toInt) :
    (x.toUInt64.toUInt16.toNat : Int) = x.toInt % 65536 := by
  have hnat : (x.toUInt64.toNat : Int) = x.toInt := by
    change (x.toBitVec.toNat : Int) = x.toBitVec.toInt
    change 0 ≤ x.toBitVec.toInt at h
    rw [BitVec.toInt_eq_toNat_cond] at h ⊢
    split
    · rfl
    · next hbig =>
      rw [if_neg hbig] at h
      omega
  rw [UInt64.toNat_toUInt16, ← hnat]
  norm_cast

theorem reported_announceCalls {n : Nat} {env : Environment} {m : Manager n} {i : Fin n}
    {msg : Message} {addr : AddrPort}
    (htoken : (m.services i).verifyToken env addr.addr msg.a.token = true) :
    reported (m.announceCalls env i msg addr) =
      [⟨msg.a.infoHash, [⟨addr.addr, if msg.a.impliedPort ≠ 0 then addr.port
        else msg.a.port.toUInt64.toUInt16⟩], addressFamily (m.services i).network⟩] := by
  rw [Manager.announceCalls, htoken, if_neg (by decide)]
  rfl

/-- An announced peer is reported faithfully exactly when its port is implied, or fits into 16
    bits. -/
theorem announced_faithfully_iff {n : Nat} (env : Environment) (m : Manager n) (i : Fin n)
    {msg : Message} {addr : AddrPort} (haccepted : onMessage msg = some .onAnnouncePeerQuery)
    (htoken : (m.services i).verifyToken env addr.addr msg.a.token = true) :
    FaithfulReport (reported (m.announceCalls env i msg addr)) msg addr ↔
      msg.a.impliedPort ≠ 0 ∨ msg.a.port.toInt ≤ 65535 := by
  have hpos := port_of_accepted haccepted
  rw [reported_announceCalls htoken]
  constructor
  · intro h
    by_contra hnot
    obtain ⟨himplied, hbig⟩ := not_or.1 hnot
    have hnone := h.unfit (not_not.1 himplied) fun hfits => hbig hfits.2
    cases hnone
  · intro h
    refine ⟨fun himplied => ⟨_, by rw [if_pos himplied]⟩, fun himplied hlo hhi => ?_,
      fun himplied hunfit => ?_⟩
    · refine ⟨_, ?_, _, by rw [if_neg (not_not.2 himplied)]⟩
      rw [toNat_toUInt16 (Int.le_of_lt hpos)]
      omega
    · exact absurd ⟨hpos, h.resolve_left (not_not.2 himplied)⟩ hunfit

/-! ## Two messages -/

/-- The environment of a node, with SHA-1. -/
def nodeEnvironment : Environment := { quietEnvironment with sha1 := Sha1.sum }

/-- The address of a peer. -/
def samplePeerAddr : AddrPort := ⟨.v4 (Vector.replicate 4 9), 6881⟩

/-- A response with samples of 32 bytes alone. -/
def longSamplesResponse : Message :=
  { y := ascii "r", t := ascii "aa",
    r := { id := List.replicate 20 3, num := 1, samples2 := [List.replicate 32 5] } }

/-- A response with one sample of each length. -/
def mixedSamplesResponse : Message :=
  { y := ascii "r", t := ascii "aa",
    r := { id := List.replicate 20 3, num := 2, samples := List.replicate 20 4,
           samples2 := [List.replicate 32 5] } }

theorem samples_requested_iff_mixed :
    SamplesRequested dualStackManager 0 mixedSamplesResponse samplePeerAddr :=
  (samples_requested_iff dualStackManager 0
    ⟨rfl, by decide, by decide, by decide, by decide, by decide, .inl (by decide)⟩ _).2
    ⟨by decide, by decide +kernel⟩

/-- The samples are lost: the message is taken for the response to a ping. -/
theorem long_samples_lost :
    SampleResponse longSamplesResponse ∧ (dualStackManager.services 0).stopped = false ∧
    onMessage longSamplesResponse = some .onPingORAnnouncePeerResponse ∧
    ¬ SamplesRequested dualStackManager 0 longSamplesResponse samplePeerAddr := by
  refine ⟨⟨rfl, by decide, by decide, by decide, by decide, by decide, .inr (by decide)⟩,
    by decide +kernel, by decide +kernel, fun h => ?_⟩
  exact absurd h.dispatched (by decide +kernel)

/-- An announcement of a port, with a token for the peer. -/
def announcement (port : Int64) : Message :=
  { y := ascii "q", q := ascii "announce_peer", t := ascii "aa",
    a := { id := List.replicate 20 3, infoHash := List.replicate 20 4, port := port,
           token := (dualStackManager.services 0).calculateToken nodeEnvironment
             samplePeerAddr.addr } }

theorem verifyToken_announcement (port : Int64) : (dualStackManager.services 0).verifyToken
    nodeEnvironment samplePeerAddr.addr (announcement port).a.token = true := by
  simp [IndexingService.verifyToken, announcement, IndexingService.calculateToken]

theorem announced_faithfully_iff_small :
    FaithfulReport (reported (dualStackManager.announceCalls nodeEnvironment 0 (announcement 51413)
      samplePeerAddr)) (announcement 51413) samplePeerAddr :=
  (announced_faithfully_iff nodeEnvironment dualStackManager 0 (by decide +kernel)
    (verifyToken_announcement 51413)).2 (.inr (by decide))

/-- The port 65537 is reported as the port 1. -/
theorem large_port_reported :
    onMessage (announcement 65537) = some .onAnnouncePeerQuery ∧
    (dualStackManager.services 0).verifyToken nodeEnvironment samplePeerAddr.addr
      (announcement 65537).a.token = true ∧
    reported (dualStackManager.announceCalls nodeEnvironment 0 (announcement 65537)
      samplePeerAddr) = [⟨List.replicate 20 4, [⟨samplePeerAddr.addr, 1⟩], 4⟩] ∧
    ¬ FaithfulReport (reported (dualStackManager.announceCalls nodeEnvironment 0
      (announcement 65537) samplePeerAddr)) (announcement 65537) samplePeerAddr := by
  have hreported := reported_announceCalls (verifyToken_announcement 65537)
  refine ⟨by decide +kernel, verifyToken_announcement 65537, ?_, fun h => ?_⟩
  · rw [hreported]
    rfl
  · have hnone := h.unfit rfl (by decide)
    rw [hreported] at hnone
    cases hnone

end DhtClient
