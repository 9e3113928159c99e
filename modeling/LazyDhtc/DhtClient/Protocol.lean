-- SUMMARY: KRPC messages and the dispatch of a received message to the handler that is called for it.
import LazyDhtc.DhtClient.Codec

/-!
# Protocol

A query names its method. A response does not, and is told apart by the values it has:
samples, a token, or nodes. Messages that are not valid for their handler are dropped.
-/

namespace DhtClient

/-! ## Messages -/

structure QueryArguments where
  id : Bytes := []
  infoHash : Bytes := []
  target : Bytes := []
  token : Bytes := []
  port : Int64 := 0
  impliedPort : Int64 := 0
  want : List Bytes := []
deriving DecidableEq

structure ResponseValues where
  id : Bytes := []
  nodes : List CompactNodeInfo := []
  nodes6 : List CompactNodeInfo := []
  token : Bytes := []
  values : List CompactPeer := []
  interval : Int64 := 0
  num : Int64 := 0
  samples : Bytes := []
  samples2 : List Bytes := []
deriving DecidableEq

structure Message where
  q : Bytes := []
  a : QueryArguments := {}
  t : Bytes
  y : Bytes
  r : ResponseValues := {}
  e : Error := ⟨0, []⟩
deriving DecidableEq

/-! ## New messages -/

def newFindNodeQuery (id target : Bytes) (want : List Bytes) : Message :=
  { y := ascii "q", t := ascii "aa", q := ascii "find_node",
    a := { id := id, target := target, want := want } }

def newGetPeersQuery (id infoHash : Bytes) (want : List Bytes) : Message :=
  { y := ascii "q", t := ascii "aa", q := ascii "get_peers",
    a := { id := id, infoHash := infoHash, want := want } }

def newSampleInfohashesQuery (id t target : Bytes) (want : List Bytes) : Message :=
  { y := ascii "q", t := t, q := ascii "sample_infohashes",
    a := { id := id, target := target, want := want } }

def newSampleInfohashesResponse (t id : Bytes) (interval : Int64)
    (nodes nodes6 : List CompactNodeInfo) (num : Int64) (samples : Bytes) : Message :=
  { y := ascii "r", t := t,
    r := { id := id, interval := interval, nodes := nodes, nodes6 := nodes6, num := num,
           samples := samples } }

def newNodeResponse (t id : Bytes) (nodes nodes6 : List CompactNodeInfo) : Message :=
  { y := ascii "r", t := t, r := { id := id, nodes := nodes, nodes6 := nodes6 } }

def newGetPeersResponse (t id token : Bytes) (nodes nodes6 : List CompactNodeInfo) : Message :=
  { y := ascii "r", t := t, r := { id := id, token := token, nodes := nodes, nodes6 := nodes6 } }

def newBasicResponse (t id : Bytes) : Message := { y := ascii "r", t := t, r := { id := id } }

/-! ## Validation -/

def validatePingQueryMessage (msg : Message) : Bool := msg.a.id.length = 20

def validateFindNodeQueryMessage (msg : Message) : Bool :=
  msg.a.id.length = 20 && msg.a.target.length = 20

def validateGetPeersQueryMessage (msg : Message) : Bool :=
  msg.a.id.length = 20 && (msg.a.infoHash.length = 20 || msg.a.infoHash.length = 32)

def validateAnnouncePeerQueryMessage (msg : Message) : Bool :=
  msg.a.id.length = 20 && (msg.a.infoHash.length = 20 || msg.a.infoHash.length = 32) &&
    0 < msg.a.port && 0 < msg.a.token.length

def validateSampleInfohashesQueryMessage (msg : Message) : Bool :=
  msg.a.id.length = 20 && msg.a.target.length = 20

def validatePingORannouncePeerResponseMessage (msg : Message) : Bool := msg.r.id.length = 20

def validateFindNodeResponseMessage (msg : Message) : Bool :=
  if msg.r.id.length ≠ 20 then false
  else 0 < msg.r.nodes.length || 0 < msg.r.nodes6.length

def validateGetPeersResponseMessage (msg : Message) : Bool :=
  if msg.r.id.length ≠ 20 ∨ msg.r.token.length = 0 then false
  else 0 < msg.r.values.length || 0 < msg.r.nodes.length || 0 < msg.r.nodes6.length

def validateSampleInfohashesResponseMessage (msg : Message) : Bool :=
  if msg.r.id.length ≠ 20 ∨ msg.r.interval < 0 ∨ msg.r.num < 0 then false
  else if msg.r.samples.length % 20 ≠ 0 then false
  else msg.r.samples2.all fun sample => sample.length = 32

/-! ## Dispatch -/

/-- The event handlers of a protocol. -/
inductive Handler where
  | onPingQuery
  | onFindNodeQuery
  | onGetPeersQuery
  | onAnnouncePeerQuery
  | onGetPeersResponse
  | onFindNodeResponse
  | onPingORAnnouncePeerResponse
  | onSampleInfohashesQuery
  | onSampleInfohashesResponse
deriving DecidableEq

/-- The handler that is called for a message, if there is one. -/
def onMessage (msg : Message) : Option Handler :=
  if msg.y = ascii "q" then
    if msg.q = ascii "ping" then
      if validatePingQueryMessage msg then some .onPingQuery else none
    else if msg.q = ascii "find_node" then
      if validateFindNodeQueryMessage msg then some .onFindNodeQuery else none
    else if msg.q = ascii "get_peers" then
      if validateGetPeersQueryMessage msg then some .onGetPeersQuery else none
    else if msg.q = ascii "announce_peer" then
      if validateAnnouncePeerQueryMessage msg then some .onAnnouncePeerQuery else none
    else if msg.q = ascii "sample_infohashes" then
      if validateSampleInfohashesQueryMessage msg then some .onSampleInfohashesQuery else none
    -- `vote`, or a method that is not known
    else none
  else if msg.y = ascii "r" then
    if msg.r.samples.length ≠ 0 then
      if validateSampleInfohashesResponseMessage msg then some .onSampleInfohashesResponse else none
    else if msg.r.token.length ≠ 0 then
      if validateGetPeersResponseMessage msg then some .onGetPeersResponse else none
    else if msg.r.nodes.length ≠ 0 ∨ msg.r.nodes6.length ≠ 0 then
      if validateFindNodeResponseMessage msg then some .onFindNodeResponse else none
    else if validatePingORannouncePeerResponseMessage msg then some .onPingORAnnouncePeerResponse
    else none
  -- an error is only logged
  else none

/-- The check that comes before the call of a handler. -/
def Handler.validate : Handler → Message → Bool
  | .onPingQuery => validatePingQueryMessage
  | .onFindNodeQuery => validateFindNodeQueryMessage
  | .onGetPeersQuery => validateGetPeersQueryMessage
  | .onAnnouncePeerQuery => validateAnnouncePeerQueryMessage
  | .onGetPeersResponse => validateGetPeersResponseMessage
  | .onFindNodeResponse => validateFindNodeResponseMessage
  | .onPingORAnnouncePeerResponse => validatePingORannouncePeerResponseMessage
  | .onSampleInfohashesQuery => validateSampleInfohashesQueryMessage
  | .onSampleInfohashesResponse => validateSampleInfohashesResponseMessage

/-- A handler is called for no message that its check rejects. -/
theorem validate_of_onMessage {msg : Message} {handler : Handler}
    (h : onMessage msg = some handler) : handler.validate msg = true := by
  unfold onMessage at h
  repeat' split at h
  all_goals cases h
  all_goals assumption

end DhtClient
