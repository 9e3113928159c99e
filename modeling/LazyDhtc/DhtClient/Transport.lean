-- SUMMARY: The transport: its three queues and the goroutines that empty them, the goroutine that reads, and Terminate, as one transition system.
import LazyDhtc.DhtClient.Protocol
import LazyDhtc.Lib.Unwinding

/-!
# Transport

`WriteMessages` puts a message into one of three queues, if that has room, and three
goroutines hand the messages to the socket. Queries for peers have a queue of their own, so
that routing maintenance and replies do not wait behind them. The limiters decide when a
message may go out, never whether: unless the context is cancelled, `Wait` succeeds in the end.
-/

namespace DhtClient

structure SendRequest where
  msg : Message
  addr : AddrPort

/-! ## Queues -/

inductive Queue where
  | sendChan
  | controlChan
  | responseChan
deriving DecidableEq

/-- The queue that `WriteMessages` chooses. -/
def queueOf (msg : Message) : Queue :=
  if msg.y ≠ ascii "q" then .responseChan
  else if msg.q = ascii "get_peers" then .sendChan
  else .controlChan

def queueSize (rateLimit : Int64) : Int64 :=
  let queueSize := if 0 < rateLimit then rateLimit * 3 else 768
  if queueSize < 1 then 1 else queueSize

def capacity (rateLimit : Int64) : Queue → Nat
  | .sendChan => (queueSize rateLimit).toInt.toNat
  | .controlChan => 256
  | .responseChan => 256

/-- `NewTransport` sets the limiters. -/
def hasLimiters (rateLimit : Int64) : Bool := 0 < rateLimit

/-! ## Senders -/

/-- Where `sendLoop`, `controlLoop` or `responseLoop` is. -/
inductive SendPC where
  /-- in the `select` -/
  | selecting
  /-- in `limiter.Wait`; `late` says that the context was cancelled before -/
  | limited (req : SendRequest) (late : Bool)
  /-- before the check of `done` -/
  | checking (req : SendRequest)
  | writing (req : SendRequest)
  | returned

/-- The request that the goroutine has taken from its queue. -/
def SendPC.held : SendPC → List SendRequest
  | .limited req _ => [req]
  | .checking req => [req]
  | .writing req => [req]
  | _ => []

/-- A queue and its goroutine. `taken` records the requests that `WriteMessages` has put into
    the queue, `written` those that have been handed to the socket. -/
structure Sender where
  queue : List SendRequest
  pc : SendPC
  taken : List SendRequest
  written : List SendRequest

inductive SendAction where
  | put (req : SendRequest)
  | refuse
  | take
  | granted
  | failed
  | check
  | write
  | leave

/-- A step of a sender while `done` is closed or not and the context is cancelled or not. -/
inductive SenderStep (limiters : Bool) (room : Nat) (done cancelled : Bool) :
    Sender → SendAction → Sender → Prop where
  | put {k : Sender} {req : SendRequest} : k.queue.length < room →
      SenderStep limiters room done cancelled k (.put req)
        { k with queue := k.queue ++ [req], taken := k.taken ++ [req] }
  | refuse {k : Sender} : done = true ∨ room ≤ k.queue.length →
      SenderStep limiters room done cancelled k .refuse k
  -- even if `done` is closed: the `select` may choose
  | take {k : Sender} {req : SendRequest} {rest : List SendRequest} : k.pc = .selecting →
      k.queue = req :: rest →
      SenderStep limiters room done cancelled k .take
        { k with
          queue := rest
          pc := if limiters then .limited req cancelled else .checking req }
  | granted {k : Sender} {req : SendRequest} : k.pc = .limited req false →
      SenderStep limiters room done cancelled k .granted { k with pc := .checking req }
  | failed {k : Sender} {req : SendRequest} {late : Bool} : k.pc = .limited req late →
      cancelled = true → SenderStep limiters room done cancelled k .failed { k with pc := .selecting }
  | checkClosed {k : Sender} {req : SendRequest} : k.pc = .checking req → done = true →
      SenderStep limiters room done cancelled k .check { k with pc := .selecting }
  | checkOpen {k : Sender} {req : SendRequest} : k.pc = .checking req → done = false →
      SenderStep limiters room done cancelled k .check { k with pc := .writing req }
  | write {k : Sender} {req : SendRequest} : k.pc = .writing req →
      SenderStep limiters room done cancelled k .write
        { k with pc := .selecting, written := k.written ++ [req] }
  | leave {k : Sender} : k.pc = .selecting → done = true →
      SenderStep limiters room done cancelled k .leave { k with pc := .returned }

/-! ## The reader -/

/-- Where `readMessages` is. -/
inductive ReadPC where
  /-- in `ReadFrom` -/
  | reading
  /-- in `onMessage` -/
  | handling (msg : Message) (addr : AddrPort)
  /-- `ReadFrom` has returned an error -/
  | failed
  /-- waiting for the timer -/
  | waiting
  | returned

/-- `failures` counts the reads that have failed since one has succeeded, and `waited` adds up
    the delays since then. -/
structure Reader where
  pc : ReadPC
  retryDelay : Int
  failures : Nat
  waited : Int
  handled : List (Message × AddrPort)

def milliseconds (n : Int) : Int := n * 1000000

def nextDelay (retryDelay : Int) : Int :=
  if retryDelay = 0 then milliseconds 10
  else if seconds 1 < retryDelay * 2 then seconds 1
  else retryDelay * 2

inductive ReadAction where
  | receive (msg : Message) (addr : AddrPort)
  /-- an empty datagram, or one that is no message -/
  | ignore
  | fail
  | delay
  | wake
  | handled
  | leave

inductive ReaderStep (done closed : Bool) : Reader → ReadAction → Reader → Prop where
  | receive {r : Reader} {msg : Message} {addr : AddrPort} : r.pc = .reading → closed = false →
      ReaderStep done closed r (.receive msg addr)
        { r with pc := .handling msg addr, retryDelay := 0, failures := 0, waited := 0 }
  | ignore {r : Reader} : r.pc = .reading → closed = false →
      ReaderStep done closed r .ignore { r with retryDelay := 0, failures := 0, waited := 0 }
  | fail {r : Reader} : r.pc = .reading →
      ReaderStep done closed r .fail { r with pc := .failed, failures := r.failures + 1 }
  | leaveFailed {r : Reader} : r.pc = .failed → done = true →
      ReaderStep done closed r .leave { r with pc := .returned }
  | delay {r : Reader} : r.pc = .failed → done = false →
      ReaderStep done closed r .delay { r with pc := .waiting, retryDelay := nextDelay r.retryDelay }
  | wake {r : Reader} : r.pc = .waiting →
      ReaderStep done closed r .wake { r with pc := .reading, waited := r.waited + r.retryDelay }
  | leaveWaiting {r : Reader} : r.pc = .waiting → done = true →
      ReaderStep done closed r .leave { r with pc := .returned }
  | handled {r : Reader} {msg : Message} {addr : AddrPort} : r.pc = .handling msg addr →
      ReaderStep done closed r .handled
        { r with pc := .reading, handled := r.handled ++ [(msg, addr)] }

/-! ## The system -/

/-- `closed` says that `fd` is closed, `terminated` that `Terminate` has returned. -/
structure Transport where
  senders : Queue → Sender
  reader : Reader
  done : Bool
  cancelled : Bool
  closed : Bool
  terminated : Bool

def newSender : Sender := ⟨[], .selecting, [], []⟩

/-- The transport after `Start`. -/
def newTransport : Transport where
  senders _ := newSender
  reader := ⟨.reading, 0, 0, 0, []⟩
  done := false
  cancelled := false
  closed := false
  terminated := false

inductive TransportAction where
  | writeMessages (msg : Message) (addr : AddrPort) (accepted : Bool)
  | sender (q : Queue) (a : SendAction)
  | reader (a : ReadAction)
  /-- `close(t.done)` in `Terminate` -/
  | close
  /-- by `Terminate`, or by who has started the transport -/
  | cancel
  | closeSocket
  | terminate

def sendAction (req : SendRequest) : Bool → SendAction
  | true => .put req
  | false => .refuse

/-- A step of a goroutine of the transport, and not of its callers. -/
def SendAction.own : SendAction → Bool
  | .put _ => false
  | .refuse => false
  | _ => true

inductive TransportStep (rateLimit : Int64) :
    Transport → TransportAction → Transport → Prop where
  | writeMessages {s : Transport} {msg : Message} {addr : AddrPort} {accepted : Bool} {k : Sender} :
      SenderStep (hasLimiters rateLimit) (capacity rateLimit (queueOf msg)) s.done s.cancelled
        (s.senders (queueOf msg)) (sendAction ⟨msg, addr⟩ accepted) k →
      TransportStep rateLimit s (.writeMessages msg addr accepted)
        { s with senders := Function.update s.senders (queueOf msg) k }
  | sender {s : Transport} {q : Queue} {a : SendAction} {k : Sender} : a.own = true →
      SenderStep (hasLimiters rateLimit) (capacity rateLimit q) s.done s.cancelled (s.senders q) a k →
      TransportStep rateLimit s (.sender q a) { s with senders := Function.update s.senders q k }
  | reader {s : Transport} {a : ReadAction} {r : Reader} :
      ReaderStep s.done s.closed s.reader a r →
      TransportStep rateLimit s (.reader a) { s with reader := r }
  | close {s : Transport} : s.done = false →
      TransportStep rateLimit s .close { s with done := true }
  | cancel {s : Transport} : TransportStep rateLimit s .cancel { s with cancelled := true }
  | closeSocket {s : Transport} : s.done = true → s.cancelled = true →
      TransportStep rateLimit s .closeSocket { s with closed := true }
  | terminate {s : Transport} : s.closed = true → (∀ q, (s.senders q).pc = .returned) →
      s.reader.pc = .returned → TransportStep rateLimit s .terminate { s with terminated := true }

def transportSystem (rateLimit : Int64) : Transition.System Transport TransportAction where
  init s := s = newTransport
  step := TransportStep rateLimit

end DhtClient
