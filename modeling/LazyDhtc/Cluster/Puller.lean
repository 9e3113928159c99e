-- SUMMARY: The master's puller: its workers with their status, and the goroutine that pulls them round after round while they are reconfigured.
import LazyDhtc.Cluster.WorkerQueue
import LazyDhtc.Lib.GoMap
import LazyDhtc.Lib.Unicode
import LazyDhtc.Lib.Unwinding

/-!
# The puller

`Run` pulls the workers one after the other, each in batches, and writes down how it went.
What it needs to know of the configuration it reads at the start of a round; the settings
page may change the workers and the token at any time after that. What the workers answer,
and whether they do, is up to them.
-/

namespace Cluster

open DhtClient Transition

/-! ## Status -/

structure WorkerStatus where
  url : Bytes := []
  workerID : Bytes := []
  online : Bool := false
  queued : Int64 := 0
  dropped : UInt64 := 0
  pulled : UInt64 := 0
  /-- `none` is the zero time. -/
  lastSuccess : Option Int := none
  lastAttempt : Option Int := none
  lastError : Bytes := []

/-- What the mutex of a `MasterPuller` protects. -/
structure MasterPuller where
  workers : List Bytes
  token : Bytes
  status : GoMap Bytes WorkerStatus

/-- What `url.Parse` returns, as far as `Configure` looks at it. -/
structure ParsedURL where
  scheme : Bytes
  host : Bytes

/-- The body of the first loop of `Configure`, with `url.Parse`. -/
def configuredWorker (parse : Bytes → Option ParsedURL) (workerURL : Bytes) : Option Bytes :=
  let worker := (Unicode.trimSpace workerURL).rdropWhile (· = 0x2F)
  if worker = [] then none
  else
    match parse worker with
    | none => none
    | some parsed =>
      if (parsed.scheme ≠ ascii "http" ∧ parsed.scheme ≠ ascii "https") ∨ parsed.host = [] then none
      else some worker

namespace MasterPuller

/-- `p.status[worker]` -/
def statusOf (p : MasterPuller) (worker : Bytes) : WorkerStatus := (p.status.lookup worker).getD {}

def setStatus (p : MasterPuller) (worker : Bytes) (status : WorkerStatus) : MasterPuller :=
  { p with status := p.status.insert worker status }

def configure (parse : Bytes → Option ParsedURL) (p : MasterPuller) (workerURLs : List Bytes)
    (token : Bytes) : MasterPuller :=
  let workers := workerURLs.filterMap (configuredWorker parse)
  { workers := workers
    token := token
    status := workers.foldl
      (fun status worker => status.insert worker { p.statusOf worker with url := worker }) ∅ }

/-- The puller of `NewMasterPuller`, before it configures itself. -/
def empty : MasterPuller := ⟨[], [], ∅⟩

/-- `Status`, at the time `now`. -/
def statuses (p : MasterPuller) (now : Int) : List WorkerStatus :=
  p.workers.map fun worker =>
    let status := p.statusOf worker
    { status with online := status.lastSuccess.any fun success => now - success < seconds 30 }

def recordFailure (p : MasterPuller) (worker error : Bytes) (now : Int) : MasterPuller :=
  p.setStatus worker { p.statusOf worker with lastAttempt := some now, lastError := error }

def recordSuccess (p : MasterPuller) (worker : Bytes) (batch : Batch) (pulled : Nat) (now : Int) :
    MasterPuller :=
  let queued := batch.queued - .ofNat pulled
  p.setStatus worker { p.statusOf worker with
    workerID := batch.workerID
    queued := if queued < 0 then 0 else queued
    dropped := batch.dropped
    pulled := (p.statusOf worker).pulled + .ofNat pulled
    lastAttempt := some now
    lastSuccess := some now
    lastError := []
    online := true }

@[simp] theorem statusOf_setStatus (p : MasterPuller) (worker w : Bytes) (status : WorkerStatus) :
    (p.setStatus worker status).statusOf w = if w = worker then status else p.statusOf w := by
  simp only [statusOf, setStatus, AList.lookup_insert_eq_ite]
  split <;> rfl

@[simp] theorem setStatus_workers (p : MasterPuller) (worker : Bytes) (status : WorkerStatus) :
    (p.setStatus worker status).workers = p.workers := rfl

theorem lookup_foldl_insert (f : Bytes → WorkerStatus) (workers : List Bytes)
    (m : GoMap Bytes WorkerStatus) (w : Bytes) :
    (workers.foldl (fun m worker => m.insert worker (f worker)) m).lookup w =
      if w ∈ workers then some (f w) else m.lookup w := by
  induction workers generalizing m with
  | nil => rfl
  | cons worker workers ih =>
    rw [List.foldl_cons, ih, AList.lookup_insert_eq_ite]
    by_cases hw : w = worker <;> simp [hw]

/-- A worker that stays keeps its status, any other one is forgotten. -/
theorem statusOf_configure (parse : Bytes → Option ParsedURL) (p : MasterPuller)
    (workerURLs : List Bytes) (token w : Bytes) : (p.configure parse workerURLs token).statusOf w =
      if w ∈ (p.configure parse workerURLs token).workers then { p.statusOf w with url := w }
      else {} := by
  rw [statusOf, configure, lookup_foldl_insert]
  split <;> rfl

end MasterPuller

/-! ## A round -/

/-- The errors of `pullBatch`: the client's and the decoder's with their texts, "worker
    returned %d" and "worker ack returned %d". -/
inductive PullError where
  | transport (text : Bytes)
  | decode (text : Bytes)
  | returned (status : Nat)
  | ackReturned (status : Nat)

def PullError.text : PullError → Bytes
  | .transport text => text
  | .decode text => text
  | .returned status => ascii s!"worker returned {status}"
  | .ackReturned status => ascii s!"worker ack returned {status}"

/-- What `client.Do` returns, and what the decoder says if it cannot read the body. -/
inductive Outcome where
  | response (resp : Response) (decodeError : Bytes)
  | failed (text : Bytes)

/-- The batch or the error that `pullBatch` gets from its first request. -/
def Outcome.batch : Outcome → Except PullError Batch
  | .failed text => .error (.transport text)
  | .response resp decodeError =>
    if resp.status / 100 ≠ 2 then .error (.returned resp.status)
    else
      match pullBatch resp with
      | none => .error (.decode decodeError)
      | some batch => .ok batch

/-- The error that `pullBatch` gets from its second request, if it gets one. -/
def Outcome.ackError : Outcome → Option PullError
  | .failed text => some (.transport text)
  | .response resp _ =>
    if resp.status / 100 ≠ 2 then some (.ackReturned resp.status) else none

/-- A call of `pullWithToken` in a round: the worker, the workers after it, and the number of
    batches pulled so far. -/
structure Pull where
  worker : Bytes
  token : Bytes
  todo : List Bytes
  batchNumber : Nat

def maxBatchesPerPull : Nat := 8

/-- Where the goroutine is. -/
inductive PullPc where
  /-- In the `select` of `Run`. -/
  | idle
  /-- At the head of the loop of `pullAll`. -/
  | workers (token : Bytes) (todo : List Bytes)
  /-- At the head of the loop of `pullWithToken`. -/
  | batches (pull : Pull)
  /-- The first request is on its way. -/
  | fetching (pull : Pull)
  /-- In the loop over the items. -/
  | ingesting (pull : Pull) (batch : Batch) (handed todo : List Record)
  /-- The second request is on its way. -/
  | acking (pull : Pull) (batch : Batch)
  /-- Before `recordSuccess`. -/
  | succeeding (pull : Pull) (batch : Batch) (pulled : Nat)
  /-- Before `recordFailure`. -/
  | failing (pull : Pull) (error : PullError)

/-- The condition that `pullBatch` returns with a batch. -/
def Batch.more (batch : Batch) : Bool :=
  batch.items ≠ [] ∧ Int64.ofNat batch.items.length < batch.queued

/-- After `recordSuccess`. -/
def Pull.after (pull : Pull) (batch : Batch) : PullPc :=
  if batch.more then .batches { pull with batchNumber := pull.batchNumber + 1 }
  else .workers pull.token pull.todo

structure Puller where
  master : MasterPuller
  pc : PullPc
  /-- The calls of `Configure` so far. -/
  configured : List (List Bytes × Bytes)
  /-- The requests sent so far, each with its worker and its token. -/
  requests : List (Bytes × Bytes)
  /-- The records looped over so far, each with the worker that it came from. -/
  handed : List (Bytes × Record)
  /-- The calls of `ingest` so far. -/
  ingested : List (Bytes × Metadata)
  /-- The acknowledgements that were answered with success. -/
  acked : List (Bytes × List Record)

inductive PullerAction where
  | configure (workerURLs : List Bytes) (token : Bytes)
  | pullAll
  | next
  | send
  | fetched (outcome : Outcome)
  | ingest
  | sendAck
  | acked (outcome : Outcome)
  | record (now : Int)

/-- The steps of a puller. -/
inductive PullerStep (parse : Bytes → Option ParsedURL) :
    Puller → PullerAction → Puller → Prop where
  | configure {s : Puller} {workerURLs : List Bytes} {token : Bytes} :
      PullerStep parse s (.configure workerURLs token) { s with
        master := s.master.configure parse workerURLs token
        configured := s.configured ++ [(workerURLs.filterMap (configuredWorker parse), token)] }
  /-- A round starts with a copy of the workers and the token, and is over if there is none. -/
  | pullAll {s : Puller} :
      s.pc = .idle →
      PullerStep parse s .pullAll { s with
        pc := if s.master.token = [] then .idle else .workers s.master.token s.master.workers }
  | next {s : Puller} {token worker : Bytes} {todo : List Bytes} :
      s.pc = .workers token (worker :: todo) →
      PullerStep parse s .next { s with pc := .batches ⟨worker, token, todo, 0⟩ }
  | done {s : Puller} {token : Bytes} :
      s.pc = .workers token [] →
      PullerStep parse s .next { s with pc := .idle }
  | send {s : Puller} {pull : Pull} :
      s.pc = .batches pull → pull.batchNumber < maxBatchesPerPull →
      PullerStep parse s .send { s with
        pc := .fetching pull
        requests := s.requests ++ [(pull.worker, pull.token)] }
  | enough {s : Puller} {pull : Pull} :
      s.pc = .batches pull → ¬ pull.batchNumber < maxBatchesPerPull →
      PullerStep parse s .next { s with pc := .workers pull.token pull.todo }
  | fetchFailed {s : Puller} {pull : Pull} {outcome : Outcome} {error : PullError} :
      s.pc = .fetching pull → outcome.batch = .error error →
      PullerStep parse s (.fetched outcome) { s with pc := .failing pull error }
  | fetchedNone {s : Puller} {pull : Pull} {outcome : Outcome} {batch : Batch} :
      s.pc = .fetching pull → outcome.batch = .ok batch → batch.items = [] →
      PullerStep parse s (.fetched outcome) { s with pc := .succeeding pull batch 0 }
  | fetched {s : Puller} {pull : Pull} {outcome : Outcome} {batch : Batch} :
      s.pc = .fetching pull → outcome.batch = .ok batch → batch.items ≠ [] →
      PullerStep parse s (.fetched outcome) { s with pc := .ingesting pull batch [] batch.items }
  | ingest {s : Puller} {pull : Pull} {batch : Batch} {handed todo : List Record} {r : Record} :
      s.pc = .ingesting pull batch handed (r :: todo) →
      PullerStep parse s .ingest { s with
        pc := .ingesting pull batch (handed ++ [r]) todo
        handed := s.handed ++ [(pull.worker, r)]
        ingested :=
          if ingestible r.metadata then s.ingested ++ [(pull.worker, r.metadata)] else s.ingested }
  | sendAck {s : Puller} {pull : Pull} {batch : Batch} {handed : List Record} :
      s.pc = .ingesting pull batch handed [] →
      PullerStep parse s .sendAck { s with
        pc := .acking pull batch
        requests := s.requests ++ [(pull.worker, pull.token)] }
  | ackFailed {s : Puller} {pull : Pull} {batch : Batch} {outcome : Outcome} {error : PullError} :
      s.pc = .acking pull batch → outcome.ackError = some error →
      PullerStep parse s (.acked outcome) { s with pc := .failing pull error }
  | acked {s : Puller} {pull : Pull} {batch : Batch} {outcome : Outcome} :
      s.pc = .acking pull batch → outcome.ackError = none →
      PullerStep parse s (.acked outcome) { s with
        pc := .succeeding pull batch batch.items.length
        acked := s.acked ++ [(pull.worker, batch.items)] }
  | succeed {s : Puller} {pull : Pull} {batch : Batch} {pulled : Nat} {now : Int} :
      s.pc = .succeeding pull batch pulled →
      PullerStep parse s (.record now) { s with
        pc := pull.after batch
        master := s.master.recordSuccess pull.worker batch pulled now }
  | fail {s : Puller} {pull : Pull} {error : PullError} {now : Int} :
      s.pc = .failing pull error →
      PullerStep parse s (.record now) { s with
        pc := .workers pull.token pull.todo
        master := s.master.recordFailure pull.worker error.text now }

/-- The puller of `NewMasterPuller`. -/
def newPuller (parse : Bytes → Option ParsedURL) (workerURLs : List Bytes) (token : Bytes) :
    Puller where
  master := MasterPuller.empty.configure parse workerURLs token
  pc := .idle
  configured := [(workerURLs.filterMap (configuredWorker parse), token)]
  requests := []
  handed := []
  ingested := []
  acked := []

/-- A puller while it runs, with any configurations and any workers. -/
def pullerSystem (parse : Bytes → Option ParsedURL) : System Puller PullerAction where
  init s := ∃ workerURLs token, s = newPuller parse workerURLs token
  step := PullerStep parse

end Cluster
