-- SUMMARY: A worker, its restarts, the master's two channels to it and the messages in between, as one transition system.
import LazyDhtc.Cluster.WorkerQueue
import LazyDhtc.Lib.Transition

/-!
# Delivery

One worker URL, the processes that serve it one after the other, and a master that pulls
from it and is pushed to. Messages stay in the network when they are received, so each
may arrive late, more than once, or never. A step is a critical section of the source, a
message that is sent or received, or one call of `ingest`.
-/

namespace Cluster

open DhtClient Json

/-! ## Worker processes -/

structure WorkerConfig where
  workerID : Bytes
  workerQueue : Int
  masterURL : Bytes
  clusterToken : Bytes
  workerBatch : Int
  workerCacheDir : Bytes
  address : Bytes

/-- The directory of the cache file: by default one in `/tmp` named after the address. -/
def WorkerConfig.cacheDir (cfg : WorkerConfig) : Bytes :=
  if cfg.workerCacheDir = [] then
    ascii "/tmp/dhtc-worker-" ++ cfg.address.map fun b => if b = 0x3A ∨ b = 0x2F then 0x5F else b
  else cfg.workerCacheDir

/-- The queue that `runWorker` sets up. `files` has the content of the cache files by their
    directories; only a worker in push mode uses one. -/
def runWorker (cfg : WorkerConfig) (files : Bytes → Option Bytes) : WorkerQueue :=
  if cfg.masterURL ≠ [] then
    ((WorkerQueue.new cfg.workerID cfg.workerQueue cfg.cacheDir (files cfg.cacheDir)).setMaster
      cfg.masterURL cfg.clusterToken).startFlushLoop cfg.workerBatch cfg.workerBatch
  else WorkerQueue.new cfg.workerID cfg.workerQueue [] none

/-- The records in the cache file of a worker in push mode; a worker in pull mode has none. -/
def savedRecords (cfg : WorkerConfig) (files : Bytes → Option Bytes) : List Record :=
  if cfg.masterURL ≠ [] then
    match (files cfg.cacheDir).bind readAll with
    | some v => (decodeSlice decodeRecord zeroRecord [] v).1
    | none => []
  else []

/-- How far `saveToCache` is. -/
inductive Saving where
  | idle
  | started
  | writing (data : Bytes)

/-! ## Messages and the master -/

/-- Who waits for a batch to be looped over: `pullBatch`, or the flush of a process. -/
inductive Client where
  | pull
  | flush (process : Nat)
deriving DecidableEq

/-- What is on its way. An acknowledgement carries the records whose IDs it names. -/
inductive Message where
  | queueResponse (resp : Response)
  | flushRequest (process : Nat) (req : Request)
  | ack (client : Client) (items : List Record)

/-- A batch that the master has received, and how far its loop is. -/
structure Task where
  client : Client
  batch : Batch
  handed : List Record
  todo : List Record
  split : batch.items = handed ++ todo

def Task.start (client : Client) (batch : Batch) : Task := ⟨client, batch, [], batch.items, rfl⟩

@[simp] theorem Task.start_batch (client : Client) (batch : Batch) :
    (Task.start client batch).batch = batch := rfl

@[simp] theorem Task.start_handed (client : Client) (batch : Batch) :
    (Task.start client batch).handed = [] := rfl

/-! ## The system -/

structure ClusterState where
  cfg : WorkerConfig
  queue : WorkerQueue
  /-- The number of the process that serves the URL. -/
  process : Nat
  saving : Saving
  files : Bytes → Option Bytes
  network : List Message
  tasks : List Task
  /-- The records that the master's loops have been over. -/
  handed : List Record
  /-- The calls of `ingest`. -/
  ingested : List Metadata
  /-- The records for which `Enqueue` returned true. -/
  accepted : List Record

inductive ClusterAction where
  | enqueue (md : Metadata)
  | queueGet
  | pullReceive
  | flushSend
  | flushReceive
  | ingest
  | acknowledge
  | ack (client : Client) (items : List Record)
  | lose
  | abandon
  | save
  | restart (cfg : WorkerConfig)

inductive ClusterStep : ClusterState → ClusterAction → ClusterState → Prop where
  | refuse {s : ClusterState} {md : Metadata} :
      (s.queue.enqueue md).2 = false →
      ClusterStep s (.enqueue md) { s with queue := (s.queue.enqueue md).1 }
  | accept {s : ClusterState} {md : Metadata} :
      (s.queue.enqueue md).2 = true →
      ClusterStep s (.enqueue md) { s with
        queue := (s.queue.enqueue md).1
        accepted := s.accepted ++ [⟨s.queue.nextID + 1, md⟩] }
  /-- The worker answers the `GET` of a master with some token. -/
  | queueGet {s : ClusterState} {token : Bytes} {req : Request} :
      (pullRequest token).transmit = some req →
      ClusterStep s .queueGet { s with
        network := s.network ++
          [.queueResponse (s.queue.handler s.cfg.clusterToken s.cfg.workerBatch req).2] }
  | pullReceive {s : ClusterState} {resp : Response} {batch : Batch} :
      .queueResponse resp ∈ s.network → pullBatch resp = some batch → batch.items ≠ [] →
      ClusterStep s .pullReceive { s with tasks := s.tasks ++ [.start .pull batch] }
  | flushSend {s : ClusterState} {req req' : Request} :
      s.queue.flushRequest = some req → req.transmit = some req' →
      ClusterStep s .flushSend { s with
        network := s.network ++ [.flushRequest s.process req'] }
  | flushReceive {s : ClusterState} {token : Bytes} {process : Nat} {req : Request}
      {batch : Batch} :
      .flushRequest process req ∈ s.network → masterFlushBatch token req = .ok batch →
      ClusterStep s .flushReceive { s with tasks := s.tasks ++ [.start (.flush process) batch] }
  | ingest {s : ClusterState} {pre post : List Task} {client : Client} {batch : Batch}
      {handed todo : List Record} {r : Record} {split : batch.items = handed ++ r :: todo} :
      s.tasks = pre ++ ⟨client, batch, handed, r :: todo, split⟩ :: post →
      ClusterStep s .ingest { s with
        tasks := pre ++
          ⟨client, batch, handed ++ [r], todo, by rw [split, List.append_assoc]; rfl⟩ :: post
        handed := s.handed ++ [r]
        ingested := if ingestible r.metadata then s.ingested ++ [r.metadata] else s.ingested }
  /-- At the end of the loop the master sends the acknowledgement, as a request of its own
      or as the response to a flush. -/
  | acknowledge {s : ClusterState} {pre post : List Task} {client : Client} {batch : Batch}
      {handed : List Record} {split : batch.items = handed ++ []} :
      s.tasks = pre ++ ⟨client, batch, handed, [], split⟩ :: post →
      ClusterStep s .acknowledge { s with
        tasks := pre ++ post
        network := s.network ++ [.ack client batch.items] }
  | ackPull {s : ClusterState} {items : List Record} {token : Bytes} {req : Request} :
      .ack .pull items ∈ s.network → (ackRequest token items).transmit = some req →
      ClusterStep s (.ack .pull items) { s with
        queue := (s.queue.handler s.cfg.clusterToken s.cfg.workerBatch req).1 }
  /-- The response to a flush reaches the process that sent it. -/
  | ackFlush {s : ClusterState} {items : List Record} :
      .ack (.flush s.process) items ∈ s.network →
      ClusterStep s (.ack (.flush s.process) items) { s with
        queue := (s.queue.flushResponse (okJson (encodeAck ⟨items.map Record.id⟩))).1 }
  | lose {s : ClusterState} {pre post : List Message} {m : Message} :
      s.network = pre ++ m :: post →
      ClusterStep s .lose { s with network := pre ++ post }
  | abandon {s : ClusterState} {pre post : List Task} {t : Task} :
      s.tasks = pre ++ t :: post →
      ClusterStep s .abandon { s with tasks := pre ++ post }
  | saveStart {s : ClusterState} :
      s.saving = .idle → s.queue.cachePath ≠ [] → s.queue.cacheDirty = true →
      ClusterStep s .save { s with
        saving := .started
        queue := { s.queue with cacheDirty := false } }
  | saveSnapshot {s : ClusterState} :
      s.saving = .started →
      ClusterStep s .save { s with saving := .writing s.queue.snapshot }
  | saveRename {s : ClusterState} {data : Bytes} :
      s.saving = .writing data →
      ClusterStep s .save { s with
        saving := .idle
        files := fun path => if path = s.queue.cachePath then some data else s.files path }
  | saveFail {s : ClusterState} {data : Bytes} :
      s.saving = .writing data →
      ClusterStep s .save { s with
        saving := .idle
        queue := { s.queue with cacheDirty := true } }
  /-- The process is gone with its queue, a new one starts at the same URL. -/
  | restart {s : ClusterState} {cfg : WorkerConfig} :
      ClusterStep s (.restart cfg) { s with
        cfg := cfg
        queue := runWorker cfg s.files
        process := s.process + 1
        saving := .idle }

/-- What the cache file of a queue can hold: a list of records with distinct IDs. -/
def SavedFile (data : Bytes) : Prop :=
  ∃ items : List Record, data = encode (ofSlice encodeRecord items) ∧
    (items.map Record.id).Nodup

/-- A process that just started, with cache files that earlier ones may have left. -/
def ClusterInit (s : ClusterState) : Prop :=
  s.queue = runWorker s.cfg s.files ∧ (∀ path data, s.files path = some data → SavedFile data) ∧
    s.process = 0 ∧ s.saving = .idle ∧ s.network = [] ∧ s.tasks = [] ∧ s.handed = [] ∧
    s.ingested = [] ∧ s.accepted = []

def clusterSystem : Transition.System ClusterState ClusterAction := ⟨ClusterInit, ClusterStep⟩

/-- No step is a restart. -/
def SameProcess (_ : ClusterState) : ClusterAction → Prop
  | .restart _ => False
  | _ => True

/-- The runs within the life of one worker process. -/
def oneProcess : Transition.System ClusterState ClusterAction :=
  clusterSystem.restrict SameProcess

end Cluster
