-- SUMMARY: The worker's queue of records for the master: its operations, its HTTP handler, the two ends of a flush, and the master's end of a pull.
import LazyDhtc.Cluster.Wire
import Mathlib.Data.List.DropRight

/-!
# The cluster transport

A worker keeps the records it found in a queue until a master acknowledges them. The
master pulls batches with `GET` and acknowledges them with `POST`; a worker in push mode
posts batches itself. Requests and responses carry the bytes of their bodies.
-/

namespace Cluster

open DhtClient Json

/-! ## HTTP -/

inductive Method where
  | get
  | post
  | other
deriving DecidableEq

structure Request where
  method : Method
  authorization : Bytes
  acceptEncoding : Bytes
  body : Bytes

/-- A response. `gzip` says that the body is compressed on its way; `net/http` asks for that
    and decompresses by itself. -/
structure Response where
  status : Nat
  gzip : Bool
  body : Bytes

def isBlank (b : UInt8) : Bool := b = 0x20 || b = 0x09

/-- A value that `net/http` accepts for a header field. -/
def validFieldValue (v : Bytes) : Bool := v.all fun b => isBlank b || (0x20 ≤ b && b ≠ 0x7F)

/-- A field value without the blanks around it. -/
def trimBlanks (v : Bytes) : Bytes := (v.dropWhile isBlank).rdropWhile isBlank

/-- The request that reaches the server: a client refuses an `Authorization` field that is
    no field value, and blanks around it get lost. -/
def Request.transmit (r : Request) : Option Request :=
  if validFieldValue r.authorization then
    some { r with authorization := trimBlanks r.authorization }
  else none

def unauthorized : Response := ⟨401, false, ascii "unauthorized\n"⟩

def badRequest (text : String) : Response := ⟨400, false, ascii text⟩

/-- What `json.NewEncoder(w).Encode` writes. -/
def okJson (v : Value) : Response := ⟨200, false, encode v ++ [0x0A]⟩

def bearer : Bytes := ascii "Bearer "

/-- The check of the `Authorization` field that both handlers start with. -/
def authorized (token authorization : Bytes) : Bool :=
  let provided := if bearer <+: authorization then authorization.drop bearer.length else authorization
  token ≠ [] && provided = token

/-! ## The queue -/

structure WorkerQueue where
  workerID : Bytes
  limit : Nat
  nextID : UInt64
  items : List Record
  dropped : UInt64
  cachePath : Bytes
  cacheDirty : Bool
  masterURL : Bytes
  clusterToken : Bytes
  flushBatch : Int
  flushThreshold : Int
  /-- `flushWake` holds a signal. -/
  flushWake : Bool
  flushed : UInt64
  flushBatches : UInt64
deriving DecidableEq

namespace WorkerQueue

def signalFlush (q : WorkerQueue) : WorkerQueue := { q with flushWake := true }

def enqueue (q : WorkerQueue) (md : Metadata) : WorkerQueue × Bool :=
  if q.limit ≤ q.items.length then ({ q with dropped := q.dropped + 1 }, false)
  else
    let q := { q with
      nextID := q.nextID + 1
      items := q.items ++ [⟨q.nextID + 1, md⟩]
      cacheDirty := true }
    if 0 < q.flushThreshold ∧ q.flushThreshold ≤ q.items.length then (q.signalFlush, true)
    else (q, true)

def batch (q : WorkerQueue) (limit : Int) : Batch where
  workerID := q.workerID
  items := if limit < 1 ∨ q.items.length < limit then q.items else q.items.take limit.toNat
  queued := .ofNat q.items.length
  dropped := q.dropped

/-- `Ack`, and the metadata that `onAck` is called with. -/
def ack (q : WorkerQueue) (ids : List UInt64) : WorkerQueue × List Metadata :=
  let acked := q.items.filter fun r => r.id ∈ ids
  let q := { q with items := q.items.filter fun r => r.id ∉ ids, cacheDirty := true }
  if 0 < acked.length then
    ({ q with flushed := q.flushed + .ofNat acked.length, flushBatches := q.flushBatches + 1 },
      acked.map Record.metadata)
  else (q, [])

@[simp] theorem ack_items (q : WorkerQueue) (ids : List UInt64) :
    (q.ack ids).1.items = q.items.filter fun r => r.id ∉ ids := by
  simp only [ack]
  split_ifs <;> rfl

@[simp] theorem ack_limit (q : WorkerQueue) (ids : List UInt64) :
    (q.ack ids).1.limit = q.limit := by
  simp only [ack]
  split_ifs <;> rfl

@[simp] theorem ack_nextID (q : WorkerQueue) (ids : List UInt64) :
    (q.ack ids).1.nextID = q.nextID := by
  simp only [ack]
  split_ifs <;> rfl

theorem length_ack_lt {q : WorkerQueue} {ids : List UInt64} {r : Record} (hr : r ∈ q.items)
    (hid : r.id ∈ ids) : (q.ack ids).1.items.length < q.items.length := by
  rw [ack_items]
  exact List.length_filter_lt_length_iff_exists.2 ⟨r, hr, by simpa using hid⟩

/-- A batch is taken from the head of the queue. -/
theorem batch_items_take (q : WorkerQueue) (limit : Int) : (q.batch limit).items <+: q.items := by
  unfold batch
  split_ifs
  · exact List.prefix_rfl
  · exact List.take_prefix _ _

theorem batch_items_ne_nil {q : WorkerQueue} (h : q.items ≠ []) (limit : Int) :
    (q.batch limit).items ≠ [] := by
  unfold batch
  split_ifs with hlimit
  · exact h
  · simp only [ne_eq, List.take_eq_nil_iff, not_or]
    exact ⟨by omega, h⟩

/-- What `Enqueue` does: it refuses the metadata, or gives them the next ID. -/
theorem enqueue_cases (q : WorkerQueue) (md : Metadata) :
    ((q.enqueue md).2 = false ∧ (q.enqueue md).1 = { q with dropped := q.dropped + 1 }) ∨
    ((q.enqueue md).2 = true ∧ (q.enqueue md).1.items = q.items ++ [⟨q.nextID + 1, md⟩] ∧
      (q.enqueue md).1.nextID = q.nextID + 1 ∧ (q.enqueue md).1.limit = q.limit) := by
  simp only [enqueue]
  by_cases hfull : q.limit ≤ q.items.length
  · exact .inl (by simp [hfull])
  · refine .inr ?_
    simp only [hfull, if_false]
    split_ifs <;> exact ⟨rfl, rfl, rfl, rfl⟩

theorem enqueue_accepts {q : WorkerQueue} (h : q.items.length < q.limit) (md : Metadata) :
    (q.enqueue md).2 = true := by
  simp only [enqueue, Nat.not_le.2 h, if_false]
  split_ifs <;> rfl

/-- `strings.TrimRight(url, "/")` -/
def setMaster (q : WorkerQueue) (url token : Bytes) : WorkerQueue :=
  { q with masterURL := url.rdropWhile (· = 0x2F), clusterToken := token }

/-! ## The snapshot -/

/-- What `saveToCache` writes. -/
def snapshot (q : WorkerQueue) : Bytes := encode (ofSlice encodeRecord q.items)

/-- `loadFromCache`, given the content of the cache file. -/
def loadFromCache (q : WorkerQueue) (file : Option Bytes) : WorkerQueue :=
  if q.cachePath = [] then q
  else
    match file with
    | none => q
    | some data =>
      match readAll data with
      | none => q
      | some v =>
        match decodeSlice decodeRecord zeroRecord q.items v with
        | (items, false) => { q with items := items }
        | (items, true) =>
          { q with
            items := items
            nextID := items.foldl (fun n r => if n < r.id then r.id else n) q.nextID }

/-- `NewWorkerQueue` -/
def new (workerID : Bytes) (limit : Int) (cachePath : Bytes) (file : Option Bytes) : WorkerQueue :=
  loadFromCache
    { workerID := if workerID = [] then ascii "worker" else workerID
      limit := if limit < 1 then 256 else limit.toNat
      nextID := 0
      items := []
      dropped := 0
      cachePath := cachePath
      cacheDirty := false
      masterURL := []
      clusterToken := []
      flushBatch := 0
      flushThreshold := 0
      flushWake := false
      flushed := 0
      flushBatches := 0 } file

/-- The part of `StartFlushLoop` before its loop. -/
def startFlushLoop (q : WorkerQueue) (threshold batchSize : Int) : WorkerQueue :=
  let batchSize := if batchSize < 1 ∨ 64 < batchSize then 64 else batchSize
  let threshold := if threshold < 1 then batchSize else threshold
  let q := { q with flushBatch := batchSize, flushThreshold := threshold }
  if 0 < q.items.length then q.signalFlush else q

@[simp] theorem startFlushLoop_items (q : WorkerQueue) (threshold batchSize : Int) :
    (q.startFlushLoop threshold batchSize).items = q.items := by
  simp only [startFlushLoop]
  split_ifs <;> rfl

@[simp] theorem startFlushLoop_nextID (q : WorkerQueue) (threshold batchSize : Int) :
    (q.startFlushLoop threshold batchSize).nextID = q.nextID := by
  simp only [startFlushLoop]
  split_ifs <;> rfl

/-! ## Pull: the worker's end -/

def containsGzip (acceptEncoding : Bytes) : Bool := ascii "gzip" <:+: acceptEncoding

/-- The `maxBatch` that `Handler` goes by. -/
def handlerBatch (maxBatch : Int) : Int := if maxBatch < 1 ∨ 64 < maxBatch then 16 else maxBatch

def handler (token : Bytes) (maxBatch : Int) (q : WorkerQueue) (r : Request) :
    WorkerQueue × Response :=
  if authorized token r.authorization then
    match r.method with
    | .get =>
      (q, { okJson (encodeBatch (q.batch (handlerBatch maxBatch))) with
        gzip := containsGzip r.acceptEncoding })
    | .post =>
      match (readLimited (64 * 1024) r.body).bind decodeAck with
      | none => (q, badRequest "invalid ack\n")
      | some ack =>
        let q := (q.ack ack.ids).1
        (q, okJson (.obj [(ascii "queued", .num (.ofNat q.items.length))]))
    | .other => (q, ⟨405, false, []⟩)
  else (q, unauthorized)

/-! ## Push: the worker's end -/

def flushBatchSize (q : WorkerQueue) : Int := if q.flushBatch < 1 then 64 else q.flushBatch

/-- The errors of `Flush`: the client's or the decoder's, "master flush returned %d", and
    "master acknowledged no records". -/
inductive FlushError where
  | transport
  | decode
  | returned (status : Nat)
  | noRecords

/-- The request that `Flush` builds, if it builds one. -/
def flushRequest (q : WorkerQueue) : Option Request :=
  if (q.batch q.flushBatchSize).items = [] then none
  else if q.masterURL = [] ∨ q.clusterToken = [] then none
  else some ⟨.post, bearer ++ q.clusterToken, ascii "gzip",
    encode (encodeBatch (q.batch q.flushBatchSize))⟩

/-- What `Flush` does with the response, and its error. -/
def flushResponse (q : WorkerQueue) (resp : Response) : WorkerQueue × Option FlushError :=
  if resp.status / 100 ≠ 2 then (q, some (.returned resp.status))
  else
    match (readValue resp.body true).bind decodeAck with
    | none => (q, some .decode)
    | some ack => if ack.ids = [] then (q, some .noRecords) else ((q.ack ack.ids).1, none)

end WorkerQueue

/-! ## Push: the master's end -/

/-- Metadata that a receiver hands to `ingest`. -/
def ingestible (md : Metadata) : Bool := md.infoHash.length = 20 || md.infoHash.length = 32

/-- The first part of `NewMasterFlushHandler`: the batch of a request, or the response that
    refuses it. -/
def masterFlushBatch (token : Bytes) (r : Request) : Except Response Batch :=
  if authorized token r.authorization then
    if r.method = .post then
      match (readLimited (1024 * 1024) r.body).bind decodeBatch with
      | none => .error (badRequest "invalid batch\n")
      | some batch => .ok batch
    else .error ⟨405, false, []⟩
  else .error unauthorized

/-- The second part: the response to a batch whose items have been looped over. -/
def masterFlushResponse (batch : Batch) : Response :=
  okJson (encodeAck ⟨batch.items.map Record.id⟩)

/-- The metadata that the loop over the items hands to `ingest`, and the response. -/
def masterFlushHandler (token : Bytes) (r : Request) : List Metadata × Response :=
  match masterFlushBatch token r with
  | .error resp => ([], resp)
  | .ok batch =>
    ((batch.items.map Record.metadata).filter ingestible, masterFlushResponse batch)

/-! ## Pull: the master's end -/

/-- The first request of `pullBatch`. -/
def pullRequest (token : Bytes) : Request := ⟨.get, bearer ++ token, ascii "gzip", []⟩

/-- The batch that `pullBatch` takes from the response. -/
def pullBatch (resp : Response) : Option Batch :=
  if resp.status / 100 ≠ 2 then none else (readValue resp.body true).bind decodeBatch

/-- The second request of `pullBatch`, after the loop over the items: their IDs, whether
    `ingest` took them or not. -/
def ackRequest (token : Bytes) (items : List Record) : Request :=
  ⟨.post, bearer ++ token, ascii "gzip", encode (encodeAck ⟨items.map Record.id⟩)⟩

end Cluster
