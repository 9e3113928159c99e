-- SUMMARY: A flush round against the master: when the request is accepted, what the master decodes, and when the queue gets shorter.
import LazyDhtc.Cluster.Exchange

/-!
# Flush rounds

`Flush` bounds its batch by a number of records, the master bounds the body by a number
of bytes. A round against a reachable master does what it is for exactly when the body
fits, the token survives the header field, and JSON can carry the strings as they are.
-/

namespace Cluster

open DhtClient Json

/-! ## Rounds -/

namespace WorkerQueue

/-- `Flush`, with the response of a master that is configured with `token`. -/
def flush (q : WorkerQueue) (token : Bytes) : WorkerQueue × Option FlushError :=
  match q.flushRequest with
  | none => (q, none)
  | some req =>
    match req.transmit with
    | none => (q, some .transport)
    | some req => q.flushResponse (masterFlushHandler token req).2

/-- The two ends agree on the next flush: the request is accepted and decodes to the batch
    that was sent, the ack names all its records, and the queue gets shorter. -/
structure FlushAgrees (q : WorkerQueue) (token : Bytes) : Prop where
  accepted : ∃ req, q.flushRequest.bind Request.transmit = some req ∧
    masterFlushBatch token req = .ok q.nextBatch ∧
    ∃ ack, (readValue (masterFlushHandler token req).2.body true).bind decodeAck = some ack ∧
      ∀ r ∈ q.nextBatch.items, r.id ∈ ack.ids
  shortens : (q.flush token).1.items.length < q.items.length

theorem nextBatch_ne_nil {q : WorkerQueue} (h : q.items ≠ []) : q.nextBatch.items ≠ [] :=
  batch_items_ne_nil h _

theorem flushRequest_eq {q : WorkerQueue} (hitems : q.items ≠ []) (hurl : q.masterURL ≠ [])
    (htoken : q.clusterToken ≠ []) : q.flushRequest =
      some ⟨.post, bearer ++ q.clusterToken, ascii "gzip", encode (encodeBatch q.nextBatch)⟩ := by
  have hbatch : (q.batch q.flushBatchSize).items ≠ [] := nextBatch_ne_nil hitems
  unfold flushRequest
  rw [if_neg hbatch, if_neg (by simp [hurl, htoken])]
  rfl

/-- An accepted flush acknowledges its batch. -/
theorem flushResponse_batch {q : WorkerQueue} {b : Batch} (hb : b.items ≠ []) :
    q.flushResponse (masterFlushResponse b) = ((q.ack (b.items.map Record.id)).1, none) := by
  rw [masterFlushResponse, flushResponse_ack, if_neg (by simpa using hb)]

/-- The request of a flush as the handler gets it. -/
theorem transmit_flushRequest {q : WorkerQueue} (hitems : q.items ≠ []) (hurl : q.masterURL ≠ [])
    (htoken : q.clusterToken ≠ []) {req : Request}
    (h : q.flushRequest.bind Request.transmit = some req) :
    req.method = .post ∧ req.body = encode (encodeBatch q.nextBatch) := by
  rw [flushRequest_eq hitems hurl htoken, Option.bind_some] at h
  unfold Request.transmit at h
  split_ifs at h
  cases h
  exact ⟨rfl, rfl⟩

/-- A flush that the two ends agree on meets the master's conditions. -/
theorem FlushAgrees.conditions {q : WorkerQueue} (h : q.FlushAgrees q.clusterToken)
    (hitems : q.items ≠ []) (hurl : q.masterURL ≠ []) (htoken : q.clusterToken ≠ []) :
    transmissible q.clusterToken = true ∧ batchSize q.nextBatch ≤ 1024 * 1024 ∧
      q.nextBatch.Valid := by
  obtain ⟨req, hreq, hbatch, -⟩ := h.accepted
  obtain ⟨hpost, hbody⟩ := transmit_flushRequest hitems hurl htoken hreq
  rw [masterFlushBatch_eq _ hpost q.nextBatch hbody] at hbatch
  split_ifs at hbatch with hauth hsize
  rw [flushRequest_eq hitems hurl htoken, Option.bind_some] at hreq
  refine ⟨(authorized_transmit htoken _ _ _).1 ⟨req, hreq, hauth⟩, hsize, ?_⟩
  exact Batch.onWire_eq_self_iff.1 (Except.ok.inj hbatch)

theorem FlushAgrees.of_conditions {q : WorkerQueue} (hitems : q.items ≠ [])
    (hurl : q.masterURL ≠ []) (htoken : q.clusterToken ≠ [])
    (htransmit : transmissible q.clusterToken = true)
    (hsize : batchSize q.nextBatch ≤ 1024 * 1024) (hvalid : q.nextBatch.Valid) :
    q.FlushAgrees q.clusterToken := by
  have hrequest := flushRequest_eq hitems hurl htoken
  obtain ⟨req, hreq, hauth⟩ := (authorized_transmit htoken .post (ascii "gzip")
    (encode (encodeBatch q.nextBatch))).2 htransmit
  have hsent : q.flushRequest.bind Request.transmit = some req := by
    rw [hrequest, Option.bind_some, hreq]
  obtain ⟨hpost, hbody⟩ := transmit_flushRequest hitems hurl htoken hsent
  have hbatch : masterFlushBatch q.clusterToken req = .ok q.nextBatch := by
    rw [masterFlushBatch_eq _ hpost q.nextBatch hbody, if_pos hauth, if_pos hsize,
      Batch.onWire_eq_self_iff.2 hvalid]
  have hresponse : (masterFlushHandler q.clusterToken req).2 = masterFlushResponse q.nextBatch := by
    rw [masterFlushHandler, hbatch]
  refine ⟨⟨req, hsent, hbatch, ⟨q.nextBatch.items.map Record.id⟩, ?_, ?_⟩, ?_⟩
  · rw [hresponse]
    exact decode_okJson_ack _
  · intro r hr
    exact List.mem_map_of_mem hr
  · have hflush : q.flush q.clusterToken =
        ((q.ack (q.nextBatch.items.map Record.id)).1, none) := by
      unfold flush
      simp only [hrequest, hreq, hresponse]
      exact flushResponse_batch (nextBatch_ne_nil hitems)
    obtain ⟨r, hr⟩ := List.exists_mem_of_ne_nil _ (nextBatch_ne_nil hitems)
    rw [hflush]
    exact length_ack_lt ((batch_items_take q _).subset hr) (List.mem_map_of_mem hr)

/-- The two ends agree on a flush exactly when the token survives the header, the body
    fits, and all strings of the batch are UTF-8. -/
theorem flush_agrees_iff {q : WorkerQueue} (hitems : q.items ≠ []) (hurl : q.masterURL ≠ [])
    (htoken : q.clusterToken ≠ []) : q.FlushAgrees q.clusterToken ↔
      transmissible q.clusterToken = true ∧ batchSize q.nextBatch ≤ 1024 * 1024 ∧
        q.nextBatch.Valid :=
  ⟨fun h => h.conditions hitems hurl htoken,
    fun ⟨htransmit, hsize, hvalid⟩ => .of_conditions hitems hurl htoken htransmit hsize hvalid⟩

/-- The queue of a worker in push mode after its first record. -/
def pushQueue (md : Metadata) : WorkerQueue :=
  ((((WorkerQueue.new (ascii "edge-1") 256 (ascii "/var/cache/dhtc") none).setMaster
    (ascii "http://master") (ascii "secret")).startFlushLoop 16 16).enqueue md).1

theorem flush_agrees_iff_small :
    (pushQueue (torrentNamed (ascii "a.iso"))).FlushAgrees (ascii "secret") :=
  (flush_agrees_iff (q := pushQueue (torrentNamed (ascii "a.iso"))) (by decide) (by decide)
    (by decide)).2 ⟨by decide, by decide, by decide⟩

/-- The master refuses a flush over the limit, and the worker keeps its queue. -/
theorem flush_refused {q : WorkerQueue} (hitems : q.items ≠ []) (hurl : q.masterURL ≠ [])
    (htoken : q.clusterToken ≠ []) (hsize : 1024 * 1024 < batchSize q.nextBatch) :
    (q.flush q.clusterToken).1 = q := by
  unfold flush
  rw [flushRequest_eq hitems hurl htoken]
  simp only
  split
  · rfl
  · next req hreq =>
    have hsent : q.flushRequest.bind Request.transmit = some req := by
      rw [flushRequest_eq hitems hurl htoken, Option.bind_some, hreq]
    obtain ⟨hpost, hbody⟩ := transmit_flushRequest hitems hurl htoken hsent
    have hbatch := masterFlushBatch_eq q.clusterToken hpost q.nextBatch hbody
    rw [if_neg (Nat.not_le.2 hsize)] at hbatch
    have hstatus : (masterFlushHandler q.clusterToken req).2.status / 100 ≠ 2 := by
      unfold masterFlushHandler
      rw [hbatch]
      split_ifs <;> decide
    unfold flushResponse
    rw [if_pos hstatus]

theorem nextBatch_pushQueue (md : Metadata) :
    (pushQueue md).nextBatch = ⟨ascii "edge-1", [⟨1, md⟩], 1, 0⟩ := rfl

theorem batchSize_pushQueue {name : Bytes} (h : 1024 * 1024 ≤ name.length) :
    1024 * 1024 < batchSize (pushQueue (torrentNamed name)).nextBatch := by
  have hname := length_le_textSize name
  rw [nextBatch_pushQueue]
  simp only [batchSize, sliceSize, recordSize, metadataSize, torrentNamed, List.map_cons,
    List.map_nil, List.sum_cons, List.sum_nil, reduceCtorEq, if_false]
  omega

/-- A record that does not fit alone is refused in every round, and stays where it is. -/
theorem flush_blocks {name : Bytes} (h : 1024 * 1024 ≤ name.length) :
    ¬ (pushQueue (torrentNamed name)).FlushAgrees (ascii "secret") ∧
      ∀ n, (fun q => (q.flush (ascii "secret")).1)^[n] (pushQueue (torrentNamed name)) =
        pushQueue (torrentNamed name) := by
  have hkeeps : ((pushQueue (torrentNamed name)).flush (ascii "secret")).1 =
      pushQueue (torrentNamed name) :=
    flush_refused (q := pushQueue (torrentNamed name)) (List.cons_ne_nil _ _)
      (List.cons_ne_nil _ _) (List.cons_ne_nil _ _) (batchSize_pushQueue h)
  refine ⟨?_, ?_⟩
  · intro hagrees
    have hlt := hagrees.shortens
    rw [hkeeps] at hlt
    exact Nat.lt_irrefl _ hlt
  · intro n
    exact Function.iterate_fixed hkeeps n

/-- Its info dictionary is far below `MaxMetadataSize`: a name of a mebibyte, one file. -/
theorem flush_blocks_head :
    ¬ (pushQueue (torrentNamed (List.replicate (1024 * 1024) 97))).FlushAgrees (ascii "secret") ∧
      ∀ n, (fun q => (q.flush (ascii "secret")).1)^[n]
          (pushQueue (torrentNamed (List.replicate (1024 * 1024) 97))) =
        pushQueue (torrentNamed (List.replicate (1024 * 1024) 97)) :=
  flush_blocks (Nat.le_of_eq List.length_replicate.symm)

end WorkerQueue

end Cluster
