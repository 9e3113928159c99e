-- SUMMARY: What each end of the two channels makes of the other's requests and responses.
import LazyDhtc.Cluster.WorkerQueue

/-!
# Exchanges

A header field may change or lose the token, and JSON coerces strings. What a receiver
decodes is therefore either nothing or the wire form of what was sent.
-/

namespace Cluster

open DhtClient Json

/-! ## The token -/

/-- A token that arrives in a header field as it was sent: only characters that a field
    value may have, and no blank at its end. -/
def transmissible (token : Bytes) : Bool := validFieldValue token && !token.getLast?.any isBlank

theorem validFieldValue_bearer (token : Bytes) :
    validFieldValue (bearer ++ token) = validFieldValue token := by
  have hbearer : bearer.all (fun b => isBlank b || (0x20 ≤ b && b ≠ 0x7F)) = true := by decide
  simp only [validFieldValue, List.all_append, hbearer, Bool.true_and]

theorem trimBlanks_bearer (token : Bytes) :
    trimBlanks (bearer ++ token) = (bearer ++ token).rdropWhile isBlank := by
  have hhead : (bearer ++ token).dropWhile isBlank = bearer ++ token :=
    List.dropWhile_cons_of_neg (by decide)
  rw [trimBlanks, hhead]

theorem authorized_bearer {token : Bytes} (h : token ≠ []) :
    authorized token (bearer ++ token) = true := by
  simp [authorized, h]

/-- A client without a blank at the end of its field is refused a token that has one. -/
theorem authorized_last {token authorization : Bytes}
    (hauth : authorized token authorization = true)
    (hlast : authorization.getLast?.any isBlank = false) : token.getLast?.any isBlank = false := by
  simp only [authorized, Bool.and_eq_true, decide_eq_true_eq, ne_eq] at hauth
  obtain ⟨hne, heq⟩ := hauth
  split_ifs at heq with hbearer
  · rw [← heq] at hne ⊢
    rw [List.drop_eq_nil_iff, Nat.not_le] at hne
    rwa [List.getLast?_drop, if_neg (by omega)]
  · rwa [← heq]

theorem getLast?_rdropWhile {p : UInt8 → Bool} (s : Bytes) :
    (s.rdropWhile p).getLast?.any p = false := by
  by_cases hnil : s.rdropWhile p = []
  · simp [hnil]
  · have hlast := List.rdropWhile_last_not p s hnil
    rw [List.getLast?_eq_getLast_of_ne_nil hnil]
    simpa using hlast

/-- The token that the handler sees is the worker's iff it is transmissible. -/
theorem authorized_transmit {token : Bytes} (h : token ≠ []) (m : Method) (enc body : Bytes) :
    (∃ r, Request.transmit ⟨m, bearer ++ token, enc, body⟩ = some r ∧
      authorized token r.authorization = true) ↔ transmissible token = true := by
  simp only [Request.transmit, validFieldValue_bearer, trimBlanks_bearer, transmissible,
    Bool.and_eq_true, Bool.not_eq_true']
  constructor
  · rintro ⟨r, hr, hauth⟩
    split_ifs at hr with hvalid
    cases hr
    exact ⟨hvalid, authorized_last hauth (getLast?_rdropWhile _)⟩
  · rintro ⟨hvalid, hlast⟩
    refine ⟨_, if_pos hvalid, ?_⟩
    have hlast' : (bearer ++ token).getLast?.any isBlank = false := by
      rwa [List.getLast?_append_of_ne_nil _ h]
    have hself : (bearer ++ token).rdropWhile isBlank = bearer ++ token := by
      rw [List.rdropWhile_eq_self_iff]
      intro hne
      rw [List.getLast?_eq_getLast_of_ne_nil hne] at hlast'
      simpa using hlast'
    rw [hself]
    exact authorized_bearer h

/-! ## Bodies -/

/-- A batch is read from a limited body if it fits. -/
theorem readLimited_encodeBatch (limit : Nat) (b : Batch) :
    (readLimited limit (encode (encodeBatch b))).bind decodeBatch =
      if batchSize b ≤ limit then some b.onWire else none := by
  have hread := readLimited_encode (depth_encodeBatch b) limit
  have hlen : (encode (Value.obj (batchMembers b))).length = batchSize b := length_encodeBatch b
  rw [hlen] at hread
  rw [encodeBatch, hread]
  split_ifs
  · exact decodeBatch_encode b
  · rfl

/-- A response is read as the document that it was made from. -/
theorem readValue_okJson {v : Value} (hv : v.depth ≤ maxNestingDepth) :
    readValue (okJson v).body true = some v.coerce :=
  readValue_encode hv (stops_cons (.inr (.inr (.inr rfl))) [])

theorem decode_okJson_ack (ids : List UInt64) :
    (readValue (okJson (encodeAck ⟨ids⟩)).body true).bind decodeAck = some ⟨ids⟩ := by
  rw [readValue_okJson (depth_encodeAck ⟨ids⟩)]
  exact decodeAck_encode ⟨ids⟩

theorem masterFlushBatch_eq (token : Bytes) {r : Request} (hpost : r.method = .post) (b : Batch)
    (hbody : r.body = encode (encodeBatch b)) : masterFlushBatch token r =
      if authorized token r.authorization = true then
        if batchSize b ≤ 1024 * 1024 then .ok b.onWire else .error (badRequest "invalid batch\n")
      else .error unauthorized := by
  unfold masterFlushBatch
  rw [if_pos hpost, hbody, readLimited_encodeBatch]
  split_ifs <;> rfl

/-! ## Push -/

theorem transmit_body {req sent : Request} (h : req.transmit = some sent) :
    sent.method = req.method ∧ sent.acceptEncoding = req.acceptEncoding ∧ sent.body = req.body := by
  unfold Request.transmit at h
  split_ifs at h
  cases h
  exact ⟨rfl, rfl, rfl⟩

/-- An accepted request decodes to its batch, whatever the token. -/
theorem masterFlushBatch_ok {token : Bytes} {req : Request} {b : Batch}
    (h : masterFlushBatch token req = .ok b) :
    (readLimited (1024 * 1024) req.body).bind decodeBatch = some b := by
  unfold masterFlushBatch at h
  split_ifs at h
  split at h
  · cases h
  · next hbody =>
    cases h
    exact hbody

namespace WorkerQueue

/-- The batch of the next flush. -/
def nextBatch (q : WorkerQueue) : Batch := q.batch q.flushBatchSize

theorem flushRequest_body {q : WorkerQueue} {req : Request} (h : q.flushRequest = some req) :
    req.method = .post ∧ req.body = encode (encodeBatch q.nextBatch) := by
  unfold flushRequest at h
  split_ifs at h
  cases h
  exact ⟨rfl, rfl⟩

/-- A response that names records removes them. -/
theorem flushResponse_ack (q : WorkerQueue) (ids : List UInt64) :
    q.flushResponse (okJson (encodeAck ⟨ids⟩)) =
      if ids = [] then (q, some .noRecords) else ((q.ack ids).1, none) := by
  have hstatus : ¬ (okJson (encodeAck ⟨ids⟩)).status / 100 ≠ 2 := by simp [okJson]
  unfold flushResponse
  rw [if_neg hstatus, decode_okJson_ack]

/-! ## Pull -/

/-- `pullBatch` gets the wire form of the head of the queue, or nothing. -/
theorem pullBatch_handler (q : WorkerQueue) (token' : Bytes) (maxBatch : Int) {token : Bytes}
    {req : Request} (h : (pullRequest token).transmit = some req) :
    pullBatch (q.handler token' maxBatch req).2 =
      if authorized token' req.authorization = true then
        some (q.batch (handlerBatch maxBatch)).onWire
      else none := by
  obtain ⟨hget, -, -⟩ := transmit_body h
  have hbody (gzip : Bool) : pullBatch { okJson (encodeBatch (q.batch (handlerBatch maxBatch))) with
      gzip := gzip } = some (q.batch (handlerBatch maxBatch)).onWire := by
    have hread := readValue_okJson (depth_encodeBatch (q.batch (handlerBatch maxBatch)))
    have hstatus : ¬ (200 : Nat) / 100 ≠ 2 := by decide
    unfold pullBatch
    rw [show (okJson (encodeBatch (q.batch (handlerBatch maxBatch)))).status = 200 from rfl,
      if_neg hstatus]
    simp only [hread, Option.bind_some]
    exact decodeBatch_encode _
  unfold handler
  split_ifs with hauth
  · simp only [hget, pullRequest]
    exact hbody _
  · simp [pullBatch, unauthorized]

/-- What the body of an acknowledgement decodes to, if it is not too long. -/
theorem decode_ackRequest {token : Bytes} {items : List Record} {req : Request}
    (h : (ackRequest token items).transmit = some req) (limit : Nat) :
    (readLimited limit req.body).bind decodeAck =
      if (encode (encodeAck ⟨items.map Record.id⟩)).length ≤ limit then
        some ⟨items.map Record.id⟩
      else none := by
  obtain ⟨-, -, hbody⟩ := transmit_body h
  have hread := readLimited_encode (depth_encodeAck ⟨items.map Record.id⟩) limit
  rw [hbody]
  change (readLimited limit (encode (.obj (ackMembers _)))).bind decodeAck = _
  rw [hread]
  split_ifs with hlen hlen' hlen'
  · exact decodeAck_encode _
  · exact absurd hlen hlen'
  · exact absurd hlen' hlen
  · rfl

/-- An acknowledgement has no effect or removes its records. -/
theorem handler_ackRequest (q : WorkerQueue) (token' : Bytes) (maxBatch : Int) {token : Bytes}
    {items : List Record} {req : Request} (h : (ackRequest token items).transmit = some req) :
    (q.handler token' maxBatch req).1 = if authorized token' req.authorization = true ∧
        (encode (encodeAck ⟨items.map Record.id⟩)).length ≤ 64 * 1024 then
      (q.ack (items.map Record.id)).1 else q := by
  obtain ⟨hpost, -, -⟩ := transmit_body h
  have hdecode := decode_ackRequest h (64 * 1024)
  unfold handler
  by_cases hauth : authorized token' req.authorization = true
  · simp only [hauth, if_true, hpost, ackRequest, hdecode, true_and]
    split_ifs <;> rfl
  · simp [hauth]

end WorkerQueue

end Cluster
