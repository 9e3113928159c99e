-- SUMMARY: Rounds of the pull channel as runs: a master with the worker's token can always fetch the head of the queue and acknowledge it.
import LazyDhtc.Cluster.InFlight

/-!
# Pull rounds

The steps of one round when nothing gets lost, from any state of the cluster.
-/

namespace Cluster

open DhtClient Json Transition

/-! ## The loop -/

/-- The loop over the items of a batch, from wherever it is. -/
theorem ingest_all {s : ClusterState} {pre post : List Task} {client : Client} {batch : Batch}
    {handed todo : List Record} (split : batch.items = handed ++ todo)
    (htasks : s.tasks = pre ++ ⟨client, batch, handed, todo, split⟩ :: post) :
    oneProcess.Steps s { s with
      tasks := pre ++ post
      network := s.network ++ [.ack client batch.items]
      handed := s.handed ++ todo
      ingested := s.ingested ++ (todo.map Record.metadata).filter ingestible } := by
  induction todo generalizing s handed with
  | nil =>
    have hsteps : oneProcess.Steps s _ := .single ⟨.acknowledge htasks, trivial⟩
    simpa using hsteps
  | cons r todo ih =>
    have hrest := ih (s := { s with
      tasks := pre ++
        ⟨client, batch, handed ++ [r], todo, by rw [split, List.append_assoc]; rfl⟩ :: post
      handed := s.handed ++ [r]
      ingested := if ingestible r.metadata then s.ingested ++ [r.metadata] else s.ingested }) _ rfl
    have hsteps : oneProcess.Steps s _ := .head ⟨.ingest htasks, trivial⟩ hrest
    cases hi : ingestible r.metadata with
    | true => simpa [hi] using hsteps
    | false => simpa [hi] using hsteps

/-! ## The master's token -/

/-- The master's requests, as they reach a worker with the same token. -/
theorem transmit_pullRequest {token : Bytes} (h : transmissible token = true) (hne : token ≠ []) :
    ∃ req, (pullRequest token).transmit = some req ∧ authorized token req.authorization = true :=
  (authorized_transmit hne _ _ _).2 h

theorem transmit_ackRequest {token : Bytes} (h : transmissible token = true) (hne : token ≠ [])
    (items : List Record) : ∃ req, (ackRequest token items).transmit = some req ∧
      authorized token req.authorization = true :=
  (authorized_transmit hne _ _ _).2 h

/-- The batch that a pull of the current queue gets. -/
def pulledBatch (s : ClusterState) : Batch :=
  (s.queue.batch (WorkerQueue.handlerBatch s.cfg.workerBatch)).onWire

/-- A pull in which nothing is lost: the records at the head of the queue are handed to
    `ingest`, and their acknowledgement is on its way. -/
theorem pull_round {s : ClusterState} (h : transmissible s.cfg.clusterToken = true)
    (hne : s.cfg.clusterToken ≠ []) (hitems : s.queue.items ≠ []) :
    ∃ resp, oneProcess.Steps s { s with
      network := s.network ++ [.queueResponse resp, .ack .pull (pulledBatch s).items]
      handed := s.handed ++ (pulledBatch s).items
      ingested := s.ingested ++ ((pulledBatch s).items.map Record.metadata).filter ingestible } := by
  obtain ⟨req, hreq, hauth⟩ := transmit_pullRequest h hne
  have hget := ClusterStep.queueGet (s := s) hreq
  have hbatch := s.queue.pullBatch_handler s.cfg.clusterToken s.cfg.workerBatch hreq
  rw [if_pos hauth] at hbatch
  have hbatch_ne : (pulledBatch s).items ≠ [] := by
    simpa [pulledBatch, Batch.onWire] using WorkerQueue.batch_items_ne_nil hitems _
  have hreceive := ClusterStep.pullReceive (s := { s with
    network := s.network ++
      [.queueResponse (s.queue.handler s.cfg.clusterToken s.cfg.workerBatch req).2] })
    (List.mem_append_right _ (List.mem_singleton_self _)) hbatch hbatch_ne
  have htasks : s.tasks ++ [Task.start .pull (pulledBatch s)] =
      s.tasks ++ ⟨.pull, pulledBatch s, [], (pulledBatch s).items, rfl⟩ :: [] := rfl
  have hloop := ingest_all (s := { s with
    network := s.network ++
      [.queueResponse (s.queue.handler s.cfg.clusterToken s.cfg.workerBatch req).2]
    tasks := s.tasks ++ [.start .pull (pulledBatch s)] }) rfl htasks
  have hsteps : oneProcess.Steps s _ := .head ⟨hget, trivial⟩ (.head ⟨hreceive, trivial⟩ hloop)
  refine ⟨(s.queue.handler s.cfg.clusterToken s.cfg.workerBatch req).2, ?_⟩
  simpa using hsteps

/-! ## Acknowledgements -/

/-- Twenty digits are enough for an ID. -/
theorem digitCount_le (n : UInt64) : digitCount n.toNat ≤ 20 := by
  have hlt : n.toNat < 10 ^ 20 := n.toNat_lt.trans (by decide)
  by_cases hzero : n.toNat = 0
  · simp [digitCount, hzero]
  · exact Nat.succ_le_of_lt (Nat.log_lt_of_lt_pow hzero hlt)

theorem length_encodeAck_le (ids : List UInt64) :
    (encode (encodeAck ⟨ids⟩)).length ≤ 10 + 21 * ids.length := by
  have hsum : ((ids.map ofUInt64).map fun v => (encode v).length + 1).sum ≤ 21 * ids.length := by
    induction ids with
    | nil => exact Nat.le_refl _
    | cons n ids ih =>
      have hdigits := digitCount_le n
      simp only [List.map_cons, List.sum_cons, length_ofUInt64, List.length_cons] at ih ⊢
      omega
  have hname : textSize (ascii "ids") = 5 := by decide
  rw [encodeAck, length_encode_obj (by simp [ackMembers]), ackMembers]
  simp only [List.map_cons, List.map_nil, List.sum_cons, List.sum_nil, length_encode_arr, hname]
  split_ifs <;> omega

/-- An acknowledgement of at most 64 records fits and takes effect. -/
theorem deliver_ack {s : ClusterState} {items : List Record}
    (h : transmissible s.cfg.clusterToken = true) (hne : s.cfg.clusterToken ≠ [])
    (hm : .ack .pull items ∈ s.network) (hlen : items.length ≤ 64) :
    oneProcess.step s (.ack .pull items)
      { s with queue := (s.queue.ack (items.map Record.id)).1 } := by
  obtain ⟨req, hreq, hauth⟩ := transmit_ackRequest h hne items
  have hsize := length_encodeAck_le (items.map Record.id)
  rw [List.length_map] at hsize
  have hqueue := s.queue.handler_ackRequest s.cfg.clusterToken s.cfg.workerBatch hreq
  rw [if_pos ⟨hauth, by omega⟩] at hqueue
  rw [← hqueue]
  exact ⟨.ackPull hm hreq, trivial⟩

/-! ## An idle worker -/

/-- A worker in pull mode. -/
def pullWorker : WorkerConfig where
  workerID := ascii "edge-1"
  workerQueue := 256
  masterURL := []
  clusterToken := ascii "secret"
  workerBatch := 16
  workerCacheDir := []
  address := ascii ":4200"

/-- Its first process, before anything happens. -/
def pullStart : ClusterState where
  cfg := pullWorker
  queue := runWorker pullWorker fun _ => none
  process := 0
  saving := .idle
  files := fun _ => none
  network := []
  tasks := []
  handed := []
  ingested := []
  accepted := []

theorem init_pullStart : ClusterInit pullStart :=
  ⟨rfl, fun _ _ hfile => (Option.some_ne_none _ hfile.symm).elim, rfl, rfl, rfl, rfl, rfl, rfl, rfl⟩

/-- The worker has an empty queue, and its last ID was `last`. -/
structure Idle (s : ClusterState) (last : UInt64) : Prop where
  cfg : s.cfg = pullWorker
  limit : s.queue.limit = 256
  items : s.queue.items = []
  nextID : s.queue.nextID = last

/-- A record is queued in the state `t`, was pulled since `s`, and can be acknowledged. -/
structure Pulled (s t : ClusterState) (r : Record) : Prop where
  cfg : t.cfg = pullWorker
  limit : t.queue.limit = 256
  items : t.queue.items = [r]
  nextID : t.queue.nextID = r.id
  network : s.network ⊆ t.network
  ack : .ack .pull [r.onWire] ∈ t.network
  ingested : t.ingested = s.ingested ++ [onWire r.metadata]

theorem idle_pullStart : Idle pullStart 0 := ⟨rfl, rfl, rfl, rfl⟩

/-- An idle worker accepts a record. -/
theorem Idle.accept {s : ClusterState} {last : UInt64} (h : Idle s last) (md : Metadata) :
    (s.queue.enqueue md).2 = true ∧ (s.queue.enqueue md).1.items = [⟨last + 1, md⟩] ∧
      (s.queue.enqueue md).1.nextID = last + 1 ∧ (s.queue.enqueue md).1.limit = 256 := by
  have hroom : s.queue.items.length < s.queue.limit := by
    rw [h.items, h.limit]
    decide
  have haccepted := WorkerQueue.enqueue_accepts hroom md
  rcases s.queue.enqueue_cases md with ⟨hrefused, -⟩ | ⟨-, hitems, hnext, hlimit⟩
  · cases hrefused.symm.trans haccepted
  · rw [h.items, h.nextID] at hitems
    exact ⟨haccepted, hitems, hnext.trans (by rw [h.nextID]), hlimit.trans h.limit⟩

/-- An idle worker can be given a record, which is then pulled. -/
theorem Idle.pull {s : ClusterState} {last : UInt64} (h : Idle s last) (md : Metadata)
    (hmd : ingestible md = true) : ∃ t, oneProcess.Steps s t ∧ Pulled s t ⟨last + 1, md⟩ := by
  obtain ⟨haccepted, hitems, hnext, hlimit⟩ := h.accept md
  have henqueue : oneProcess.step s (.enqueue md) _ := ⟨.accept haccepted, trivial⟩
  have htoken : transmissible s.cfg.clusterToken = true := by
    rw [h.cfg]
    decide
  have hne : s.cfg.clusterToken ≠ [] := by
    rw [h.cfg]
    decide
  obtain ⟨resp, hpull⟩ := pull_round (s := { s with
    queue := (s.queue.enqueue md).1
    accepted := s.accepted ++ [⟨s.queue.nextID + 1, md⟩] }) htoken hne (by simp [hitems])
  have hbatch : (pulledBatch { s with
      queue := (s.queue.enqueue md).1
      accepted := s.accepted ++ [⟨s.queue.nextID + 1, md⟩] }).items =
      [Record.onWire ⟨last + 1, md⟩] := by
    simp only [pulledBatch, Batch.onWire, WorkerQueue.batch, hitems, h.cfg]
    rfl
  rw [hbatch] at hpull
  refine ⟨_, .head henqueue hpull, h.cfg, hlimit, hitems, hnext, ?_, ?_, ?_⟩
  · exact List.subset_append_left _ _
  · simp
  · simp [Record.onWire, show ingestible (onWire md) = true from hmd]

/-- Once it is acknowledged the worker is idle again. -/
theorem Pulled.idle {s t : ClusterState} {r : Record} (h : Pulled s t r) :
    ∃ u, oneProcess.step t (.ack .pull [r.onWire]) u ∧ Idle u r.id ∧ u.network = t.network ∧
      u.ingested = t.ingested := by
  have htoken : transmissible t.cfg.clusterToken = true := by
    rw [h.cfg]
    decide
  have hne : t.cfg.clusterToken ≠ [] := by
    rw [h.cfg]
    decide
  refine ⟨_, deliver_ack htoken hne h.ack (by simp), ⟨h.cfg, ?_, ?_, ?_⟩, rfl, rfl⟩
  · simp [h.limit]
  · simp [h.items]
  · simp [h.nextID]

end Cluster
