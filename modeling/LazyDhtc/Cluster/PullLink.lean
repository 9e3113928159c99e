-- SUMMARY: A worker and the puller that pulls it, among other workers: the master ingests what the worker has accepted, each record once and in order.
import LazyDhtc.Cluster.PullRuns
import LazyDhtc.Cluster.QueueLaws
import LazyDhtc.Cluster.Rounds

/-!
# One worker behind the puller

Records come into the queue of the worker while the puller fetches and acknowledges them, is
reconfigured, and pulls other workers that may answer anything. Requests may fail before the
worker has got them and responses may be lost. What makes the difference between once and at
least once is that the worker gets every acknowledgement.
-/

namespace Cluster

open DhtClient Transition Transition.System

/-- The worker: its URL, its token and `maxBatch`. -/
structure LinkConfig where
  url : Bytes
  token : Bytes
  maxBatch : Int

structure PullLink where
  puller : Puller
  queue : WorkerQueue
  /-- The response of the worker to the request under way, once it has handled it. -/
  reply : Option Response
  /-- The records that the queue has accepted. -/
  accepted : List Record

/-- A request to the worker at this URL is under way. -/
def PullPc.Asks (url : Bytes) : PullPc → Prop
  | .fetching pull => pull.worker = url
  | .acking pull _ => pull.worker = url
  | _ => False

/-- What can happen to the requests to the worker: it is its own response that gets back, and
    an acknowledgement fails only after the worker has handled it. -/
def PullLink.Admissible (url : Bytes) (s : PullLink) : PullerAction → Prop
  | .fetched (.response resp _) => s.puller.pc.Asks url → s.reply = some resp
  | .acked (.response resp _) => s.puller.pc.Asks url → s.reply = some resp
  | .acked (.failed _) => s.puller.pc.Asks url → s.reply.isSome
  | _ => True

/-- A request is over when the puller has its outcome. -/
def PullerAction.ends : PullerAction → Bool
  | .fetched _ => true
  | .acked _ => true
  | _ => false

inductive LinkAction where
  | enqueue (md : Metadata)
  | puller (a : PullerAction)
  | serve

inductive LinkStep (parse : Bytes → Option ParsedURL) (cfg : LinkConfig) :
    PullLink → LinkAction → PullLink → Prop where
  | refuse {s : PullLink} {md : Metadata} :
      (s.queue.enqueue md).2 = false →
      LinkStep parse cfg s (.enqueue md) { s with queue := (s.queue.enqueue md).1 }
  | accept {s : PullLink} {md : Metadata} :
      (s.queue.enqueue md).2 = true →
      LinkStep parse cfg s (.enqueue md) { s with
        queue := (s.queue.enqueue md).1
        accepted := s.accepted ++ [⟨s.queue.nextID + 1, md⟩] }
  | puller {s : PullLink} {a : PullerAction} {p : Puller} :
      PullerStep parse s.puller a p → s.Admissible cfg.url a →
      LinkStep parse cfg s (.puller a) { s with
        puller := p
        reply := if a.ends then none else s.reply }
  | serveGet {s : PullLink} {pull : Pull} {req : Request} :
      s.puller.pc = .fetching pull → pull.worker = cfg.url → s.reply = none →
      (pullRequest pull.token).transmit = some req →
      LinkStep parse cfg s .serve { s with
        queue := (s.queue.handler cfg.token cfg.maxBatch req).1
        reply := some (s.queue.handler cfg.token cfg.maxBatch req).2 }
  | serveAck {s : PullLink} {pull : Pull} {batch : Batch} {req : Request} :
      s.puller.pc = .acking pull batch → pull.worker = cfg.url → s.reply = none →
      (ackRequest pull.token batch.items).transmit = some req →
      LinkStep parse cfg s .serve { s with
        queue := (s.queue.handler cfg.token cfg.maxBatch req).1
        reply := some (s.queue.handler cfg.token cfg.maxBatch req).2 }

/-- The puller and the worker, from their start on. The limit of the queue is an `int`. -/
def linkSystem (parse : Bytes → Option ParsedURL) (cfg : LinkConfig) :
    System PullLink LinkAction where
  init s := ∃ workerURLs token workerID limit cachePath, limit < 2 ^ 63 ∧
    s = ⟨newPuller parse workerURLs token, .new workerID limit cachePath none, none, []⟩
  step := LinkStep parse cfg

/-! ## The queue -/

/-- IDs are given out one after the other, modulo 2^64, and records leave the queue in order. -/
structure Numbered (queue : WorkerQueue) (accepted removed : List Record) : Prop where
  split : accepted = removed ++ queue.items
  nextID : queue.nextID = .ofNat accepted.length
  ids : accepted.map Record.id = (List.range accepted.length).map fun i => .ofNat (i + 1)
  full : queue.items.length ≤ queue.limit
  limit : queue.limit < 2 ^ 63

theorem Numbered.accept {queue : WorkerQueue} {accepted removed : List Record}
    (h : Numbered queue accepted removed) {md : Metadata} (hresult : (queue.enqueue md).2 = true) :
    Numbered (queue.enqueue md).1 (accepted ++ [⟨queue.nextID + 1, md⟩]) removed := by
  obtain ⟨hitems, hnext, hlimit, -, -, hroom⟩ := enqueue_accepted hresult
  have hid : queue.nextID + 1 = .ofNat (accepted.length + 1) := by
    rw [h.nextID, UInt64.ofNat_add]
    rfl
  refine ⟨?_, ?_, ?_, ?_, hlimit ▸ h.limit⟩
  · rw [hitems, h.split, List.append_assoc]
  · rw [hnext, hid, List.length_append]
    rfl
  · rw [List.map_append, List.length_append, List.length_singleton, List.range_succ,
      List.map_append, h.ids, List.map_singleton, List.map_singleton, hid]
  · rw [hitems, hlimit, List.length_append]
    exact hroom

theorem Numbered.refuse {queue : WorkerQueue} {accepted removed : List Record}
    (h : Numbered queue accepted removed) {md : Metadata} (hresult : (queue.enqueue md).2 = false) :
    Numbered (queue.enqueue md).1 accepted removed := by
  rw [enqueue_refused hresult]
  exact ⟨h.split, h.nextID, h.ids, h.full, h.limit⟩

theorem ofNat_inj_of_near {i j n : Nat} (hi : n ≤ i) (hj : n ≤ j) (hin : i < n + 2 ^ 64)
    (hjn : j < n + 2 ^ 64) (h : UInt64.ofNat i = .ofNat j) : i = j := by
  have hmod := congrArg UInt64.toNat h
  rw [UInt64.toNat_ofNat', UInt64.toNat_ofNat'] at hmod
  omega

/-- No two records in the queue have the same ID, however often the counter has wrapped. -/
theorem Numbered.nodup {queue : WorkerQueue} {accepted removed : List Record}
    (h : Numbered queue accepted removed) : (queue.items.map Record.id).Nodup := by
  have hlen : accepted.length = removed.length + queue.items.length := by
    rw [h.split, List.length_append]
  have hids : queue.items.map Record.id = ((List.range accepted.length).drop removed.length).map
      fun i => UInt64.ofNat (i + 1) := by
    rw [List.map_drop, ← h.ids, h.split, List.map_append, List.drop_left' (List.length_map _)]
  have hfull := h.full
  have hlimit := h.limit
  rw [hids]
  refine List.Nodup.map_on (fun i hi j hj heq => ?_)
    (List.nodup_range.sublist (List.drop_sublist _ _))
  obtain ⟨i', hi', rfl⟩ := List.mem_iff_getElem.1 hi
  obtain ⟨j', hj', rfl⟩ := List.mem_iff_getElem.1 hj
  have hi := hi'
  have hj := hj'
  rw [List.length_drop, List.length_range] at hi hj
  simp only [List.getElem_drop, List.getElem_range] at heq ⊢
  have hsucc := ofNat_inj_of_near (n := removed.length) (by omega) (by omega) (by omega)
    (by omega) heq
  exact Nat.succ.inj hsucc

theorem filter_notMem_take {α β : Type} [DecidableEq β] {f : α → β} {as : List α}
    (h : (as.map f).Nodup) (n : Nat) :
    as.filter (fun a => f a ∉ (as.take n).map f) = as.drop n := by
  have hhead : (as.take n).filter (fun a => f a ∉ (as.take n).map f) = [] := by
    refine List.filter_eq_nil_iff.2 fun a ha hnot => ?_
    exact of_decide_eq_true hnot (List.mem_map_of_mem ha)
  have hrest : (as.drop n).filter (fun a => f a ∉ (as.take n).map f) = as.drop n := by
    refine List.filter_eq_self.2 fun a ha => decide_eq_true fun hmem => ?_
    rw [← List.take_append_drop n as, List.map_append] at h
    exact List.disjoint_of_nodup_append h hmem (List.mem_map_of_mem ha)
  calc as.filter (fun a => f a ∉ (as.take n).map f)
      = (as.take n ++ as.drop n).filter (fun a => f a ∉ (as.take n).map f) := by
        rw [List.take_append_drop]
    _ = as.drop n := by rw [List.filter_append, hhead, hrest, List.nil_append]

/-- An acknowledgement of the head of the queue takes exactly that away. -/
theorem Numbered.ack {queue : WorkerQueue} {accepted removed items : List Record}
    (h : Numbered queue accepted removed) (hitems : items <+: queue.items.map Record.onWire) :
    Numbered (queue.ack (items.map Record.id)).1 accepted
      (removed ++ queue.items.take items.length) ∧
    (queue.items.take items.length).map Record.onWire = items := by
  have htake : (queue.items.take items.length).map Record.onWire = items := by
    rw [List.map_take]
    exact (List.prefix_iff_eq_take.1 hitems).symm
  have hids : items.map Record.id = (queue.items.take items.length).map Record.id := by
    conv_lhs => rw [← htake, List.map_map]
    rfl
  have hkept : (queue.ack (items.map Record.id)).1.items = queue.items.drop items.length := by
    rw [WorkerQueue.ack_items, hids]
    exact filter_notMem_take h.nodup _
  refine ⟨⟨?_, ?_, h.ids, ?_, ?_⟩, htake⟩
  · rw [hkept, List.append_assoc, List.take_append_drop]
    exact h.split
  · rw [WorkerQueue.ack_nextID]
    exact h.nextID
  · rw [hkept, WorkerQueue.ack_limit, List.length_drop]
    exact (Nat.sub_le _ _).trans h.full
  · rw [WorkerQueue.ack_limit]
    exact h.limit

/-! ## The link -/

/-- The worker has served these records to this token, and still has them at the head of its
    queue. -/
structure Served (cfg : LinkConfig) (queue : WorkerQueue) (token : Bytes) (items : List Record) :
    Prop where
  head : items <+: queue.items.map Record.onWire
  few : items.length ≤ 64
  authorized : ∃ req, (pullRequest token).transmit = some req ∧
    authorized cfg.token req.authorization = true

def PullPc.Consistent (cfg : LinkConfig) (queue : WorkerQueue) (reply : Option Response) :
    PullPc → Prop
  | .fetching pull => pull.worker = cfg.url → ∀ resp, reply = some resp → ∀ batch,
      pullBatch resp = some batch → Served cfg queue pull.token batch.items
  | .ingesting pull batch handed todo => batch.items = handed ++ todo ∧
      (pull.worker = cfg.url → Served cfg queue pull.token batch.items)
  | .acking pull batch =>
      pull.worker = cfg.url → reply = none → Served cfg queue pull.token batch.items
  | _ => True

/-- The records from this URL that the puller has looped over while the worker still has them. -/
def PullPc.inHand (url : Bytes) (reply : Option Response) : PullPc → List Record
  | .ingesting pull _ handed _ => if pull.worker = url then handed else []
  | .acking pull batch => if pull.worker = url ∧ reply.isNone then batch.items else []
  | _ => []

def Puller.handedFrom (s : Puller) (worker : Bytes) : List Record :=
  (s.handed.filter fun p => p.1 = worker).map Prod.snd

def Puller.ingestedFrom (s : Puller) (worker : Bytes) : List Metadata :=
  (s.ingested.filter fun p => p.1 = worker).map Prod.snd

/-- `removed` are the records that the worker has let go of. -/
structure PullLink.Inv (cfg : LinkConfig) (s : PullLink) (removed : List Record) : Prop where
  numbered : Numbered s.queue s.accepted removed
  handed : s.puller.handedFrom cfg.url =
    removed.map Record.onWire ++ s.puller.pc.inHand cfg.url s.reply
  ingested : s.puller.ingestedFrom cfg.url =
    ((s.puller.handedFrom cfg.url).map Record.metadata).filter ingestible
  pc : s.puller.pc.Consistent cfg s.queue s.reply
  quiet : s.reply.isSome → s.puller.pc.Asks cfg.url

variable {parse : Bytes → Option ParsedURL} {cfg : LinkConfig} {s s' : PullLink}
  {removed : List Record}

theorem Served.mono {queue queue' : WorkerQueue} {token : Bytes} {items : List Record}
    (h : Served cfg queue token items) (hitems : queue.items <+: queue'.items) :
    Served cfg queue' token items :=
  ⟨h.head.trans (hitems.map _), h.few, h.authorized⟩

theorem PullPc.Consistent.mono {pc : PullPc} {queue queue' : WorkerQueue} {reply : Option Response}
    (h : pc.Consistent cfg queue reply) (hitems : queue.items <+: queue'.items) :
    pc.Consistent cfg queue' reply := by
  cases pc with
  | fetching pull =>
    intro hworker resp hresp batch hbatch
    exact (h hworker resp hresp batch hbatch).mono hitems
  | ingesting pull batch handed todo => exact ⟨h.1, fun hworker => (h.2 hworker).mono hitems⟩
  | acking pull batch => exact fun hworker hreply => (h hworker hreply).mono hitems
  | idle | workers | batches | succeeding | failing => trivial

theorem PullLink.Inv.enqueue (h : s.Inv cfg removed) {queue : WorkerQueue} {accepted : List Record}
    (hnumbered : Numbered queue accepted removed) (hitems : s.queue.items <+: queue.items) :
    PullLink.Inv cfg { s with queue := queue, accepted := accepted } removed :=
  ⟨hnumbered, h.handed, h.ingested, h.pc.mono hitems, h.quiet⟩

/-- A step of the puller between states in which it has nothing in hand. -/
theorem PullLink.Inv.move (h : s.Inv cfg removed) {p : Puller} {reply : Option Response}
    (hhanded : p.handed = s.puller.handed) (hingested : p.ingested = s.puller.ingested)
    (hold : s.puller.pc.inHand cfg.url s.reply = []) (hnew : p.pc.inHand cfg.url reply = [])
    (hpc : p.pc.Consistent cfg s.queue reply) (hquiet : reply.isSome → p.pc.Asks cfg.url) :
    PullLink.Inv cfg { s with puller := p, reply := reply } removed := by
  have hfrom : p.handedFrom cfg.url = s.puller.handedFrom cfg.url := by
    rw [Puller.handedFrom, hhanded, Puller.handedFrom]
  refine ⟨h.numbered, ?_, ?_, hpc, hquiet⟩
  · rw [hfrom, h.handed, hold, hnew]
  · rw [hfrom, ← h.ingested, Puller.ingestedFrom, hingested, Puller.ingestedFrom]

theorem PullLink.Inv.silent (h : s.Inv cfg removed) (hpc : ¬ s.puller.pc.Asks cfg.url) :
    s.reply = none := by
  rw [← Option.not_isSome_iff_eq_none]
  exact mt h.quiet hpc

theorem consistent_after (pull : Pull) (batch : Batch) (queue : WorkerQueue)
    (reply : Option Response) : (pull.after batch).Consistent cfg queue reply := by
  unfold Pull.after
  split <;> trivial

theorem inHand_after (pull : Pull) (batch : Batch) (reply : Option Response) :
    (pull.after batch).inHand cfg.url reply = [] := by
  unfold Pull.after
  split <;> rfl

/-- What the puller gets from the worker was at the head of its queue. -/
theorem PullLink.Inv.fetched (h : s.Inv cfg removed) {pull : Pull} {outcome : Outcome}
    {batch : Batch} (hpc : s.puller.pc = .fetching pull) (hadmissible :
      s.Admissible cfg.url (.fetched outcome)) (hbatch : outcome.batch = .ok batch)
    (hworker : pull.worker = cfg.url) : Served cfg s.queue pull.token batch.items := by
  cases outcome with
  | failed text => cases hbatch
  | response resp decodeError =>
    have hreply : s.reply = some resp := hadmissible (by rw [hpc]; exact hworker)
    have hconsistent := h.pc
    rw [hpc] at hconsistent
    refine hconsistent hworker resp hreply batch ?_
    simp only [Outcome.batch] at hbatch
    split at hbatch
    · cases hbatch
    · split at hbatch
      · cases hbatch
      · next heq =>
        cases hbatch
        exact heq

/-- An acknowledgement of the worker's records is over only when it has handled it. -/
theorem PullLink.Admissible.handled {pull : Pull} {batch : Batch} {outcome : Outcome}
    (h : s.Admissible cfg.url (.acked outcome)) (hpc : s.puller.pc = .acking pull batch)
    (hworker : pull.worker = cfg.url) : s.reply.isSome := by
  have hasks : s.puller.pc.Asks cfg.url := by
    rw [hpc]
    exact hworker
  cases outcome with
  | failed text => exact h hasks
  | response resp decodeError => rw [show s.reply = some resp from h hasks]; rfl

theorem PullLink.Admissible.inHand {pull : Pull} {batch : Batch} {outcome : Outcome}
    (h : s.Admissible cfg.url (.acked outcome)) (hpc : s.puller.pc = .acking pull batch) :
    s.puller.pc.inHand cfg.url s.reply = [] := by
  rw [hpc]
  refine if_neg fun ⟨hworker, hnone⟩ => ?_
  have hsome := h.handled hpc hworker
  rw [Option.isNone_iff_eq_none.1 hnone] at hsome
  cases hsome

theorem PullLink.Inv.ingest (h : s.Inv cfg removed) {pull : Pull} {batch : Batch}
    {handed todo : List Record} {r : Record}
    (hpc : s.puller.pc = .ingesting pull batch handed (r :: todo)) :
    PullLink.Inv cfg { s with puller := { s.puller with
      pc := .ingesting pull batch (handed ++ [r]) todo
      handed := s.puller.handed ++ [(pull.worker, r)]
      ingested := if ingestible r.metadata then s.puller.ingested ++ [(pull.worker, r.metadata)]
        else s.puller.ingested } } removed := by
  have hconsistent := h.pc
  have hhanded := h.handed
  have hingested := h.ingested
  have hreply := h.silent (by rw [hpc]; exact id)
  rw [hpc] at hconsistent hhanded
  obtain ⟨hitems, hserved⟩ := hconsistent
  have hitems' : batch.items = (handed ++ [r]) ++ todo := by rw [hitems, List.append_assoc]; rfl
  by_cases hworker : pull.worker = cfg.url
  · refine ⟨h.numbered, ?_, ?_, ⟨hitems', hserved⟩, by simp [hreply]⟩
    · simp only [Puller.handedFrom, PullPc.inHand, hworker, if_true] at hhanded ⊢
      simp [hhanded]
    · simp only [Puller.handedFrom, Puller.ingestedFrom] at hingested ⊢
      split
      · next hr => simp [hworker, hingested, hr]
      · next hr => simp [hworker, hingested, hr]
  · refine ⟨h.numbered, ?_, ?_, ⟨hitems', hserved⟩, by simp [hreply]⟩
    · simp only [Puller.handedFrom, PullPc.inHand, hworker, if_false] at hhanded ⊢
      simp [hhanded, hworker]
    · simp only [Puller.handedFrom, Puller.ingestedFrom] at hingested ⊢
      split
      · simp [hworker, hingested]
      · simp [hworker, hingested]

theorem PullLink.Inv.puller (h : s.Inv cfg removed) {a : PullerAction} {p : Puller}
    (hstep : PullerStep parse s.puller a p) (hadmissible : s.Admissible cfg.url a) :
    PullLink.Inv cfg { s with puller := p, reply := if a.ends then none else s.reply } removed := by
  cases hstep with
  | configure => exact ⟨h.numbered, h.handed, h.ingested, h.pc, h.quiet⟩
  | pullAll hpc =>
    have hreply := h.silent (by rw [hpc]; exact id)
    by_cases htoken : s.puller.master.token = []
    · rw [if_pos htoken]
      exact h.move rfl rfl (by rw [hpc]; rfl) rfl trivial (by simp [PullerAction.ends, hreply])
    · rw [if_neg htoken]
      exact h.move rfl rfl (by rw [hpc]; rfl) rfl trivial (by simp [PullerAction.ends, hreply])
  | next hpc | done hpc | enough hpc =>
    have hreply := h.silent (by rw [hpc]; exact id)
    exact h.move rfl rfl (by rw [hpc]; rfl) rfl trivial (by simp [PullerAction.ends, hreply])
  | send hpc =>
    have hreply := h.silent (by rw [hpc]; exact id)
    refine h.move rfl rfl (by rw [hpc]; rfl) rfl ?_ (by simp [PullerAction.ends, hreply])
    intro _ resp hresp
    simp [PullerAction.ends, hreply] at hresp
  | fetchFailed hpc | fetchedNone hpc =>
    exact h.move rfl rfl (by rw [hpc]; rfl) rfl trivial (by simp [PullerAction.ends])
  | @fetched pull outcome batch hpc hbatch =>
    refine h.move rfl rfl (by rw [hpc]; rfl) ?_ ⟨rfl, fun hworker => ?_⟩
      (by simp [PullerAction.ends])
    · exact ite_self []
    · exact h.fetched hpc hadmissible hbatch hworker
  | ingest hpc => exact h.ingest hpc
  | @sendAck pull batch handed hpc =>
    have hreply := h.silent (by rw [hpc]; exact id)
    have hconsistent := h.pc
    have hhanded := h.handed
    rw [hpc] at hconsistent hhanded
    obtain ⟨hitems, hserved⟩ := hconsistent
    have hitems' : batch.items = handed := by rw [hitems, List.append_nil]
    refine ⟨h.numbered, hhanded.trans ?_, h.ingested, fun hworker _ => hserved hworker, ?_⟩
    · simp [PullPc.inHand, PullerAction.ends, hreply, hitems']
    · simp [PullerAction.ends, hreply]
  | ackFailed hpc | acked hpc =>
    exact h.move rfl rfl (hadmissible.inHand hpc) rfl trivial (by simp [PullerAction.ends])
  | @succeed pull batch pulled now hpc =>
    have hreply := h.silent (by rw [hpc]; exact id)
    exact h.move rfl rfl (by rw [hpc]; rfl) (inHand_after pull batch _)
      (consistent_after pull batch _ _) (by simp [PullerAction.ends, hreply])
  | fail hpc =>
    have hreply := h.silent (by rw [hpc]; exact id)
    exact h.move rfl rfl (by rw [hpc]; rfl) rfl trivial (by simp [PullerAction.ends, hreply])

/-! ## The worker -/

theorem length_batch_le (q : WorkerQueue) (maxBatch : Int) :
    (q.batch (WorkerQueue.handlerBatch maxBatch)).items.length ≤ 64 := by
  have hmax : 1 ≤ WorkerQueue.handlerBatch maxBatch ∧ WorkerQueue.handlerBatch maxBatch ≤ 64 := by
    unfold WorkerQueue.handlerBatch
    split_ifs <;> omega
  unfold WorkerQueue.batch
  split_ifs with hlimit
  · dsimp only
    omega
  · rw [List.length_take]
    omega

theorem handler_get {q : WorkerQueue} {token : Bytes} {maxBatch : Int} {req : Request}
    (h : req.method = .get) : (q.handler token maxBatch req).1 = q := by
  unfold WorkerQueue.handler
  split
  · rw [h]
  · rfl

/-- The worker answers with the head of its queue. -/
theorem PullLink.Inv.serveGet (h : s.Inv cfg removed) {pull : Pull} {req : Request}
    (hpc : s.puller.pc = .fetching pull) (hworker : pull.worker = cfg.url)
    (hreq : (pullRequest pull.token).transmit = some req) :
    PullLink.Inv cfg { s with
      queue := (s.queue.handler cfg.token cfg.maxBatch req).1
      reply := some (s.queue.handler cfg.token cfg.maxBatch req).2 } removed := by
  obtain ⟨hget, -, -⟩ := transmit_body hreq
  have hbatch := s.queue.pullBatch_handler cfg.token cfg.maxBatch hreq
  rw [handler_get hget]
  refine ⟨h.numbered, ?_, h.ingested, ?_, fun _ => ?_⟩
  · have hhanded := h.handed
    rw [hpc] at hhanded
    rw [hpc]
    exact hhanded
  · rw [hpc]
    intro _ resp hresp batch heq
    rw [← Option.some.inj hresp, hbatch] at heq
    split at heq
    · next hauth =>
      rw [← Option.some.inj heq]
      refine ⟨(s.queue.batch_items_take _).map _, ?_, req, hreq, hauth⟩
      rw [Batch.onWire, List.length_map]
      exact length_batch_le s.queue cfg.maxBatch
    · cases heq
  · rw [hpc]
    exact hworker

theorem transmit_authorization {req sent : Request} (h : req.transmit = some sent) :
    sent.authorization = trimBlanks req.authorization := by
  unfold Request.transmit at h
  split_ifs at h
  cases h
  rfl

/-- It lets go of what is acknowledged, which is what the puller has in hand. -/
theorem PullLink.Inv.serveAck (h : s.Inv cfg removed) {pull : Pull} {batch : Batch} {req : Request}
    (hpc : s.puller.pc = .acking pull batch) (hworker : pull.worker = cfg.url)
    (hreply : s.reply = none) (hreq : (ackRequest pull.token batch.items).transmit = some req) :
    ∃ removed', PullLink.Inv cfg { s with
      queue := (s.queue.handler cfg.token cfg.maxBatch req).1
      reply := some (s.queue.handler cfg.token cfg.maxBatch req).2 } removed' := by
  have hconsistent := h.pc
  have hhanded := h.handed
  rw [hpc] at hconsistent hhanded
  obtain ⟨hhead, hfew, req', hreq', hauth⟩ := hconsistent hworker hreply
  have hsize := length_encodeAck_le (batch.items.map Record.id)
  rw [List.length_map] at hsize
  have hsame : req.authorization = req'.authorization :=
    (transmit_authorization hreq).trans (transmit_authorization hreq').symm
  have hqueue := s.queue.handler_ackRequest cfg.token cfg.maxBatch hreq
  rw [if_pos ⟨hsame ▸ hauth, by omega⟩] at hqueue
  obtain ⟨hnumbered, htake⟩ := h.numbered.ack hhead
  rw [hqueue]
  refine ⟨_, hnumbered, ?_, h.ingested, ?_, fun _ => ?_⟩
  · rw [hpc, hhanded, List.map_append, htake]
    simp [PullPc.inHand, hworker, hreply]
  · rw [hpc]
    intro _ hnone
    cases hnone
  · rw [hpc]
    exact hworker

theorem PullLink.Inv.step (h : s.Inv cfg removed) {a : LinkAction}
    (hstep : LinkStep parse cfg s a s') : ∃ removed', s'.Inv cfg removed' := by
  cases hstep with
  | @refuse md hresult =>
    have hitems : (s.queue.enqueue md).1.items = s.queue.items := by rw [enqueue_refused hresult]
    exact ⟨removed, h.enqueue (h.numbered.refuse hresult) (hitems ▸ List.prefix_rfl)⟩
  | accept hresult =>
    obtain ⟨hitems, -⟩ := enqueue_accepted hresult
    exact ⟨removed, h.enqueue (h.numbered.accept hresult) (hitems ▸ List.prefix_append _ _)⟩
  | puller hpuller hadmissible => exact ⟨removed, h.puller hpuller hadmissible⟩
  | serveGet hpc hworker _ hreq => exact ⟨removed, h.serveGet hpc hworker hreq⟩
  | serveAck hpc hworker hreply hreq => exact h.serveAck hpc hworker hreply hreq

theorem link_inv (h : (linkSystem parse cfg).Reachable s) : ∃ removed, s.Inv cfg removed := by
  refine invariant (P := fun s => ∃ removed, s.Inv cfg removed) ?_ (fun s a s' _ hs hstep => ?_) h
  · rintro _ ⟨workerURLs, token, workerID, limit, cachePath, hlimit, rfl⟩
    refine ⟨[], ?_, rfl, rfl, trivial, by simp⟩
    have hnew : (WorkerQueue.new workerID limit cachePath none).items = [] ∧
        (WorkerQueue.new workerID limit cachePath none).nextID = 0 ∧
        (WorkerQueue.new workerID limit cachePath none).limit =
          if limit < 1 then 256 else limit.toNat := by
      unfold WorkerQueue.new WorkerQueue.loadFromCache
      split_ifs <;> exact ⟨rfl, rfl, by simp [*]⟩
    obtain ⟨hitems, hnext, hqueue⟩ := hnew
    refine ⟨by rw [hitems]; rfl, by rw [hnext]; rfl, rfl, by rw [hitems]; exact Nat.zero_le _, ?_⟩
    rw [hqueue]
    split_ifs <;> omega
  · obtain ⟨removed, hremoved⟩ := hs
    exact hremoved.step hstep

/-- What the puller has in hand is at the head of the queue. -/
theorem PullLink.Inv.inHand_head (h : s.Inv cfg removed) :
    s.puller.pc.inHand cfg.url s.reply <+: s.queue.items.map Record.onWire := by
  have hconsistent := h.pc
  cases hpc : s.puller.pc with
  | ingesting pull batch handed todo =>
    rw [hpc] at hconsistent
    obtain ⟨hitems, hserved⟩ := hconsistent
    simp only [PullPc.inHand]
    split
    · next hworker =>
      have hprefix : handed <+: batch.items := ⟨todo, hitems.symm⟩
      exact hprefix.trans (hserved hworker).head
    · exact List.nil_prefix
  | acking pull batch =>
    rw [hpc] at hconsistent
    simp only [PullPc.inHand]
    split
    · next hboth => exact (hconsistent hboth.1 (Option.isNone_iff_eq_none.1 hboth.2)).head
    · exact List.nil_prefix
  | idle | workers | batches | fetching | succeeding | failing => exact List.nil_prefix

/-- Through the pull channel a record arrives once: in every interleaving of `Enqueue`, the
    rounds of the puller, reconfigurations and what other workers answer, the master has looped
    over the records that the worker has accepted, each exactly once and in their order, but
    for those in the queue that come after what the puller has in hand. And it has called
    `ingest` for each of these records that can be ingested, once and in that order. -/
theorem pull_exactly_once (h : (linkSystem parse cfg).Reachable s) :
    s.puller.handedFrom cfg.url ++
        (s.queue.items.drop (s.puller.pc.inHand cfg.url s.reply).length).map Record.onWire =
      s.accepted.map Record.onWire ∧
    s.puller.ingestedFrom cfg.url =
      ((s.puller.handedFrom cfg.url).map Record.metadata).filter ingestible := by
  obtain ⟨removed, hs⟩ := link_inv h
  obtain ⟨later, hhead⟩ := hs.inHand_head
  have hlater : (s.queue.items.drop (s.puller.pc.inHand cfg.url s.reply).length).map
      Record.onWire = later := by
    rw [List.map_drop, ← hhead, List.drop_left]
  refine ⟨?_, hs.ingested⟩
  rw [hlater, hs.handed, List.append_assoc, hhead, hs.numbered.split, List.map_append]

/-! ## One record -/

def smallLink : LinkConfig := ⟨ascii "edge", ascii "secret", 16⟩

/-- The worker and the puller before anything happens. -/
def linkStart : PullLink := ⟨smallPuller, .new [] 256 [] none, none, []⟩

theorem outcome_batch_of_pullBatch {resp : Response} {batch : Batch}
    (h : pullBatch resp = some batch) (decodeError : Bytes) :
    (Outcome.response resp decodeError).batch = .ok batch := by
  rw [Outcome.batch, h]
  unfold pullBatch at h
  split_ifs at h ⊢
  rfl

/-- A record that the worker has accepted reaches the master. -/
theorem run_linkStart : ∃ s : PullLink, (linkSystem hostURL smallLink).Reachable s ∧
    s.accepted = [⟨1, torrentNamed (ascii "a")⟩] ∧ s.queue.items.length = 1 ∧
      (s.puller.pc.inHand (ascii "edge") s.reply).length = 1 := by
  have hinit : (linkSystem hostURL smallLink).Reachable linkStart :=
    .init ⟨_, _, _, _, _, by decide, rfl⟩
  have haccept : LinkStep hostURL smallLink linkStart (.enqueue (torrentNamed (ascii "a"))) _ :=
    .accept rfl
  have hpullAll : PullerStep hostURL smallPuller .pullAll _ := .pullAll rfl
  rw [if_neg (by decide)] at hpullAll
  have hsend := (((hinit.step haccept).step (LinkStep.puller hpullAll trivial)).step
    (LinkStep.puller (PullerStep.next rfl) trivial)).step
      (LinkStep.puller (PullerStep.send rfl (by decide)) trivial)
  obtain ⟨req, hreq, hauth⟩ : ∃ req, (pullRequest (ascii "secret")).transmit = some req ∧
      authorized (ascii "secret") req.authorization = true :=
    transmit_pullRequest (by decide) (by decide)
  have hserve := hsend.step (LinkStep.serveGet rfl rfl rfl hreq)
  have hbatch := (linkStart.queue.enqueue (torrentNamed (ascii "a"))).1.pullBatch_handler
    (ascii "secret") 16 hreq
  rw [if_pos hauth] at hbatch
  have hfetched := hserve.step (LinkStep.puller
    (PullerStep.fetched rfl (outcome_batch_of_pullBatch hbatch []) (by decide)) fun _ => rfl)
  exact ⟨_, hfetched.step (LinkStep.puller (PullerStep.ingest rfl) trivial), rfl,
    congrArg (fun q : WorkerQueue => q.items.length) (handler_get (transmit_body hreq).1), rfl⟩

theorem pull_exactly_once_small : ∃ s : PullLink, s.accepted = [⟨1, torrentNamed (ascii "a")⟩] ∧
    s.puller.handedFrom (ascii "edge") = s.accepted.map Record.onWire := by
  obtain ⟨s, hs, haccepted, hqueue, hinHand⟩ := run_linkStart
  obtain ⟨hsplit, -⟩ := pull_exactly_once hs
  have hnone : s.queue.items.drop (s.puller.pc.inHand smallLink.url s.reply).length = [] :=
    List.drop_eq_nil_of_le (hqueue.trans hinHand.symm).le
  rw [hnone, List.map_nil, List.append_nil] at hsplit
  exact ⟨s, haccepted, hsplit⟩

end Cluster
