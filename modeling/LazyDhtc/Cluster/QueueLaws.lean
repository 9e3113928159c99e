-- SUMMARY: What a worker's queue holds after any operations: the accepted records that no acknowledgement has named, with its counters and its notifications.
import LazyDhtc.Cluster.WorkerQueue
import LazyDhtc.Lib.InPlace

/-!
# The laws of the queue

The history of a queue says which records it accepted and refused and which IDs were
acknowledged when. What is still unacknowledged, and what each acknowledgement released,
is read off the history alone, and the queue is compared with that. The ID and the
counters have 64 bits.
-/

namespace Cluster

open DhtClient

/-! ## Operations -/

inductive QueueOp where
  | enqueue (md : Metadata)
  | batch (limit : Int)
  | ack (ids : List UInt64)

inductive QueueEvent where
  | accepted (r : Record)
  | refused
  | acked (ids : List UInt64)
deriving DecidableEq

/-- A queue, what has happened to it, and the calls of `onAck`. -/
structure QueueRun where
  queue : WorkerQueue
  history : List QueueEvent
  onAck : List Metadata

def QueueRun.step (s : QueueRun) : QueueOp → QueueRun
  | .enqueue md =>
    { s with
      queue := (s.queue.enqueue md).1
      history := s.history ++
        [if (s.queue.enqueue md).2 then .accepted ⟨s.queue.nextID + 1, md⟩ else .refused] }
  | .batch _ => s
  | .ack ids =>
    { queue := (s.queue.ack ids).1
      history := s.history ++ [.acked ids]
      onAck := s.onAck ++ (s.queue.ack ids).2 }

/-- A new queue without a cache file, after some operations. -/
def queueRun (workerID : Bytes) (limit : Int) (cachePath : Bytes) (ops : List QueueOp) : QueueRun :=
  ops.foldl QueueRun.step ⟨.new workerID limit cachePath none, [], []⟩

/-- The loop of `Ack`, which filters the items in place, keeps and drops the same records
    as `ack`. -/
theorem ack_in_place (q : WorkerQueue) (ids : List UInt64) :
    let loop := InPlace.filterLoop (fun r : Record => r.id ∉ ids) q.items q.items.length
    loop.array.take loop.kept = (q.ack ids).1.items ∧
      loop.dropped.map Record.metadata = (q.ack ids).2 := by
  have hloop := InPlace.filterLoop_filtered (fun r : Record => r.id ∉ ids) (Nat.le_refl q.items.length)
  refine ⟨?_, ?_⟩
  · rw [hloop.kept, List.take_length, WorkerQueue.ack_items]
  · rw [hloop.dropped, List.take_length]
    simp only [WorkerQueue.ack]
    split_ifs with hsome
    · simp only [decide_not, Bool.not_not]
    · have hnone : (q.items.filter fun r => r.id ∈ ids) = [] := List.eq_nil_of_length_eq_zero (by omega)
      simp only [decide_not, Bool.not_not, hnone, List.map_nil]

/-! ## Histories -/

/-- Some acknowledgement names the ID. -/
def acks (history : List QueueEvent) (id : UInt64) : Bool :=
  history.any fun
    | .acked ids => id ∈ ids
    | _ => false

/-- The accepted records, in order. -/
def acceptedIn : List QueueEvent → List Record
  | [] => []
  | .accepted r :: history => r :: acceptedIn history
  | _ :: history => acceptedIn history

def refusedIn (history : List QueueEvent) : Nat := history.count .refused

/-- The accepted records that no later acknowledgement names. -/
def unacked : List QueueEvent → List Record
  | [] => []
  | .accepted r :: history => if acks history r.id then unacked history else r :: unacked history
  | _ :: history => unacked history

/-- The records that the acknowledgements of a history release, each in the order of the
    queue, when some events have happened before. -/
def releasedAfter : List QueueEvent → List QueueEvent → List Record
  | _, [] => []
  | past, .acked ids :: history =>
    (unacked past).filter (fun r => r.id ∈ ids) ++ releasedAfter (past ++ [.acked ids]) history
  | past, e :: history => releasedAfter (past ++ [e]) history

def released (history : List QueueEvent) : List Record := releasedAfter [] history

@[simp] theorem acks_append (h h' : List QueueEvent) (id : UInt64) :
    acks (h ++ h') id = (acks h id || acks h' id) := List.any_append

theorem acceptedIn_append (h h' : List QueueEvent) :
    acceptedIn (h ++ h') = acceptedIn h ++ acceptedIn h' := by
  induction h with
  | nil => rfl
  | cons e h ih => cases e <;> simp [acceptedIn, ih]

/-- What happens later takes away what it names and adds what it leaves. -/
theorem unacked_append (h h' : List QueueEvent) :
    unacked (h ++ h') = ((unacked h).filter fun r => !acks h' r.id) ++ unacked h' := by
  induction h with
  | nil => rfl
  | cons e h ih =>
    cases e with
    | accepted r =>
      simp only [List.cons_append, unacked, acks_append, ih]
      cases acks h r.id with
      | true => simp
      | false =>
        cases hlater : acks h' r.id with
        | true => simp [hlater]
        | false => simp [hlater]
    | refused | acked => exact ih

theorem unacked_accepted (h : List QueueEvent) (r : Record) :
    unacked (h ++ [.accepted r]) = unacked h ++ [r] := by
  rw [unacked_append]
  exact congrArg (· ++ [r]) (List.filter_eq_self.2 fun _ _ => rfl)

theorem unacked_refused (h : List QueueEvent) : unacked (h ++ [.refused]) = unacked h := by
  rw [unacked_append]
  exact (List.append_nil _).trans (List.filter_eq_self.2 fun _ _ => rfl)

theorem unacked_acked (h : List QueueEvent) (ids : List UInt64) :
    unacked (h ++ [.acked ids]) = (unacked h).filter fun r => r.id ∉ ids := by
  rw [unacked_append]
  refine (List.append_nil _).trans (List.filter_congr fun r _ => ?_)
  simp [acks]

theorem releasedAfter_append (past h h' : List QueueEvent) :
    releasedAfter past (h ++ h') = releasedAfter past h ++ releasedAfter (past ++ h) h' := by
  induction h generalizing past with
  | nil => rw [List.append_nil]; rfl
  | cons e h ih =>
    cases e with
    | acked ids =>
      simp only [List.cons_append, releasedAfter, ih, List.append_assoc, List.nil_append]
    | accepted | refused =>
      simp only [List.cons_append, releasedAfter, ih, List.append_assoc, List.nil_append]

theorem released_acked (h : List QueueEvent) (ids : List UInt64) :
    released (h ++ [.acked ids]) = released h ++ (unacked h).filter fun r => r.id ∈ ids := by
  unfold released
  rw [releasedAfter_append]
  simp only [releasedAfter, List.nil_append, List.append_nil]

theorem released_other (h : List QueueEvent) {e : QueueEvent} (he : ∀ ids, e ≠ .acked ids) :
    released (h ++ [e]) = released h := by
  unfold released
  rw [releasedAfter_append]
  cases e with
  | acked ids => exact absurd rfl (he ids)
  | accepted | refused => exact List.append_nil _

/-- Every accepted record is released once or unacknowledged. -/
theorem accepted_perm (h : List QueueEvent) : (acceptedIn h).Perm (released h ++ unacked h) := by
  induction h using List.reverseRecOn with
  | nil => exact .refl _
  | append_singleton h e ih =>
    rw [acceptedIn_append]
    cases e with
    | accepted r =>
      rw [released_other h (by simp), unacked_accepted, ← List.append_assoc]
      exact ih.append_right _
    | refused =>
      rw [released_other h (by simp), unacked_refused]
      simpa [acceptedIn] using ih
    | acked ids =>
      rw [released_acked, unacked_acked, List.append_assoc]
      have hsplit := (List.filter_append_perm (fun r : Record => decide (r.id ∈ ids)) (unacked h)).symm
      simp only [← decide_not] at hsplit
      simpa [acceptedIn] using ih.trans (hsplit.append_left _)

theorem unacked_sublist (h : List QueueEvent) : (unacked h).Sublist (acceptedIn h) := by
  induction h with
  | nil => exact List.Sublist.refl _
  | cons e h ih =>
    cases e with
    | accepted r =>
      unfold unacked acceptedIn
      split_ifs
      · exact ih.cons r
      · exact ih.cons_cons r
    | refused | acked => exact ih

/-! ## The counters -/

theorem enqueue_accepted {q : WorkerQueue} {md : Metadata} (h : (q.enqueue md).2 = true) :
    (q.enqueue md).1.items = q.items ++ [⟨q.nextID + 1, md⟩] ∧
      (q.enqueue md).1.nextID = q.nextID + 1 ∧ (q.enqueue md).1.limit = q.limit ∧
      (q.enqueue md).1.dropped = q.dropped ∧ (q.enqueue md).1.flushed = q.flushed ∧
      q.items.length < q.limit := by
  simp only [WorkerQueue.enqueue] at h ⊢
  split_ifs at h ⊢ with hfull
  · exact ⟨rfl, rfl, rfl, rfl, rfl, Nat.lt_of_not_le hfull⟩
  · exact ⟨rfl, rfl, rfl, rfl, rfl, Nat.lt_of_not_le hfull⟩

theorem enqueue_refused {q : WorkerQueue} {md : Metadata} (h : (q.enqueue md).2 = false) :
    (q.enqueue md).1 = { q with dropped := q.dropped + 1 } := by
  obtain ⟨-, heq⟩ | ⟨htrue, -⟩ := q.enqueue_cases md
  · exact heq
  · rw [h] at htrue
    cases htrue

theorem ack_counters (q : WorkerQueue) (ids : List UInt64) :
    (q.ack ids).1.dropped = q.dropped ∧
      (q.ack ids).1.flushed = q.flushed + .ofNat (q.items.filter fun r => r.id ∈ ids).length ∧
      (q.ack ids).2 = (q.items.filter fun r => r.id ∈ ids).map Record.metadata := by
  simp only [WorkerQueue.ack]
  split_ifs with hsome
  · exact ⟨rfl, rfl, rfl⟩
  · have hnone : (q.items.filter fun r => r.id ∈ ids) = [] := List.eq_nil_of_length_eq_zero (by omega)
    rw [hnone]
    exact ⟨rfl, (UInt64.add_zero _).symm, rfl⟩

/-- The queue is what the history leaves unacknowledged, and the counters count it. -/
structure QueueRun.Lawful (s : QueueRun) : Prop where
  items : s.queue.items = unacked s.history
  limit : s.queue.items.length ≤ s.queue.limit
  nextID : s.queue.nextID = .ofNat (acceptedIn s.history).length
  ids : (acceptedIn s.history).map Record.id =
    (List.range (acceptedIn s.history).length).map fun i => .ofNat (i + 1)
  dropped : s.queue.dropped = .ofNat (refusedIn s.history)
  flushed : s.queue.flushed = .ofNat (released s.history).length
  onAck : s.onAck = (released s.history).map Record.metadata

theorem lawful_new (workerID : Bytes) (limit : Int) (cachePath : Bytes) :
    QueueRun.Lawful ⟨.new workerID limit cachePath none, [], []⟩ := by
  unfold WorkerQueue.new WorkerQueue.loadFromCache
  split_ifs <;> exact ⟨rfl, Nat.zero_le _, rfl, rfl, rfl, rfl, rfl⟩

theorem QueueRun.Lawful.accept {s : QueueRun} (h : s.Lawful) {md : Metadata}
    (hresult : (s.queue.enqueue md).2 = true) : (s.step (.enqueue md)).Lawful := by
  obtain ⟨hitems, hnext, hlimit, hdropped, hflushed, hroom⟩ := enqueue_accepted hresult
  have haccepted : acceptedIn (s.history ++ [.accepted ⟨s.queue.nextID + 1, md⟩]) =
      acceptedIn s.history ++ [⟨s.queue.nextID + 1, md⟩] := acceptedIn_append _ _
  have hid : s.queue.nextID + 1 = .ofNat ((acceptedIn s.history).length + 1) := by
    rw [h.nextID, UInt64.ofNat_add]
    rfl
  simp only [QueueRun.step, hresult, if_true]
  refine ⟨?_, ?_, ?_, ?_, ?_, ?_, ?_⟩
  · rw [hitems, h.items, unacked_accepted]
  · rw [hitems, hlimit, List.length_append]
    exact hroom
  · rw [hnext, haccepted, List.length_append]
    exact hid
  · rw [haccepted, List.map_append, List.length_append, List.length_singleton, List.range_succ,
      List.map_append, h.ids, List.map_singleton, List.map_singleton]
    simp only [hid]
  · simp only [refusedIn, List.count_append]
    exact hdropped.trans h.dropped
  · rw [released_other _ (by simp)]
    exact hflushed.trans h.flushed
  · rw [released_other _ (by simp)]
    exact h.onAck

theorem QueueRun.Lawful.refuse {s : QueueRun} (h : s.Lawful) {md : Metadata}
    (hresult : (s.queue.enqueue md).2 = false) : (s.step (.enqueue md)).Lawful := by
  have haccepted : acceptedIn (s.history ++ [.refused]) = acceptedIn s.history := by
    rw [acceptedIn_append]
    exact List.append_nil _
  have hcount : refusedIn (s.history ++ [.refused]) = refusedIn s.history + 1 := List.count_append
  simp only [QueueRun.step, hresult, Bool.false_eq_true, if_false, enqueue_refused hresult]
  refine ⟨?_, h.limit, ?_, ?_, ?_, ?_, ?_⟩
  · rw [unacked_refused]
    exact h.items
  · rw [haccepted]
    exact h.nextID
  · rw [haccepted]
    exact h.ids
  · rw [hcount, UInt64.ofNat_add, ← h.dropped]
    rfl
  · rw [released_other _ (by simp)]
    exact h.flushed
  · rw [released_other _ (by simp)]
    exact h.onAck

theorem QueueRun.Lawful.enqueue {s : QueueRun} (h : s.Lawful) (md : Metadata) :
    (s.step (.enqueue md)).Lawful := by
  cases hresult : (s.queue.enqueue md).2 with
  | true => exact h.accept hresult
  | false => exact h.refuse hresult

theorem QueueRun.Lawful.ack {s : QueueRun} (h : s.Lawful) (ids : List UInt64) :
    (s.step (.ack ids)).Lawful := by
  obtain ⟨hdropped, hflushed, hcalls⟩ := ack_counters s.queue ids
  have haccepted : acceptedIn (s.history ++ [.acked ids]) = acceptedIn s.history := by
    rw [acceptedIn_append]
    exact List.append_nil _
  unfold QueueRun.step
  refine ⟨?_, ?_, ?_, ?_, ?_, ?_, ?_⟩
  · simp only [WorkerQueue.ack_items, unacked_acked]
    rw [h.items]
  · simp only [WorkerQueue.ack_items, WorkerQueue.ack_limit]
    exact (List.length_filter_le _ _).trans h.limit
  · simp only [WorkerQueue.ack_nextID, haccepted]
    exact h.nextID
  · simp only [haccepted]
    exact h.ids
  · have hcount : refusedIn (s.history ++ [.acked ids]) = refusedIn s.history := List.count_append
    simp only [hdropped, hcount]
    exact h.dropped
  · simp only [hflushed, released_acked, List.length_append, UInt64.ofNat_add]
    rw [h.flushed, h.items]
  · simp only [hcalls, released_acked, List.map_append]
    rw [h.onAck, h.items]

theorem queueRun_lawful (workerID : Bytes) (limit : Int) (cachePath : Bytes) (ops : List QueueOp) :
    (queueRun workerID limit cachePath ops).Lawful := by
  induction ops using List.reverseRecOn with
  | nil => exact lawful_new workerID limit cachePath
  | append_singleton ops op ih =>
    unfold queueRun at ih ⊢
    rw [List.foldl_append]
    cases op with
    | enqueue md => exact ih.enqueue md
    | batch n => exact ih
    | ack ids => exact ih.ack ids

/-! ## The laws -/

theorem ofNat_toNat_of_lt {n : Nat} (hn : n < 2 ^ 64) : (UInt64.ofNat n).toNat = n := by
  rw [UInt64.toNat_ofNat']
  exact Nat.mod_eq_of_lt hn

/-- Until the counter wraps, IDs increase along the accepted records up to the last one. -/
theorem QueueRun.Lawful.ids_increase {s : QueueRun} (h : s.Lawful)
    (hfew : (acceptedIn s.history).length < 2 ^ 64) :
    (s.queue.items.map Record.id).Pairwise (· < ·) ∧ ∀ r ∈ s.queue.items, r.id ≤ s.queue.nextID := by
  refine ⟨?_, ?_⟩
  · have haccepted : ((acceptedIn s.history).map Record.id).Pairwise (· < ·) := by
      rw [h.ids, List.pairwise_map]
      refine List.pairwise_lt_range.imp_of_mem ?_
      intro i j hi hj hij
      have hjlt := List.mem_range.1 hj
      rw [UInt64.lt_iff_toNat_lt, ofNat_toNat_of_lt (by omega), ofNat_toNat_of_lt (by omega)]
      exact Nat.succ_lt_succ hij
    rw [h.items]
    exact haccepted.sublist ((unacked_sublist s.history).map _)
  · intro r hr
    rw [h.items] at hr
    have hid := List.mem_map_of_mem (f := Record.id) ((unacked_sublist s.history).subset hr)
    rw [h.ids] at hid
    obtain ⟨i, hi, heq⟩ := List.mem_map.1 hid
    have hilt := List.mem_range.1 hi
    rw [← heq, h.nextID, UInt64.le_iff_toNat_le, ofNat_toNat_of_lt (by omega),
      ofNat_toNat_of_lt hfew]
    exact hilt

/-- After any operations on an empty queue it holds the unacknowledged records in order and
    no more than its limit, a batch is a prefix of it, `onAck` is called for what is
    released, each accepted record is released once or queued, and the counters agree with
    that up to their size. Until the ID counter wraps, IDs increase. -/
theorem queue_laws (workerID : Bytes) (limit : Int) (cachePath : Bytes) (ops : List QueueOp) :
    let s := queueRun workerID limit cachePath ops
    s.queue.items = unacked s.history ∧ s.queue.items.length ≤ s.queue.limit ∧
      (∀ n, (s.queue.batch n).items <+: s.queue.items ∧ s.step (.batch n) = s) ∧
      s.onAck = (released s.history).map Record.metadata ∧
      (acceptedIn s.history).Perm (released s.history ++ s.queue.items) ∧
      s.queue.flushed.toNat = (released s.history).length % 2 ^ 64 ∧
      s.queue.dropped.toNat = refusedIn s.history % 2 ^ 64 ∧
      (refusedIn s.history < 2 ^ 64 → refusedIn s.history = s.queue.dropped.toNat) ∧
      ((acceptedIn s.history).length < 2 ^ 64 →
        (acceptedIn s.history).length = s.queue.flushed.toNat + s.queue.items.length ∧
        (s.queue.items.map Record.id).Pairwise (· < ·) ∧
        ∀ r ∈ s.queue.items, r.id ≤ s.queue.nextID) := by
  intro s
  have h : s.Lawful := queueRun_lawful workerID limit cachePath ops
  have hperm : (acceptedIn s.history).Perm (released s.history ++ s.queue.items) := by
    rw [h.items]
    exact accepted_perm s.history
  have hflushed : s.queue.flushed.toNat = (released s.history).length % 2 ^ 64 := by
    rw [h.flushed, UInt64.toNat_ofNat']
  have hdropped : s.queue.dropped.toNat = refusedIn s.history % 2 ^ 64 := by
    rw [h.dropped, UInt64.toNat_ofNat']
  refine ⟨h.items, h.limit, fun n => ⟨s.queue.batch_items_take n, rfl⟩, h.onAck, hperm, hflushed,
    hdropped, ?_, ?_⟩
  · intro hfew
    rw [hdropped, Nat.mod_eq_of_lt hfew]
  · intro hfew
    have hlength := hperm.length_eq
    rw [List.length_append] at hlength
    refine ⟨?_, h.ids_increase hfew⟩
    rw [hflushed, Nat.mod_eq_of_lt (by omega)]
    exact hlength

/-! ## The counter wraps -/

/-- The queue of a new worker, two records of which one is acknowledged. -/
def sampleOps : List QueueOp :=
  [.enqueue (torrentNamed (ascii "a")), .enqueue (torrentNamed (ascii "b")), .ack [1, 7, 1]]

theorem queue_laws_sample :
    let s := queueRun [] 2 [] sampleOps
    s.onAck = [torrentNamed (ascii "a")] ∧
      (acceptedIn s.history).length = s.queue.flushed.toNat + s.queue.items.length ∧
      (s.queue.items.map Record.id).Pairwise (· < ·) := by
  obtain ⟨-, -, -, honAck, -, -, -, hrefused, haccepted⟩ := queue_laws [] 2 [] sampleOps
  have hnone := hrefused (by decide)
  have hfew := haccepted (by decide)
  exact ⟨honAck, hfew.1, hfew.2.1⟩

/-- Records that are each acknowledged at once. -/
def rounds (n : Nat) : List QueueOp :=
  (List.range n).flatMap fun i => [.enqueue (torrentNamed (ascii "a")), .ack [.ofNat (i + 1)]]

/-- An empty queue with two places takes a record. -/
theorem enqueue_empty {q : WorkerQueue} (hitems : q.items = []) (hlimit : q.limit = 2)
    (md : Metadata) :
    (q.enqueue md).1.items = [⟨q.nextID + 1, md⟩] ∧ (q.enqueue md).1.nextID = q.nextID + 1 ∧
      (q.enqueue md).1.limit = 2 := by
  have hroom : q.items.length < q.limit := by
    rw [hitems, hlimit]
    exact Nat.zero_lt_two
  obtain ⟨hitems', hnext', hlimit', -⟩ := enqueue_accepted (q.enqueue_accepts hroom md)
  rw [hitems, List.nil_append] at hitems'
  exact ⟨hitems', hnext', hlimit'.trans hlimit⟩

theorem queueRun_rounds (n : Nat) :
    (queueRun [] 2 [] (rounds n)).queue.items = [] ∧
      (queueRun [] 2 [] (rounds n)).queue.nextID = .ofNat n ∧
      (queueRun [] 2 [] (rounds n)).queue.limit = 2 := by
  induction n with
  | zero => exact ⟨rfl, rfl, rfl⟩
  | succ n ih =>
    obtain ⟨hitems, hnext, hlimit⟩ := ih
    have hops : rounds (n + 1) = rounds n ++
        [.enqueue (torrentNamed (ascii "a")), .ack [.ofNat (n + 1)]] := by
      unfold rounds
      rw [List.range_succ, List.flatMap_append]
      rfl
    unfold queueRun at hitems hnext hlimit ⊢
    rw [hops, List.foldl_append]
    generalize (rounds n).foldl QueueRun.step ⟨.new [] 2 [] none, [], []⟩ = s at *
    obtain ⟨hitems', hnext', hlimit'⟩ :=
      enqueue_empty hitems hlimit (torrentNamed (ascii "a"))
    have hid : UInt64.ofNat n + 1 = UInt64.ofNat (n + 1) := (UInt64.ofNat_add n 1).symm
    simp only [List.foldl_cons, List.foldl_nil, QueueRun.step, WorkerQueue.ack_items,
      WorkerQueue.ack_nextID, WorkerQueue.ack_limit, hitems', hnext', hlimit', hnext, hid,
      and_true]
    simp

theorem queueRun_two (n : Nat) :
    (queueRun [] 2 [] (rounds n ++ [.enqueue (torrentNamed (ascii "a")),
      .enqueue (torrentNamed (ascii "b"))])).queue.items.map Record.id =
        [.ofNat n + 1, .ofNat n + 1 + 1] := by
  obtain ⟨hitems, hnext, hlimit⟩ := queueRun_rounds n
  unfold queueRun at hitems hnext hlimit ⊢
  rw [List.foldl_append]
  generalize (rounds n).foldl QueueRun.step ⟨.new [] 2 [] none, [], []⟩ = s at *
  obtain ⟨hitems', hnext', hlimit'⟩ := enqueue_empty hitems hlimit (torrentNamed (ascii "a"))
  have hroom' : (s.queue.enqueue (torrentNamed (ascii "a"))).1.items.length <
      (s.queue.enqueue (torrentNamed (ascii "a"))).1.limit := by
    rw [hitems', hlimit']
    exact Nat.one_lt_two
  obtain ⟨hitems'', -⟩ := enqueue_accepted
    ((s.queue.enqueue (torrentNamed (ascii "a"))).1.enqueue_accepts hroom' (torrentNamed (ascii "b")))
  simp only [List.foldl_cons, List.foldl_nil, QueueRun.step, hitems'', hitems', hnext',
    hnext, List.nil_append, List.cons_append, List.map_cons, List.map_nil]

/-- When the counter wraps, the queue holds a record with the last ID before one with the
    ID zero. -/
theorem wrapped_ids_decrease : ∃ n, ¬ (((queueRun [] 2 [] (rounds n ++
    [.enqueue (torrentNamed (ascii "a")), .enqueue (torrentNamed (ascii "b"))])).queue.items.map
      Record.id).Pairwise (· < ·)) := by
  refine ⟨2 ^ 64 - 2, ?_⟩
  rw [queueRun_two]
  decide

end Cluster
