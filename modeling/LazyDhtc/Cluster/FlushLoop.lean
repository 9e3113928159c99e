-- SUMMARY: The flush loop of a worker with its wake-up channel: no queue that has reached the threshold waits for the ticker, unless a flush has failed.
import LazyDhtc.Cluster.Drain
import LazyDhtc.Lib.Transition

/-!
# The flush loop

`Enqueue` releases the mutex before it signals, the signal is a channel with room for one,
and the loop may be draining or saving meanwhile. A handler acknowledges records at any time.
-/

namespace Cluster

open DhtClient Json Transition

namespace WorkerQueue

/-- `Enqueue` as far as the mutex is held, when the queue is not full. -/
def enqueueLocked (q : WorkerQueue) (md : Metadata) : WorkerQueue :=
  { q with
    nextID := q.nextID + 1
    items := q.items ++ [⟨q.nextID + 1, md⟩]
    cacheDirty := true }

/-- The queue is as long as the threshold: `Enqueue` will signal. -/
def ReachesThreshold (q : WorkerQueue) : Prop :=
  0 < q.flushThreshold ∧ q.flushThreshold ≤ q.items.length

instance (q : WorkerQueue) : Decidable q.ReachesThreshold := inferInstanceAs (Decidable (_ ∧ _))

/-- The two parts of `Enqueue`. -/
theorem enqueue_eq {q : WorkerQueue} (hroom : q.items.length < q.limit) (md : Metadata) :
    q.enqueue md = (if (q.enqueueLocked md).ReachesThreshold then
      (q.enqueueLocked md).signalFlush else q.enqueueLocked md, true) := by
  rw [enqueue, if_neg (Nat.not_le.2 hroom)]
  by_cases hreaches : (q.enqueueLocked md).ReachesThreshold
  · rw [if_pos hreaches]
    exact if_pos hreaches
  · rw [if_neg hreaches]
    exact if_neg hreaches

/-- The queue once `StartFlushLoop` has started the loop, before it looks at the queue. -/
def startLoop (q : WorkerQueue) (threshold batchSize : Int) : WorkerQueue :=
  { q.startFlushLoop threshold batchSize with flushWake := q.flushWake }

theorem startFlushLoop_eq (q : WorkerQueue) (threshold batchSize : Int) :
    q.startFlushLoop threshold batchSize = if 0 < q.items.length then
      (q.startLoop threshold batchSize).signalFlush else q.startLoop threshold batchSize := by
  simp only [startLoop, startFlushLoop, signalFlush]
  split_ifs <;> rfl

end WorkerQueue

/-! ## The system -/

/-- Where the loop is: in its `select`, at the test of `drainFlush`, in a `Flush` whose
    request is under way, or gone. -/
inductive FlushPc where
  | selecting
  | draining
  | flushing
  | done
deriving DecidableEq

structure FlushLoop where
  queue : WorkerQueue
  pc : FlushPc
  /-- How many goroutines are about to call `signalFlush`. -/
  signalling : Nat
  /-- The last `drainFlush` has ended with an error. -/
  failed : Bool
  /-- Since the loop last took a signal, an `Enqueue` has found the threshold reached. -/
  due : Bool
  /-- The batches that requests were made of. -/
  sent : List Batch

inductive FlushAction where
  | enqueue (md : Metadata)
  | signal
  | ack (ids : List UInt64)
  | wake
  | tick
  | save
  | test
  | send
  | respond (resp : Option Response)
  | stop

inductive FlushStep : FlushLoop → FlushAction → FlushLoop → Prop where
  | refuse {s : FlushLoop} {md : Metadata} : s.queue.limit ≤ s.queue.items.length →
      FlushStep s (.enqueue md) { s with queue := (s.queue.enqueue md).1 }
  | enqueue {s : FlushLoop} {md : Metadata} : s.queue.items.length < s.queue.limit →
      ¬ (s.queue.enqueueLocked md).ReachesThreshold →
      FlushStep s (.enqueue md) { s with queue := s.queue.enqueueLocked md }
  | enqueueDue {s : FlushLoop} {md : Metadata} : s.queue.items.length < s.queue.limit →
      (s.queue.enqueueLocked md).ReachesThreshold →
      FlushStep s (.enqueue md)
        { s with queue := s.queue.enqueueLocked md, signalling := s.signalling + 1, due := true }
  | signal {s : FlushLoop} {n : Nat} : s.signalling = n + 1 →
      FlushStep s .signal { s with queue := s.queue.signalFlush, signalling := n }
  /-- The handler's `Ack`. -/
  | ack {s : FlushLoop} {ids : List UInt64} :
      FlushStep s (.ack ids) { s with queue := (s.queue.ack ids).1 }
  | wake {s : FlushLoop} : s.pc = .selecting → s.queue.flushWake = true →
      FlushStep s .wake
        { s with queue := { s.queue with flushWake := false }, pc := .draining, due := false }
  | tick {s : FlushLoop} : s.pc = .selecting → FlushStep s .tick { s with pc := .draining }
  /-- `saveToCache`, which may fail. -/
  | save {s : FlushLoop} {dirty : Bool} : s.pc = .selecting →
      FlushStep s .save { s with queue := { s.queue with cacheDirty := dirty } }
  | drained {s : FlushLoop} : s.pc = .draining → s.queue.items = [] →
      FlushStep s .test { s with pc := .selecting, failed := false }
  /-- `Flush` returns nil without a request. -/
  | skip {s : FlushLoop} : s.pc = .draining → s.queue.flushRequest = none →
      FlushStep s .send s
  | send {s : FlushLoop} {req : Request} : s.pc = .draining →
      s.queue.flushRequest = some req →
      FlushStep s .send { s with
        pc := .flushing
        sent := s.sent ++ [s.queue.batch s.queue.flushBatchSize] }
  | flushed {s : FlushLoop} {resp : Response} {queue : WorkerQueue} : s.pc = .flushing →
      s.queue.flushResponse resp = (queue, none) →
      FlushStep s (.respond resp) { s with queue := queue, pc := .draining }
  | fails {s : FlushLoop} {resp : Response} {queue : WorkerQueue} {e : WorkerQueue.FlushError} :
      s.pc = .flushing → s.queue.flushResponse resp = (queue, some e) →
      FlushStep s (.respond resp) { s with queue := queue, pc := .selecting, failed := true }
  | unreachable {s : FlushLoop} : s.pc = .flushing →
      FlushStep s (.respond none) { s with pc := .selecting, failed := true }
  | stop {s : FlushLoop} : s.pc = .selecting → FlushStep s .stop { s with pc := .done }

/-- `StartFlushLoop` has started the loop on a queue that nobody has signalled. -/
def flushSystem (threshold batchSize : Int) : System FlushLoop FlushAction where
  init s := ∃ q : WorkerQueue, q.flushWake = false ∧ s = {
    queue := q.startLoop threshold batchSize
    pc := .selecting
    signalling := if 0 < q.items.length then 1 else 0
    failed := false
    due := decide (0 < q.items.length)
    sent := [] }
  step := FlushStep

/-! ## Signals -/

/-- A signal is in the channel, or about to be. -/
def FlushLoop.signalled (s : FlushLoop) : Prop := s.queue.flushWake = true ∨ 0 < s.signalling

structure FlushLoop.Inv (s : FlushLoop) : Prop where
  batchSize : 1 ≤ s.queue.flushBatch ∧ s.queue.flushBatch ≤ 64
  threshold : 1 ≤ s.queue.flushThreshold
  due : s.due = true → s.signalled
  waiting : s.pc = .selecting → s.failed = false → s.queue.ReachesThreshold → s.due = true
  sent : ∀ b ∈ s.sent, b.items.length ≤ 64 ∧ b.items ≠ []

/-- What an operation on the queue does to the fields that the loop goes by. -/
structure WorkerQueue.SameLoop (q q' : WorkerQueue) : Prop where
  flushBatch : q'.flushBatch = q.flushBatch
  flushThreshold : q'.flushThreshold = q.flushThreshold
  flushWake : q'.flushWake = q.flushWake

theorem WorkerQueue.sameLoop_ack (q : WorkerQueue) (ids : List UInt64) :
    q.SameLoop (q.ack ids).1 := by
  simp only [WorkerQueue.ack]
  split_ifs <;> exact ⟨rfl, rfl, rfl⟩

theorem WorkerQueue.length_ack_le (q : WorkerQueue) (ids : List UInt64) :
    (q.ack ids).1.items.length ≤ q.items.length := by
  rw [WorkerQueue.ack_items]
  exact List.length_filter_le _ _

theorem WorkerQueue.SameLoop.reaches {q q' : WorkerQueue} (h : q.SameLoop q')
    (hlength : q'.items.length ≤ q.items.length) (hr : q'.ReachesThreshold) :
    q.ReachesThreshold := by
  obtain ⟨hpos, hreaches⟩ := hr
  rw [h.flushThreshold] at hpos hreaches
  exact ⟨hpos, by omega⟩

/-- The loop goes on as before, with a queue that is no longer. -/
theorem FlushLoop.Inv.queue {s : FlushLoop} {q : WorkerQueue} (hi : s.Inv)
    (hq : s.queue.SameLoop q) (hlength : q.items.length ≤ s.queue.items.length) :
    { s with queue := q }.Inv where
  batchSize := by rw [hq.flushBatch]; exact hi.batchSize
  threshold := by rw [hq.flushThreshold]; exact hi.threshold
  due hdue := (hi.due hdue).imp_left fun hwake => hq.flushWake.trans hwake
  waiting hpc hfailed hr := hi.waiting hpc hfailed (hq.reaches hlength hr)
  sent := hi.sent

/-- The loop leaves its `select`, or a drain fails: nothing is promised until the next one. -/
theorem FlushLoop.Inv.busy {s : FlushLoop} (hi : s.Inv) (pc : FlushPc) (failed : Bool)
    (h : pc ≠ .selecting ∨ failed = true) : { s with pc := pc, failed := failed }.Inv where
  batchSize := hi.batchSize
  threshold := hi.threshold
  due := hi.due
  waiting hpc hfailed := by
    obtain hne | htrue := h
    · exact absurd hpc hne
    · cases htrue.symm.trans hfailed
  sent := hi.sent

theorem FlushLoop.Inv.enqueues {s : FlushLoop} (hi : s.Inv) (md : Metadata)
    (hnot : ¬ (s.queue.enqueueLocked md).ReachesThreshold) :
    { s with queue := s.queue.enqueueLocked md }.Inv where
  batchSize := hi.batchSize
  threshold := hi.threshold
  due := hi.due
  waiting _ _ hr := absurd hr hnot
  sent := hi.sent

theorem FlushLoop.Inv.sends {s : FlushLoop} {req : Request} (hi : s.Inv)
    (hreq : s.queue.flushRequest = some req) :
    { s with pc := .flushing, sent := s.sent ++ [s.queue.batch s.queue.flushBatchSize] }.Inv where
  batchSize := hi.batchSize
  threshold := hi.threshold
  due := hi.due
  waiting hpc := by cases hpc
  sent b hb := by
    obtain hb | hb := List.mem_append.1 hb
    · exact hi.sent b hb
    · obtain rfl := List.mem_singleton.1 hb
      obtain ⟨hlow, hhigh⟩ := hi.batchSize
      have hne : (s.queue.batch s.queue.flushBatchSize).items ≠ [] := by
        intro hnil
        rw [WorkerQueue.flushRequest, if_pos hnil] at hreq
        cases hreq
      refine ⟨?_, hne⟩
      have hsize : s.queue.flushBatchSize = s.queue.flushBatch := by
        rw [WorkerQueue.flushBatchSize, if_neg (by omega)]
      simp only [WorkerQueue.batch, hsize]
      split_ifs with hall
      · omega
      · rw [List.length_take]
        omega

theorem FlushLoop.Inv.step {s s' : FlushLoop} {a : FlushAction} (hi : s.Inv)
    (hstep : FlushStep s a s') : s'.Inv := by
  cases hstep with
  | @refuse md hfull =>
    have hq : (s.queue.enqueue md).1 = { s.queue with dropped := s.queue.dropped + 1 } := by
      rw [WorkerQueue.enqueue, if_pos hfull]
    rw [hq]
    exact hi.queue ⟨rfl, rfl, rfl⟩ (Nat.le_refl _)
  | enqueue _ hnot => exact hi.enqueues _ hnot
  | enqueueDue =>
    exact ⟨hi.batchSize, hi.threshold, fun _ => .inr (Nat.succ_pos _), fun _ _ _ => rfl, hi.sent⟩
  | signal =>
    exact ⟨hi.batchSize, hi.threshold, fun _ => .inl rfl, hi.waiting, hi.sent⟩
  | @ack ids => exact hi.queue (s.queue.sameLoop_ack ids) (s.queue.length_ack_le ids)
  | wake =>
    exact ⟨hi.batchSize, hi.threshold, fun hdue => (by cases hdue), fun hpc => (by cases hpc),
      hi.sent⟩
  | tick => exact hi.busy _ s.failed (.inl (by simp))
  | save => exact hi.queue ⟨rfl, rfl, rfl⟩ (Nat.le_refl _)
  | drained _ hnil =>
    refine ⟨hi.batchSize, hi.threshold, hi.due, ?_, hi.sent⟩
    rintro - - ⟨hpos, hreaches⟩
    rw [hnil] at hreaches
    exact absurd hpos (Int.not_lt.2 hreaches)
  | skip => exact hi
  | send _ hreq => exact hi.sends hreq
  | @flushed resp queue _ hresp =>
    obtain ⟨ids, -, hq⟩ | ⟨-, e, hq⟩ := s.queue.flushResponse_cases resp
    · obtain rfl : queue = (s.queue.ack ids).1 := congrArg Prod.fst (hresp.symm.trans hq)
      exact (hi.queue (s.queue.sameLoop_ack ids) (s.queue.length_ack_le ids)).busy _
        s.failed (.inl (by simp))
    · cases (congrArg Prod.snd (hresp.symm.trans hq) :)
  | @fails resp queue e _ hresp =>
    obtain ⟨ids, -, hq⟩ | ⟨-, e', hq⟩ := s.queue.flushResponse_cases resp
    · cases (congrArg Prod.snd (hresp.symm.trans hq) :)
    · obtain rfl : queue = s.queue := congrArg Prod.fst (hresp.symm.trans hq)
      exact hi.busy _ _ (.inr rfl)
  | unreachable => exact hi.busy _ _ (.inr rfl)
  | stop => exact hi.busy _ s.failed (.inl (by simp))

/-- `StartFlushLoop` signals if it finds records, so that a queue from the cache file is not
    left waiting. -/
theorem inv_startLoop (q : WorkerQueue) (threshold batchSize : Int) : FlushLoop.Inv {
    queue := q.startLoop threshold batchSize
    pc := .selecting
    signalling := if 0 < q.items.length then 1 else 0
    failed := false
    due := decide (0 < q.items.length)
    sent := [] } := by
  have hitems : (q.startLoop threshold batchSize).items = q.items :=
    q.startFlushLoop_items threshold batchSize
  have hbatch : (q.startLoop threshold batchSize).flushBatch =
      if batchSize < 1 ∨ 64 < batchSize then 64 else batchSize := by
    simp only [WorkerQueue.startLoop, WorkerQueue.startFlushLoop]
    split_ifs <;> rfl
  have hthreshold : 1 ≤ (q.startLoop threshold batchSize).flushThreshold := by
    simp only [WorkerQueue.startLoop, WorkerQueue.startFlushLoop, WorkerQueue.signalFlush]
    split_ifs <;> simp <;> omega
  refine ⟨?_, hthreshold, ?_, ?_, fun b hb => (List.not_mem_nil hb).elim⟩
  · rw [hbatch]
    split_ifs <;> omega
  · intro hdue
    exact .inr (by simp [of_decide_eq_true hdue])
  · rintro - - ⟨-, hreaches⟩
    rw [hitems] at hreaches
    have hpos : (0 : Int) < q.items.length := Int.lt_of_lt_of_le hthreshold hreaches
    exact decide_eq_true (Int.ofNat_lt.1 hpos)

/-- No signal gets lost: when `Enqueue` has found the threshold reached, the next drain is
    due once it has signalled; and a queue for which none is due is below the threshold,
    unless the last drain has failed. Requests have between 1 and 64 records. -/
theorem no_lost_wakeup {threshold batchSize : Int} {s : FlushLoop}
    (hr : (flushSystem threshold batchSize).Reachable s) :
    (s.signalling = 0 → s.due = true → s.queue.flushWake = true) ∧
    (s.pc = .selecting → s.failed = false → s.signalling = 0 → s.queue.flushWake = false →
      (s.queue.items.length : Int) < s.queue.flushThreshold) ∧
    ∀ b ∈ s.sent, b.items ≠ [] ∧ b.items.length ≤ 64 := by
  have hi : s.Inv := by
    refine System.invariant (P := FlushLoop.Inv) ?_ (fun _ _ _ _ hi hstep => hi.step hstep) hr
    rintro s ⟨q, -, rfl⟩
    exact inv_startLoop q threshold batchSize
  have hwake : s.signalling = 0 → s.due = true → s.queue.flushWake = true := by
    intro hnone hdue
    obtain hwake | hpos := hi.due hdue
    · exact hwake
    · omega
  refine ⟨hwake, ?_, fun b hb => (hi.sent b hb).symm⟩
  intro hpc hok hnone hasleep
  by_contra hlong
  have hreaches : s.queue.ReachesThreshold := by
    have hpos := hi.threshold
    exact ⟨by omega, by omega⟩
  rw [hwake hnone (hi.waiting hpc hok hreaches)] at hasleep
  cases hasleep

/-- A record that a cache file has brought back, before the loop takes the signal for it. -/
theorem no_lost_wakeup_restored : ∃ s : FlushLoop, s.due = true ∧ s.signalling = 0 ∧
    s.queue.items ≠ [] ∧ (s.signalling = 0 → s.due = true → s.queue.flushWake = true) ∧
    (s.pc = .selecting → s.failed = false → s.signalling = 0 → s.queue.flushWake = false →
      (s.queue.items.length : Int) < s.queue.flushThreshold) ∧
    ∀ b ∈ s.sent, b.items ≠ [] ∧ b.items.length ≤ 64 := by
  let q : WorkerQueue :=
    { WorkerQueue.new [] 0 [] none with items := [⟨1, torrentNamed (ascii "a")⟩] }
  have hstarted : (flushSystem 2 16).Reachable {
      queue := q.startLoop 2 16
      pc := .selecting
      signalling := 1
      failed := false
      due := true
      sent := [] } := .init ⟨q, rfl, rfl⟩
  have hsignalled := hstarted.step (.signal rfl)
  exact ⟨_, rfl, rfl, List.cons_ne_nil _ _, no_lost_wakeup hsignalled⟩

end Cluster
