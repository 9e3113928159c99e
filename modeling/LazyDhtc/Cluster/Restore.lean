-- SUMMARY: What a new queue takes over from its cache file, and for which files the invariant of the queue holds afterwards.
import LazyDhtc.Cluster.InFlight
import LazyDhtc.Cluster.QueueLaws

/-!
# Restoring a queue

The elements of the file are decoded into the live queue. The counter is rebuilt when the
whole file has been decoded, but what was decoded until an error stays in the queue, and
nothing compares the records with the limit.
-/

namespace Cluster

open DhtClient Json

/-! ## The file -/

/-- The cache file, which a queue without a path does not have. -/
def cacheFile (cachePath : Bytes) (file : Option Bytes) : Option Bytes :=
  if cachePath = [] then none else file

/-- The file is absent, or `json.Unmarshal` takes it. -/
def decodes : Option Bytes → Bool
  | none => true
  | some data =>
    match readAll data with
    | none => false
    | some v => (decodeSlice decodeRecord zeroRecord [] v).2

/-- The elements of the array in the file. -/
def fileElems (file : Option Bytes) : List Value :=
  match file.bind readAll with
  | some (.arr vs) => vs
  | _ => []

/-- The records in the file, as far as they can be decoded. -/
def fileRecords (file : Option Bytes) : List Record :=
  (fileElems file).map fun v => (decodeRecord zeroRecord v).1

/-- Every element of the array in the file is a record. -/
def AllRecords (file : Option Bytes) : Prop :=
  ∀ v ∈ fileElems file, (decodeRecord zeroRecord v).2 = true

/-- The limit that `NewWorkerQueue` sets. -/
def queueLimit (limit : Int) : Nat := if limit < 1 then 256 else limit.toNat

/-- All that a restored queue should satisfy, when `accepted` are the records that are
    enqueued later. -/
structure Restored (file : Option Bytes) (q : WorkerQueue) (accepted : List Record) : Prop where
  nodup : ((fileRecords file).map Record.id).Nodup → (q.items.map Record.id).Nodup
  le_nextID : ∀ r ∈ q.items, r.id ≤ q.nextID
  limit : q.items.length ≤ q.limit
  failed : decodes file = false → q.items = []
  fresh : ∀ r ∈ q.items, r.id ∉ accepted.map Record.id

/-! ## The new queue -/

theorem loadFromCache_limit (q : WorkerQueue) (file : Option Bytes) :
    (q.loadFromCache file).limit = q.limit := by
  unfold WorkerQueue.loadFromCache
  split_ifs
  · rfl
  · split
    · rfl
    · split
      · rfl
      · split <;> rfl

theorem new_limit (workerID : Bytes) (limit : Int) (cachePath : Bytes) (file : Option Bytes) :
    (WorkerQueue.new workerID limit cachePath file).limit = queueLimit limit := by
  rw [WorkerQueue.new, loadFromCache_limit]
  rfl

/-- The queue holds whatever could be decoded. -/
theorem new_items (workerID : Bytes) (limit : Int) (cachePath : Bytes) (file : Option Bytes) :
    (WorkerQueue.new workerID limit cachePath file).items =
      fileRecords (cacheFile cachePath file) := by
  unfold cacheFile
  by_cases hpath : cachePath = []
  · rw [if_pos hpath, WorkerQueue.new]
    unfold WorkerQueue.loadFromCache
    rw [if_pos hpath]
    rfl
  · rw [if_neg hpath, WorkerQueue.new, loadFromCache_items rfl hpath]
    cases file with
    | none => rfl
    | some data =>
      simp only [fileRecords, fileElems, Option.bind_some]
      cases readAll data with
      | none => rfl
      | some v => cases v <;> rfl

theorem loadFromCache_nextID {q : WorkerQueue} (hitems : q.items = []) (hnext : q.nextID = 0)
    {file : Option Bytes} (h : AllRecords (cacheFile q.cachePath file)) :
    (q.loadFromCache file).nextID =
      (q.loadFromCache file).items.foldl (fun n r => if n < r.id then r.id else n) 0 := by
  have hempty : q.nextID = q.items.foldl (fun n r => if n < r.id then r.id else n) 0 := by
    rw [hitems, hnext]
    rfl
  unfold WorkerQueue.loadFromCache
  by_cases hpath : q.cachePath = []
  · rw [if_pos hpath]
    exact hempty
  · rw [cacheFile, if_neg hpath] at h
    rw [if_neg hpath]
    cases file with
    | none => exact hempty
    | some data =>
      simp only [AllRecords, fileElems, Option.bind_some] at h
      cases hdata : readAll data with
      | none =>
        simp only [hdata]
        exact hempty
      | some v =>
        rw [hdata] at h
        cases v with
        | arr vs =>
          have hall : (vs.all fun v => (decodeRecord zeroRecord v).2) = true := List.all_eq_true.2 h
          simp only [hdata, decodeSlice, hall, hnext]
        | null => simp only [hdata, decodeSlice, hnext]
        | bool | num | str | obj => simpa only [hdata, decodeSlice] using hempty

/-- A file whose elements are all records leaves the counter at the largest ID, and is one
    that decodes unless it has no element. -/
theorem new_nextID (workerID : Bytes) (limit : Int) {cachePath : Bytes} {file : Option Bytes}
    (h : AllRecords (cacheFile cachePath file)) :
    (WorkerQueue.new workerID limit cachePath file).nextID =
      (fileRecords (cacheFile cachePath file)).foldl
        (fun n r => if n < r.id then r.id else n) 0 := by
  rw [← new_items workerID limit, WorkerQueue.new]
  exact loadFromCache_nextID rfl rfl h

/-- A file fails to decode and leaves records behind if one of its elements is no record. -/
theorem allRecords_iff (file : Option Bytes) :
    AllRecords file ↔ (decodes file = false → fileRecords file = []) := by
  cases file with
  | none => simp [AllRecords, fileElems, decodes]
  | some data =>
    simp only [AllRecords, fileElems, fileRecords, decodes, Option.bind_some]
    cases readAll data with
    | none => simp
    | some v =>
      cases v with
      | arr vs =>
        simp only [decodeSlice, List.map_eq_nil_iff]
        cases hall : vs.all fun v => (decodeRecord zeroRecord v).2 with
        | true => simpa using hall
        | false =>
          have hne : vs ≠ [] := by
            rintro rfl
            cases hall
          simpa [hne] using hall
      | null | bool | num | str | obj => simp [decodeSlice]

/-! ## IDs handed out later -/

/-- What a run from some queue has accepted has the IDs after the counter of that queue. -/
structure QueueRun.CountsFrom (q : WorkerQueue) (s : QueueRun) : Prop where
  nextID : s.queue.nextID = q.nextID + .ofNat (acceptedIn s.history).length
  ids : (acceptedIn s.history).map Record.id =
    (List.range (acceptedIn s.history).length).map fun i => q.nextID + .ofNat (i + 1)

theorem QueueRun.CountsFrom.step {q : WorkerQueue} {s : QueueRun} (h : s.CountsFrom q)
    (op : QueueOp) : (s.step op).CountsFrom q := by
  cases op with
  | enqueue md =>
    cases hresult : (s.queue.enqueue md).2 with
    | true =>
      obtain ⟨-, hnext, -⟩ := enqueue_accepted hresult
      have haccepted : acceptedIn (s.history ++ [.accepted ⟨s.queue.nextID + 1, md⟩]) =
          acceptedIn s.history ++ [⟨s.queue.nextID + 1, md⟩] := acceptedIn_append _ _
      have hid : s.queue.nextID + 1 = q.nextID + .ofNat ((acceptedIn s.history).length + 1) := by
        rw [h.nextID, UInt64.ofNat_add, UInt64.add_assoc]
        rfl
      simp only [QueueRun.step, hresult, if_true]
      refine ⟨?_, ?_⟩
      · rw [hnext, haccepted, List.length_append]
        exact hid
      · rw [haccepted, List.map_append, List.length_append, List.length_singleton,
          List.range_succ, List.map_append, h.ids, List.map_singleton, List.map_singleton]
        simp only [hid]
    | false =>
      have haccepted : acceptedIn (s.history ++ [.refused]) = acceptedIn s.history := by
        rw [acceptedIn_append]
        exact List.append_nil _
      simp only [QueueRun.step, hresult, Bool.false_eq_true, if_false, enqueue_refused hresult]
      exact ⟨by rw [haccepted]; exact h.nextID, by rw [haccepted]; exact h.ids⟩
  | batch n => exact h
  | ack ids =>
    have haccepted : acceptedIn (s.history ++ [.acked ids]) = acceptedIn s.history := by
      rw [acceptedIn_append]
      exact List.append_nil _
    unfold QueueRun.step
    refine ⟨?_, ?_⟩
    · simp only [WorkerQueue.ack_nextID, haccepted]
      exact h.nextID
    · simp only [haccepted]
      exact h.ids

/-- The records that operations on a queue add to it. -/
def acceptedLater (q : WorkerQueue) (ops : List QueueOp) : List Record :=
  acceptedIn (ops.foldl QueueRun.step ⟨q, [], []⟩).history

theorem acceptedLater_ids (q : WorkerQueue) (ops : List QueueOp) :
    (acceptedLater q ops).map Record.id =
      (List.range (acceptedLater q ops).length).map fun i => q.nextID + .ofNat (i + 1) := by
  have hcounts : (ops.foldl QueueRun.step ⟨q, [], []⟩).CountsFrom q := by
    induction ops using List.reverseRecOn with
    | nil => exact ⟨(UInt64.add_zero _).symm, rfl⟩
    | append_singleton ops op ih =>
      rw [List.foldl_append]
      exact ih.step op
  exact hcounts.ids

/-- The counter is one of the IDs, or still zero. -/
theorem foldl_maxID_mem (items : List Record) (n : UInt64) :
    items.foldl (fun n r => if n < r.id then r.id else n) n = n ∨
      ∃ r ∈ items, items.foldl (fun n r => if n < r.id then r.id else n) n = r.id := by
  induction items generalizing n with
  | nil => exact .inl rfl
  | cons r items ih =>
    rw [List.foldl_cons]
    rcases ih (if n < r.id then r.id else n) with heq | ⟨r', hr', heq⟩
    · rw [heq]
      split_ifs
      · exact .inr ⟨r, List.mem_cons_self, rfl⟩
      · exact .inl rfl
    · exact .inr ⟨r', List.mem_cons_of_mem _ hr', heq⟩

/-- The `k` IDs after the largest of some IDs are new until they have wrapped up to the
    smallest. -/
theorem fresh_iff {items : List Record} {n : UInt64}
    (hn : n = items.foldl (fun n r => if n < r.id then r.id else n) 0) (k : Nat) :
    (∀ r ∈ items, r.id ∉ (List.range k).map fun i => n + .ofNat (i + 1)) ↔
      ∀ r ∈ items, ∀ r' ∈ items, k + r'.id.toNat < 2 ^ 64 + r.id.toNat := by
  have hle : ∀ r ∈ items, r.id.toNat ≤ n.toNat := by
    intro r hr
    rw [hn, ← UInt64.le_iff_toNat_le]
    exact (le_foldl_maxID items 0).2 r hr
  have hnlt := n.toNat_lt
  have hadd : ∀ i, (n + .ofNat (i + 1)).toNat = (n.toNat + (i + 1)) % 2 ^ 64 := by
    intro i
    rw [UInt64.toNat_add, UInt64.toNat_ofNat', Nat.add_mod_mod]
  constructor
  · intro hfresh r hr r' hr'
    by_contra hwrap
    have hr'n := hle r' hr'
    have hrn := hle r hr
    -- the counter reaches the ID of `r` after so many steps
    have hi : 2 ^ 64 + r.id.toNat - n.toNat - 1 + 1 = 2 ^ 64 + r.id.toNat - n.toNat := by omega
    refine hfresh r hr (List.mem_map.2 ⟨2 ^ 64 + r.id.toNat - n.toNat - 1, ?_, ?_⟩)
    · rw [List.mem_range]
      omega
    · rw [← UInt64.toNat_inj, hadd, hi]
      omega
  · intro hfew r hr hmem
    obtain ⟨i, hi, heq⟩ := List.mem_map.1 hmem
    have hrn := hle r hr
    have hid : r.id.toNat = (n.toNat + (i + 1)) % 2 ^ 64 := by rw [← heq, hadd]
    rw [List.mem_range] at hi
    obtain ⟨r', hr', hr'n⟩ : ∃ r' ∈ items, r'.id.toNat = n.toNat := by
      rcases foldl_maxID_mem items 0 with hzero | ⟨r', hr', hmax⟩
      · rw [← hn] at hzero
        have hn0 : n.toNat = 0 := by rw [hzero]; rfl
        exact ⟨r, hr, by omega⟩
      · exact ⟨r', hr', by rw [hn, hmax]⟩
    have := hfew r hr r' hr'
    omega

/-! ## The invariant of the new queue -/

/-- A restored queue satisfies its invariant if every element of the file's array is a
    record, there are no more of them than the limit, and the later records are too few
    for their IDs to wrap up to one of the file. -/
theorem restored_iff (workerID : Bytes) (limit : Int) (cachePath : Bytes) (file : Option Bytes)
    (ops : List QueueOp) :
    let q := WorkerQueue.new workerID limit cachePath file
    let f := cacheFile cachePath file
    Restored f q (acceptedLater q ops) ↔
      AllRecords f ∧ (fileElems f).length ≤ queueLimit limit ∧
        ∀ r ∈ fileRecords f, ∀ r' ∈ fileRecords f,
          (acceptedLater q ops).length + r'.id.toNat < 2 ^ 64 + r.id.toNat := by
  intro q f
  have hitems : q.items = fileRecords f := new_items workerID limit cachePath file
  have hlimit : q.limit = queueLimit limit := new_limit workerID limit cachePath file
  have hlength : q.items.length = (fileElems f).length := by
    rw [hitems, fileRecords, List.length_map]
  have hids := acceptedLater_ids q ops
  constructor
  · intro h
    have hall : AllRecords f := (allRecords_iff f).2 fun hfail => hitems ▸ h.failed hfail
    have hnext : q.nextID = (fileRecords f).foldl _ 0 := new_nextID workerID limit hall
    refine ⟨hall, by rw [← hlength, ← hlimit]; exact h.limit, ?_⟩
    rw [← fresh_iff hnext, ← hids, ← hitems]
    exact h.fresh
  · rintro ⟨hall, hroom, hfew⟩
    have hnext : q.nextID = (fileRecords f).foldl _ 0 := new_nextID workerID limit hall
    refine ⟨?_, ?_, ?_, ?_, ?_⟩
    · intro hnodup
      rwa [hitems]
    · intro r hr
      rw [hnext]
      exact (le_foldl_maxID _ _).2 r (hitems ▸ hr)
    · rw [hlength, hlimit]
      exact hroom
    · intro hfail
      rw [hitems]
      exact (allRecords_iff f).1 hall hfail
    · rw [hids, hitems]
      exact (fresh_iff hnext _).2 hfew

/-- The second element of this file has no number as its ID. -/
def brokenFile : Bytes := ascii "[\x7b\"id\":1\x7d,\x7b\"id\":\"x\"\x7d]"

/-- Both elements stay in the queue, whose counter is still zero: the next record has the ID
    of a restored one. -/
theorem broken_file_restored :
    let q := WorkerQueue.new [] 4 (ascii "cache") (some brokenFile)
    q.items.map Record.id = [1, 0] ∧ q.nextID = 0 ∧
      ¬ Restored (some brokenFile) q
        (acceptedLater q [.enqueue (torrentNamed (ascii "a"))]) := by
  intro q
  have hids : q.items.map Record.id = [1, 0] := by decide +kernel
  have hfail : decodes (some brokenFile) = false := by decide +kernel
  refine ⟨hids, by decide +kernel, fun h => ?_⟩
  rw [h.failed hfail] at hids
  cases hids

end Cluster
