-- SUMMARY: The cache file of a worker's queue: it is the queue whenever the flag says so, and a crash restores what the queue once was.
import LazyDhtc.Cluster.WorkerQueue
import LazyDhtc.Lib.Transition
import LazyDhtc.Lib.WriteBehind

/-!
# Snapshots of the queue

The flush loop saves the queue step by step: it swaps the dirty flag, copies the items,
encodes them, writes a temporary file and renames it. `Enqueue` and `Ack` come between the
steps, each step may fail, and the process may crash at any moment.
-/

namespace Cluster

open DhtClient Json Transition WriteBehind

/-! ## Saving -/

/-- Where `saveToCache` is, with its local variables. -/
inductive SavePC where
  | idle
  | swapped
  | copied (items : List Record)
  | marshalled (items : List Record) (data : Bytes)
  | written (items : List Record)

structure SaveState where
  queue : WorkerQueue
  saving : SavePC
  /-- The content of the temporary file. -/
  temporary : Option Bytes
  /-- The content of the cache file. -/
  file : Option Bytes
  /-- What the queue has held, over all processes. -/
  moments : List (List Record)

inductive SaveAction where
  | enqueue (md : Metadata)
  | ack (ids : List UInt64)
  | swap
  | copy
  | marshal
  | write
  | rename
  | fail
  | crash

def encodeRecords (items : List Record) : Bytes := encode (ofSlice encodeRecord items)

/-- A step within a process, or a crash, after which a new process loads the cache file. -/
inductive SaveStep (workerID : Bytes) (limit : Int) (cachePath : Bytes) :
    SaveState → SaveAction → SaveState → Prop where
  | enqueue {s : SaveState} {md : Metadata} :
      SaveStep workerID limit cachePath s (.enqueue md) { s with
        queue := (s.queue.enqueue md).1
        moments := s.moments ++ [(s.queue.enqueue md).1.items] }
  | ack {s : SaveState} {ids : List UInt64} :
      SaveStep workerID limit cachePath s (.ack ids) { s with
        queue := (s.queue.ack ids).1
        moments := s.moments ++ [(s.queue.ack ids).1.items] }
  | swap {s : SaveState} : s.saving = .idle → s.queue.cachePath ≠ [] → s.queue.cacheDirty = true →
      SaveStep workerID limit cachePath s .swap
        { s with saving := .swapped, queue := { s.queue with cacheDirty := false } }
  | copy {s : SaveState} : s.saving = .swapped →
      SaveStep workerID limit cachePath s .copy { s with saving := .copied s.queue.items }
  | marshal {s : SaveState} {items : List Record} : s.saving = .copied items →
      SaveStep workerID limit cachePath s .marshal
        { s with saving := .marshalled items (encodeRecords items) }
  | write {s : SaveState} {items : List Record} {data : Bytes} :
      s.saving = .marshalled items data →
      SaveStep workerID limit cachePath s .write
        { s with saving := .written items, temporary := some data }
  | rename {s : SaveState} {items : List Record} : s.saving = .written items →
      SaveStep workerID limit cachePath s .rename
        { s with saving := .idle, temporary := none, file := s.temporary }
  /-- The directory cannot be made, or the records cannot be encoded. -/
  | failEncoding {s : SaveState} {items : List Record} : s.saving = .copied items →
      SaveStep workerID limit cachePath s .fail
        { s with saving := .idle, queue := { s.queue with cacheDirty := true } }
  /-- Some part of the temporary file may be written. -/
  | failWrite {s : SaveState} {items : List Record} {data : Bytes} {part : Option Bytes} :
      s.saving = .marshalled items data →
      SaveStep workerID limit cachePath s .fail { s with
        saving := .idle
        temporary := part
        queue := { s.queue with cacheDirty := true } }
  | failRename {s : SaveState} {items : List Record} : s.saving = .written items →
      SaveStep workerID limit cachePath s .fail
        { s with saving := .idle, queue := { s.queue with cacheDirty := true } }
  | crash {s : SaveState} :
      SaveStep workerID limit cachePath s .crash
        { s with saving := .idle, queue := .new workerID limit cachePath s.file }

/-- `json.Unmarshal` reads these items from a cache file. -/
def Decodes (data : Bytes) (items : List Record) : Prop :=
  ∃ v, readAll data = some v ∧ decodeSlice decodeRecord zeroRecord [] v = (items, true)

/-- There is no cache file, or a well-formed one. -/
def WellFormed (file : Option Bytes) : Prop := ∀ data, file = some data → ∃ items, Decodes data items

/-- The cache file has these items, or there is none and there are none. -/
def Holds (file : Option Bytes) (items : List Record) : Prop :=
  match file with
  | none => items = []
  | some data => Decodes data items

/-- A new process; a worker without a cache directory has no cache file. -/
def saveSystem (workerID : Bytes) (limit : Int) (cachePath : Bytes) :
    System SaveState SaveAction where
  init s := s.queue = .new workerID limit cachePath s.file ∧ WellFormed s.file ∧
    (cachePath = [] → s.file = none) ∧ s.saving = .idle ∧ s.moments = [s.queue.items]
  step := SaveStep workerID limit cachePath

/-- JSON carries the copied records without loss. -/
def Lossless (s : SaveState) : SaveAction → Prop
  | .copy => ∀ r ∈ s.queue.items, r.onWire = r
  | _ => True

/-! ## Loading -/

section

variable {workerID : Bytes} {limit : Int} {cachePath : Bytes}

theorem decodes_encodeRecords {items : List Record} (h : ∀ r ∈ items, r.onWire = r) :
    Decodes (encodeRecords items) items := by
  refine ⟨_, readAll_encode (depth_encodeRecords items), ?_⟩
  rw [decodeSlice_of decodeRecord_encode, List.map_congr_left h, List.map_id']

theorem wellFormed_holds {file : Option Bytes} (h : WellFormed file) :
    ∃ items, Holds file items := by
  cases file with
  | none => exact ⟨[], rfl⟩
  | some data => exact h data rfl

theorem loadFromCache_holds {q : WorkerQueue} {file : Option Bytes} {items : List Record}
    (hq : q.items = []) (h : Holds file items) (hpath : q.cachePath = [] → file = none) :
    (q.loadFromCache file).items = items := by
  unfold WorkerQueue.loadFromCache
  split_ifs with hnil
  · rw [hpath hnil] at h
    exact hq.trans h.symm
  · cases file with
    | none => exact hq.trans h.symm
    | some data =>
      obtain ⟨v, hread, hdecode⟩ := h
      simp only [hread, hq, hdecode]

theorem loadFromCache_saved (q : WorkerQueue) (file : Option Bytes) :
    (q.loadFromCache file).cacheDirty = q.cacheDirty ∧
      (q.loadFromCache file).cachePath = q.cachePath := by
  unfold WorkerQueue.loadFromCache
  split_ifs with hnil
  · exact ⟨rfl, rfl⟩
  · cases file with
    | none => exact ⟨rfl, rfl⟩
    | some data =>
      simp only
      cases readAll data with
      | none => exact ⟨rfl, rfl⟩
      | some v =>
        simp only
        split <;> exact ⟨rfl, rfl⟩

theorem new_holds {file : Option Bytes} {items : List Record} (h : Holds file items)
    (hpath : cachePath = [] → file = none) :
    (WorkerQueue.new workerID limit cachePath file).items = items := loadFromCache_holds rfl h hpath

theorem new_saved (workerID : Bytes) (limit : Int) (cachePath : Bytes) (file : Option Bytes) :
    (WorkerQueue.new workerID limit cachePath file).cacheDirty = false ∧
      (WorkerQueue.new workerID limit cachePath file).cachePath = cachePath :=
  loadFromCache_saved _ file

/-! ## The invariant -/

/-- The writer, without the bytes. -/
def SavePC.phase : SavePC → Phase (List Record)
  | .idle => .idle
  | .swapped => .started
  | .copied items | .marshalled items _ | .written items => .holding items

/-- What is being written encodes the copy, which JSON carries. -/
def SaveState.Encoded (s : SaveState) : Prop :=
  match s.saving with
  | .idle | .swapped => True
  | .copied items => ∀ r ∈ items, r.onWire = r
  | .marshalled items data => data = encodeRecords items ∧ ∀ r ∈ items, r.onWire = r
  | .written items => s.temporary = some (encodeRecords items) ∧ ∀ r ∈ items, r.onWire = r

/-- The file holds what was written last, and the queue and the writer are consistent with
    that. -/
structure SaveState.Safe (cachePath : Bytes) (s : SaveState) : Prop where
  path : s.queue.cachePath = cachePath
  nowhere : cachePath = [] → s.saving = .idle ∧ s.file = none
  encoded : s.Encoded
  consistent : ∃ disk, Holds s.file disk ∧
    Consistent s.queue.items s.queue.cacheDirty s.saving.phase disk s.moments

theorem SaveState.Safe.init {s : SaveState} (h : (saveSystem workerID limit cachePath).init s) :
    s.Safe cachePath := by
  obtain ⟨hqueue, hfile, hpath, hidle, hmoments⟩ := h
  obtain ⟨hclean, hcache⟩ := new_saved workerID limit cachePath s.file
  obtain ⟨items, hitems⟩ := wellFormed_holds hfile
  refine ⟨hqueue ▸ hcache, fun hnil => ⟨hidle, hpath hnil⟩, ?_, items, hitems, ?_⟩
  · unfold Encoded
    rw [hidle]
    trivial
  · rw [hmoments, hidle, hqueue, hclean, new_holds hitems hpath]
    exact .start (List.mem_singleton_self items)

theorem enqueue_dirty (q : WorkerQueue) (md : Metadata) :
    ((q.enqueue md).1.cacheDirty = true ∨
      (q.enqueue md).1.cacheDirty = q.cacheDirty ∧ (q.enqueue md).1.items = q.items) ∧
      (q.enqueue md).1.cachePath = q.cachePath := by
  simp only [WorkerQueue.enqueue]
  split_ifs
  · exact ⟨.inr ⟨rfl, rfl⟩, rfl⟩
  · exact ⟨.inl rfl, rfl⟩
  · exact ⟨.inl rfl, rfl⟩

theorem ack_dirty (q : WorkerQueue) (ids : List UInt64) :
    (q.ack ids).1.cacheDirty = true ∧ (q.ack ids).1.cachePath = q.cachePath := by
  simp only [WorkerQueue.ack]
  split_ifs
  · exact ⟨rfl, rfl⟩
  · exact ⟨rfl, rfl⟩

theorem SaveState.Safe.step {s s' : SaveState} {a : SaveAction} (h : s.Safe cachePath)
    (hstep : SaveStep workerID limit cachePath s a s') (hok : Lossless s a) :
    s'.Safe cachePath := by
  obtain ⟨hpath, hnowhere, hencoded, disk, hdisk, hconsistent⟩ := h
  have hbusy : s.saving ≠ .idle → cachePath ≠ [] := fun hne hnil => hne (hnowhere hnil).1
  unfold Encoded at hencoded
  cases hstep with
  | @enqueue md =>
    obtain ⟨hdirty, hcache⟩ := enqueue_dirty s.queue md
    refine ⟨hcache.trans hpath, hnowhere, hencoded, disk, hdisk, ?_⟩
    obtain hset | ⟨hsame, hitems⟩ := hdirty
    · simp only [hset]
      exact hconsistent.mutate _
    · simp only [hsame, hitems]
      exact hconsistent.grow _
  | @ack ids =>
    obtain ⟨hset, hcache⟩ := ack_dirty s.queue ids
    refine ⟨hcache.trans hpath, hnowhere, hencoded, disk, hdisk, ?_⟩
    simp only [hset]
    exact hconsistent.mutate _
  | swap hidle hcache =>
    refine ⟨hpath, fun hnil => absurd (hpath.trans hnil) hcache, trivial, disk, hdisk, ?_⟩
    exact hconsistent.clear
  | copy hpc =>
    have hne := hbusy (by rw [hpc]; simp)
    exact ⟨hpath, fun hnil => absurd hnil hne, hok, disk, hdisk, hconsistent.copy⟩
  | marshal hpc =>
    rw [hpc] at hencoded hconsistent
    have hne := hbusy (by rw [hpc]; simp)
    exact ⟨hpath, fun hnil => absurd hnil hne, ⟨rfl, hencoded⟩, disk, hdisk, hconsistent⟩
  | write hpc =>
    rw [hpc] at hencoded hconsistent
    have hne := hbusy (by rw [hpc]; simp)
    obtain ⟨rfl, hlossless⟩ := hencoded
    exact ⟨hpath, fun hnil => absurd hnil hne, ⟨rfl, hlossless⟩, disk, hdisk, hconsistent⟩
  | @rename items hpc =>
    rw [hpc] at hencoded hconsistent
    have hne := hbusy (by rw [hpc]; simp)
    obtain ⟨htemporary, hlossless⟩ := hencoded
    refine ⟨hpath, fun hnil => absurd hnil hne, trivial, items, ?_, hconsistent.commit⟩
    simp only [htemporary]
    exact decodes_encodeRecords hlossless
  | failEncoding hpc | failWrite hpc | failRename hpc =>
    have hne := hbusy (by rw [hpc]; simp)
    exact ⟨hpath, fun hnil => absurd hnil hne, trivial, disk, hdisk, hconsistent.fail⟩
  | crash =>
    obtain ⟨hclean, hcache⟩ := new_saved workerID limit cachePath s.file
    have hfile : cachePath = [] → s.file = none := fun hnil => (hnowhere hnil).2
    refine ⟨hcache, fun hnil => ⟨rfl, hfile hnil⟩, trivial, disk, hdisk, ?_⟩
    simp only [hclean, new_holds hdisk hfile]
    exact .start hconsistent.disk_past

/-- While no save is in progress and the flag is clear, the file holds the queue; and in
    every state a crash restores what the queue held at some earlier moment. -/
theorem snapshot_consistent {s : SaveState}
    (h : ((saveSystem workerID limit cachePath).restrict Lossless).Reachable s) :
    (s.queue.cacheDirty = false → s.saving = .idle → Holds s.file s.queue.items) ∧
      (WorkerQueue.new workerID limit cachePath s.file).items ∈ s.moments := by
  have hsafe : s.Safe cachePath := System.invariant (fun _ hinit => .init hinit)
    (fun _ _ _ _ hs hstep => hs.step hstep.1 hstep.2) h
  obtain ⟨-, hnowhere, -, disk, hdisk, hconsistent⟩ := hsafe
  refine ⟨?_, ?_⟩
  · intro hclean hidle
    rw [hidle] at hconsistent
    rw [← hconsistent.synced hclean rfl]
    exact hdisk
  · rw [new_holds hdisk fun hnil => (hnowhere hnil).2]
    exact hconsistent.disk_past

end

/-! ## A first save -/

/-- A worker saves its first record. -/
theorem snapshot_consistent_saved :
    Holds (some (encodeRecords [⟨1, torrentNamed (ascii "a")⟩])) [⟨1, torrentNamed (ascii "a")⟩] ∧
      (WorkerQueue.new [] 2 (ascii "c") (some (encodeRecords [⟨1, torrentNamed (ascii "a")⟩]))).items ∈
        [[], [⟨1, torrentNamed (ascii "a")⟩]] := by
  let sys := (saveSystem [] 2 (ascii "c")).restrict Lossless
  have habsent : WellFormed none := by
    intro data hdata
    cases hdata
  have hinit : sys.Reachable ⟨.new [] 2 (ascii "c") none, .idle, none, none, [[]]⟩ :=
    .init ⟨rfl, habsent, fun _ => rfl, rfl, rfl⟩
  have hqueued := hinit.step ⟨@SaveStep.enqueue _ _ _ _ (torrentNamed (ascii "a")), trivial⟩
  have hcopied := (hqueued.step ⟨.swap rfl (by decide) rfl, trivial⟩).step
    ⟨.copy rfl, by unfold Lossless; decide⟩
  have hwritten := (hcopied.step ⟨.marshal rfl, trivial⟩).step ⟨.write rfl, trivial⟩
  have hrenamed := hwritten.step ⟨.rename rfl, trivial⟩
  exact (snapshot_consistent hrenamed).imp_left fun hholds => hholds rfl rfl

end Cluster
