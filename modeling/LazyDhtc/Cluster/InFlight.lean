-- SUMMARY: The records that may still be acknowledged, and what each step of the cluster does to them, to the queue and to the cache files.
import LazyDhtc.Cluster.Delivery
import LazyDhtc.Cluster.Exchange
import LazyDhtc.Lib.Outbox

/-!
# Records in flight

A record is in flight from the moment a batch with it leaves the worker until the last
message about that batch is gone. Only the flights that can reach the process that now
serves the URL matter to it: those of the pull channel, and those of its own flushes.
-/

namespace Cluster

open DhtClient Json

/-! ## Flights -/

def Message.client : Message → Client
  | .queueResponse _ => .pull
  | .flushRequest process _ => .flush process
  | .ack client _ => client

/-- The records of the batch that a message is about, as the master decodes them. -/
def Message.items : Message → List Record
  | .queueResponse resp => ((pullBatch resp).map Batch.items).getD []
  | .flushRequest _ req =>
    (((readLimited (1024 * 1024) req.body).bind decodeBatch).map Batch.items).getD []
  | .ack _ items => items

/-- A record in a message or in a loop of the master. -/
def InFlight (s : ClusterState) (client : Client) (r : Record) : Prop :=
  (∃ m ∈ s.network, m.client = client ∧ r ∈ m.items) ∨
    ∃ t ∈ s.tasks, t.client = client ∧ r ∈ t.batch.items

/-- The clients whose acknowledgements reach the current process. -/
def Live (s : ClusterState) (client : Client) : Prop :=
  client = .pull ∨ client = .flush s.process

/-- A record up to the coercion of its strings. -/
def entry (r : Record) : Nat × Metadata := (r.id.toNat, onWire r.metadata)

/-- The entries that the current process may still get acknowledgements for. -/
def outstanding (s : ClusterState) : Set (Nat × Metadata) :=
  {e | ∃ client r, Live s client ∧ InFlight s client r ∧ e = entry r}

theorem entry_onWire (r : Record) : entry r.onWire = entry r := by
  simp [entry, Record.onWire, onWire_onWire]

theorem onWire_eq_of_entry {r r' : Record} (h : entry r = entry r') : r.onWire = r'.onWire := by
  simp only [entry, Prod.mk.injEq, UInt64.toNat_inj] at h
  simp only [Record.onWire, h.1, h.2]

theorem items_queueResponse {q : WorkerQueue} {token token' : Bytes} {maxBatch : Int}
    {req : Request} (h : (pullRequest token).transmit = some req) {r : Record}
    (hr : r ∈ (Message.queueResponse (q.handler token' maxBatch req).2).items) :
    ∃ r' ∈ q.items, r = r'.onWire := by
  simp only [Message.items, q.pullBatch_handler token' maxBatch h] at hr
  split_ifs at hr
  · obtain ⟨r', hr', rfl⟩ := List.mem_map.1 hr
    exact ⟨r', (q.batch_items_take _).subset hr', rfl⟩
  · cases hr

theorem items_flushRequest {q : WorkerQueue} {process : Nat} {req req' : Request}
    (h : q.flushRequest = some req) (h' : req.transmit = some req') {r : Record}
    (hr : r ∈ (Message.flushRequest process req').items) : ∃ r' ∈ q.items, r = r'.onWire := by
  obtain ⟨-, -, hbody⟩ := transmit_body h'
  simp only [Message.items, hbody, (WorkerQueue.flushRequest_body h).2,
    readLimited_encodeBatch] at hr
  split_ifs at hr
  · obtain ⟨r', hr', rfl⟩ := List.mem_map.1 hr
    exact ⟨r', (q.batch_items_take _).subset hr', rfl⟩
  · cases hr

/-- What is in flight was so before, or is in a new message or a new loop. -/
theorem InFlight.split {s' : ClusterState} {client : Client} {r : Record}
    (h : InFlight s' client r) (s : ClusterState) {ms : List Message} {ts : List Task}
    (hnetwork : s'.network ⊆ s.network ++ ms) (htasks : s'.tasks ⊆ s.tasks ++ ts) :
    InFlight s client r ∨ (∃ m ∈ ms, m.client = client ∧ r ∈ m.items) ∨
      ∃ t ∈ ts, t.client = client ∧ r ∈ t.batch.items := by
  rcases h with ⟨m, hm, hclient, hr⟩ | ⟨t, ht, hclient, hr⟩
  · rcases List.mem_append.1 (hnetwork hm) with hm | hm
    · exact .inl (.inl ⟨m, hm, hclient, hr⟩)
    · exact .inr (.inl ⟨m, hm, hclient, hr⟩)
  · rcases List.mem_append.1 (htasks ht) with ht | ht
    · exact .inl (.inr ⟨t, ht, hclient, hr⟩)
    · exact .inr (.inr ⟨t, ht, hclient, hr⟩)

/-- Only the worker's own requests and responses put records in flight, and these come
    from its queue. -/
theorem InFlight.step {s s' : ClusterState} {a : ClusterAction} (hstep : ClusterStep s a s')
    {client : Client} {r : Record} (h : InFlight s' client r) :
    InFlight s client r ∨ (Live s client ∧ ∃ r' ∈ s.queue.items, r = r'.onWire) := by
  cases hstep with
  | queueGet hreq =>
    rcases h.split s (List.Subset.refl _) (List.subset_append_left s.tasks []) with
      hin | ⟨m, hm, hclient, hr⟩ | ⟨t, ht, -⟩
    · exact .inl hin
    · cases List.mem_singleton.1 hm
      exact .inr ⟨.inl hclient.symm, items_queueResponse hreq hr⟩
    · cases ht
  | flushSend hreq hsent =>
    rcases h.split s (List.Subset.refl _) (List.subset_append_left s.tasks []) with
      hin | ⟨m, hm, hclient, hr⟩ | ⟨t, ht, -⟩
    · exact .inl hin
    · cases List.mem_singleton.1 hm
      exact .inr ⟨.inr hclient.symm, items_flushRequest hreq hsent hr⟩
    · cases ht
  | pullReceive hm hbatch hne =>
    rcases h.split s (List.subset_append_left s.network []) (List.Subset.refl _) with
      hin | ⟨m, hnew, -⟩ | ⟨t, ht, hclient, hr⟩
    · exact .inl hin
    · cases hnew
    · cases List.mem_singleton.1 ht
      refine .inl (.inl ⟨_, hm, hclient, ?_⟩)
      simpa [Message.items, hbatch] using hr
  | flushReceive hm hbatch =>
    rcases h.split s (List.subset_append_left s.network []) (List.Subset.refl _) with
      hin | ⟨m, hnew, -⟩ | ⟨t, ht, hclient, hr⟩
    · exact .inl hin
    · cases hnew
    · cases List.mem_singleton.1 ht
      refine .inl (.inl ⟨_, hm, hclient, ?_⟩)
      simpa [Message.items, masterFlushBatch_ok hbatch] using hr
  | @ingest pre post client' batch handed todo r' split htasks =>
    have hsub : ∀ t, pre ++ t :: post ⊆ s.tasks ++ [t] := by
      intro t t' ht'
      rw [htasks]
      rcases List.mem_append.1 ht' with ht' | ht'
      · simp [ht']
      · rcases List.mem_cons.1 ht' with rfl | ht' <;> simp [*]
    rcases h.split s (List.subset_append_left s.network []) (hsub _) with
      hin | ⟨m, hnew, -⟩ | ⟨t, ht, hclient, hr⟩
    · exact .inl hin
    · cases hnew
    · cases List.mem_singleton.1 ht
      exact .inl (.inr ⟨⟨client', batch, handed, r' :: todo, split⟩, by rw [htasks]; simp,
        hclient, hr⟩)
  | @acknowledge pre post client' batch handed split htasks =>
    have hsub : pre ++ post ⊆ s.tasks ++ [] := by
      intro t ht
      rw [htasks]
      rcases List.mem_append.1 ht with ht | ht <;> simp [ht]
    rcases h.split s (List.Subset.refl _) hsub with hin | ⟨m, hm, hclient, hr⟩ | ⟨t, ht, -⟩
    · exact .inl hin
    · cases List.mem_singleton.1 hm
      exact .inl (.inr ⟨⟨client', batch, handed, [], split⟩, by rw [htasks]; simp, hclient, hr⟩)
    · cases ht
  | lose hnetwork =>
    rcases h with ⟨m, hm, hclient, hr⟩ | htask
    · refine .inl (.inl ⟨m, ?_, hclient, hr⟩)
      rw [hnetwork]
      rcases List.mem_append.1 hm with hm | hm <;> simp [hm]
    · exact .inl (.inr htask)
  | abandon htasks =>
    rcases h with hmsg | ⟨t, ht, hclient, hr⟩
    · exact .inl (.inl hmsg)
    · refine .inl (.inr ⟨t, ?_, hclient, hr⟩)
      rw [htasks]
      rcases List.mem_append.1 ht with ht | ht <;> simp [ht]
  | _ => exact .inl h

/-! ## The queue -/

/-- What a step does to the queue, and to the records accepted so far. -/
inductive QueueEffect (s s' : ClusterState) : ClusterAction → Prop where
  | accept {md : Metadata} :
      (s.queue.enqueue md).2 = true →
      s'.queue.items = s.queue.items ++ [⟨s.queue.nextID + 1, md⟩] →
      s'.queue.nextID = s.queue.nextID + 1 → s'.process = s.process →
      s'.accepted = s.accepted ++ [⟨s.queue.nextID + 1, md⟩] → QueueEffect s s' (.enqueue md)
  | ack {client : Client} {items : List Record} :
      Live s client → .ack client items ∈ s.network →
      s'.queue.items = s.queue.items.filter (fun r => r.id ∉ items.map Record.id) →
      s'.queue.nextID = s.queue.nextID → s'.process = s.process →
      s'.accepted = s.accepted → QueueEffect s s' (.ack client items)
  | restart {cfg : WorkerConfig} :
      s'.queue = runWorker cfg s.files → s'.process = s.process + 1 → s'.accepted = s.accepted →
      QueueEffect s s' (.restart cfg)
  | keep {a : ClusterAction} :
      s'.queue.items = s.queue.items → s'.queue.nextID = s.queue.nextID →
      s'.process = s.process → s'.accepted = s.accepted → QueueEffect s s' a

theorem ClusterStep.queueEffect {s s' : ClusterState} {a : ClusterAction}
    (hstep : ClusterStep s a s') : QueueEffect s s' a := by
  cases hstep with
  | @refuse md hrefused =>
    rcases s.queue.enqueue_cases md with ⟨-, heq⟩ | ⟨haccepted, -⟩
    · rw [heq]
      exact .keep rfl rfl rfl rfl
    · cases hrefused.symm.trans haccepted
  | @accept md haccepted =>
    rcases s.queue.enqueue_cases md with ⟨hrefused, -⟩ | ⟨-, hitems, hnext, -⟩
    · cases hrefused.symm.trans haccepted
    · exact .accept haccepted hitems hnext rfl rfl
  | @ackPull items token req hm hreq =>
    have hqueue := s.queue.handler_ackRequest s.cfg.clusterToken s.cfg.workerBatch hreq
    split_ifs at hqueue
    · exact .ack (.inl rfl) hm (by simp [hqueue]) (by simp [hqueue]) rfl rfl
    · exact .keep (by rw [hqueue]) (by rw [hqueue]) rfl rfl
  | @ackFlush items hm =>
    have hqueue := WorkerQueue.flushResponse_ack s.queue (items.map Record.id)
    split_ifs at hqueue
    · exact .keep (by rw [hqueue]) (by rw [hqueue]) rfl rfl
    · exact .ack (.inr rfl) hm (by simp [hqueue]) (by simp [hqueue]) rfl rfl
  | restart => exact .restart rfl rfl rfl
  | _ => exact .keep rfl rfl rfl rfl

/-- Within a process, only an acknowledgement that names a record removes it. -/
theorem ClusterStep.removes {s s' : ClusterState} {a : ClusterAction} (hstep : ClusterStep s a s')
    (hrestart : ∀ cfg, a ≠ .restart cfg) {r : Record} (hr : r ∈ s.queue.items)
    (hr' : r ∉ s'.queue.items) : ∃ client items, a = .ack client items ∧ Live s client ∧
      .ack client items ∈ s.network ∧ ∃ r' ∈ items, r'.id = r.id := by
  cases hstep.queueEffect with
  | accept _ hitems => exact absurd (by rw [hitems]; exact List.mem_append_left _ hr) hr'
  | @ack client items hlive hm hitems =>
    refine ⟨client, items, rfl, hlive, hm, ?_⟩
    rw [hitems, List.mem_filter] at hr'
    simpa [hr] using hr'
  | restart => exact (hrestart _ rfl).elim
  | keep hitems => exact absurd (by rwa [hitems]) hr'

/-! ## Cache files -/

theorem savedFile_snapshot {q : WorkerQueue} (h : (q.items.map Record.id).Nodup) :
    SavedFile q.snapshot := ⟨q.items, rfl, h⟩

/-- The counter that `loadFromCache` computes is at least every ID. -/
theorem le_foldl_maxID (items : List Record) (n : UInt64) :
    n ≤ items.foldl (fun n r => if n < r.id then r.id else n) n ∧
      ∀ r ∈ items, r.id ≤ items.foldl (fun n r => if n < r.id then r.id else n) n := by
  induction items generalizing n with
  | nil => exact ⟨UInt64.le_refl n, by simp⟩
  | cons r items ih =>
    obtain ⟨hstart, hitems⟩ := ih (if n < r.id then r.id else n)
    have hmax : n ≤ (if n < r.id then r.id else n) ∧ r.id ≤ (if n < r.id then r.id else n) := by
      split_ifs with hlt
      · exact ⟨UInt64.le_of_lt hlt, UInt64.le_refl _⟩
      · exact ⟨UInt64.le_refl _, UInt64.not_lt.1 hlt⟩
    rw [List.foldl_cons]
    refine ⟨UInt64.le_trans hmax.1 hstart, ?_⟩
    rintro r' (_ | ⟨_, hr'⟩)
    · exact UInt64.le_trans hmax.2 hstart
    · exact hitems r' hr'

/-- A queue counts on from the records that it restores. -/
theorem loadFromCache_spec {q : WorkerQueue} {file : Option Bytes} (hq : q.items = [])
    (h : ∀ data, file = some data → SavedFile data) :
    ((q.loadFromCache file).items.map Record.id).Nodup ∧
      ∀ r ∈ (q.loadFromCache file).items, r.id ≤ (q.loadFromCache file).nextID := by
  have hempty : (q.items.map Record.id).Nodup ∧ ∀ r ∈ q.items, r.id ≤ q.nextID := by simp [hq]
  unfold WorkerQueue.loadFromCache
  split_ifs with hpath
  · exact hempty
  · cases file with
    | none => exact hempty
    | some data =>
      obtain ⟨items, rfl, hnodup⟩ := h data rfl
      simp only [readAll_encode (depth_encodeRecords items), decodeSlice_of decodeRecord_encode]
      refine ⟨?_, (le_foldl_maxID _ _).2⟩
      rw [List.map_map]
      exact hnodup

theorem loadFromCache_items {q : WorkerQueue} (hq : q.items = []) (hpath : q.cachePath ≠ [])
    (file : Option Bytes) : (q.loadFromCache file).items =
      match file.bind readAll with
      | some v => (decodeSlice decodeRecord zeroRecord [] v).1
      | none => [] := by
  unfold WorkerQueue.loadFromCache
  rw [if_neg hpath]
  cases file with
  | none => exact hq
  | some data =>
    simp only [Option.bind_some]
    cases readAll data with
    | none => exact hq
    | some v =>
      rw [← hq]
      cases hdecode : decodeSlice decodeRecord zeroRecord q.items v with
      | mk items ok => cases ok <;> simp [hdecode]

theorem cacheDir_ne_nil (cfg : WorkerConfig) : cfg.cacheDir ≠ [] := by
  unfold WorkerConfig.cacheDir
  split_ifs with hdir
  · exact List.cons_ne_nil _ _
  · exact hdir

/-- A process starts with the records of its cache file. -/
theorem runWorker_items (cfg : WorkerConfig) (files : Bytes → Option Bytes) :
    (runWorker cfg files).items = savedRecords cfg files := by
  unfold runWorker savedRecords
  split_ifs with hpush
  · rw [WorkerQueue.startFlushLoop_items]
    exact loadFromCache_items rfl (cacheDir_ne_nil cfg) (files cfg.cacheDir)
  · rfl

/-- It counts on from the largest ID among them. -/
theorem runWorker_spec (cfg : WorkerConfig) {files : Bytes → Option Bytes}
    (h : ∀ path data, files path = some data → SavedFile data) :
    ((runWorker cfg files).items.map Record.id).Nodup ∧
      ∀ r ∈ (runWorker cfg files).items, r.id ≤ (runWorker cfg files).nextID := by
  unfold runWorker
  split_ifs
  · rw [WorkerQueue.startFlushLoop_items, WorkerQueue.startFlushLoop_nextID]
    exact loadFromCache_spec rfl (h cfg.cacheDir)
  · exact loadFromCache_spec rfl (by simp)

end Cluster
