-- SUMMARY: What the master ingests, some process of the worker has accepted: through restarts, cache files, lost and repeated messages and a wrapping counter.
import LazyDhtc.Cluster.Rounds

/-!
# Genuine records

Records pass through queues, cache files, requests, responses and the loops of the master.
Their IDs may be given out twice, and then acknowledgements remove the wrong ones; but no
record comes out that nobody put in.
-/

namespace Cluster

open DhtClient Json Transition

/-! ## Entries that are known -/

/-- The entries of the records that a process has accepted, and of those that were there
    at the start. -/
def known (start : Set (Nat × Metadata)) (s : ClusterState) : Set (Nat × Metadata) :=
  start ∪ {e | ∃ r ∈ s.accepted, e = entry r}

/-- The content of a cache file is a list of records that are known. -/
def FileOf (entries : Set (Nat × Metadata)) (data : Bytes) : Prop :=
  ∃ items : List Record, data = encode (ofSlice encodeRecord items) ∧
    ∀ r ∈ items, entry r ∈ entries

/-- The entries of some cache files. -/
def fileEntries (files : Bytes → Option Bytes) : Set (Nat × Metadata) :=
  {e | ∃ path items, files path = some (encode (ofSlice encodeRecord items)) ∧
    ∃ r ∈ items, e = entry r}

theorem FileOf.mono {entries entries' : Set (Nat × Metadata)} {data : Bytes}
    (h : FileOf entries data) (hsub : entries ⊆ entries') : FileOf entries' data := by
  obtain ⟨items, hdata, hitems⟩ := h
  exact ⟨items, hdata, fun r hr => hsub (hitems r hr)⟩

/-- A process starts with records whose entries are in its cache file. -/
theorem entry_savedRecords {entries : Set (Nat × Metadata)} {files : Bytes → Option Bytes}
    (h : ∀ path data, files path = some data → FileOf entries data) (cfg : WorkerConfig)
    {r : Record} (hr : r ∈ savedRecords cfg files) : entry r ∈ entries := by
  unfold savedRecords at hr
  split_ifs at hr with hpush
  · cases hfile : files cfg.cacheDir with
    | none =>
      rw [hfile] at hr
      cases hr
    | some data =>
      obtain ⟨items, rfl, hitems⟩ := h cfg.cacheDir data hfile
      simp only [hfile, Option.bind_some, readAll_encode (depth_encodeRecords items),
        decodeSlice_of decodeRecord_encode] at hr
      obtain ⟨r', hr', rfl⟩ := List.mem_map.1 hr
      rw [entry_onWire]
      exact hitems r' hr'
  · cases hr

/-! ## The invariant -/

structure Genuine (start : Set (Nat × Metadata)) (s : ClusterState) : Prop where
  queue : ∀ r ∈ s.queue.items, entry r ∈ known start s
  flight : ∀ client r, InFlight s client r → entry r ∈ known start s ∧ r.onWire = r
  ingested : ∀ md ∈ s.ingested, ingestible md = true ∧
    ∃ r, entry r ∈ known start s ∧ md = onWire r.metadata
  files : ∀ path data, s.files path = some data → FileOf (known start s) data
  saving : ∀ data, s.saving = .writing data → FileOf (known start s) data

theorem known_mono (start : Set (Nat × Metadata)) {s s' : ClusterState} {a : ClusterAction}
    (hstep : ClusterStep s a s') : known start s ⊆ known start s' := by
  refine Set.union_subset_union_right start ?_
  have haccepted : s.accepted ⊆ s'.accepted := by
    cases hstep.queueEffect with
    | accept _ _ _ _ haccepted =>
      rw [haccepted]
      exact List.subset_append_left _ _
    | ack _ _ _ _ _ haccepted | restart _ _ haccepted | keep _ _ _ haccepted =>
      exact haccepted ▸ List.Subset.refl _
  rintro e ⟨r, hr, he⟩
  exact ⟨r, haccepted hr, he⟩

theorem Genuine.init {s : ClusterState} (h : ClusterInit s) :
    Genuine (fileEntries s.files) s := by
  obtain ⟨hqueue, hfiles, -, hsaving, hnetwork, htasks, -, hingested, -⟩ := h
  have hall : ∀ path data, s.files path = some data →
      FileOf (known (fileEntries s.files) s) data := by
    intro path data hfile
    obtain ⟨items, rfl, -⟩ := hfiles path data hfile
    exact ⟨items, rfl, fun r hr => .inl ⟨path, items, hfile, r, hr, rfl⟩⟩
  refine ⟨?_, ?_, ?_, hall, ?_⟩
  · intro r hr
    rw [hqueue, runWorker_items] at hr
    exact entry_savedRecords hall s.cfg hr
  · rintro client r (⟨m, hm, -⟩ | ⟨t, ht, -⟩)
    · rw [hnetwork] at hm
      cases hm
    · rw [htasks] at ht
      cases ht
  · intro md hmd
    rw [hingested] at hmd
    cases hmd
  · intro data hdata
    rw [hsaving] at hdata
    cases hdata

theorem Genuine.queue_step {start : Set (Nat × Metadata)} {s s' : ClusterState}
    {a : ClusterAction} (h : Genuine start s) (hstep : ClusterStep s a s') :
    ∀ r ∈ s'.queue.items, entry r ∈ known start s' := by
  have hmono := known_mono start hstep
  intro r hr
  cases hstep.queueEffect with
  | @accept md _ hitems _ _ haccepted =>
    rw [hitems] at hr
    obtain hold | hnew := List.mem_append.1 hr
    · exact hmono (h.queue r hold)
    · refine .inr ⟨r, ?_, rfl⟩
      rw [haccepted]
      exact List.mem_append_right _ hnew
  | ack _ _ hitems =>
    rw [hitems] at hr
    exact hmono (h.queue r (List.mem_of_mem_filter hr))
  | restart hqueue =>
    rw [hqueue, runWorker_items] at hr
    exact hmono (entry_savedRecords h.files _ hr)
  | keep hitems =>
    rw [hitems] at hr
    exact hmono (h.queue r hr)

/-- The loops hand on what is in flight. -/
theorem Genuine.ingested_step {start : Set (Nat × Metadata)} {s s' : ClusterState}
    {a : ClusterAction} (h : Genuine start s) (hstep : ClusterStep s a s') :
    ∀ md ∈ s'.ingested, ingestible md = true ∧
      ∃ r, entry r ∈ known start s' ∧ md = onWire r.metadata := by
  have hmono := known_mono start hstep
  have hold : ∀ md ∈ s.ingested, ingestible md = true ∧
      ∃ r, entry r ∈ known start s' ∧ md = onWire r.metadata := by
    intro md hmd
    obtain ⟨hproper, r, hr, heq⟩ := h.ingested md hmd
    exact ⟨hproper, r, hmono hr, heq⟩
  cases hstep with
  | @ingest pre post client batch handed todo r split htasks =>
    intro md hmd
    simp only at hmd
    split_ifs at hmd with hproper
    · obtain hmd | hmd := List.mem_append.1 hmd
      · exact hold md hmd
      · obtain rfl := List.mem_singleton.1 hmd
        have hflight : InFlight s client r := by
          refine .inr ⟨⟨client, batch, handed, r :: todo, split⟩, ?_, rfl, ?_⟩
          · rw [htasks]
            simp
          · simp [split]
        obtain ⟨hknown, hwire⟩ := h.flight client r hflight
        exact ⟨hproper, r, hmono hknown, congrArg Record.metadata hwire.symm⟩
    · exact hold md hmd
  | _ => exact hold

/-- Cache files are renamed from snapshots of the queue. -/
theorem Genuine.files_step {start : Set (Nat × Metadata)} {s s' : ClusterState}
    {a : ClusterAction} (h : Genuine start s) (hstep : ClusterStep s a s') :
    (∀ path data, s'.files path = some data → FileOf (known start s') data) ∧
      ∀ data, s'.saving = .writing data → FileOf (known start s') data := by
  have hmono := known_mono start hstep
  have hfiles := fun path data hfile => (h.files path data hfile).mono hmono
  have hsaving := fun data hdata => (h.saving data hdata).mono hmono
  cases hstep with
  | saveStart => exact ⟨hfiles, fun data hdata => by cases hdata⟩
  | saveSnapshot =>
    refine ⟨hfiles, ?_⟩
    intro data hdata
    cases hdata
    exact ⟨s.queue.items, rfl, h.queue⟩
  | @saveRename data hwriting =>
    refine ⟨?_, fun data hdata => by cases hdata⟩
    intro path data' hfile
    simp only at hfile
    split_ifs at hfile
    · cases hfile
      exact hsaving data hwriting
    · exact hfiles path data' hfile
  | saveFail => exact ⟨hfiles, fun data hdata => by cases hdata⟩
  | restart => exact ⟨hfiles, fun data hdata => by cases hdata⟩
  | _ => exact ⟨hfiles, hsaving⟩

theorem Genuine.step {start : Set (Nat × Metadata)} {s s' : ClusterState} {a : ClusterAction}
    (h : Genuine start s) (hstep : ClusterStep s a s') : Genuine start s' where
  queue := h.queue_step hstep
  flight := by
    intro client r hflight
    have hmono := known_mono start hstep
    obtain hold | ⟨-, r', hr', rfl⟩ := hflight.step hstep
    · exact (h.flight client r hold).imp_left fun hknown => hmono hknown
    · refine ⟨?_, r'.onWire_onWire⟩
      rw [entry_onWire]
      exact hmono (h.queue r' hr')
  ingested := h.ingested_step hstep
  files := (h.files_step hstep).1
  saving := (h.files_step hstep).2

/-- Whatever restarts, gets lost, comes twice or is removed in error: the master ingests
    metadata that some process has accepted, or that a cache file had at the start, as they
    arrive over JSON. The queue, too, only holds such records. -/
theorem ingested_genuine {s₀ s : ClusterState} (hinit : ClusterInit s₀)
    (hrun : clusterSystem.Steps s₀ s) :
    (∀ md ∈ s.ingested, ingestible md = true ∧
      ∃ r, (r ∈ s.accepted ∨ ∃ path items,
        s₀.files path = some (encode (ofSlice encodeRecord items)) ∧ r ∈ items) ∧
      md = onWire r.metadata) ∧
    ∀ r ∈ s.queue.items, ∃ r', (r' ∈ s.accepted ∨ ∃ path items,
        s₀.files path = some (encode (ofSlice encodeRecord items)) ∧ r' ∈ items) ∧
      r.onWire = r'.onWire := by
  have hgenuine : Genuine (fileEntries s₀.files) s :=
    hrun.preserves (fun _ _ _ hs hstep => hs.step hstep) (Genuine.init hinit)
  have hsource : ∀ r, entry r ∈ known (fileEntries s₀.files) s →
      ∃ r', (r' ∈ s.accepted ∨ ∃ path items,
        s₀.files path = some (encode (ofSlice encodeRecord items)) ∧ r' ∈ items) ∧
      r.onWire = r'.onWire := by
    rintro r (⟨path, items, hfile, r', hr', heq⟩ | ⟨r', hr', heq⟩)
    · exact ⟨r', .inr ⟨path, items, hfile, hr'⟩, onWire_eq_of_entry heq⟩
    · exact ⟨r', .inl hr', onWire_eq_of_entry heq⟩
  refine ⟨?_, fun r hr => hsource r (hgenuine.queue r hr)⟩
  intro md hmd
  obtain ⟨hproper, r, hknown, rfl⟩ := hgenuine.ingested md hmd
  obtain ⟨r', hr', hsame⟩ := hsource r hknown
  exact ⟨hproper, r', hr', congrArg Record.metadata hsame⟩

/-- A torrent that was pulled. -/
theorem ingested_genuine_pulled : ∃ s : ClusterState,
    s.ingested = [onWire (torrentNamed (ascii "a"))] ∧
    (∀ md ∈ s.ingested, ingestible md = true ∧
      ∃ r, (r ∈ s.accepted ∨ ∃ path items,
        pullStart.files path = some (encode (ofSlice encodeRecord items)) ∧ r ∈ items) ∧
      md = onWire r.metadata) ∧
    ∀ r ∈ s.queue.items, ∃ r', (r' ∈ s.accepted ∨ ∃ path items,
        pullStart.files path = some (encode (ofSlice encodeRecord items)) ∧ r' ∈ items) ∧
      r.onWire = r'.onWire := by
  obtain ⟨s, hsteps, hpulled⟩ := idle_pullStart.pull (torrentNamed (ascii "a")) (by decide)
  exact ⟨s, hpulled.ingested, ingested_genuine init_pullStart hsteps.of_restrict⟩

end Cluster
