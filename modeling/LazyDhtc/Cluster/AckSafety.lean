-- SUMMARY: While no ID is given to two records, every record that an acknowledgement removes is one that the acknowledged batch had.
import LazyDhtc.Cluster.InFlight

/-!
# Acknowledgements

An acknowledgement names IDs, so it is as good as the IDs are unique: within a process
until the counter wraps, and across a restart if the new process counts on from above
everything that is still in flight to the URL.
-/

namespace Cluster

open DhtClient Json Transition

/-- No `Enqueue` wraps the ID counter. -/
def NoWrap (s : ClusterState) : ClusterAction → Prop
  | .enqueue md => (s.queue.enqueue md).2 = true → s.queue.nextID.toNat + 1 < 2 ^ 64
  | _ => True

/-- No step gives an ID to a second record: no `Enqueue` wraps the counter, and when a process
    starts, every ID that pulls have in flight is at most one in its cache file, and has the
    same record there if it has one. -/
def FreshIDs (s : ClusterState) : ClusterAction → Prop
  | .enqueue md => NoWrap s (.enqueue md)
  | .restart cfg => ∀ r, InFlight s .pull r →
      (∃ q ∈ savedRecords cfg s.files, r.id ≤ q.id) ∧
        ∀ q ∈ savedRecords cfg s.files, q.id = r.id → q.onWire = r
  | _ => True

structure AckSafe (s : ClusterState) : Prop where
  coherent : Outbox.Coherent (s.queue.items.map entry) s.queue.nextID.toNat (outstanding s)
  process : ∀ p r, InFlight s (.flush p) r → p ≤ s.process
  wire : ∀ client r, InFlight s client r → r.onWire = r
  files : ∀ path data, s.files path = some data → SavedFile data
  saving : ∀ data, s.saving = .writing data → SavedFile data

/-! ## Entries -/

theorem nodup_entries {items : List Record} :
    ((items.map entry).map Prod.fst).Nodup ↔ (items.map Record.id).Nodup := by
  rw [List.map_map, show Prod.fst ∘ entry = UInt64.toNat ∘ Record.id from rfl, ← List.map_map]
  exact List.nodup_map_iff fun _ _ => UInt64.toNat_inj.1

theorem entry_le {items : List Record} {last : UInt64} (h : ∀ r ∈ items, r.id ≤ last) :
    ∀ q ∈ items.map entry, q.1 ≤ last.toNat := by
  rintro _ hq
  obtain ⟨r, hr, rfl⟩ := List.mem_map.1 hq
  exact h r hr

/-- Without a restart, what is outstanding was outstanding or queued before. -/
theorem outstanding_step {s s' : ClusterState} {a : ClusterAction} (hstep : ClusterStep s a s')
    (hprocess : s'.process = s.process) :
    ∀ e ∈ outstanding s', e ∈ outstanding s ∨ e ∈ s.queue.items.map entry := by
  rintro e ⟨client, r, hlive, hflight, rfl⟩
  have hlive' : Live s client := by rwa [Live, ← hprocess]
  rcases hflight.step hstep with hold | ⟨-, r', hr', rfl⟩
  · exact .inl ⟨client, r, hlive', hold, rfl⟩
  · refine .inr ?_
    rw [entry_onWire]
    exact List.mem_map_of_mem hr'

/-! ## Steps -/

theorem AckSafe.init {s : ClusterState} (h : ClusterInit s) : AckSafe s := by
  obtain ⟨hqueue, hfiles, -, hsaving, hnetwork, htasks, -⟩ := h
  obtain ⟨hnodup, hle⟩ := runWorker_spec s.cfg hfiles
  have hnone : ∀ client r, ¬ InFlight s client r := by
    rintro client r (⟨m, hm, -⟩ | ⟨t, ht, -⟩)
    · simp [hnetwork] at hm
    · simp [htasks] at ht
  have hout : ∀ e, e ∉ outstanding s := by
    rintro e ⟨client, r, -, hflight, -⟩
    exact hnone client r hflight
  exact {
    coherent := {
      nodup := nodup_entries.2 (hqueue ▸ hnodup)
      queue_le := entry_le (hqueue ▸ hle)
      out_le := fun e he => (hout e he).elim
      agree := fun e he => (hout e he).elim }
    process := fun p r hflight => (hnone _ r hflight).elim
    wire := fun client r hflight => (hnone _ r hflight).elim
    files := hfiles
    saving := fun data hdata => by simp [hsaving] at hdata }

theorem AckSafe.coherent_step {s s' : ClusterState} {a : ClusterAction} (h : AckSafe s)
    (hstep : ClusterStep s a s') (hok : FreshIDs s a) :
    Outbox.Coherent (s'.queue.items.map entry) s'.queue.nextID.toNat (outstanding s') := by
  cases hstep.queueEffect with
  | @accept md haccepted hitems hnext hprocess _ =>
    have hlt : s.queue.nextID.toNat + 1 < 2 ^ 64 := hok haccepted
    have hnat : (s.queue.nextID + 1).toNat = s.queue.nextID.toNat + 1 := by
      rw [UInt64.toNat_add]
      exact Nat.mod_eq_of_lt hlt
    have hsend := h.coherent.send (outstanding_step hstep hprocess)
    have hpush := hsend.push (Nat.lt_succ_self _) (onWire md)
    rw [hitems, hnext, List.map_append, hnat]
    simpa only [List.map_cons, List.map_nil, entry, hnat] using hpush
  | ack hlive hm hitems hnext hprocess _ =>
    rw [hitems, hnext]
    exact (h.coherent.send (outstanding_step hstep hprocess)).shrink (List.filter_sublist.map _)
  | keep hitems hnext hprocess _ =>
    rw [hitems, hnext]
    exact h.coherent.send (outstanding_step hstep hprocess)
  | @restart cfg hqueue hprocess _ =>
    obtain ⟨hnodup, hle⟩ := runWorker_spec cfg h.files
    have hpull : ∀ e ∈ outstanding s', ∃ r, InFlight s .pull r ∧ e = entry r := by
      rintro e ⟨client, r, hlive, hflight, rfl⟩
      have hold : InFlight s client r := by
        cases hstep
        exact hflight
      rcases hlive with rfl | rfl
      · exact ⟨r, hold, rfl⟩
      · have hle := h.process _ r hold
        omega
    rw [hqueue]
    refine ⟨nodup_entries.2 hnodup, entry_le hle, ?_, ?_⟩
    · intro e he
      obtain ⟨r, hr, rfl⟩ := hpull e he
      obtain ⟨⟨q, hq, hrq⟩, -⟩ := hok r hr
      rw [← runWorker_items] at hq
      exact UInt64.le_trans hrq (hle q hq)
    · intro e he q hq heq
      obtain ⟨r, hr, rfl⟩ := hpull e he
      obtain ⟨q, hmem, rfl⟩ := List.mem_map.1 hq
      rw [runWorker_items] at hmem
      have hsame := (hok r hr).2 q hmem (UInt64.toNat_inj.1 heq)
      rw [← entry_onWire q, hsame]

theorem process_mono {s s' : ClusterState} {a : ClusterAction} (hstep : ClusterStep s a s') :
    s.process ≤ s'.process := by
  cases hstep.queueEffect with
  | accept _ _ _ hprocess _ => exact hprocess.ge
  | ack _ _ _ _ hprocess _ => exact hprocess.ge
  | restart _ hprocess _ => exact hprocess ▸ Nat.le_succ _
  | keep _ _ hprocess _ => exact hprocess.ge

/-- Cache files are renamed from snapshots of the queue, whose IDs are distinct. -/
theorem AckSafe.files_step {s s' : ClusterState} {a : ClusterAction} (h : AckSafe s)
    (hstep : ClusterStep s a s') :
    (∀ path data, s'.files path = some data → SavedFile data) ∧
      ∀ data, s'.saving = .writing data → SavedFile data := by
  cases hstep with
  | saveStart => exact ⟨h.files, fun data hdata => by cases hdata⟩
  | saveSnapshot =>
    refine ⟨h.files, ?_⟩
    intro data hdata
    cases hdata
    exact savedFile_snapshot (nodup_entries.1 h.coherent.nodup)
  | @saveRename data hsaving =>
    refine ⟨?_, fun data hdata => by cases hdata⟩
    intro path data' hfile
    simp only at hfile
    split_ifs at hfile
    · cases hfile
      exact h.saving data hsaving
    · exact h.files path data' hfile
  | saveFail => exact ⟨h.files, fun data hdata => by cases hdata⟩
  | restart => exact ⟨h.files, fun data hdata => by cases hdata⟩
  | _ => exact ⟨h.files, h.saving⟩

theorem AckSafe.step {s s' : ClusterState} {a : ClusterAction} (h : AckSafe s)
    (hstep : ClusterStep s a s') (hok : FreshIDs s a) : AckSafe s' where
  coherent := h.coherent_step hstep hok
  process := by
    intro p r hflight
    rcases hflight.step hstep with hold | ⟨hlive, -⟩
    · exact (h.process p r hold).trans (process_mono hstep)
    · rcases hlive with hpull | hflush
      · cases hpull
      · cases hflush
        exact process_mono hstep
  wire := by
    intro client r hflight
    rcases hflight.step hstep with hold | ⟨-, r', -, rfl⟩
    · exact h.wire client r hold
    · exact r'.onWire_onWire
  files := (h.files_step hstep).1
  saving := (h.files_step hstep).2

/-- Every state of a run that gives no ID twice is safe. -/
theorem AckSafe.of_reachable {s : ClusterState}
    (h : (clusterSystem.restrict FreshIDs).Reachable s) : AckSafe s :=
  System.invariant (fun _ hinit => .init hinit)
    (fun _ _ _ _ hsafe hstep => hsafe.step hstep.1 hstep.2) h

/-- What an acknowledgement removes from a safe queue was in the acknowledged batch. -/
theorem AckSafe.removes {s s' : ClusterState} {a : ClusterAction} (h : AckSafe s)
    (hstep : ClusterStep s a s') (hrestart : ∀ cfg, a ≠ .restart cfg) {r : Record}
    (hr : r ∈ s.queue.items) (hr' : r ∉ s'.queue.items) :
    ∃ client items, a = .ack client items ∧ .ack client items ∈ s.network ∧ r.onWire ∈ items := by
  obtain ⟨client, items, rfl, hlive, hm, r', hmem, hid⟩ := hstep.removes hrestart hr hr'
  refine ⟨client, items, rfl, hm, ?_⟩
  have hflight : InFlight s client r' := .inl ⟨_, hm, rfl, hmem⟩
  have hsame := h.coherent.agree (entry r') ⟨client, r', hlive, hflight, rfl⟩ (entry r)
    (List.mem_map_of_mem hr) (congrArg UInt64.toNat hid.symm)
  rwa [onWire_eq_of_entry hsame, h.wire client r' hflight]

end Cluster
