-- SUMMARY: Within one worker process every accepted record is queued or ingested, until the ID counter wraps; and a run in which it does.
import LazyDhtc.Cluster.AckSafety
import LazyDhtc.Cluster.Rounds

/-!
# At-least-once delivery

A record leaves the queue only through an acknowledgement of a batch that the master's
loop has been over. The two channels do not get into each other's way: both name records
by IDs that a process gives out once.
-/

namespace Cluster

open DhtClient Json Transition

/-! ## Handed records -/

/-- The master acknowledges what its loops have been over, and these pass everything with
    an info hash of a proper length to `ingest`. -/
structure Handled (s : ClusterState) : Prop where
  acked : ∀ client items, .ack client items ∈ s.network → items ⊆ s.handed
  tasks : ∀ t ∈ s.tasks, t.handed ⊆ s.handed
  ingested : ∀ r ∈ s.handed, ingestible r.metadata = true → r.metadata ∈ s.ingested

theorem Handled.init {s : ClusterState} (h : ClusterInit s) : Handled s := by
  obtain ⟨-, -, -, -, hnetwork, htasks, hhanded, -⟩ := h
  refine ⟨?_, ?_, ?_⟩
  · simp [hnetwork]
  · simp [htasks]
  · simp [hhanded]

/-- A message that is no acknowledgement changes nothing here. -/
theorem Handled.send {s : ClusterState} (h : Handled s) {m : Message}
    (hm : ∀ client items, m ≠ .ack client items) :
    Handled { s with network := s.network ++ [m] } where
  acked := by
    intro client items hmem
    rcases List.mem_append.1 hmem with hmem | hmem
    · exact h.acked client items hmem
    · exact (hm client items (List.mem_singleton.1 hmem).symm).elim
  tasks := h.tasks
  ingested := h.ingested

/-- A loop that starts has handed nothing on. -/
theorem Handled.start {s : ClusterState} (h : Handled s) (client : Client) (batch : Batch) :
    Handled { s with tasks := s.tasks ++ [.start client batch] } where
  acked := h.acked
  tasks := by
    intro t ht
    rcases List.mem_append.1 ht with ht | ht
    · exact h.tasks t ht
    · rw [List.mem_singleton.1 ht, Task.start_handed]
      exact List.nil_subset _
  ingested := h.ingested

theorem Handled.step {s s' : ClusterState} {a : ClusterAction} (h : Handled s)
    (hstep : ClusterStep s a s') : Handled s' := by
  cases hstep with
  | queueGet => exact h.send (by simp)
  | flushSend => exact h.send (by simp)
  | pullReceive => exact h.start _ _
  | flushReceive => exact h.start _ _
  | @ingest pre post client batch handed todo r split htasks =>
    have hold : ∀ t ∈ s.tasks, t.handed ⊆ s.handed ++ [r] := fun t ht =>
      List.subset_append_of_subset_left _ (h.tasks t ht)
    rw [htasks] at hold
    refine ⟨fun c items hm => List.subset_append_of_subset_left _ (h.acked c items hm), ?_, ?_⟩
    · intro t ht
      rcases List.mem_append.1 ht with ht | ht
      · exact hold t (List.mem_append_left _ ht)
      · rcases List.mem_cons.1 ht with rfl | ht
        · have hcur := hold ⟨client, batch, handed, r :: todo, split⟩ (by simp)
          exact List.append_subset.2 ⟨hcur, List.subset_append_right _ _⟩
        · exact hold t (by simp [ht])
    · intro r' hr' hproper
      rcases List.mem_append.1 hr' with hr' | hr'
      · have hingested := h.ingested r' hr' hproper
        simp only
        split_ifs
        · exact List.mem_append_left _ hingested
        · exact hingested
      · rw [List.mem_singleton.1 hr'] at hproper ⊢
        simp [hproper]
  | @acknowledge pre post client batch handed split htasks =>
    have hold := h.tasks
    rw [htasks] at hold
    refine ⟨?_, fun t ht => hold t ?_, h.ingested⟩
    · intro c items hm
      rcases List.mem_append.1 hm with hm | hm
      · exact h.acked c items hm
      · cases List.mem_singleton.1 hm
        rw [split, List.append_nil]
        exact hold ⟨client, batch, handed, [], split⟩ (by simp)
    · rcases List.mem_append.1 ht with ht | ht <;> simp [ht]
  | lose hnetwork =>
    refine ⟨fun c items hm => h.acked c items ?_, h.tasks, h.ingested⟩
    rw [hnetwork]
    rcases List.mem_append.1 hm with hm | hm <;> simp [hm]
  | abandon htasks =>
    refine ⟨h.acked, fun t ht => h.tasks t ?_, h.ingested⟩
    rw [htasks]
    rcases List.mem_append.1 ht with ht | ht <;> simp [ht]
  | _ => exact ⟨h.acked, h.tasks, h.ingested⟩

theorem handed_mono {s s' : ClusterState} {a : ClusterAction} (hstep : ClusterStep s a s') :
    s.handed ⊆ s'.handed := by
  cases hstep with
  | ingest => exact List.subset_append_left _ _
  | _ => exact List.Subset.refl _

/-! ## Runs of one process -/

/-- The condition under which a process gives out every ID once. -/
def OneProcess (s : ClusterState) (a : ClusterAction) : Prop := SameProcess s a ∧ NoWrap s a

theorem OneProcess.freshIDs {s : ClusterState} {a : ClusterAction} (h : OneProcess s a) :
    FreshIDs s a := by
  cases a with
  | enqueue md => exact h.2
  | restart cfg => exact h.1.elim
  | _ => trivial

theorem SameProcess.ne_restart {s : ClusterState} {a : ClusterAction} (h : SameProcess s a)
    (cfg : WorkerConfig) : a ≠ .restart cfg := by
  rintro rfl
  exact h

theorem OneProcess.ackSafe {s : ClusterState}
    (h : (clusterSystem.restrict OneProcess).Reachable s) : AckSafe s :=
  .of_reachable (h.restrict_mono fun _ _ hok => hok.freshIDs)

theorem OneProcess.handled {s : ClusterState}
    (h : (clusterSystem.restrict OneProcess).Reachable s) : Handled s :=
  System.invariant (fun _ hinit => .init hinit) (fun _ _ _ _ hs hstep => hs.step hstep.1) h

/-- What a step takes out of the queue has been handed on by the master. -/
theorem removes_handed {s s' : ClusterState} {a : ClusterAction} (hsafe : AckSafe s)
    (hhandled : Handled s) (hsame : SameProcess s a) (hstep : ClusterStep s a s') {r : Record}
    (hr : r ∈ s.queue.items) (hr' : r ∉ s'.queue.items) :
    ∃ client items, a = .ack client items ∧ r.onWire ∈ items ∧ items ⊆ s.handed := by
  obtain ⟨client, items, heq, hm, hmem⟩ := hsafe.removes hstep hsame.ne_restart hr hr'
  exact ⟨client, items, heq, hmem, hhandled.acked client items hm⟩

/-- Every accepted record is queued or handed on. -/
def Kept (s : ClusterState) : Prop :=
  ∀ r ∈ s.accepted, r ∈ s.queue.items ∨ r.onWire ∈ s.handed

theorem Kept.step {s s' : ClusterState} {a : ClusterAction} (h : Kept s) (hsafe : AckSafe s)
    (hhandled : Handled s) (hsame : SameProcess s a) (hstep : ClusterStep s a s') : Kept s' := by
  intro r hr
  have hold : r ∈ s.accepted → r ∈ s'.queue.items ∨ r.onWire ∈ s'.handed := by
    intro hmem
    rcases h r hmem with hqueued | hhanded
    · by_cases hstays : r ∈ s'.queue.items
      · exact .inl hstays
      · obtain ⟨client, items, -, hitem, hsub⟩ :=
          removes_handed hsafe hhandled hsame hstep hqueued hstays
        exact .inr (handed_mono hstep (hsub hitem))
    · exact .inr (handed_mono hstep hhanded)
  cases hstep.queueEffect with
  | accept _ hitems _ _ haccepted =>
    rw [haccepted, List.mem_append, List.mem_singleton] at hr
    rcases hr with hr | rfl
    · exact hold hr
    · exact .inl (by rw [hitems]; simp)
  | ack _ _ _ _ _ haccepted => exact hold (haccepted ▸ hr)
  | restart => exact hsame.elim
  | keep _ _ _ haccepted => exact hold (haccepted ▸ hr)

/-- At-least-once delivery: in every state of a run of one process whose ID counter does
    not wrap, an accepted record is still queued or has been passed to `ingest`; and what an
    acknowledgement removes was in a batch that the master handed on. -/
theorem delivered_at_least_once {s : ClusterState}
    (h : (clusterSystem.restrict OneProcess).Reachable s) :
    (∀ r ∈ s.accepted, ingestible r.metadata = true →
      r ∈ s.queue.items ∨ onWire r.metadata ∈ s.ingested) ∧
    ∀ a s', SameProcess s a → clusterSystem.step s a s' →
      ∀ r ∈ s.queue.items, r ∉ s'.queue.items →
        ∃ client items, a = .ack client items ∧ r.onWire ∈ items ∧ items ⊆ s.handed := by
  have hsafe := OneProcess.ackSafe h
  have hhandled := OneProcess.handled h
  have hkept : Kept s := by
    refine System.invariant ?_ ?_ h
    · rintro s ⟨-, -, -, -, -, -, -, -, haccepted⟩
      simp [Kept, haccepted]
    · intro s a s' hreach hkept hstep
      exact hkept.step (OneProcess.ackSafe hreach) (OneProcess.handled hreach) hstep.2.1 hstep.1
  refine ⟨?_, fun a s' hsame hstep r hr hr' => removes_handed hsafe hhandled hsame hstep hr hr'⟩
  intro r hr hproper
  exact (hkept r hr).imp_right fun hhanded => hhandled.ingested r.onWire hhanded hproper

/-- A process that has just accepted its first record. -/
def pullAccepted : ClusterState :=
  { pullStart with
    queue := (pullStart.queue.enqueue (torrentNamed (ascii "a"))).1
    accepted := [⟨1, torrentNamed (ascii "a")⟩] }

theorem delivered_at_least_once_accepted :
    (∀ r ∈ pullAccepted.accepted, ingestible r.metadata = true →
      r ∈ pullAccepted.queue.items ∨ onWire r.metadata ∈ pullAccepted.ingested) ∧
    ∀ a s', SameProcess pullAccepted a → clusterSystem.step pullAccepted a s' →
      ∀ r ∈ pullAccepted.queue.items, r ∉ s'.queue.items →
        ∃ client items, a = .ack client items ∧ r.onWire ∈ items ∧ items ⊆ pullAccepted.handed :=
  delivered_at_least_once (.step (.init init_pullStart)
    ⟨ClusterStep.accept (s := pullStart) rfl, trivial, fun _ => by decide⟩)

/-! ## The counter wraps -/

/-- An idle worker that has accepted `n` records, with the acknowledgement of the first of
    them still on its way. Only that torrent was ever ingested. -/
theorem idle_after (n : Nat) : ∃ s, oneProcess.Reachable s ∧ Idle s (.ofNat (n + 1)) ∧
    .ack .pull [Record.onWire ⟨1, torrentNamed (ascii "a")⟩] ∈ s.network ∧
      ∀ md ∈ s.ingested, md = torrentNamed (ascii "a") := by
  have hcoerce : onWire (torrentNamed (ascii "a")) = torrentNamed (ascii "a") := by decide
  induction n with
  | zero =>
    obtain ⟨t, hsteps, hpulled⟩ := idle_pullStart.pull (torrentNamed (ascii "a")) (by decide)
    obtain ⟨u, hack, hidle, hnetwork, hingested⟩ := hpulled.idle
    refine ⟨u, ((System.Reachable.init init_pullStart).steps hsteps).step hack, hidle, ?_, ?_⟩
    · rw [hnetwork]
      exact hpulled.ack
    · rw [hingested, hpulled.ingested, hcoerce]
      simp [pullStart]
  | succ n ih =>
    obtain ⟨s, hreach, hidle, hm, honly⟩ := ih
    obtain ⟨t, hsteps, hpulled⟩ := hidle.pull (torrentNamed (ascii "a")) (by decide)
    obtain ⟨u, hack, hidle', hnetwork, hingested⟩ := hpulled.idle
    have hnext : UInt64.ofNat (n + 1) + 1 = UInt64.ofNat (n + 1 + 1) := by
      rw [UInt64.ofNat_add (n + 1) 1]
      rfl
    refine ⟨u, (hreach.steps hsteps).step hack, hnext ▸ hidle', ?_, ?_⟩
    · rw [hnetwork]
      exact hpulled.network hm
    · rw [hingested, hpulled.ingested, hcoerce]
      simpa [or_imp, forall_and] using honly

/-- After 2^64 records an ID is given out again, and a late acknowledgement removes a
    record that no master has seen. -/
theorem wrapped_ack_loses_record : ∃ s r, oneProcess.Reachable s ∧ r ∈ s.accepted ∧
    ingestible r.metadata = true ∧ r ∉ s.queue.items ∧ onWire r.metadata ∉ s.ingested := by
  obtain ⟨s, hreach, hidle, hm, honly⟩ := idle_after (2 ^ 64 - 1)
  have hzero : UInt64.ofNat (2 ^ 64 - 1 + 1) = 0 := by decide
  rw [hzero] at hidle
  obtain ⟨haccepted, hitems, hnext, hlimit⟩ := hidle.accept (torrentNamed (ascii "b"))
  have henqueue : oneProcess.step s (.enqueue (torrentNamed (ascii "b"))) _ :=
    ⟨.accept haccepted, trivial⟩
  have hdeliver := deliver_ack (s := { s with
    queue := (s.queue.enqueue (torrentNamed (ascii "b"))).1
    accepted := s.accepted ++ [⟨s.queue.nextID + 1, torrentNamed (ascii "b")⟩] })
    (by rw [hidle.cfg]; decide) (by rw [hidle.cfg]; decide) hm (by decide)
  refine ⟨_, ⟨1, torrentNamed (ascii "b")⟩, (hreach.step henqueue).step hdeliver, ?_, ?_, ?_, ?_⟩
  · simp [hidle.nextID]
  · decide
  · simp [hitems]
  · intro hin
    exact absurd (honly _ hin) (by decide)

end Cluster
