-- SUMMARY: Runs of the puller with any workers: what it tells whom, how many requests a round takes, and what its counters count.
import LazyDhtc.Cluster.Exchange
import LazyDhtc.Cluster.Puller

/-!
# Runs of the puller

The workers may answer as they like, and the settings may change in the middle of a round.
-/

namespace Cluster

open DhtClient Transition Transition.System

variable {parse : Bytes → Option ParsedURL} {s s' : Puller} {a : PullerAction}

/-! ## The token -/

/-- The worker of a call and those after it, each with the token. -/
def Pull.pairs (pull : Pull) : List (Bytes × Bytes) :=
  (pull.worker :: pull.todo).map fun worker => (worker, pull.token)

/-- The workers that the rest of the round may send a request to, with the token that goes there. -/
def PullPc.pairs : PullPc → List (Bytes × Bytes)
  | .idle => []
  | .workers token todo => todo.map fun worker => (worker, token)
  | .batches pull => pull.pairs
  | .fetching pull => pull.pairs
  | .ingesting pull _ _ _ => pull.pairs
  | .acking pull _ => pull.pairs
  | .succeeding pull _ _ => pull.pairs
  | .failing pull _ => pull.pairs

/-- The worker was configured together with the token. -/
def Together (configured : List (List Bytes × Bytes)) (pair : Bytes × Bytes) : Prop :=
  pair.2 ≠ [] ∧ ∃ c ∈ configured, pair.1 ∈ c.1 ∧ pair.2 = c.2

theorem Together.append {configured : List (List Bytes × Bytes)} {pair : Bytes × Bytes}
    (h : Together configured pair) (c : List Bytes × Bytes) :
    Together (configured ++ [c]) pair := by
  obtain ⟨hne, c', hc', hpair⟩ := h
  exact ⟨hne, c', List.mem_append_left _ hc', hpair⟩

/-- The puller keeps the token to the workers that it was configured with. -/
structure Puller.Discreet (s : Puller) : Prop where
  current : (s.master.workers, s.master.token) ∈ s.configured
  pending : ∀ pair ∈ s.pc.pairs, Together s.configured pair
  sent : ∀ pair ∈ s.requests, Together s.configured pair

theorem Pull.mem_pairs (pull : Pull) : (pull.worker, pull.token) ∈ pull.pairs :=
  List.mem_cons_self

theorem Pull.pairs_todo (pull : Pull) {pair : Bytes × Bytes}
    (h : pair ∈ pull.todo.map fun worker => (worker, pull.token)) : pair ∈ pull.pairs :=
  List.mem_cons_of_mem _ h

theorem Pull.pairs_after (pull : Pull) (batch : Batch) {pair : Bytes × Bytes}
    (h : pair ∈ (pull.after batch).pairs) : pair ∈ pull.pairs := by
  unfold Pull.after at h
  split at h
  · exact h
  · exact pull.pairs_todo h

/-- A step that sends nothing and does not look at the configuration. -/
theorem Puller.Discreet.pc (h : s.Discreet) {pc : PullPc}
    (hpc : ∀ pair ∈ pc.pairs, pair ∈ s.pc.pairs) : Puller.Discreet { s with pc := pc } :=
  ⟨h.current, fun pair hpair => h.pending pair (hpc pair hpair), h.sent⟩

theorem Puller.Discreet.send (h : s.Discreet) {pull : Pull} (hpc : s.pc.pairs = pull.pairs) :
    ∀ pair ∈ s.requests ++ [(pull.worker, pull.token)], Together s.configured pair := by
  intro pair hpair
  rcases List.mem_append.1 hpair with hold | hnew
  · exact h.sent pair hold
  · rw [List.mem_singleton.1 hnew]
    exact h.pending _ (hpc ▸ pull.mem_pairs)

theorem Puller.Discreet.step (h : s.Discreet) (hstep : PullerStep parse s a s') : s'.Discreet := by
  cases hstep with
  | configure =>
    exact ⟨List.mem_append_right _ (List.mem_singleton_self _),
      fun pair hpair => (h.pending pair hpair).append _,
      fun pair hpair => (h.sent pair hpair).append _⟩
  | pullAll hpc =>
    refine ⟨h.current, fun pair hpair => ?_, h.sent⟩
    dsimp only at hpair
    split at hpair
    · exact (List.not_mem_nil hpair).elim
    · next htoken =>
      obtain ⟨worker, hworker, rfl⟩ := List.mem_map.1 hpair
      exact ⟨htoken, _, h.current, hworker, rfl⟩
  | next hpc => exact h.pc fun pair hpair => by rwa [hpc]
  | done hpc => exact h.pc fun pair hpair => (List.not_mem_nil hpair).elim
  | send hpc =>
    exact ⟨h.current, fun pair hpair => h.pending pair (by rwa [hpc]), h.send (by rw [hpc]; rfl)⟩
  | @enough pull hpc => exact h.pc fun pair hpair => by rw [hpc]; exact pull.pairs_todo hpair
  | fetchFailed hpc | fetchedNone hpc | fetched hpc | ackFailed hpc =>
    exact h.pc fun pair hpair => by rwa [hpc]
  | ingest hpc => exact ⟨h.current, fun pair hpair => h.pending pair (by rwa [hpc]), h.sent⟩
  | sendAck hpc =>
    exact ⟨h.current, fun pair hpair => h.pending pair (by rwa [hpc]), h.send (by rw [hpc]; rfl)⟩
  | acked hpc => exact ⟨h.current, fun pair hpair => h.pending pair (by rwa [hpc]), h.sent⟩
  | @succeed pull batch pulled now hpc =>
    refine ⟨h.current, fun pair hpair => h.pending pair ?_, h.sent⟩
    rw [hpc]
    exact pull.pairs_after batch hpair
  | @fail pull error now hpc =>
    refine ⟨h.current, fun pair hpair => h.pending pair ?_, h.sent⟩
    rw [hpc]
    exact pull.pairs_todo hpair

/-- However the settings change while rounds are under way: a pull sends the cluster token
    only to a worker that was configured together with it, and never sends an empty one. -/
theorem token_stays_with_workers (h : (pullerSystem parse).Reachable s) :
    ∀ request ∈ s.requests, Together s.configured request := by
  have hs : s.Discreet := by
    refine invariant ?_ (fun _ _ _ _ hs hstep => hs.step hstep) h
    rintro _ ⟨workerURLs, token, rfl⟩
    exact ⟨List.mem_singleton_self _, fun _ h => (List.not_mem_nil h).elim,
      fun _ h => (List.not_mem_nil h).elim⟩
  exact hs.sent

/-- Every text is the URL of a host with the same name. -/
def hostURL (worker : Bytes) : Option ParsedURL := some ⟨ascii "http", worker⟩

/-- A puller with one worker. -/
def smallPuller : Puller := newPuller hostURL [ascii "edge"] (ascii "secret")

/-- The requests of a round have been sent to one worker, before the settings change. -/
theorem token_stays_with_workers_small : ∃ s : Puller,
    s.requests = [(ascii "edge", ascii "secret")] ∧ s.master.token = ascii "other" ∧
      ∀ request ∈ s.requests, Together s.configured request := by
  have hinit : (pullerSystem hostURL).Reachable smallPuller := .init ⟨_, _, rfl⟩
  have hround := hinit.step (PullerStep.pullAll rfl)
  have hnext := hround.step (PullerStep.next rfl)
  have hsend := hnext.step (PullerStep.send rfl (by decide))
  have hother := hsend.step
    (show PullerStep hostURL _ (.configure [] (ascii "other")) _ from .configure)
  exact ⟨_, by decide +kernel, rfl, token_stays_with_workers hother⟩

/-! ## The length of a round -/

/-- The number of requests that a call can send from the head of its loop on. -/
def Pull.budget (pull : Pull) : Nat :=
  2 * (maxBatchesPerPull - pull.batchNumber) + 2 * maxBatchesPerPull * pull.todo.length

/-- The number of requests that the rest of the round can send. -/
def PullPc.budget : PullPc → Nat
  | .idle => 0
  | .workers _ todo => 2 * maxBatchesPerPull * todo.length
  | .batches pull => pull.budget
  | .fetching pull => pull.budget - 1
  | .ingesting pull _ _ _ => pull.budget - 1
  | .acking pull _ => pull.budget - 2
  | .succeeding pull _ _ => pull.budget - 2
  | .failing pull _ => 2 * maxBatchesPerPull * pull.todo.length

/-- A request in flight is one of at most eight. -/
def PullPc.Counted : PullPc → Prop
  | .fetching pull | .ingesting pull _ _ _ | .acking pull _ | .succeeding pull _ _ =>
    pull.batchNumber < maxBatchesPerPull
  | _ => True

theorem counted_step (h : s.pc.Counted) (hstep : PullerStep parse s a s') : s'.pc.Counted := by
  cases hstep with
  | configure => exact h
  | pullAll => dsimp only; split <;> trivial
  | send hpc hlt => exact hlt
  | succeed hpc => dsimp only [Pull.after]; split <;> trivial
  | fetchedNone hpc | fetched hpc | ingest hpc | sendAck hpc | acked hpc =>
    rw [hpc] at h
    exact h
  | next | done | enough | fetchFailed | ackFailed | fail => trivial

theorem Pull.budget_after (pull : Pull) (batch : Batch) (h : pull.batchNumber < maxBatchesPerPull) :
    (pull.after batch).budget ≤ pull.budget - 2 := by
  unfold Pull.after
  split
  · simp only [PullPc.budget, Pull.budget]
    omega
  · simp only [PullPc.budget, Pull.budget]
    omega

/-- Unless it starts a round, a step leaves at most as many requests to send as there were
    before, less those that it sends. -/
theorem budget_step (hcounted : s.pc.Counted) (hstep : PullerStep parse s a s')
    (ha : a ≠ .pullAll) : s'.requests.length + s'.pc.budget ≤ s.requests.length + s.pc.budget := by
  cases hstep with
  | configure => exact Nat.le_refl _
  | pullAll => exact absurd rfl ha
  | next hpc =>
    simp only [hpc, PullPc.budget, Pull.budget, List.length_cons, maxBatchesPerPull]
    omega
  | done hpc => simp [PullPc.budget]
  | @send pull hpc hlt =>
    have hpos : 0 < pull.budget := by
      unfold Pull.budget
      omega
    simp only [hpc, PullPc.budget, List.length_append, List.length_singleton]
    omega
  | enough hpc =>
    simp only [hpc, PullPc.budget, Pull.budget]
    omega
  | fetchFailed hpc | ackFailed hpc | fail hpc =>
    simp only [hpc, PullPc.Counted, PullPc.budget, Pull.budget] at hcounted ⊢
    omega
  | fetchedNone hpc | fetched hpc | ingest hpc | acked hpc =>
    simp only [hpc, PullPc.budget]
    omega
  | sendAck hpc =>
    simp only [hpc, PullPc.Counted, PullPc.budget, Pull.budget, List.length_append,
      List.length_singleton] at hcounted ⊢
    omega
  | @succeed pull batch pulled now hpc =>
    have hafter := pull.budget_after batch (by rwa [hpc] at hcounted)
    rw [hpc]
    exact Nat.add_le_add_left hafter _

theorem budget_run {as : List PullerAction} (hrun : (pullerSystem parse).Run s as s')
    (hcounted : s.pc.Counted) (has : .pullAll ∉ as) :
    s'.requests.length + s'.pc.budget ≤ s.requests.length + s.pc.budget := by
  induction hrun with
  | nil => exact Nat.le_refl _
  | cons hstep _ ih =>
    obtain ⟨hne, hnot⟩ := not_or.1 (mt List.mem_cons.2 has)
    have hrest := ih (counted_step hcounted hstep) hnot
    exact hrest.trans (budget_step hcounted hstep (Ne.symm hne))

/-- No worker can hold the puller up: from the start of a round to the start of the next one,
    whatever the workers answer and however the settings change, it sends at most sixteen
    requests for each worker that was configured when the round started. -/
theorem round_requests_bounded {as : List PullerAction}
    (hrun : (pullerSystem parse).Run s (.pullAll :: as) s') (has : .pullAll ∉ as) :
    s'.requests.length ≤ s.requests.length + 16 * s.master.workers.length := by
  cases hrun with
  | cons hstep hrest =>
    cases hstep with
    | pullAll hpc =>
      have hlen := budget_run hrest (by dsimp only; split <;> trivial) has
      dsimp only at hlen
      split at hlen
      · simp only [PullPc.budget] at hlen
        omega
      · simp only [PullPc.budget, maxBatchesPerPull] at hlen
        omega

theorem round_requests_bounded_small : ∃ s : Puller,
    s.requests = [(ascii "edge", ascii "secret")] ∧ s.requests.length ≤ 0 + 16 * 1 := by
  have hpullAll : PullerStep hostURL smallPuller .pullAll _ := .pullAll rfl
  rw [if_neg (by decide)] at hpullAll
  have hrun : (pullerSystem hostURL).Run _ [.pullAll, .next, .send] _ :=
    .cons hpullAll (.cons (PullerStep.next rfl) (.single (PullerStep.send rfl (by decide))))
  exact ⟨_, by decide +kernel, round_requests_bounded hrun (by simp)⟩

/-! ## The status -/

/-- The records of the batches that this worker has acknowledged. -/
def Puller.ackedBy (s : Puller) (worker : Bytes) : List Record :=
  (s.acked.filter fun ack => ack.1 = worker).flatMap Prod.snd

/-- The acknowledged records of this worker that are not counted yet. -/
def PullPc.uncounted (worker : Bytes) : PullPc → Nat
  | .succeeding pull _ pulled => if pull.worker = worker then pulled else 0
  | _ => 0

/-- What the counter of this worker has come to, with what is to be added yet. -/
def Puller.counted (s : Puller) (worker : Bytes) : UInt64 :=
  (s.master.statusOf worker).pulled + .ofNat (s.pc.uncounted worker)

/-- Every `Configure` among the actions leaves this worker in. -/
def Keeps (parse : Bytes → Option ParsedURL) (worker : Bytes) (as : List PullerAction) : Prop :=
  ∀ workerURLs token, .configure workerURLs token ∈ as →
    worker ∈ workerURLs.filterMap (configuredWorker parse)

/-- A step that acknowledges nothing and leaves the counters as they are. -/
theorem counted_eq {worker : Bytes} (hmaster : s'.master = s.master) (hacked : s'.acked = s.acked)
    (hold : s.pc.uncounted worker = 0) (hnew : s'.pc.uncounted worker = 0) :
    ∃ records, s'.ackedBy worker = s.ackedBy worker ++ records ∧
      s'.counted worker = s.counted worker + .ofNat records.length := by
  refine ⟨[], ?_, ?_⟩
  · rw [Puller.ackedBy, hacked, List.append_nil, Puller.ackedBy]
  · rw [Puller.counted, Puller.counted, hmaster, hold, hnew]
    simp

theorem uncounted_after (pull : Pull) (batch : Batch) (worker : Bytes) :
    (pull.after batch).uncounted worker = 0 := by
  unfold Pull.after
  split <;> rfl

theorem counted_pulled_step {worker : Bytes} (hkeep : Keeps parse worker [a])
    (hstep : PullerStep parse s a s') : ∃ records,
      s'.ackedBy worker = s.ackedBy worker ++ records ∧
        s'.counted worker = s.counted worker + .ofNat records.length := by
  cases hstep with
  | @configure workerURLs token =>
    have hmem : worker ∈ (s.master.configure parse workerURLs token).workers :=
      hkeep workerURLs token (List.mem_singleton_self _)
    refine ⟨[], (List.append_nil _).symm, ?_⟩
    rw [Puller.counted, MasterPuller.statusOf_configure, if_pos hmem]
    simp [Puller.counted]
  | pullAll hpc =>
    refine counted_eq rfl rfl (by rw [hpc]; rfl) ?_
    dsimp only
    split <;> rfl
  | next hpc | done hpc | send hpc | enough hpc | fetchFailed hpc | fetched hpc | ingest hpc
  | sendAck hpc | ackFailed hpc => exact counted_eq rfl rfl (by rw [hpc]; rfl) rfl
  | fetchedNone hpc =>
    refine counted_eq rfl rfl (by rw [hpc]; rfl) ?_
    simp [PullPc.uncounted]
  | @acked pull batch outcome hpc =>
    by_cases hworker : pull.worker = worker
    · refine ⟨batch.items, ?_, ?_⟩
      · simp [Puller.ackedBy, hworker]
      · simp [Puller.counted, hpc, PullPc.uncounted, hworker]
    · refine ⟨[], ?_, ?_⟩
      · simp [Puller.ackedBy, hworker]
      · simp [Puller.counted, hpc, PullPc.uncounted, hworker]
  | @succeed pull batch pulled now hpc =>
    refine ⟨[], (List.append_nil _).symm, ?_⟩
    rw [Puller.counted, uncounted_after, Puller.counted, hpc, MasterPuller.recordSuccess,
      MasterPuller.statusOf_setStatus]
    by_cases hworker : worker = pull.worker
    · simp [hworker, PullPc.uncounted]
    · simp [hworker, PullPc.uncounted, Ne.symm hworker]
  | @fail pull error now hpc =>
    refine ⟨[], (List.append_nil _).symm, ?_⟩
    rw [Puller.counted, Puller.counted, hpc, MasterPuller.recordFailure,
      MasterPuller.statusOf_setStatus]
    by_cases hworker : worker = pull.worker
    · simp [hworker, PullPc.uncounted]
    · simp [hworker, PullPc.uncounted]

theorem counted_pulled_run {worker : Bytes} {as : List PullerAction}
    (hrun : (pullerSystem parse).Run s as s') (hkeep : Keeps parse worker as) : ∃ records,
      s'.ackedBy worker = s.ackedBy worker ++ records ∧
        s'.counted worker = s.counted worker + .ofNat records.length := by
  induction hrun with
  | nil => exact ⟨[], (List.append_nil _).symm, by simp⟩
  | @cons s t s' a as hstep _ ih =>
    have hhead : Keeps parse worker [a] := fun urls token h =>
      hkeep urls token (List.mem_cons.2 (.inl (List.mem_singleton.1 h)))
    obtain ⟨records, hacked, hcounted⟩ := counted_pulled_step hhead hstep
    obtain ⟨records', hacked', hcounted'⟩ :=
      ih fun urls token h => hkeep urls token (List.mem_cons_of_mem _ h)
    refine ⟨records ++ records', ?_, ?_⟩
    · rw [hacked', hacked, List.append_assoc]
    · rw [hcounted', hcounted, List.length_append, UInt64.ofNat_add, UInt64.add_assoc]

/-- The entries of the workers that are configured have their URLs. -/
def MasterPuller.Named (p : MasterPuller) : Prop :=
  ∀ worker ∈ p.workers, (p.statusOf worker).url = worker

theorem MasterPuller.named_configure (p : MasterPuller) (workerURLs : List Bytes) (token : Bytes) :
    (p.configure parse workerURLs token).Named := by
  intro worker hworker
  rw [statusOf_configure, if_pos hworker]

theorem MasterPuller.Named.setStatus {p : MasterPuller} (h : p.Named) {worker : Bytes}
    {status : WorkerStatus} (hurl : status.url = (p.statusOf worker).url) :
    (p.setStatus worker status).Named := by
  intro w hw
  rw [statusOf_setStatus]
  split
  · next heq =>
    rw [hurl, ← heq]
    exact h w hw
  · exact h w hw

theorem named_reachable (h : (pullerSystem parse).Reachable s) : s.master.Named := by
  refine invariant (P := fun s => s.master.Named) ?_ (fun s a s' _ hs hstep => ?_) h
  · rintro _ ⟨workerURLs, token, rfl⟩
    exact MasterPuller.empty.named_configure workerURLs token
  · cases hstep with
    | configure => exact s.master.named_configure _ _
    | succeed | fail => exact hs.setStatus rfl
    | pullAll | next | done | send | enough | fetchFailed | fetchedNone | fetched | ingest
    | sendAck | ackFailed | acked => exact hs

/-- What the status page shows is right at any time, whatever the settings did before: it has a
    row for each worker, in the order in which they are configured. And while a worker stays
    configured, its counter goes up by the records that it has acknowledged, modulo 2^64, but
    for the last batch before that is counted. -/
theorem status_counts (h : (pullerSystem parse).Reachable s) {worker : Bytes}
    {as : List PullerAction} (hrun : (pullerSystem parse).Run s as s')
    (hkeep : Keeps parse worker as) (now : Int) :
    (s'.master.statuses now).map WorkerStatus.url = s'.master.workers ∧
    ∃ records, s'.ackedBy worker = s.ackedBy worker ++ records ∧
      ∀ row ∈ s'.master.statuses now, row.url = worker →
        row.pulled + .ofNat (s'.pc.uncounted worker) =
          s.counted worker + .ofNat records.length := by
  have hnamed := named_reachable (hrun.reachable h)
  obtain ⟨records, hacked, hcounted⟩ := counted_pulled_run hrun hkeep
  refine ⟨?_, records, hacked, fun row hrow hurl => ?_⟩
  · rw [MasterPuller.statuses, List.map_map]
    exact (List.map_congr_left hnamed).trans (List.map_id _)
  · obtain ⟨w, hw, rfl⟩ := List.mem_map.1 hrow
    have hw' : w = worker := (hnamed w hw).symm.trans hurl
    rw [← hcounted, ← hw']
    rfl

theorem outcome_batch (b : Batch) (decodeError : Bytes) :
    (Outcome.response (okJson (encodeBatch b)) decodeError).batch = .ok b.onWire := by
  have hpull : pullBatch (okJson (encodeBatch b)) = some b.onWire := by
    rw [pullBatch, if_neg (by simp [okJson]), readValue_okJson (depth_encodeBatch b)]
    exact decodeBatch_encode b
  rw [Outcome.batch, if_neg (by simp [okJson]), hpull]

/-- A batch of one record. -/
def smallBatch : Batch := ⟨ascii "edge-1", [⟨1, torrentNamed (ascii "a")⟩], 1, 0⟩

/-- A round in which the worker has one record. -/
def smallRound : List PullerAction :=
  [.pullAll, .next, .send, .fetched (.response (okJson (encodeBatch smallBatch)) []), .ingest,
    .sendAck, .acked (.response ⟨200, false, []⟩ []), .record 5]

theorem run_smallRound : ∃ s : Puller, (pullerSystem hostURL).Run smallPuller smallRound s ∧
    s.ackedBy (ascii "edge") = smallBatch.onWire.items ∧ s.pc = .workers (ascii "secret") [] := by
  have hpullAll : PullerStep hostURL smallPuller .pullAll _ := .pullAll rfl
  rw [if_neg (by decide)] at hpullAll
  refine ⟨_, .cons hpullAll (.cons (PullerStep.next rfl) (.cons (PullerStep.send rfl (by decide))
    (.cons (PullerStep.fetched rfl (outcome_batch smallBatch []) (by decide))
    (.cons (PullerStep.ingest rfl) (.cons (PullerStep.sendAck rfl)
    (.cons (PullerStep.acked rfl rfl) (.single (PullerStep.succeed rfl)))))))), ?_, ?_⟩
  · rfl
  · rfl

/-- After the round the counter is at one. -/
theorem status_counts_small : ∃ s : Puller, (pullerSystem hostURL).Run smallPuller smallRound s ∧
    ∀ row ∈ s.master.statuses 6, row.url = ascii "edge" → row.pulled = 1 := by
  obtain ⟨s, hrun, hacked, hpc⟩ := run_smallRound
  have hkeep : Keeps hostURL (ascii "edge") smallRound := by
    intro workerURLs token h
    simp [smallRound] at h
  have hinit : (pullerSystem hostURL).Reachable smallPuller := .init ⟨_, _, rfl⟩
  obtain ⟨-, records, hacked', hrows⟩ := status_counts hinit hrun hkeep 6
  refine ⟨s, hrun, fun row hrow hurl => ?_⟩
  have hpulled := hrows row hrow hurl
  have hlen : records.length = 1 := by
    rw [hacked] at hacked'
    exact (congrArg List.length hacked').symm
  have hzero : smallPuller.counted (ascii "edge") = 0 := by decide +kernel
  rw [hlen, hzero, hpc] at hpulled
  simpa [PullPc.uncounted] using hpulled

end Cluster
