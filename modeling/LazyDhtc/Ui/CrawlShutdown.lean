-- SUMMARY: When a crawl that takes its stop request can always terminate its sink and its manager.
import LazyDhtc.Ui.Crawl

/-!
# Shutdown of a crawl

After it has taken the stop request the crawl goroutine no longer reads `drain`, and
waits in `Sink.Terminate` for a mutex that a download may hold while it sends. It gets
the mutex for sure if everything that can still be sent fits the channel.
-/

namespace DhtClient

/-! ## Deliveries still to come -/

/-- The goroutine may still send metadata, itself or through its successors. -/
def Download.deliverable (ms : Sink) (d : Download) : Bool :=
  match d.phase with
  | .failed => ms.queued d.infoHash ≠ []
  | .failing => ms.queued d.infoHash ≠ []
  | .releasing => false
  | _ => true

/-- The number of goroutines that may still send metadata. -/
def deliverable (ms : Sink) (ds : List Download) : Nat := ds.countP fun d => d.deliverable ms

theorem deliverable_append (ms : Sink) (ds ds' : List Download) :
    deliverable ms (ds ++ ds') = deliverable ms ds + deliverable ms ds' := List.countP_append

theorem deliverable_cons (ms : Sink) (d : Download) (ds : List Download) :
    deliverable ms (d :: ds) = deliverable ms [d] + deliverable ms ds :=
  deliverable_append ms [d] ds

/-- A step of a goroutine does not raise what it and the channel will hold. -/
theorem DownloadStep.deliverable_le {ms ms' : Sink} {others ds : List Download} {d : Download}
    {a : DownloadAction} (hstep : DownloadStep ms others d a ms' ds) :
    ms'.drain.length + deliverable ms' ds ≤ ms.drain.length + deliverable ms [d] := by
  cases hstep with
  | start | acquire | onSuccess | lock | check | take => exact Nat.le_refl _
  | abandonStart | abandonFlush | abandonError | release =>
    exact Nat.add_le_add_left (Nat.zero_le _) _
  | onError => exact Nat.add_le_add_left (List.countP_le_length) _
  | send =>
    simp [deliverable, Download.deliverable]
  | @onPeers h peer peers =>
    rcases ms.onPeers_cases h peers with heq | ⟨-, heq⟩
    · rw [heq]
    · rw [heq]
      exact Nat.le_refl _
  | @retry h peer next ms' herr =>
    rcases ms.onLeechErrorLocked_cases h with ⟨peer', rest, hqueue, -, heq⟩ | ⟨-, heq⟩
    · cases herr.symm.trans heq
      simp [deliverable, Download.deliverable, hqueue]
    · cases herr.symm.trans heq
  | @discard h peer ms' herr =>
    rcases ms.onLeechErrorLocked_cases h with ⟨_, _, -, -, heq⟩ | ⟨-, heq⟩
    · cases herr.symm.trans heq
    · cases herr.symm.trans heq
      exact Nat.add_le_add_left (Nat.zero_le _) _

/-- Nor does it let another goroutine deliver that could not, since no other has its info
    hash. -/
theorem DownloadStep.deliverable_others {ms ms' : Sink} {others ds : List Download} {d : Download}
    {a : DownloadAction} (hstep : DownloadStep ms others d a ms' ds) (hd : d.Consistent)
    (hrun : ms.terminated = false)
    (halone : d.phase.outstanding = true → outstanding others d.infoHash = 0) :
    deliverable ms' others ≤ deliverable ms others := by
  have hqueue : ∀ e ∈ others, e.phase.outstanding = true →
      ms'.queued e.infoHash ≠ [] → ms.queued e.infoHash ≠ [] := by
    intro e he hout
    have hne : d.phase.outstanding = true → e.infoHash ≠ d.infoHash := by
      intro hd_out heq
      have hzero := List.countP_eq_zero.1 (halone hd_out) e he
      simp [heq, hout] at hzero
    rcases hstep.sink_cases hd hrun with
      ⟨-, -, ⟨drain, rfl⟩ | ⟨queue, hd_out, -, rfl⟩⟩ | ⟨hd_out, -, rfl, -⟩
    · exact id
    · rw [Sink.queued, AList.lookup_insert_ne (hne hd_out)]
      exact id
    · rw [Sink.queued, Sink.forget, AList.lookup_erase_ne (hne hd_out)]
      exact id
  refine List.countP_mono_left fun e he => ?_
  have hqueue_e := hqueue e he
  obtain ⟨h, peer, phase⟩ := e
  cases phase with
  | failed | failing => simpa [Download.deliverable] using hqueue_e rfl
  | _ => exact id

/-- With no places for downloads, no goroutine gets past the wait for one. -/
def SinkRun.NoPlaces (s : SinkRun) : Prop :=
  s.sink.maxConcurrentDownloads = 0 → ∀ d ∈ s.downloads, d.phase.holdsDownloadSem = false

/-- Whatever is still delivered fits the channel. -/
def SinkRun.Fits (s : SinkRun) : Prop :=
  s.sink.maxConcurrentDownloads = 0 ∨
    s.sink.drain.length + deliverable s.sink s.downloads ≤ drainCapacity

theorem SinkStep.noPlaces {s s' : SinkRun} {a : SinkAction} (hstep : SinkStep s a s')
    (hs : s.NoPlaces) : s'.NoPlaces := by
  intro hzero d' hd'
  by_cases ha : a = .terminate
  · subst ha
    cases hstep
    exact hs hzero d' hd'
  · have hzero_s : s.sink.maxConcurrentDownloads = 0 :=
      (congrArg (fun x => x.2.1) (hstep.settings ha)).symm.trans hzero
    cases hstep with
    | accept =>
      rcases List.mem_cons.1 hd' with rfl | hd'
      · rfl
      · exact hs hzero_s d' hd'
    | refuse | addPeers | receive => exact hs hzero_s d' hd'
    | terminate => exact (ha rfl).elim
    | @download pre post ds d a ms hsplit hdown =>
      have hall : ∀ e ∈ pre ++ d :: post, e.phase.holdsDownloadSem = false := by
        rw [← hsplit]
        exact hs hzero_s
      have hd := hall d (by simp)
      simp only [List.mem_append] at hd'
      rcases hd' with (hd' | hd') | hd'
      · exact hall d' (by simp [hd'])
      · cases hdown with
        | start =>
          cases List.mem_singleton.1 hd'
          rfl
        | abandonStart => cases hd'
        | acquire hplace =>
          rw [hzero_s] at hplace
          exact (Nat.not_lt_zero _ hplace).elim
        | _ => cases hd
      · exact hall d' (by simp [hd'])

/-- The goroutines' steps keep what is still delivered inside the channel. -/
theorem SinkStep.fits {s s' : SinkRun} {infoHash : Bytes} {a : DownloadAction}
    (hstep : SinkStep s (.download infoHash a) s') (hsends : s.Sends) (hbooked : s.Booked)
    (hrun : s.sink.terminated = false) (hs : s.Fits) : s'.Fits := by
  have hset := hstep.settings (by simp)
  rcases hs with hzero | hle
  · exact .inl ((congrArg (fun x => x.2.1) hset).trans hzero)
  refine .inr ?_
  cases hstep with
  | @download pre post ds d a ms hsplit hdown =>
    have hd : d.Consistent := hsends.consistent d (by rw [hsplit]; simp)
    have halone : d.phase.outstanding = true → outstanding (pre ++ post) d.infoHash = 0 := by
      intro hout
      have hone : outstanding [d] d.infoHash = 1 := by simp [outstanding, hout]
      have htokens := hbooked.tokens d.infoHash
      have hle_one : s.sink.tokens d.infoHash ≤ 1 := by
        unfold Sink.tokens
        split
        · exact Nat.le_refl 1
        · exact Nat.zero_le 1
      rw [hsplit, outstanding_append, outstanding_cons, hone] at htokens
      rw [outstanding_append]
      omega
    have hself := hdown.deliverable_le
    have hothers := hdown.deliverable_others hd hrun halone
    rw [hsplit, deliverable_append, deliverable_cons] at hle
    rw [deliverable_append] at hothers
    rw [deliverable_append, deliverable_append]
    dsimp only
    rw [deliverable_append] at hothers
    omega

end DhtClient

namespace Ui

open DhtClient Cache

/-! ## Deadlock -/

/-- The crawl goroutine waits for `drainMx`, and the goroutine that holds it for room in
    `drain`, which nobody reads. -/
def Deadlocked (s : CrawlState) : Prop :=
  s.pc = .terminatingSink ∧ s.run.sink.drain.length = drainCapacity ∧
    ∃ d ∈ s.run.downloads, ∃ result, d.phase = .sending result

/-- The stop request is only taken when whatever is still delivered fits the channel. -/
def StopFits (s : CrawlState) (a : CrawlAction) : Prop := a = .takeStop → s.run.Fits

theorem crawlSystem_sinkReachable {cfg : CrawlConfig} {s : CrawlState}
    (h : (crawlSystem cfg).Reachable s) :
    (sinkSystem cfg.maxLeeches cfg.maxConcurrentDownloads).Reachable s.run :=
  (crawlSystem_projects cfg).reachable h

theorem crawlSystem_noPlaces {cfg : CrawlConfig} {s : CrawlState}
    (h : (crawlSystem cfg).Reachable s) : s.run.NoPlaces := by
  refine Transition.System.invariant (P := SinkRun.NoPlaces) ?_ ?_ (crawlSystem_sinkReachable h)
  · rintro _ rfl _ d hd
    cases hd
  · intro s a s' _ hs hstep
    exact SinkStep.noPlaces hstep hs

theorem stopFits_fits {cfg : CrawlConfig} {s : CrawlState}
    (h : ((crawlSystem cfg).restrict StopFits).Reachable s) :
    s.pc = .terminatingSink → s.run.Fits := by
  refine Transition.System.invariant
    (P := fun s : CrawlState => s.pc = .terminatingSink → s.run.Fits) ?_ ?_ h
  · rintro _ ⟨cache, rfl⟩ hpc
    cases hpc
  · intro s a s' hreach hs hstep hpc
    obtain ⟨hstep, hok⟩ := hstep
    cases hstep with
    | takeStop => exact hok rfl
    | requestStop | expireAfter | manager => exact hs hpc
    | download hrun =>
      have hsink := crawlSystem_sinkReachable hreach.of_restrict
      have hterm : s.run.sink.terminated = false := by
        rw [crawlSystem_terminated_eq hreach.of_restrict, show s.pc = .terminatingSink from hpc]
        rfl
      exact hrun.fits (sinkSystem_sends hsink) (sinkSystem_booked hsink hterm) hterm (hs hpc)
    | deliver =>
      dsimp only at hpc
      split at hpc <;> cases hpc
    | _ => cases hpc

/-- A goroutine that holds `drainMx` finds room in the channel. -/
theorem fits_room {s : SinkRun} (hfits : s.Fits) (hplaces : s.NoPlaces) {d : Download}
    (hd : d ∈ s.downloads) (hheld : d.phase.holdsDrainMx = true) :
    s.sink.drain.length < drainCapacity := by
  have hphase : d.phase.holdsDownloadSem = true ∧ d.deliverable s.sink = true := by
    obtain ⟨h, peer, phase⟩ := d
    cases phase with
    | locked | sending => exact ⟨rfl, rfl⟩
    | _ => cases hheld
  rcases hfits with hzero | hle
  · have hnone := hplaces hzero d hd
    rw [hphase.1] at hnone
    cases hnone
  · have hpos : 0 < deliverable s.sink s.downloads :=
      List.countP_pos_iff.2 ⟨d, hd, hphase.2⟩
    omega

theorem not_deadlocked_of_fits {s : CrawlState} (hplaces : s.run.NoPlaces)
    (hfits : s.pc = .terminatingSink → s.run.Fits) : ¬ Deadlocked s := by
  rintro ⟨hpc, hfull, d, hd, result, hphase⟩
  have hroom := fits_room (hfits hpc) hplaces hd (by rw [hphase]; rfl)
  omega

/-! ## Completion -/

/-- The goroutine that holds `drainMx`, if there is one, sends and lets it go. -/
theorem releases_drainMx {cfg : CrawlConfig} {s : CrawlState} (h : (crawlSystem cfg).Reachable s)
    (hpc : s.pc = .terminatingSink) (hfits : s.run.Fits) :
    ∃ run, (crawlSystem cfg).Steps s { s with run := run } ∧ holders run.downloads = 0 := by
  have hsink := crawlSystem_sinkReachable h
  have hone := (sinkSystem_sends hsink).holders_le
  have hrun : s.run.sink.terminated = false := by
    rw [crawlSystem_terminated_eq h, hpc]
    rfl
  by_cases hfree : holders s.run.downloads = 0
  · exact ⟨s.run, .refl _, hfree⟩
  obtain ⟨d, hd, hheld⟩ : ∃ d ∈ s.run.downloads, d.phase.holdsDrainMx = true :=
    List.countP_pos_iff.1 (Nat.pos_of_ne_zero hfree)
  have hroom := fits_room hfits (crawlSystem_noPlaces h) hd hheld
  obtain ⟨pre, post, hsplit⟩ := List.append_of_mem hd
  have hothers : holders pre = 0 ∧ holders post = 0 := by
    have hd_one : holders [d] = 1 := by simp [holders, hheld]
    rw [hsplit, holders_append, holders_cons, hd_one] at hone
    omega
  have hdone : ∀ h peer, holders (pre ++ [⟨h, peer, .releasing⟩] ++ post) = 0 := by
    intro h peer
    rw [holders_append, holders_append, hothers.1, hothers.2]
    rfl
  obtain ⟨h, peer, phase⟩ := d
  cases phase with
  | sending result =>
    exact ⟨_, .single (.download (.download hsplit (.send hroom))), hdone h peer⟩
  | locked result =>
    obtain ⟨taken, htaken⟩ : ∃ taken, SinkStep s.run
        (.download h (.take (s.run.sink.flushLocked result).2)) taken ∧
        taken.sink = (s.run.sink.flushLocked result).1 ∧
        taken.downloads = pre ++ ⟨h, peer, .sending (s.run.sink.flushLocked result).2⟩ :: post :=
      ⟨_, .download hsplit (.take hrun), rfl, by simp⟩
    obtain ⟨htake, hms, hsplit'⟩ := htaken
    have hroom' : taken.sink.drain.length < drainCapacity := by
      rw [hms]
      exact hroom
    have htake_step : CrawlStep cfg.hasDatabase s _ { s with run := taken } := .download htake
    have hsend_step : CrawlStep cfg.hasDatabase { s with run := taken } _ { s with run := _ } :=
      .download (.download hsplit' (.send hroom'))
    exact ⟨_, .head htake_step (.single hsend_step), hdone h peer⟩
  | _ => cases hheld

theorem crawlSystem_managerOrdered {cfg : CrawlConfig} {s : CrawlState}
    (h : (crawlSystem cfg).Reachable s) :
    Shutdown.Ordered Goroutine.exits s.manager.closed s.manager.code := by
  refine Transition.System.invariant (P := fun s : CrawlState =>
    Shutdown.Ordered Goroutine.exits s.manager.closed s.manager.code) ?_ ?_ h
  · rintro _ ⟨cache, rfl⟩
    exact managerTerminate_ordered cfg.networks
  · intro s a s' _ hs hstep
    cases hstep with
    | manager _ hm => exact hm.ordered hs
    | _ => exact hs

/-- `Manager.Terminate` can complete. -/
theorem manager_completes {cfg : CrawlConfig} {s : CrawlState} (h : (crawlSystem cfg).Reachable s)
    (hpc : s.pc = .terminatingManager) :
    ∃ m, (crawlSystem cfg).Steps s { s with manager := m, pc := .ended } := by
  obtain ⟨m, hsteps, hcode⟩ :=
    Shutdown.completes s.manager.code s.manager (crawlSystem_managerOrdered h)
  have hlift : (crawlSystem cfg).Steps { s with manager := s.manager } { s with manager := m } :=
    hsteps.map (fun m => { s with manager := m }) fun m a m' hstep =>
      ⟨.manager a, CrawlStep.manager (s := { s with manager := m }) (fun _ => hpc) hstep⟩
  exact ⟨m, hlift.tail (.finish hpc hcode)⟩

/-- The crawl goroutine has taken the stop request. -/
def CrawlPC.stopped : CrawlPC → Bool
  | .terminatingSink => true
  | .terminatingManager => true
  | .ended => true
  | _ => false

def sampleConfig : CrawlConfig := ⟨1, 1, 1, true⟩

def samplePeer : AddrPort := ⟨.v4 #v[192, 0, 2, 1], 6881⟩

def sampleHash (k : Nat) : Bytes := [.ofNat k]

def sampleResult (k : Nat) : Result := ⟨sampleHash k, [samplePeer], 4⟩

def sampleMetadata (k : Nat) : Metadata := ⟨sampleHash k, 0, [], 0, 0, []⟩

/-- Nothing is being downloaded, and the metadata of the first `k` info hashes waits in
    `drain`. -/
structure Idle (s : CrawlState) (k : Nat) : Prop where
  pc : s.pc = .selecting
  settings : s.run.sink.settings = (1, 1, false)
  incoming : s.run.sink.incomingInfoHashes = ∅
  downloads : s.run.downloads = []
  drain : s.run.sink.drain.length = k
  expiry : s.cache.infoHashExpiry = ∅
  cached : ∀ h ∈ s.cache.infoHashCache, ∃ i < k, h = sampleHash i

theorem newCrawl_idle : Idle (newCrawl sampleConfig emptyInfoHashCache) 0 :=
  ⟨rfl, rfl, rfl, rfl, rfl, rfl, fun h hin => (Finset.notMem_empty h hin).elim⟩

theorem sampleHash_ne {i k : Nat} (hik : i < k) (hk : k < 256) : sampleHash k ≠ sampleHash i := by
  intro heq
  have hbyte : UInt8.ofNat k = UInt8.ofNat i := (List.cons.inj heq).1
  have hnat := congrArg UInt8.toNat hbyte
  simp only [UInt8.toNat_ofNat'] at hnat
  omega

/-- A step of the only download of a crawl. -/
theorem download_alone (cfg : CrawlConfig) {s : CrawlState} {d : Download} {a : DownloadAction}
    {ms : Sink} {ds : List Download} (hd : s.run.downloads = [d])
    (hstep : DownloadStep s.run.sink [] d a ms ds) :
    (crawlSystem cfg).Steps s { s with
      run := ⟨ms, ds, s.run.log ++ a.events d.infoHash, s.run.sent ++ a.sent⟩
      cache := cacheAfter s.cache d.infoHash a } := by
  have hrun : SinkStep s.run (.download d.infoHash a)
      ⟨ms, ds, s.run.log ++ a.events d.infoHash, s.run.sent ++ a.sent⟩ := by
    have hsplit : s.run.downloads = [] ++ d :: [] := hd
    simpa using SinkStep.download hsplit hstep
  exact .single (CrawlStep.download hrun)

/-- An accepted info hash, with its download in `Client.Do`. -/
theorem Idle.running {s : CrawlState} {k : Nat} (hs : Idle s k) (hk : k < 256) :
    ∃ s', (crawlSystem sampleConfig).Steps s s' ∧ s'.pc = .selecting ∧
      s'.run.sink.settings = (1, 1, false) ∧
      s'.run.sink.incomingInfoHashes = (∅ : GoMap Bytes (List AddrPort)).insert (sampleHash k) [] ∧
      s'.run.downloads = [⟨sampleHash k, samplePeer, .running⟩] ∧
      s'.run.sink.drain.length = k ∧ s'.cache.infoHashExpiry = ∅ ∧
      s'.cache.infoHashCache = insert (sampleHash k) s.cache.infoHashCache ∧
      s'.added = s.added ++ [sampleHash k] ∧ s'.delivered = s.delivered := by
  obtain ⟨⟨⟨maxNLeeches, maxConcurrentDownloads, incoming, families, peers, terminated, drain⟩,
    downloads, log, sent⟩, manager, ⟨hashes, expiry⟩, pc, stop, added, delivered⟩ := s
  obtain ⟨rfl, hset, rfl, rfl, hdrain, rfl, hcached⟩ := hs
  cases hset
  have hnew : sampleHash k ∉ hashes := by
    intro hin
    obtain ⟨i, hik, heq⟩ := hcached _ hin
    exact sampleHash_ne hik hk heq
  have hadd : InfoHashCache.add ⟨hashes, ∅⟩ (sampleHash k) 0 =
      (⟨insert (sampleHash k) hashes, ∅⟩, true) := by
    simp [InfoHashCache.add, hnew]
  have hsink : Sink.sink ⟨1, 1, ∅, families, peers, false, drain⟩ (sampleResult k) =
      (⟨1, 1, (∅ : GoMap Bytes (List AddrPort)).insert (sampleHash k) [],
        families.insert (sampleHash k) 4, peers.insert (sampleHash k) (peerSet [samplePeer]), false,
        drain⟩, some samplePeer) := rfl
  have htake : CrawlStep true ⟨⟨⟨1, 1, ∅, families, peers, false, drain⟩, [], log, sent⟩, manager,
      ⟨hashes, ∅⟩, .selecting, stop, added, delivered⟩ (.takeResult (sampleResult k) 0) _ :=
    .takeNew rfl hadd
  have haccept : CrawlStep true ⟨⟨⟨1, 1, ∅, families, peers, false, drain⟩, [], log, sent⟩, manager,
      ⟨insert (sampleHash k) hashes, ∅⟩, .sinking (sampleResult k), stop,
      added ++ [sampleHash k], delivered⟩ .sink _ :=
    .sinkAccepts rfl hsink (.accept hsink)
  refine ⟨_, .head htake (.head haccept ((download_alone sampleConfig rfl (.start rfl)).trans
    (download_alone sampleConfig rfl (.acquire Nat.one_pos)))), ?_⟩
  exact ⟨rfl, rfl, rfl, rfl, hdrain, rfl, rfl, rfl, rfl⟩

/-- The same info hash, with its metadata about to be sent. -/
theorem Idle.sending {s : CrawlState} {k : Nat} (hs : Idle s k) (hk : k < 256) :
    ∃ s' result, (crawlSystem sampleConfig).Steps s s' ∧ s'.pc = .selecting ∧
      s'.run.sink.settings = (1, 1, false) ∧ s'.run.sink.incomingInfoHashes = ∅ ∧
      s'.run.downloads = [⟨sampleHash k, samplePeer, .sending result⟩] ∧
      s'.run.sink.drain.length = k ∧ s'.cache.infoHashExpiry = ∅ ∧
      ∀ h ∈ s'.cache.infoHashCache, ∃ i < k + 1, h = sampleHash i := by
  obtain ⟨s₁, hsteps, hpc, hset, hin, hdown, hdrain, hexpiry, hcache, -, -⟩ := hs.running hk
  have hrun : s₁.run.sink.terminated = false := congrArg (fun x => x.2.2) hset
  have hsuccess := download_alone sampleConfig hdown
    (@DownloadStep.onSuccess _ _ _ _ (sampleMetadata k) rfl)
  have hfree : ∀ d ∈ ([] : List Download), d.phase.holdsDrainMx = false := fun d hd =>
    (List.not_mem_nil hd).elim
  refine ⟨_, _, hsteps.trans (hsuccess.trans ((download_alone sampleConfig rfl (.lock hfree)).trans
    (download_alone sampleConfig rfl (.take hrun)))), hpc, hset, ?_, rfl, hdrain, hexpiry,
    fun h hh => ?_⟩
  · dsimp only [Sink.flushLocked, Sink.forget]
    rw [hin]
    exact AList.ext (List.kerase_cons_eq rfl)
  · dsimp only [cacheAfter] at hh
    rw [hcache, Finset.mem_insert] at hh
    rcases hh with rfl | hh
    · exact ⟨k, Nat.lt_succ_self k, rfl⟩
    · obtain ⟨i, hi, heq⟩ := hs.cached h hh
      exact ⟨i, Nat.lt_succ_of_lt hi, heq⟩

/-- Ten results fill the channel, one after the other. -/
theorem exists_idle {k : Nat} (hk : k ≤ drainCapacity) :
    ∃ s, (crawlSystem sampleConfig).Reachable s ∧ Idle s k := by
  induction k with
  | zero => exact ⟨_, .init ⟨_, rfl⟩, newCrawl_idle⟩
  | succ k ih =>
    obtain ⟨s, hreach, hs⟩ := ih (Nat.le_of_succ_le hk)
    have hcap : drainCapacity = 10 := rfl
    obtain ⟨s₁, result, hsteps, hpc, hset, hin, hdown, hdrain, hexpiry, hcached⟩ :=
      hs.sending (by omega)
    have hsend := download_alone sampleConfig hdown (.send (by omega))
    refine ⟨_, hreach.steps (hsteps.trans (hsend.trans (download_alone sampleConfig rfl .release))),
      hpc, hset, hin, rfl, ?_, hexpiry, hcached⟩
    simp [hdrain]

end Ui
