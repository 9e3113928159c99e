-- SUMMARY: Who owns an info hash that a crawl has put into the cache, and when stopping the crawl leaves none behind.
import LazyDhtc.Ui.CrawlShutdown

/-!
# The cache entries of a crawl

Every info hash that a crawl adds to the cache is in the hands of some part of it until
the info hash is delivered or out of the cache again: of the crawl goroutine, of a
download, or of `drain`. Once the sink is terminated, a download that returns early and
the metadata left in `drain` give up an info hash without taking it out of the cache.
-/

namespace Ui

open DhtClient Cache

/-! ## Ownership -/

/-- The crawl is done with an info hash. -/
def Released (s : CrawlState) (h : Bytes) : Prop :=
  h ∈ s.delivered ∨ h ∉ s.cache.infoHashCache

/-- The info hash that the crawl goroutine is about to sink, remove or deliver. -/
def CrawlPC.holds : CrawlPC → Bytes → Prop
  | .sinking res, h => res.infoHash = h
  | .removing infoHash, h => infoHash = h
  | .delivering md, h => md.infoHash = h
  | _, _ => False

/-- Some goroutine or the channel has the info hash. -/
def InProgress (s : CrawlState) (h : Bytes) : Prop :=
  (∃ d ∈ s.run.downloads, d.infoHash = h ∧ d.phase ≠ .releasing) ∨
  (s.run.sink.terminated = false ∧ ∃ md ∈ s.run.sink.drain, md.infoHash = h) ∨
  s.pc.holds h

/-- Every info hash that the crawl has added is released or in progress. -/
def Owned (s : CrawlState) : Prop := ∀ h ∈ s.added, Released s h ∨ InProgress s h

/-- No early return gives up an info hash that is still to be released, nor does the sink
    leave one in `drain` when it is terminated. -/
def StopReleases (s : CrawlState) : CrawlAction → Prop
  | .download infoHash .abandon => Released s infoHash
  | .terminateSink => ∀ md ∈ s.run.sink.drain, Released s md.infoHash
  | _ => True

theorem Released.mono {s s' : CrawlState} {h : Bytes} (hs : Released s h)
    (hdelivered : s.delivered ⊆ s'.delivered)
    (hcache : h ∈ s'.cache.infoHashCache → h ∈ s.cache.infoHashCache) : Released s' h :=
  hs.imp (fun hin => hdelivered hin) (mt hcache)

/-! ## Steps -/

/-- What a download's step does with its info hash, if it still has it. -/
theorem downloadStep_passes {ms ms' : Sink} {others ds : List Download} {d : Download}
    {a : DownloadAction} (hstep : DownloadStep ms others d a ms' ds) (hd : d.Consistent)
    (hphase : d.phase ≠ .releasing) :
    (∃ d' ∈ ds, d'.infoHash = d.infoHash ∧ d'.phase ≠ .releasing) ∨
    (∃ result, d.phase = .sending result ∧ result ∈ ms'.drain ∧ result.infoHash = d.infoHash) ∨
    a = .discard ∨ a = .abandon := by
  cases hstep with
  | @send infoHash peer result =>
    exact .inr (.inl ⟨result, rfl, by simp, hd result rfl⟩)
  | @retry infoHash peer next =>
    exact .inl ⟨⟨infoHash, next, .spawned⟩, by simp, rfl, by simp⟩
  | discard => exact .inr (.inr (.inl rfl))
  | abandonStart | abandonFlush | abandonError => exact .inr (.inr (.inr rfl))
  | release => exact (hphase rfl).elim
  | _ => exact .inl ⟨_, List.mem_singleton_self _, rfl, by simp⟩

theorem downloadStep_drain_subset {ms ms' : Sink} {others ds : List Download} {d : Download}
    {a : DownloadAction} (hstep : DownloadStep ms others d a ms' ds) : ms.drain ⊆ ms'.drain := by
  cases hstep with
  | send => exact List.subset_append_left _ _
  | onPeers => exact fun md hmd => (ms.drain_onPeers _ _).symm ▸ hmd
  | @retry infoHash peer next ms' herr =>
    have hdrain := ms.drain_onLeechErrorLocked infoHash
    rw [herr] at hdrain
    exact fun md hmd => hdrain.symm ▸ hmd
  | @discard infoHash peer ms' herr =>
    have hdrain := ms.drain_onLeechErrorLocked infoHash
    rw [herr] at hdrain
    exact fun md hmd => hdrain.symm ▸ hmd
  | _ => exact List.Subset.refl _

theorem cacheAfter_subset (c : InfoHashCache) (infoHash : Bytes) (a : DownloadAction) :
    (cacheAfter c infoHash a).infoHashCache ⊆ c.infoHashCache := by
  cases a with
  | discard => exact InfoHashCache.remove_subset _ _
  | _ => exact Finset.Subset.refl _

/-- A download keeps its info hash, passes it on or releases it. -/
theorem Owned.download {s : CrawlState} {infoHash : Bytes} {a : DownloadAction} {run : SinkRun}
    (hs : Owned s) (hsends : s.run.Sends) (hlate : s.run.NoLateSend)
    (hok : StopReleases s (.download infoHash a))
    (hstep : SinkStep s.run (.download infoHash a) run) :
    Owned { s with run := run, cache := cacheAfter s.cache infoHash a } := by
  intro h hadded
  have hreleased : Released s h →
      Released { s with run := run, cache := cacheAfter s.cache infoHash a } h := fun hrel =>
    hrel.mono (List.Subset.refl _) fun hin => cacheAfter_subset _ _ _ hin
  have hterm := hstep.terminated_eq (by simp)
  cases hstep with
  | @download pre post ds d a ms hsplit hdown =>
    rcases hs h hadded with hrel | ⟨d', hd', hhash, hphase⟩ | ⟨hrun, md, hmd, hhash⟩ | hpc
    · exact .inl (hreleased hrel)
    · rw [hsplit, List.mem_append, List.mem_cons] at hd'
      rcases hd' with hd' | rfl | hd'
      · exact .inr (.inl ⟨d', by simp [hd'], hhash, hphase⟩)
      · have hcons : d'.Consistent := hsends.consistent d' (by rw [hsplit]; simp)
        rcases downloadStep_passes hdown hcons hphase with
          ⟨d'', hd'', hsame, hnext⟩ | ⟨result, hsending, hin, hsame⟩ | rfl | rfl
        · exact .inr (.inl ⟨d'', by simp [hd''], hsame.trans hhash, hnext⟩)
        · refine .inr (.inr (.inl ⟨hterm.trans ?_, result, hin, hsame.trans hhash⟩))
          by_contra hnot
          exact hlate (by simpa using hnot) d' (by rw [hsplit]; simp) result hsending
        · refine .inl (.inr ?_)
          rw [← hhash]
          simp [cacheAfter, InfoHashCache.mem_remove]
        · rw [hhash] at hok
          exact .inl (hreleased hok)
      · exact .inr (.inl ⟨d', by simp [hd'], hhash, hphase⟩)
    · exact .inr (.inr (.inl ⟨hterm.trans hrun, md, downloadStep_drain_subset hdown hmd, hhash⟩))
    · exact .inr (.inr (.inr hpc))

/-- While the sink keeps its downloads and its `drain`, only what the crawl goroutine has
    in hand can get lost. -/
theorem InProgress.mono {s s' : CrawlState} {h : Bytes} (hs : InProgress s h)
    (hdownloads : s.run.downloads ⊆ s'.run.downloads)
    (hterm : s'.run.sink.terminated = s.run.sink.terminated)
    (hdrain : s'.run.sink.drain = s.run.sink.drain)
    (hpc : s.pc.holds h → InProgress s' h) : InProgress s' h := by
  rcases hs with ⟨d, hd, hhash, hphase⟩ | ⟨hrun, md, hmd, hhash⟩ | hholds
  · exact .inl ⟨d, hdownloads hd, hhash, hphase⟩
  · exact .inr (.inl ⟨hterm.trans hrun, md, hdrain.symm ▸ hmd, hhash⟩)
  · exact hpc hholds

/-- A crawl that goes on with the same sink keeps what is in progress there. -/
theorem InProgress.of_run {s s' : CrawlState} {h : Bytes} (hs : InProgress s h)
    (hrun : s'.run = s.run) (hpc : s.pc.holds h → s'.pc.holds h) : InProgress s' h := by
  refine hs.mono ?_ ?_ ?_ fun hholds => .inr (.inr (hpc hholds))
  · rw [hrun]
    exact List.Subset.refl _
  · rw [hrun]
  · rw [hrun]

/-- A step of the crawl goroutine alone: what it had in hand it still has or has released. -/
theorem Owned.of_run {s s' : CrawlState} (hs : Owned s) (hrun : s'.run = s.run)
    (hadded : s'.added = s.added) (hdelivered : s.delivered ⊆ s'.delivered)
    (hcache : s'.cache.infoHashCache ⊆ s.cache.infoHashCache)
    (hpc : ∀ h, s.pc.holds h → Released s' h ∨ s'.pc.holds h) : Owned s' := by
  intro h hin
  rw [hadded] at hin
  by_cases hrel' : Released s' h
  · exact .inl hrel'
  · refine (hs h hin).imp (fun hrel => hrel.mono hdelivered fun hc => hcache hc) fun hprogress => ?_
    exact hprogress.of_run hrun fun hholds => (hpc h hholds).resolve_left hrel'

theorem Owned.step {cfg : CrawlConfig} {s s' : CrawlState} {a : CrawlAction} (hs : Owned s)
    (hreach : (crawlSystem cfg).Reachable s) (hok : StopReleases s a)
    (hstep : CrawlStep cfg.hasDatabase s a s') : Owned s' := by
  have hsink := crawlSystem_sinkReachable hreach
  cases hstep with
  | requestStop | manager => exact hs
  | takeStop hpc =>
    refine hs.of_run rfl rfl (List.Subset.refl _) (Finset.Subset.refl _) fun h => ?_
    rw [hpc]
    exact False.elim
  | @takeNew res now c hpc hadd =>
    intro h hadded
    by_cases heq : h = res.infoHash
    · exact .inr (.inr (.inr heq.symm))
    · have hmem : h ∈ s.added := by simpa [heq] using hadded
      refine (hs h hmem).imp (fun hrel => ?_) fun hin => hin.of_run rfl ?_
      · exact hrel.mono (List.Subset.refl _) fun hc => InfoHashCache.mem_of_add hadd heq hc
      · rw [hpc]
        exact False.elim
  | @takeKnown res now c hpc hadd =>
    refine hs.of_run rfl rfl (List.Subset.refl _) (fun h hc => ?_) fun h => ?_
    · by_cases heq : h = res.infoHash
      · rw [heq]
        exact InfoHashCache.mem_of_add_false (by rw [hadd])
      · exact InfoHashCache.mem_of_add hadd heq hc
    · rw [hpc]
      exact False.elim
  | @sinkAccepts res ms peer run hpc hsink hrun =>
    have hterm := SinkStep.terminated_eq hrun (by simp)
    obtain rfl := hrun.of_accepted hsink
    have hdrain := s.run.sink.drain_sink res
    rw [hsink] at hdrain
    refine fun h hadded => (hs h hadded).imp id fun hin =>
      hin.mono (List.subset_cons_self _ _) hterm hdrain fun hholds => ?_
    rw [hpc] at hholds
    exact .inl ⟨_, List.mem_cons_self, hholds, by simp⟩
  | @sinkRefuses res ms run hpc hsink hrun =>
    refine hs.of_run (hrun.of_refused hsink) rfl (List.Subset.refl _) (Finset.Subset.refl _)
      fun h => ?_
    rw [hpc]
    exact .inr
  | @addPeers res run hpc hrun =>
    have hsame := SinkStep.terminated_eq hrun (by simp)
    cases hrun with
    | addPeers hadd =>
      refine fun h hadded => (hs h hadded).imp id fun hin => hin.mono (List.Subset.refl _) hsame
        (Sink.drain_addPeers hadd) fun hholds => ?_
      rw [hpc] at hholds
      exact hholds.elim
  | @remove infoHash hpc =>
    refine hs.of_run rfl rfl (List.Subset.refl _) (InfoHashCache.remove_subset _ _) fun h => ?_
    rw [hpc]
    rintro rfl
    exact .inl (.inr (by simp [InfoHashCache.mem_remove]))
  | @takeMetadata md run hpc hrun =>
    cases hrun with
    | receive hdrain =>
      intro h hadded
      refine (hs h hadded).imp id fun hin => ?_
      rcases hin with hdown | ⟨hrun, md', hmd', hhash⟩ | hholds
      · exact .inl hdown
      · rw [hdrain] at hmd'
        rcases List.mem_cons.1 hmd' with rfl | hmd'
        · exact .inr (.inr hhash)
        · exact .inr (.inl ⟨hrun, md', hmd', hhash⟩)
      · rw [hpc] at hholds
        exact hholds.elim
  | @deliver md accepted hpc =>
    refine hs.of_run rfl rfl (List.subset_append_left _ _) (Finset.Subset.refl _) fun h => ?_
    rw [hpc]
    rintro rfl
    exact .inl (.inl (by simp))
  | @terminateSink run hpc hrun =>
    cases hrun with
    | terminate hfree =>
      intro h hadded
      rcases hs h hadded with hrel | hdown | ⟨-, md, hmd, hhash⟩ | hholds
      · exact .inl hrel
      · exact .inr (.inl hdown)
      · exact .inl (hhash ▸ hok md hmd)
      · rw [hpc] at hholds
        exact hholds.elim
  | finish hpc =>
    refine hs.of_run rfl rfl (List.Subset.refl _) (Finset.Subset.refl _) fun h => ?_
    rw [hpc]
    exact False.elim
  | download hrun => exact hs.download (sinkSystem_sends hsink) (sinkSystem_noLateSend hsink) hok hrun
  | expireAfter =>
    exact hs.of_run rfl rfl (List.Subset.refl _) (InfoHashCache.expireAfter_subset _ _ _ _ _)
      fun h => .inr

/-- If the steps after the stop give up no info hash that is still to be released, then a
    crawl that has ended with all its downloads leaves none of its info hashes undelivered
    in the cache. -/
theorem crawl_strands_nothing {cfg : CrawlConfig} {s : CrawlState}
    (h : ((crawlSystem cfg).restrict StopReleases).Reachable s) (hpc : s.pc = .ended)
    (hdownloads : s.run.downloads = []) :
    ∀ infoHash ∈ s.added, infoHash ∈ s.delivered ∨ infoHash ∉ s.cache.infoHashCache := by
  have howned : Owned s := by
    refine Transition.System.invariant (P := Owned) ?_ ?_ h
    · rintro _ ⟨cache, rfl⟩ infoHash hadded
      cases hadded
    · intro s a s' hreach hs hstep
      exact hs.step hreach.of_restrict hstep.2 hstep.1
  intro infoHash hadded
  rcases howned infoHash hadded with hrel | ⟨d, hd, -⟩ | ⟨hrun, -⟩ | hholds
  · exact hrel
  · rw [hdownloads] at hd
    cases hd
  · rw [crawlSystem_terminated_eq h.of_restrict, hpc] at hrun
    cases hrun
  · rw [hpc] at hholds
    exact hholds.elim

/-- The stop request is taken during a download; when the download fails afterwards, its
    info hash stays in the cache. -/
theorem crawl_strands : ∃ cfg s, (crawlSystem cfg).Reachable s ∧ s.pc = .ended ∧
    s.run.downloads = [] ∧
    ∃ infoHash ∈ s.added, infoHash ∉ s.delivered ∧ infoHash ∈ s.cache.infoHashCache := by
  obtain ⟨s, hsteps, hpc, -, -, hdown, -, -, hcache, hadded, hdelivered⟩ :=
    newCrawl_idle.running (by decide)
  have hreach : (crawlSystem sampleConfig).Reachable s := .steps (.init ⟨_, rfl⟩) hsteps
  have hrequest : CrawlStep true s .requestStop { s with stop := true } := .requestStop
  have htake : CrawlStep true { s with stop := true } .takeStop
      { s with stop := true, pc := .terminatingSink } := .takeStop hpc rfl
  have hterm : CrawlStep true { s with stop := true, pc := .terminatingSink } .terminateSink
      { s with
        run := { s.run with sink := s.run.sink.terminate }
        stop := true
        pc := .terminatingManager } := by
    refine .terminateSink rfl (.terminate fun d hd => ?_)
    rw [show s.run.downloads = _ from hdown] at hd
    cases List.mem_singleton.1 hd
    rfl
  have hreach' := ((hreach.step hrequest).step htake).step hterm
  obtain ⟨m, hmanager⟩ := manager_completes hreach' rfl
  obtain ⟨t, ht, htpc, htdown, htterm, htcache, htadded, htdelivered⟩ :
      ∃ t, (crawlSystem sampleConfig).Reachable t ∧ t.pc = .ended ∧
        t.run.downloads = [⟨sampleHash 0, samplePeer, .running⟩] ∧ t.run.sink.terminated = true ∧
        t.cache = s.cache ∧ t.added = s.added ∧ t.delivered = s.delivered :=
    ⟨_, hreach'.steps hmanager, rfl, hdown, rfl, rfl, rfl, rfl⟩
  refine ⟨sampleConfig, _, ht.steps ((download_alone sampleConfig htdown .onError).trans
    ((download_alone sampleConfig rfl (.abandonError (by exact htterm))).trans
      (download_alone sampleConfig rfl .release))), htpc, rfl, sampleHash 0, ?_, ?_, ?_⟩
  · simp [htadded, hadded]
  · simp [htdelivered, hdelivered, newCrawl]
  · simp [cacheAfter, htcache, hcache]

/-- A crawl without networks that is given a result without peers and then stopped. -/
theorem crawl_strands_nothing_refused : ∃ s : CrawlState, s.added = [sampleHash 0] ∧
    (sampleHash 0 ∈ s.delivered ∨ sampleHash 0 ∉ s.cache.infoHashCache) := by
  let cfg : CrawlConfig := { sampleConfig with networks := 0 }
  let s := newCrawl cfg emptyInfoHashCache
  let res : Result := ⟨sampleHash 0, [], 4⟩
  let c : InfoHashCache := ⟨{sampleHash 0}, ∅⟩
  let added := { s with cache := c, pc := .sinking res, added := [sampleHash 0] }
  have htaken : ((crawlSystem cfg).restrict StopReleases).Reachable added :=
    .step (.init ⟨_, rfl⟩) ⟨@CrawlStep.takeNew _ _ res 0 _ rfl rfl, trivial⟩
  let removed := { added with cache := c.remove (sampleHash 0), pc := .selecting, stop := true }
  have hremoved : ((crawlSystem cfg).restrict StopReleases).Reachable removed :=
    ((htaken.step ⟨@CrawlStep.sinkRefuses _ _ res _ _ rfl rfl (.refuse rfl), trivial⟩).step
      ⟨.remove rfl, trivial⟩).step ⟨.requestStop, trivial⟩
  have hterminating := (hremoved.step ⟨.takeStop rfl rfl, trivial⟩).step
    ⟨.terminateSink rfl (.terminate fun d hd => (List.not_mem_nil hd).elim),
      fun md hmd => (List.not_mem_nil hmd).elim⟩
  have hended := ((hterminating.step ⟨.manager (fun _ => rfl) (.close rfl), trivial⟩).step
    ⟨.manager (fun _ => rfl) (.close rfl), trivial⟩).step ⟨.finish rfl rfl, trivial⟩
  exact ⟨_, rfl, crawl_strands_nothing hended rfl rfl (sampleHash 0) (List.mem_singleton_self _)⟩

end Ui
