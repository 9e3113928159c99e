-- SUMMARY: The crawl loop between the DHT manager, the info-hash cache and the sink: every interleaving with downloads and a stop request.
import LazyDhtc.Cache.InfoHashCache
import LazyDhtc.DhtClient.Manager
import LazyDhtc.DhtClient.SinkRuns

/-!
# Crawl

One goroutine runs `crawl`: it offers results of the DHT to the sink, delivers the
metadata it reads from `drain`, and when it takes the stop request terminates first the
sink and then the manager. Downloads, the goroutines of the manager and the expiry of
cache entries interleave with it.
-/

namespace Ui

open DhtClient Cache

/-- Where the crawl goroutine is. -/
inductive CrawlPC where
  /-- in the `select` -/
  | selecting
  /-- has added the info hash to the cache -/
  | sinking (res : Result)
  /-- has found the info hash in the cache -/
  | addingPeers (res : Result)
  /-- is about to take an info hash out of the cache -/
  | removing (infoHash : Bytes)
  | delivering (md : Metadata)
  /-- in the deferred `Sink.Terminate` -/
  | terminatingSink
  /-- in the deferred `Manager.Terminate` -/
  | terminatingManager
  | ended

/-- `added` records the info hashes that the crawl has added to the cache, `delivered`
    those of the metadata given to `onMetadata`. -/
structure CrawlState where
  run : SinkRun
  manager : ManagerState
  cache : InfoHashCache
  pc : CrawlPC
  /-- the stop channel is closed -/
  stop : Bool
  added : List Bytes
  delivered : List Bytes

inductive CrawlAction where
  | requestStop
  | takeStop
  | takeResult (res : Result) (now : Int)
  | sink
  | addPeers
  | remove
  | takeMetadata
  | deliver (accepted : Bool)
  | terminateSink
  | manager (a : Shutdown.Action Goroutine)
  | finish
  | download (infoHash : Bytes) (a : DownloadAction)
  /-- an acked info hash is given a time at which it expires -/
  | expireAfter (infoHash : Bytes) (ttl now : Int) (victim : Bytes)

/-- What a goroutine's step does to the cache: `onDiscard` removes the info hash. -/
def cacheAfter (c : InfoHashCache) (infoHash : Bytes) : DownloadAction → InfoHashCache
  | .discard => c.remove infoHash
  | _ => c

/-- A step of a crawl, of a standalone node if it has a database, else of a worker. -/
inductive CrawlStep (hasDatabase : Bool) : CrawlState → CrawlAction → CrawlState → Prop where
  | requestStop {s : CrawlState} : CrawlStep hasDatabase s .requestStop { s with stop := true }
  | takeStop {s : CrawlState} : s.pc = .selecting → s.stop = true →
      CrawlStep hasDatabase s .takeStop { s with pc := .terminatingSink }
  | takeNew {s : CrawlState} {res : Result} {now : Int} {c : InfoHashCache} :
      s.pc = .selecting → s.cache.add res.infoHash now = (c, true) →
      CrawlStep hasDatabase s (.takeResult res now)
        { s with cache := c, pc := .sinking res, added := s.added ++ [res.infoHash] }
  | takeKnown {s : CrawlState} {res : Result} {now : Int} {c : InfoHashCache} :
      s.pc = .selecting → s.cache.add res.infoHash now = (c, false) →
      CrawlStep hasDatabase s (.takeResult res now) { s with cache := c, pc := .addingPeers res }
  | sinkAccepts {s : CrawlState} {res : Result} {ms : Sink} {peer : AddrPort} {run : SinkRun} :
      s.pc = .sinking res → s.run.sink.sink res = (ms, some peer) →
      SinkStep s.run (.sink res) run →
      CrawlStep hasDatabase s .sink { s with run := run, pc := .selecting }
  | sinkRefuses {s : CrawlState} {res : Result} {ms : Sink} {run : SinkRun} :
      s.pc = .sinking res → s.run.sink.sink res = (ms, none) →
      SinkStep s.run (.sink res) run →
      CrawlStep hasDatabase s .sink { s with run := run, pc := .removing res.infoHash }
  | addPeers {s : CrawlState} {res : Result} {run : SinkRun} : s.pc = .addingPeers res →
      SinkStep s.run (.addPeers res) run →
      CrawlStep hasDatabase s .addPeers { s with run := run, pc := .selecting }
  | remove {s : CrawlState} {infoHash : Bytes} : s.pc = .removing infoHash →
      CrawlStep hasDatabase s .remove
        { s with cache := s.cache.remove infoHash, pc := .selecting }
  | takeMetadata {s : CrawlState} {md : Metadata} {run : SinkRun} : s.pc = .selecting →
      SinkStep s.run (.receive md) run →
      CrawlStep hasDatabase s .takeMetadata { s with run := run, pc := .delivering md }
  | deliver {s : CrawlState} {md : Metadata} {accepted : Bool} : s.pc = .delivering md →
      CrawlStep hasDatabase s (.deliver accepted)
        { s with
          delivered := s.delivered ++ [md.infoHash]
          pc := if hasDatabase = false ∧ accepted = false then .removing md.infoHash
            else .selecting }
  | terminateSink {s : CrawlState} {run : SinkRun} : s.pc = .terminatingSink →
      SinkStep s.run .terminate run →
      CrawlStep hasDatabase s .terminateSink { s with run := run, pc := .terminatingManager }
  | manager {s : CrawlState} {a : Shutdown.Action Goroutine} {m : ManagerState} :
      (a = .exec → s.pc = .terminatingManager) → Shutdown.Step Goroutine.exits s.manager a m →
      CrawlStep hasDatabase s (.manager a) { s with manager := m }
  | finish {s : CrawlState} : s.pc = .terminatingManager → s.manager.code = [] →
      CrawlStep hasDatabase s .finish { s with pc := .ended }
  | download {s : CrawlState} {infoHash : Bytes} {a : DownloadAction} {run : SinkRun} :
      SinkStep s.run (.download infoHash a) run →
      CrawlStep hasDatabase s (.download infoHash a)
        { s with run := run, cache := cacheAfter s.cache infoHash a }
  | expireAfter {s : CrawlState} {infoHash victim : Bytes} {ttl now : Int} :
      CrawlStep hasDatabase s (.expireAfter infoHash ttl now victim)
        { s with cache := s.cache.expireAfter infoHash ttl now victim }

/-- What a crawl is configured with: the limits of its sink, the number of its networks
    and whether it has a database. -/
structure CrawlConfig where
  maxLeeches : Int
  maxConcurrentDownloads : Nat
  networks : Nat
  hasDatabase : Bool

/-- The state in which a crawl enters its loop. -/
def newCrawl (cfg : CrawlConfig) (cache : InfoHashCache) : CrawlState where
  run := ⟨newSink cfg.maxLeeches cfg.maxConcurrentDownloads, [], [], []⟩
  manager := newManager cfg.networks
  cache := cache
  pc := .selecting
  stop := false
  added := []
  delivered := []

/-- Every interleaving of a crawl, whatever the cache holds when it starts. -/
def crawlSystem (cfg : CrawlConfig) : Transition.System CrawlState CrawlAction where
  init s := ∃ cache, s = newCrawl cfg cache
  step := CrawlStep cfg.hasDatabase

/-! ## The sink of a crawl -/

/-- A step of a crawl is at most one step of its sink. -/
theorem CrawlStep.sinkSteps {db : Bool} {s s' : CrawlState} {a : CrawlAction}
    (hstep : CrawlStep db s a s') : s'.run = s.run ∨ ∃ b, SinkStep s.run b s'.run := by
  cases hstep with
  | sinkAccepts _ _ hrun | sinkRefuses _ _ hrun => exact .inr ⟨_, hrun⟩
  | addPeers _ hrun | takeMetadata _ hrun | terminateSink _ hrun => exact .inr ⟨_, hrun⟩
  | download hrun => exact .inr ⟨_, hrun⟩
  | _ => exact .inl rfl

/-- The runs of a crawl are runs of its sink. -/
theorem crawlSystem_projects (cfg : CrawlConfig) :
    (crawlSystem cfg).Projects (sinkSystem cfg.maxLeeches cfg.maxConcurrentDownloads)
      CrawlState.run where
  init s hs := by
    obtain ⟨cache, rfl⟩ := hs
    rfl
  step s a s' hstep := by
    rcases CrawlStep.sinkSteps hstep with heq | ⟨b, hrun⟩
    · rw [heq]
      exact .refl _
    · exact .single hrun

/-- The crawl is past `Sink.Terminate`. -/
def CrawlPC.sinkTerminated : CrawlPC → Bool
  | .terminatingManager => true
  | .ended => true
  | _ => false

/-- The sink is terminated by the crawl goroutine only. -/
theorem crawlSystem_terminated_eq {cfg : CrawlConfig} {s : CrawlState}
    (h : (crawlSystem cfg).Reachable s) : s.run.sink.terminated = s.pc.sinkTerminated := by
  refine Transition.System.invariant
    (P := fun s : CrawlState => s.run.sink.terminated = s.pc.sinkTerminated) ?_ ?_ h
  · rintro _ ⟨cache, rfl⟩
    rfl
  · intro s a s' _ hs hstep
    cases hstep with
    | requestStop | expireAfter => exact hs
    | takeStop hpc | takeNew hpc | takeKnown hpc | remove hpc =>
      rw [hpc] at hs
      exact hs
    | sinkAccepts hpc _ hrun | sinkRefuses hpc _ hrun =>
      rw [hpc] at hs
      exact (SinkStep.terminated_eq hrun (by simp)).trans hs
    | addPeers hpc hrun | takeMetadata hpc hrun =>
      rw [hpc] at hs
      exact (SinkStep.terminated_eq hrun (by simp)).trans hs
    | deliver hpc =>
      rw [hpc] at hs
      refine hs.trans ?_
      dsimp only
      split <;> rfl
    | terminateSink hpc hrun =>
      cases hrun
      rfl
    | manager => exact hs
    | finish hpc =>
      rw [hpc] at hs
      exact hs
    | download hrun => exact (SinkStep.terminated_eq hrun (by simp)).trans hs

end Ui
