-- SUMMARY: A worker with its crawls, its queue, its cache of info hashes and its restarts: when the queue has one record for each info hash.
import LazyDhtc.Cluster.Delivery
import LazyDhtc.Cluster.Restore
import LazyDhtc.Cluster.Snapshot
import LazyDhtc.DhtClient.Attempts
import LazyDhtc.Ui.CrawlShutdown

/-!
# One record for each torrent

An info hash that a worker has taken up is in one place at a time: in the hands of a crawl,
in its sink, in the queue, or acknowledged with `onAck` still to be called. The cache knows
the info hashes that this process has taken up. A new process restores the queue, but its
cache is empty.
-/

namespace Cluster

open DhtClient Json Cache Transition Ui

/-! ## The worker -/

/-- `onAck` keeps the info hash for so long. -/
def ackExpiry : Int := seconds (12 * 60 * 60)

structure WorkerRun where
  cache : InfoHashCache
  crawls : List CrawlState
  /-- The queue with its cache file. -/
  save : SaveState
  /-- The metadata that `onAck` is still to be called with. -/
  acked : List Metadata
  /-- The info hashes of the records that this process has restored. -/
  restored : List Bytes

inductive RunAction where
  | startCrawl
  | crawl (a : CrawlAction)
  | deliver (md : Metadata)
  | ack (ids : List UInt64)
  | onAck (md : Metadata)
  | save (a : SaveAction)
  | restart

/-- The info hashes of records. -/
def hashes (items : List Record) : List Bytes := items.map fun r => r.metadata.infoHash

/-- A crawl of the process, which sees the shared cache. -/
def sharing (cache : InfoHashCache) (c : CrawlState) : CrawlState := { c with cache := cache }

inductive RunStep (cfg : WorkerConfig) (crawl : CrawlConfig) :
    WorkerRun → RunAction → WorkerRun → Prop where
  | startCrawl {s : WorkerRun} :
      RunStep cfg crawl s .startCrawl { s with crawls := s.crawls ++ [newCrawl crawl s.cache] }
  | crawl {s : WorkerRun} {pre post : List CrawlState} {c c' : CrawlState} {a : CrawlAction} :
      s.crawls = pre ++ c :: post → (∀ accepted, a ≠ .deliver accepted) →
      (∀ infoHash ttl now victim, a ≠ .expireAfter infoHash ttl now victim) →
      CrawlStep false (sharing s.cache c) a c' →
      RunStep cfg crawl s (.crawl a)
        { s with cache := c'.cache, crawls := pre ++ c' :: post }
  /-- `onMetadata` is `Enqueue`. -/
  | deliver {s : WorkerRun} {pre post : List CrawlState} {c c' : CrawlState} {md : Metadata}
      {save : SaveState} : s.crawls = pre ++ c :: post → c.pc = .delivering md →
      SaveStep cfg.workerID cfg.workerQueue cfg.cacheDir s.save (.enqueue md) save →
      CrawlStep false (sharing s.cache c) (.deliver (s.save.queue.enqueue md).2) c' →
      RunStep cfg crawl s (.deliver md)
        { s with cache := c'.cache, crawls := pre ++ c' :: post, save := save }
  | ack {s : WorkerRun} {ids : List UInt64} {save : SaveState} :
      SaveStep cfg.workerID cfg.workerQueue cfg.cacheDir s.save (.ack ids) save →
      RunStep cfg crawl s (.ack ids)
        { s with save := save, acked := s.acked ++ (s.save.queue.ack ids).2 }
  | onAck {s : WorkerRun} {pre post : List Metadata} {md : Metadata} {now : Int}
      {victim : Bytes} : s.acked = pre ++ md :: post → s.cache.IsVictim now victim →
      RunStep cfg crawl s (.onAck md) { s with
        cache := s.cache.expireAfter md.infoHash ackExpiry now victim
        acked := pre ++ post }
  /-- A step of `saveToCache`. -/
  | save {s : WorkerRun} {a : SaveAction} {save : SaveState} :
      a ∈ [.swap, .copy, .marshal, .write, .rename, .fail] →
      SaveStep cfg.workerID cfg.workerQueue cfg.cacheDir s.save a save →
      RunStep cfg crawl s (.save a) { s with save := save }
  /-- The process ends at any moment, and a new one takes the queue from the cache file. -/
  | restart {s : WorkerRun} :
      RunStep cfg crawl s .restart {
        cache := emptyInfoHashCache
        crawls := []
        save := { s.save with saving := .idle, queue := runWorker cfg fun _ => s.save.file }
        acked := []
        restored := hashes (runWorker cfg fun _ => s.save.file).items }

/-- A worker that has never run before. -/
def runSystem (cfg : WorkerConfig) (crawl : CrawlConfig) : System WorkerRun RunAction where
  init s := s.cache = emptyInfoHashCache ∧ s.crawls = [] ∧ s.acked = [] ∧ s.restored = [] ∧
    s.save.queue = (runWorker cfg fun _ => none) ∧ s.save.saving = .idle ∧ s.save.file = none
  step := RunStep cfg crawl

/-- No crawl takes a result for the info hash of a restored record as new while that record
    is queued or its `onAck` is still to be called. -/
def FindsNew (s : WorkerRun) : RunAction → Prop
  | .crawl (.takeResult res now) => (s.cache.add res.infoHash now).2 = true →
      res.infoHash ∈ s.restored →
        res.infoHash ∉ hashes s.save.queue.items ∧
          res.infoHash ∉ s.acked.map Metadata.infoHash
  | _ => True

/-! ## Tokens -/

/-- Not about to end. -/
def isActive : DhtClient.Phase → Bool
  | .releasing => false
  | _ => true

/-- The downloads of an info hash that are not about to end. -/
def downloading (ds : List Download) (h : Bytes) : Nat :=
  ds.countP fun d => decide (d.infoHash = h) && isActive d.phase

/-- The metadata of an info hash. -/
def waiting (mds : List Metadata) (h : Bytes) : Nat :=
  mds.countP fun md => decide (md.infoHash = h)

/-- What the crawl goroutine has in hand. -/
def inHand : CrawlPC → Bytes → Nat
  | .sinking res, h => if res.infoHash = h then 1 else 0
  | .removing infoHash, h => if infoHash = h then 1 else 0
  | .delivering md, h => if md.infoHash = h then 1 else 0
  | _, _ => 0

/-- How often a crawl has an info hash. -/
def crawlTokens (c : CrawlState) (h : Bytes) : Nat :=
  downloading c.run.downloads h + waiting c.run.sink.drain h + inHand c.pc h

def crawlsTokens (crawls : List CrawlState) (h : Bytes) : Nat :=
  (crawls.map fun c => crawlTokens c h).sum

/-- How often the queue has an info hash, or its acknowledgement is still to be called. -/
def queueTokens (s : WorkerRun) (h : Bytes) : Nat :=
  (hashes s.save.queue.items).count h + waiting s.acked h

/-! ## One step of a sink -/

theorem downloading_append (ds ds' : List Download) (h : Bytes) :
    downloading (ds ++ ds') h = downloading ds h + downloading ds' h := List.countP_append

theorem downloading_cons (d : Download) (ds : List Download) (h : Bytes) :
    downloading (d :: ds) h = downloading [d] h + downloading ds h := downloading_append [d] ds h

theorem waiting_append (mds mds' : List Metadata) (h : Bytes) :
    waiting (mds ++ mds') h = waiting mds h + waiting mds' h := List.countP_append

theorem waiting_cons (md : Metadata) (mds : List Metadata) (h : Bytes) :
    waiting (md :: mds) h = waiting [md] h + waiting mds h := waiting_append [md] mds h

theorem downloading_singleton (h' : Bytes) (peer : AddrPort) (phase : DhtClient.Phase)
    (h : Bytes) : downloading [⟨h', peer, phase⟩] h =
      if h' = h ∧ isActive phase = true then 1 else 0 := by
  simp [downloading, List.countP_cons]

/-- The step of a goroutine does not multiply an info hash, and a discard gives it up. -/
theorem downloadStep_tokens {ms ms' : Sink} {others ds : List Download} {d : Download}
    {a : DownloadAction} (hstep : DownloadStep ms others d a ms' ds) (hd : d.Consistent) :
    (∀ h, downloading ds h + waiting ms'.drain h ≤ downloading [d] h + waiting ms.drain h) ∧
      (a = .discard → downloading ds d.infoHash + waiting ms'.drain d.infoHash + 1 ≤
        downloading [d] d.infoHash + waiting ms.drain d.infoHash) := by
  cases hstep with
  | start | acquire | onSuccess | onError | lock | check | take =>
    exact ⟨fun h => Nat.le_refl _, nofun⟩
  | abandonStart | release =>
    exact ⟨fun h => Nat.add_le_add_right (Nat.zero_le _) _, nofun⟩
  | abandonFlush | abandonError =>
    refine ⟨fun h => Nat.add_le_add_right ?_ _, nofun⟩
    simp [downloading_singleton, isActive]
  | @onPeers infoHash peer peers =>
    refine ⟨fun h => ?_, nofun⟩
    rw [Sink.drain_onPeers]
  | @send infoHash peer result =>
    refine ⟨fun h => ?_, nofun⟩
    have hhash : result.infoHash = infoHash := hd result rfl
    simp only [downloading_singleton, waiting_append, isActive]
    simp [waiting, hhash, Nat.add_comm]
  | @retry infoHash peer next ms' herr =>
    refine ⟨fun h => ?_, nofun⟩
    have hdrain := ms.drain_onLeechErrorLocked infoHash
    rw [herr] at hdrain
    rw [hdrain, downloading_cons, downloading_singleton, downloading_singleton,
      downloading_singleton]
    simp [isActive]
  | @discard infoHash peer ms' herr =>
    have hdrain := ms.drain_onLeechErrorLocked infoHash
    rw [herr] at hdrain
    rw [hdrain]
    refine ⟨fun h => Nat.add_le_add_right ?_ _, fun _ => ?_⟩
    · simp [downloading_singleton, isActive]
    · simp [downloading_singleton, isActive, Nat.add_comm]

/-! ## One step of a crawl -/

/-- Every goroutine delivers metadata of its own info hash. -/
def AllConsistent (c : CrawlState) : Prop := ∀ d ∈ c.run.downloads, d.Consistent

/-- What the step of a crawl does to the cache and to the info hashes it has: it keeps the
    cache, or takes up an info hash that the cache did not have, or gives one up and takes it
    out of the cache. -/
inductive CrawlEffect (c : CrawlState) (a : CrawlAction) (c' : CrawlState) : Prop where
  | keeps : c'.cache = c.cache → (∀ h, crawlTokens c' h ≤ crawlTokens c h) → CrawlEffect c a c'
  | takes {res : Result} {now : Int} : a = .takeResult res now →
      c.cache.add res.infoHash now = (c'.cache, true) →
      (∀ h, crawlTokens c' h ≤ crawlTokens c h + if res.infoHash = h then 1 else 0) →
      CrawlEffect c a c'
  | drops {infoHash : Bytes} : c'.cache = c.cache.remove infoHash →
      crawlTokens c' infoHash + 1 ≤ crawlTokens c infoHash →
      (∀ h, crawlTokens c' h ≤ crawlTokens c h) → CrawlEffect c a c'

/-- A download's step within a sink. -/
theorem sinkStep_download {s s' : SinkRun} {infoHash : Bytes} {a : DownloadAction}
    (hstep : SinkStep s (.download infoHash a) s') (hs : ∀ d ∈ s.downloads, d.Consistent) :
    (∀ d ∈ s'.downloads, d.Consistent) ∧
    (∀ h, downloading s'.downloads h + waiting s'.sink.drain h ≤
      downloading s.downloads h + waiting s.sink.drain h) ∧
    (a = .discard → downloading s'.downloads infoHash + waiting s'.sink.drain infoHash + 1 ≤
      downloading s.downloads infoHash + waiting s.sink.drain infoHash) := by
  cases hstep with
  | @download pre post ds d a ms hsplit hdownload =>
    have hd : d.Consistent := hs d (by rw [hsplit]; simp)
    obtain ⟨hle, hdiscard⟩ := downloadStep_tokens hdownload hd
    refine ⟨fun d' hd' => ?_, fun h => ?_, fun ha => ?_⟩
    · rcases List.mem_append.1 hd' with hd' | hd'
      · rcases List.mem_append.1 hd' with hd' | hd'
        · exact hs d' (by rw [hsplit]; simp [hd'])
        · exact hdownload.consistent hd d' hd'
      · exact hs d' (by rw [hsplit]; simp [hd'])
    · have hh := hle h
      rw [hsplit, downloading_append, downloading_append, downloading_append,
        downloading_cons d]
      dsimp only
      omega
    · have hh := hdiscard ha
      rw [hsplit, downloading_append, downloading_append, downloading_append,
        downloading_cons d]
      dsimp only
      omega

theorem crawlStep_effect {c c' : CrawlState} {a : CrawlAction} (hstep : CrawlStep false c a c')
    (hc : AllConsistent c) (hdeliver : ∀ accepted, a ≠ .deliver accepted)
    (hexpire : ∀ infoHash ttl now victim, a ≠ .expireAfter infoHash ttl now victim) :
    AllConsistent c' ∧ CrawlEffect c a c' := by
  cases hstep with
  | requestStop | manager => exact ⟨hc, .keeps rfl fun h => Nat.le_refl _⟩
  | takeStop hpc | finish hpc =>
    refine ⟨hc, .keeps rfl fun h => ?_⟩
    simp [crawlTokens, inHand]
  | @takeNew res now cache hpc hadd =>
    refine ⟨hc, .takes rfl hadd fun h => ?_⟩
    simp [crawlTokens, inHand, hpc]
  | @takeKnown res now cache hpc hadd =>
    refine ⟨hc, .keeps (InfoHashCache.add_false hadd) fun h => ?_⟩
    simp [crawlTokens, inHand]
  | @sinkAccepts res ms peer run hpc hsink hrun =>
    have hdrain := c.run.sink.drain_sink res
    rw [hsink] at hdrain
    obtain rfl := hrun.of_accepted hsink
    refine ⟨fun d hd => ?_, .keeps rfl fun h => ?_⟩
    · rcases List.mem_cons.1 hd with rfl | hd
      · exact nofun
      · exact hc d hd
    · dsimp only at hdrain
      simp only [crawlTokens, inHand, hpc, hdrain]
      rw [downloading_cons, downloading_singleton]
      simp only [isActive, and_true]
      omega
  | @sinkRefuses res ms run hpc hsink hrun =>
    obtain rfl := hrun.of_refused hsink
    refine ⟨hc, .keeps rfl fun h => ?_⟩
    simp only [crawlTokens, inHand, hpc]
    exact Nat.le_refl _
  | @addPeers res run hpc hrun =>
    cases hrun with
    | addPeers hadd =>
      refine ⟨hc, .keeps rfl fun h => ?_⟩
      simp [crawlTokens, inHand, Sink.drain_addPeers hadd]
  | @remove infoHash hpc =>
    refine ⟨hc, .drops rfl ?_ fun h => ?_⟩
    · simp [crawlTokens, inHand, hpc]
    · simp [crawlTokens, inHand]
  | @takeMetadata md run hpc hrun =>
    cases hrun with
    | receive hdrain =>
      refine ⟨hc, .keeps rfl fun h => ?_⟩
      simp only [crawlTokens, inHand, hdrain]
      rw [waiting_cons]
      simp only [waiting, List.countP_singleton, decide_eq_true_eq]
      omega
  | deliver => exact (hdeliver _ rfl).elim
  | @terminateSink run hpc hrun =>
    cases hrun with
    | terminate hfree =>
      refine ⟨hc, .keeps rfl fun h => ?_⟩
      simp [crawlTokens, inHand, Sink.terminate]
  | @download infoHash a run hrun =>
    obtain ⟨hconsistent, hle, hdiscard⟩ := sinkStep_download hrun hc
    refine ⟨hconsistent, ?_⟩
    by_cases ha : a = .discard
    · subst ha
      refine .drops rfl ?_ fun h => Nat.add_le_add_right (hle h) _
      have := hdiscard rfl
      simp only [crawlTokens]
      omega
    · refine .keeps ?_ fun h => Nat.add_le_add_right (hle h) _
      cases a with
      | discard => exact (ha rfl).elim
      | _ => rfl
  | expireAfter => exact (hexpire _ _ _ _ rfl).elim

/-! ## Saving and loading -/

/-- The cache file, and what is about to replace it, have one record for each info hash. -/
structure SavedOnce (s : SaveState) : Prop where
  file : ∀ data, s.file = some data → ∃ items, (hashes items).Nodup ∧ data = encodeRecords items
  saving : match s.saving with
    | .idle | .swapped => True
    | .copied items => (hashes items).Nodup
    | .marshalled items data => (hashes items).Nodup ∧ data = encodeRecords items
    | .written items => (hashes items).Nodup ∧ s.temporary = some (encodeRecords items)

theorem SavedOnce.of_eq {s s' : SaveState} (h : SavedOnce s) (hfile : s'.file = s.file)
    (hsaving : s'.saving = s.saving) (htemporary : s'.temporary = s.temporary) : SavedOnce s' := by
  refine ⟨?_, ?_⟩
  · rw [hfile]
    exact h.file
  · rw [hsaving, htemporary]
    exact h.saving

/-- A step of `saveToCache` leaves the records of the queue as they are. -/
theorem SavedOnce.step {workerID cachePath : Bytes} {limit : Int} {s s' : SaveState}
    {a : SaveAction} (h : SavedOnce s) (hqueue : (hashes s.queue.items).Nodup)
    (ha : a ∈ [.swap, .copy, .marshal, .write, .rename, .fail])
    (hstep : SaveStep workerID limit cachePath s a s') :
    SavedOnce s' ∧ s'.queue.items = s.queue.items := by
  have hsaving := h.saving
  cases hstep with
  | enqueue | ack | crash => simp at ha
  | swap => exact ⟨⟨h.file, trivial⟩, rfl⟩
  | copy => exact ⟨⟨h.file, hqueue⟩, rfl⟩
  | marshal hpc =>
    rw [hpc] at hsaving
    exact ⟨⟨h.file, hsaving, rfl⟩, rfl⟩
  | write hpc =>
    rw [hpc] at hsaving
    obtain ⟨hnodup, rfl⟩ := hsaving
    exact ⟨⟨h.file, hnodup, rfl⟩, rfl⟩
  | @rename items hpc =>
    rw [hpc] at hsaving
    obtain ⟨hnodup, htemporary⟩ := hsaving
    refine ⟨⟨fun data hdata => ⟨items, hnodup, ?_⟩, trivial⟩, rfl⟩
    exact Option.some_inj.1 (hdata.symm.trans htemporary)
  | failEncoding | failWrite | failRename => exact ⟨⟨h.file, trivial⟩, rfl⟩

/-- A new process takes the info hashes from the file, or starts without any. -/
theorem hashes_runWorker (cfg : WorkerConfig) (items : List Record) :
    hashes (runWorker cfg fun _ => some (encodeRecords items)).items =
      if cfg.masterURL ≠ [] then hashes items else [] := by
  rw [runWorker_items, savedRecords]
  split_ifs
  · rw [Option.bind_some, encodeRecords, readAll_encode (depth_encodeRecords items)]
    simp only [decodeSlice_of decodeRecord_encode, hashes, List.map_map]
    rfl
  · rfl

theorem hashes_runWorker_none (cfg : WorkerConfig) :
    hashes (runWorker cfg fun _ => none).items = [] := by
  rw [runWorker_items, savedRecords]
  split_ifs <;> rfl

theorem SavedOnce.restored {s : SaveState} (h : SavedOnce s) (cfg : WorkerConfig) :
    (hashes (runWorker cfg fun _ => s.file).items).Nodup := by
  cases hfile : s.file with
  | none =>
    rw [hashes_runWorker_none]
    exact List.nodup_nil
  | some data =>
    obtain ⟨items, hnodup, rfl⟩ := h.file data hfile
    rw [hashes_runWorker]
    split_ifs
    · exact hnodup
    · exact List.nodup_nil

/-! ## Places -/

/-- Each info hash is in one place at most, with the crawls or with the queue. The cache has
    it there without a time, unless its record is a restored one. -/
structure Places (cache : InfoHashCache) (restored : List Bytes) (crawls queue : Bytes → Nat) :
    Prop where
  expiring : cache.Expiring
  once : ∀ h, crawls h + queue h ≤ 1
  crawled : ∀ h, 0 < crawls h → cache.Kept h
  queued : ∀ h, 0 < queue h → cache.Kept h ∨ h ∈ restored ∧ h ∉ cache.infoHashCache

section

variable {cache : InfoHashCache} {restored : List Bytes} {crawls crawls' queue queue' : Bytes → Nat}

/-- The crawls pass an info hash on to the queue, or some place gives it up. -/
theorem Places.pass (hs : Places cache restored crawls queue) (hle : ∀ h, crawls' h ≤ crawls h)
    (hsum : ∀ h, crawls' h + queue' h ≤ crawls h + queue h) :
    Places cache restored crawls' queue' where
  expiring := hs.expiring
  once h := (hsum h).trans (hs.once h)
  crawled h hpos := hs.crawled h (Nat.lt_of_lt_of_le hpos (hle h))
  queued h hpos := by
    have hh := hsum h
    by_cases hcrawled : 0 < crawls h
    · exact .inl (hs.crawled h hcrawled)
    · exact hs.queued h (by omega)

/-- The cache did not have the info hash, so no place has it. -/
theorem Places.take (hs : Places cache restored crawls queue) {cache' : InfoHashCache}
    {infoHash : Bytes} {now : Int} (hadd : cache.add infoHash now = (cache', true))
    (hnew : infoHash ∈ restored → queue infoHash = 0)
    (hle : ∀ h, crawls' h ≤ crawls h + if infoHash = h then 1 else 0) :
    Places cache' restored crawls' queue := by
  obtain ⟨hfresh, hkept, hexpiring, hothers⟩ := InfoHashCache.add_true hs.expiring hadd
  have hcrawls : crawls infoHash = 0 := by
    by_contra hpos
    exact hfresh (hs.crawled _ (Nat.pos_of_ne_zero hpos))
  have hqueue : queue infoHash = 0 := by
    by_contra hpos
    rcases hs.queued _ (Nat.pos_of_ne_zero hpos) with hkept' | ⟨hrestored, -⟩
    · exact hfresh hkept'
    · exact hpos (hnew hrestored)
  have hsame : ∀ h, h ≠ infoHash → cache.Kept h → cache'.Kept h := fun h hne hh =>
    ⟨(hothers h hne).1.2 hh.1, mt (hothers h hne).2.1 hh.2⟩
  refine ⟨hexpiring, fun h => ?_, fun h hpos => ?_, fun h hpos => ?_⟩
  · have hh := hle h
    by_cases heq : infoHash = h
    · rw [if_pos heq] at hh
      subst heq
      omega
    · rw [if_neg heq] at hh
      have := hs.once h
      omega
  · by_cases heq : infoHash = h
    · exact heq ▸ hkept
    · have hh := hle h
      rw [if_neg heq] at hh
      exact hsame h (Ne.symm heq) (hs.crawled h (by omega))
  · have hne : h ≠ infoHash := by
      rintro rfl
      omega
    refine (hs.queued h hpos).imp (hsame h hne) fun ⟨hrestored, hnot⟩ => ⟨hrestored, ?_⟩
    exact mt (hothers h hne).1.1 hnot

/-- A crawl gives up an info hash, which then no place has, and takes it out of the cache. -/
theorem Places.drop (hs : Places cache restored crawls queue) {infoHash : Bytes}
    (hgone : crawls' infoHash + 1 ≤ crawls infoHash) (hle : ∀ h, crawls' h ≤ crawls h) :
    Places (cache.remove infoHash) restored crawls' queue := by
  have honce := hs.once infoHash
  refine ⟨hs.expiring.remove infoHash, fun h => ?_, fun h hpos => ?_, fun h hpos => ?_⟩
  · exact (Nat.add_le_add_right (hle h) _).trans (hs.once h)
  · have hne : h ≠ infoHash := by
      rintro rfl
      omega
    exact (hs.crawled h (Nat.lt_of_lt_of_le hpos (hle h))).remove hne
  · have hne : h ≠ infoHash := by
      rintro rfl
      omega
    refine (hs.queued h hpos).imp (fun hkept => hkept.remove hne) fun ⟨hrestored, hnot⟩ => ?_
    exact ⟨hrestored, fun hmem => hnot (InfoHashCache.mem_remove.1 hmem).2⟩

/-- `onAck` gives a time to an info hash that no other place has. -/
theorem Places.expire (hs : Places cache restored crawls queue) {infoHash victim : Bytes}
    {now : Int} (ttl : Int) (hvictim : cache.IsVictim now victim)
    (hgone : queue' infoHash + 1 ≤ queue infoHash) (hle : ∀ h, queue' h ≤ queue h) :
    Places (cache.expireAfter infoHash ttl now victim) restored crawls queue' := by
  have honce := hs.once infoHash
  have huntimed : infoHash ∉ cache.infoHashExpiry := by
    rcases hs.queued infoHash (by omega) with hkept | ⟨-, hnot⟩
    · exact hkept.2
    · exact mt (hs.expiring infoHash) hnot
  obtain ⟨hexpiring, hothers⟩ :=
    InfoHashCache.expireAfter_spares hs.expiring ttl huntimed hvictim
  have hsame : ∀ h, h ≠ infoHash → cache.Kept h →
      (cache.expireAfter infoHash ttl now victim).Kept h := fun h hne hh =>
    ⟨(hothers h hne hh.2).1.2 hh.1, (hothers h hne hh.2).2⟩
  refine ⟨hexpiring, fun h => ?_, fun h hpos => ?_, fun h hpos => ?_⟩
  · exact (Nat.add_le_add_left (hle h) _).trans (hs.once h)
  · have hne : h ≠ infoHash := by
      rintro rfl
      omega
    exact hsame h hne (hs.crawled h hpos)
  · have hne : h ≠ infoHash := by
      rintro rfl
      omega
    refine (hs.queued h (Nat.lt_of_lt_of_le hpos (hle h))).imp (hsame h hne) ?_
    rintro ⟨hrestored, hnot⟩
    exact ⟨hrestored, fun hmem => hnot (InfoHashCache.expireAfter_subset _ _ _ _ _ hmem)⟩

end

/-! ## The invariant -/

structure WorkerRun.OnePlace (s : WorkerRun) : Prop where
  consistent : ∀ c ∈ s.crawls, AllConsistent c
  places : Places s.cache s.restored (crawlsTokens s.crawls) (queueTokens s)
  saved : SavedOnce s.save

theorem crawlsTokens_split (pre post : List CrawlState) (c : CrawlState) (h : Bytes) :
    crawlsTokens (pre ++ c :: post) h = crawlTokens c h + crawlsTokens (pre ++ post) h := by
  simp only [crawlsTokens, List.map_append, List.map_cons, List.sum_append, List.sum_cons]
  omega

theorem WorkerRun.OnePlace.nodup {s : WorkerRun} (hs : s.OnePlace) :
    (hashes s.save.queue.items).Nodup := by
  refine List.nodup_iff_count_le_one.2 fun h => ?_
  have hle : (hashes s.save.queue.items).count h ≤ queueTokens s h := Nat.le_add_right _ _
  have honce := hs.places.once h
  omega

theorem queueTokens_eq_zero {s : WorkerRun} {h : Bytes} (hitems : h ∉ hashes s.save.queue.items)
    (hacked : h ∉ s.acked.map Metadata.infoHash) : queueTokens s h = 0 := by
  rw [queueTokens, List.count_eq_zero_of_not_mem hitems, Nat.zero_add, waiting,
    List.countP_eq_zero]
  exact fun md hmd heq => hacked (List.mem_map.2 ⟨md, hmd, of_decide_eq_true heq⟩)

theorem consistent_replace {crawls pre post : List CrawlState} {c c' : CrawlState}
    (hs : ∀ d ∈ crawls, AllConsistent d) (hcrawls : crawls = pre ++ c :: post)
    (hc : AllConsistent c') : ∀ d ∈ pre ++ c' :: post, AllConsistent d := by
  intro d hd
  rcases List.mem_append.1 hd with hd | hd
  · exact hs d (by simp [hcrawls, hd])
  · rcases List.mem_cons.1 hd with rfl | hd
    · exact hc
    · exact hs d (by simp [hcrawls, hd])

/-- A crawl keeps its entries, takes one up that no other place has, or gives one up. -/
theorem WorkerRun.OnePlace.crawl {s : WorkerRun} {pre post : List CrawlState}
    {c c' : CrawlState} {a : CrawlAction} (hs : s.OnePlace) (hcrawls : s.crawls = pre ++ c :: post)
    (hconsistent : AllConsistent c') (heffect : CrawlEffect (sharing s.cache c) a c')
    (hnew : FindsNew s (.crawl a)) :
    WorkerRun.OnePlace { s with cache := c'.cache, crawls := pre ++ c' :: post } := by
  have hsplit : ∀ h, crawlsTokens s.crawls h = crawlTokens c h + crawlsTokens (pre ++ post) h := by
    intro h
    rw [hcrawls, crawlsTokens_split]
  refine ⟨consistent_replace hs.consistent hcrawls hconsistent, ?_, hs.saved⟩
  have hle : (∀ h, crawlTokens c' h ≤ crawlTokens c h) →
      ∀ h, crawlsTokens (pre ++ c' :: post) h ≤ crawlsTokens s.crawls h := by
    intro hle h
    rw [crawlsTokens_split, hsplit]
    exact Nat.add_le_add_right (hle h) _
  cases heffect with
  | keeps hcache htokens =>
    dsimp only
    rw [hcache]
    exact hs.places.pass (hle htokens) fun h => Nat.add_le_add_right (hle htokens h) _
  | @takes res now ha hadd htokens =>
    subst ha
    have hadd' : s.cache.add res.infoHash now = (c'.cache, true) := hadd
    refine hs.places.take hadd' (fun hrestored => ?_) fun h => ?_
    · obtain ⟨hitems, hacked⟩ := hnew (by rw [hadd']) hrestored
      exact queueTokens_eq_zero hitems hacked
    · have hh : crawlTokens c' h ≤ crawlTokens c h + if res.infoHash = h then 1 else 0 := htokens h
      rw [crawlsTokens_split, hsplit]
      omega
  | @drops infoHash hcache hgone htokens =>
    dsimp only
    rw [hcache]
    refine hs.places.drop ?_ (hle htokens)
    have hgone' : crawlTokens c' infoHash + 1 ≤ crawlTokens c infoHash := hgone
    rw [crawlsTokens_split, hsplit]
    omega

/-- Metadata that the queue accepts pass from the crawl to the queue. -/
theorem WorkerRun.OnePlace.deliver {s : WorkerRun} {pre post : List CrawlState}
    {c c' : CrawlState} {md : Metadata} {save : SaveState} {cfg : WorkerConfig}
    (hs : s.OnePlace) (hcrawls : s.crawls = pre ++ c :: post) (hpc : c.pc = .delivering md)
    (hsave : SaveStep cfg.workerID cfg.workerQueue cfg.cacheDir s.save (.enqueue md) save)
    (hcrawl : CrawlStep false (sharing s.cache c) (.deliver (s.save.queue.enqueue md).2) c') :
    WorkerRun.OnePlace { s with cache := c'.cache, crawls := pre ++ c' :: post, save := save } := by
  have hc : AllConsistent c := hs.consistent c (by simp [hcrawls])
  have hsplit : ∀ h, crawlsTokens s.crawls h = crawlTokens c h + crawlsTokens (pre ++ post) h := by
    intro h
    rw [hcrawls, crawlsTokens_split]
  have hhand : ∀ h, crawlTokens c h =
      downloading c.run.downloads h + waiting c.run.sink.drain h + waiting [md] h := by
    intro h
    simp [crawlTokens, hpc, inHand, waiting, List.countP_singleton]
  cases hsave
  cases hcrawl with
  | @deliver md' _ hpc' =>
    obtain rfl : md = md' := CrawlPC.delivering.inj (hpc.symm.trans hpc')
    refine ⟨consistent_replace hs.consistent hcrawls hc, hs.places.pass (fun h => ?_) fun h => ?_,
      hs.saved.of_eq rfl rfl rfl⟩
    · rw [crawlsTokens_split, hsplit, hhand]
      refine Nat.add_le_add_right (Nat.add_le_add_left ?_ _) _
      dsimp only
      split
      · simp [inHand, waiting, List.countP_singleton]
      · exact Nat.zero_le _
    · rw [crawlsTokens_split, hsplit, hhand]
      rcases s.save.queue.enqueue_cases md with ⟨hfull, hqueue⟩ | ⟨haccepted, hitems, -, -⟩
      · simp [crawlTokens, queueTokens, hfull, hqueue, inHand, waiting, List.countP_singleton,
          sharing]
      · simp [crawlTokens, queueTokens, haccepted, hitems, inHand, waiting, List.countP_singleton,
          sharing, hashes, List.count_append, List.count_singleton]
        omega

theorem count_hashes (items : List Record) (h : Bytes) :
    (hashes items).count h = items.countP fun r => decide (r.metadata.infoHash = h) := by
  rw [hashes, List.count, List.countP_map]
  exact List.countP_congr fun r _ => by simp

theorem waiting_metadata (items : List Record) (h : Bytes) :
    waiting (items.map Record.metadata) h =
      items.countP fun r => decide (r.metadata.infoHash = h) := List.countP_map

theorem ack_acked (q : WorkerQueue) (ids : List UInt64) :
    (q.ack ids).2 = (q.items.filter fun r => r.id ∈ ids).map Record.metadata := by
  simp only [WorkerQueue.ack]
  split_ifs with hacked
  · rfl
  · rw [List.length_eq_zero_iff.1 (Nat.eq_zero_of_not_pos hacked)]
    rfl

/-- Acknowledged records wait for `onAck`. -/
theorem WorkerRun.OnePlace.ack {s : WorkerRun} {ids : List UInt64} {save : SaveState}
    {cfg : WorkerConfig} (hs : s.OnePlace)
    (hsave : SaveStep cfg.workerID cfg.workerQueue cfg.cacheDir s.save (.ack ids) save) :
    WorkerRun.OnePlace { s with save := save, acked := s.acked ++ (s.save.queue.ack ids).2 } := by
  cases hsave
  refine ⟨hs.consistent, hs.places.pass (fun h => Nat.le_refl _) fun h => ?_,
    hs.saved.of_eq rfl rfl rfl⟩
  refine Nat.add_le_add_left (Nat.le_of_eq ?_) _
  have hparts := List.countP_eq_countP_filter_add s.save.queue.items
    (fun r => decide (r.metadata.infoHash = h)) (fun r => decide (r.id ∈ ids))
  simp only [queueTokens, WorkerQueue.ack_items, ack_acked, waiting_append, count_hashes,
    waiting_metadata, decide_not]
  omega

/-- `onAck` is called with metadata that no other place has. -/
theorem WorkerRun.OnePlace.onAck {s : WorkerRun} {pre post : List Metadata} {md : Metadata}
    {now : Int} {victim : Bytes} (hs : s.OnePlace) (hacked : s.acked = pre ++ md :: post)
    (hvictim : s.cache.IsVictim now victim) :
    WorkerRun.OnePlace { s with
      cache := s.cache.expireAfter md.infoHash ackExpiry now victim
      acked := pre ++ post } := by
  have hwaiting : ∀ h, queueTokens s h = queueTokens { s with acked := pre ++ post } h +
      waiting [md] h := by
    intro h
    simp only [queueTokens, hacked, waiting_append]
    rw [waiting_cons]
    omega
  refine ⟨hs.consistent, hs.places.expire ackExpiry hvictim ?_ fun h => ?_, hs.saved⟩
  · rw [hwaiting]
    refine Nat.add_le_add_left (Nat.le_of_eq ?_) _
    simp [waiting]
  · rw [hwaiting]
    exact Nat.le_add_right _ _

theorem WorkerRun.OnePlace.save {s : WorkerRun} {a : SaveAction} {save : SaveState}
    {cfg : WorkerConfig} (hs : s.OnePlace)
    (ha : a ∈ [.swap, .copy, .marshal, .write, .rename, .fail])
    (hsave : SaveStep cfg.workerID cfg.workerQueue cfg.cacheDir s.save a save) :
    WorkerRun.OnePlace { s with save := save } := by
  obtain ⟨hsaved, hitems⟩ := hs.saved.step hs.nodup ha hsave
  refine ⟨hs.consistent, hs.places.pass (fun h => Nat.le_refl _) fun h => ?_, hsaved⟩
  refine Nat.add_le_add_left (Nat.le_of_eq ?_) _
  simp only [queueTokens, hitems]

/-- A process that starts with an empty cache has its restored records only. -/
theorem places_restored {items : List Record} (h : (hashes items).Nodup) :
    Places emptyInfoHashCache (hashes items) (fun _ => 0) fun h => (hashes items).count h where
  expiring _ hmem := (AList.notMem_empty _ hmem).elim
  once infoHash := by
    rw [Nat.zero_add]
    exact List.nodup_iff_count_le_one.1 h infoHash
  crawled _ hpos := (Nat.lt_irrefl 0 hpos).elim
  queued _ hpos := .inr ⟨List.count_pos_iff.1 hpos, Finset.notMem_empty _⟩

theorem WorkerRun.OnePlace.restart {s : WorkerRun} (hs : s.OnePlace) (cfg : WorkerConfig) :
    WorkerRun.OnePlace {
      cache := emptyInfoHashCache
      crawls := []
      save := { s.save with saving := .idle, queue := runWorker cfg fun _ => s.save.file }
      acked := []
      restored := hashes (runWorker cfg fun _ => s.save.file).items } :=
  ⟨fun _ hc => (List.not_mem_nil hc).elim, places_restored (hs.saved.restored cfg),
    hs.saved.file, trivial⟩

theorem WorkerRun.OnePlace.init {cfg : WorkerConfig} {crawl : CrawlConfig} {s : WorkerRun}
    (h : (runSystem cfg crawl).init s) : s.OnePlace := by
  obtain ⟨hcache, hcrawls, hacked, hrestored, hqueue, hidle, hfile⟩ := h
  have hitems : hashes s.save.queue.items = [] := by rw [hqueue, hashes_runWorker_none]
  have htokens : queueTokens s = fun h => ([] : List Bytes).count h := by
    funext h
    rw [queueTokens, hitems, hacked]
    rfl
  refine ⟨?_, ?_, ⟨?_, ?_⟩⟩
  · rw [hcrawls]
    exact fun c hc => (List.not_mem_nil hc).elim
  · rw [hcache, hcrawls, hrestored, htokens]
    exact @places_restored [] List.nodup_nil
  · rw [hfile]
    exact nofun
  · rw [hidle]
    trivial

theorem WorkerRun.OnePlace.step {cfg : WorkerConfig} {crawl : CrawlConfig} {s s' : WorkerRun}
    {a : RunAction} (hs : s.OnePlace) (hstep : RunStep cfg crawl s a s') (hnew : FindsNew s a) :
    s'.OnePlace := by
  cases hstep with
  | startCrawl =>
    refine ⟨fun c hc => ?_, hs.places.pass (fun h => ?_) fun h => ?_, hs.saved⟩
    · rcases List.mem_append.1 hc with hc | hc
      · exact hs.consistent c hc
      · obtain rfl := List.mem_singleton.1 hc
        exact nofun
    · simp [crawlsTokens, crawlTokens, newCrawl, downloading, waiting, inHand, newSink]
    · simp [crawlsTokens, crawlTokens, newCrawl, downloading, waiting, inHand, newSink, queueTokens]
  | @crawl pre post c c' a hcrawls hdeliver hexpire hcrawl =>
    obtain ⟨hconsistent, heffect⟩ := crawlStep_effect hcrawl
      (show AllConsistent (sharing s.cache c) from hs.consistent c (by simp [hcrawls]))
      hdeliver hexpire
    exact hs.crawl hcrawls hconsistent heffect hnew
  | deliver hcrawls hpc hsave hcrawl => exact hs.deliver hcrawls hpc hsave hcrawl
  | ack hsave => exact hs.ack hsave
  | onAck hacked hvictim => exact hs.onAck hacked hvictim
  | save ha hsave => exact hs.save ha hsave
  | restart => exact hs.restart cfg

/-- If no crawl takes up an info hash whose record the process has restored and not yet
    passed on, the queue has one record at most for each info hash, in every state. -/
theorem one_record {cfg : WorkerConfig} {crawl : CrawlConfig} {s : WorkerRun}
    (h : ((runSystem cfg crawl).restrict FindsNew).Reachable s) :
    (hashes s.save.queue.items).Nodup := by
  have hplaces : s.OnePlace := by
    refine System.invariant (P := WorkerRun.OnePlace) ?_ ?_ h
    · exact fun s hinit => @WorkerRun.OnePlace.init cfg crawl s hinit
    · exact fun s a s' _ hs hstep => hs.step hstep.1 hstep.2
  exact hplaces.nodup

/-! ## A torrent that is found twice -/

def foundMetadata : Metadata := ⟨List.replicate 20 7, 4, [], 0, 0, []⟩

def foundResult : Result := ⟨List.replicate 20 7, [samplePeer], 4⟩

/-- A step of the only crawl of a process. -/
theorem crawl_alone {cfg : WorkerConfig} {crawl : CrawlConfig}
    {ok : WorkerRun → RunAction → Prop} {s : WorkerRun} {c c' : CrawlState} {a : CrawlAction}
    (hreach : ((runSystem cfg crawl).restrict ok).Reachable s) (hcrawls : s.crawls = [c])
    (hstep : CrawlStep false (sharing s.cache c) a c')
    (hdeliver : ∀ accepted, a ≠ .deliver accepted)
    (hexpire : ∀ infoHash ttl now victim, a ≠ .expireAfter infoHash ttl now victim)
    (hok : ok s (.crawl a)) :
    ((runSystem cfg crawl).restrict ok).Reachable { s with cache := c'.cache, crawls := [c'] } :=
  hreach.step ⟨@RunStep.crawl _ _ _ [] [] _ _ _ hcrawls hdeliver hexpire hstep, hok⟩

/-- A process without crawls and with an empty cache finds a torrent and delivers it. -/
theorem finds {cfg : WorkerConfig} {networks : Nat} {ok : WorkerRun → RunAction → Prop}
    {s : WorkerRun} (hreach : ((runSystem cfg ⟨1, 1, networks, false⟩).restrict ok).Reachable s)
    (hcache : s.cache = emptyInfoHashCache) (hcrawls : s.crawls = [])
    (hok : ∀ t a, t.restored = s.restored → ok t a) :
    ∃ cache crawls moments, ((runSystem cfg ⟨1, 1, networks, false⟩).restrict ok).Reachable
      ⟨cache, crawls, { s.save with
        queue := (s.save.queue.enqueue foundMetadata).1, moments := moments },
        s.acked, s.restored⟩ := by
  obtain ⟨cache, crawls, save, acked, restored⟩ := s
  cases hcache
  cases hcrawls
  have hstarted := hreach.step ⟨RunStep.startCrawl, hok _ _ rfl⟩
  have htaken := crawl_alone hstarted rfl
    (@CrawlStep.takeNew _ _ foundResult 0 _ rfl rfl) nofun nofun (hok _ _ rfl)
  have haccepted := crawl_alone htaken rfl
    (.sinkAccepts rfl rfl (.accept rfl)) nofun nofun (hok _ _ rfl)
  have hwaiting := crawl_alone haccepted rfl
    (.download (@SinkStep.download _ [] [] _ _ _ _ rfl (.start rfl))) nofun nofun (hok _ _ rfl)
  have hrunning := crawl_alone hwaiting rfl
    (.download (@SinkStep.download _ [] [] _ _ _ _ rfl (.acquire Nat.one_pos))) nofun nofun
    (hok _ _ rfl)
  have hflushing := crawl_alone hrunning rfl
    (.download (@SinkStep.download _ [] [] _ _ _ _ rfl
      (@DownloadStep.onSuccess _ _ _ _ { foundMetadata with family := 0 } rfl))) nofun nofun
    (hok _ _ rfl)
  have hlocked := crawl_alone hflushing rfl
    (.download (@SinkStep.download _ [] [] _ _ _ _ rfl (.lock nofun))) nofun nofun (hok _ _ rfl)
  have hsending := crawl_alone hlocked rfl
    (.download (@SinkStep.download _ [] [] _ _ _ _ rfl (.take rfl))) nofun nofun (hok _ _ rfl)
  have hsent := crawl_alone hsending rfl
    (.download (@SinkStep.download _ [] [] _ _ _ _ rfl (.send (Nat.succ_pos 9)))) nofun nofun
    (hok _ _ rfl)
  have hreceived := crawl_alone hsent rfl
    (.takeMetadata rfl (.receive rfl)) nofun nofun (hok _ _ rfl)
  have hdelivered := hreceived.step ⟨@RunStep.deliver _ _ _ [] [] _ _ _ _ rfl rfl .enqueue
    (.deliver rfl), hok _ _ rfl⟩
  exact ⟨_, _, _, hdelivered⟩

/-- A process saves its queue and ends, and a new one loads the file. -/
theorem saves {cfg : WorkerConfig} {crawl : CrawlConfig} {ok : WorkerRun → RunAction → Prop}
    {s : WorkerRun} (hreach : ((runSystem cfg crawl).restrict ok).Reachable s)
    (hidle : s.save.saving = .idle) (hpath : s.save.queue.cachePath ≠ [])
    (hdirty : s.save.queue.cacheDirty = true) (hok : ∀ t a, ok t a) :
    ((runSystem cfg crawl).restrict ok).Reachable ⟨emptyInfoHashCache, [], { s.save with
      queue := runWorker cfg fun _ => some (encodeRecords s.save.queue.items)
      saving := .idle
      temporary := none
      file := some (encodeRecords s.save.queue.items) }, [],
      hashes (runWorker cfg fun _ => some (encodeRecords s.save.queue.items)).items⟩ := by
  have hswapped := hreach.step ⟨.save (by simp) (.swap hidle hpath hdirty), hok _ _⟩
  have hcopied := hswapped.step ⟨.save (by simp) (.copy rfl), hok _ _⟩
  have hmarshalled := hcopied.step ⟨.save (by simp) (.marshal rfl), hok _ _⟩
  have hwritten := hmarshalled.step ⟨.save (by simp) (.write rfl), hok _ _⟩
  have hsaved := hwritten.step ⟨.save (by simp) (.rename rfl), hok _ _⟩
  exact hsaved.step ⟨.restart, hok _ _⟩

/-- A worker in push mode with room for two records. -/
def savingWorker : WorkerConfig :=
  ⟨ascii "w1", 2, ascii "http://master", ascii "t", 16, ascii "/cache", ascii ":4200"⟩

theorem savingWorker_init : ((runSystem savingWorker ⟨1, 1, 1, false⟩).restrict FindsNew).Reachable
    ⟨emptyInfoHashCache, [], ⟨runWorker savingWorker fun _ => none, .idle, none, none, []⟩, [], []⟩ :=
  .init ⟨rfl, rfl, rfl, rfl, rfl, rfl, rfl⟩

/-- The torrent is in the queue. -/
theorem savingWorker_finds : ∃ cache crawls moments,
    ((runSystem savingWorker ⟨1, 1, 1, false⟩).restrict FindsNew).Reachable
      ⟨cache, crawls, ⟨((runWorker savingWorker fun _ => none).enqueue foundMetadata).1, .idle, none,
        none, moments⟩, [], []⟩ := by
  refine finds savingWorker_init rfl rfl fun t a ht => ?_
  cases a with
  | crawl a =>
    cases a with
    | takeResult res now =>
      intro _ hrestored
      rw [ht] at hrestored
      exact (List.not_mem_nil hrestored).elim
    | _ => trivial
  | _ => trivial

theorem one_record_found : ∃ s : WorkerRun,
    hashes s.save.queue.items = [foundMetadata.infoHash] ∧ (hashes s.save.queue.items).Nodup := by
  obtain ⟨_, _, _, hreach⟩ := savingWorker_finds
  exact ⟨_, rfl, one_record hreach⟩

/-- A push worker saves its only record and is restarted; it restores the record, finds the
    torrent again, and puts a second record for it into the queue. -/
theorem two_records : ∃ s, (runSystem savingWorker ⟨1, 1, 1, false⟩).Reachable s ∧
    hashes s.save.queue.items = [foundMetadata.infoHash, foundMetadata.infoHash] ∧
      ¬ (hashes s.save.queue.items).Nodup := by
  obtain ⟨cache, crawls, moments, hfound⟩ := savingWorker_finds
  have hfree : ((runSystem savingWorker ⟨1, 1, 1, false⟩).restrict fun _ _ => True).Reachable _ :=
    hfound.restrict_mono fun _ _ _ => trivial
  have hpath : ((runWorker savingWorker fun _ => none).enqueue foundMetadata).1.cachePath ≠ [] := by
    decide +kernel
  have hitems : hashes ((runWorker savingWorker fun _ => some (encodeRecords
      ((runWorker savingWorker fun _ => none).enqueue foundMetadata).1.items)).enqueue
        foundMetadata).1.items = [foundMetadata.infoHash, foundMetadata.infoHash] := by
    decide +kernel
  obtain ⟨_, _, _, hagain⟩ := finds (saves hfree rfl hpath rfl fun _ _ => trivial) rfl rfl
    fun _ _ _ => trivial
  refine ⟨_, hagain.of_restrict, ?_⟩
  dsimp only
  rw [hitems]
  exact ⟨rfl, fun hnodup => (List.nodup_cons.1 hnodup).1 (List.mem_singleton_self _)⟩

end Cluster
