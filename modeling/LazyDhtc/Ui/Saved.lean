-- SUMMARY: Clearing the captured data of a standalone node, and when the info-hash cache agrees with the cleared database.
import LazyDhtc.Db.Ingest
import LazyDhtc.Lib.Hex
import LazyDhtc.Ui.Crawl

/-!
# Captured data

A standalone node fills its info-hash cache from the database when it starts. From then on
the crawls change the cache and the calls of `IngestMetadata` the database, and nothing but
a restart brings the two together: `ClearDataPost` empties the database only.
-/

namespace Ui

open Cache Db DhtClient Transition

/-! ## The cache and the database -/

/-- `PopulateInfoHashCacheFromDatabase` in a process that has just started. -/
def populate (db : Database) (now : Int) : InfoHashCache :=
  db.torrents.foldl (fun c t =>
    match Hex.decode t.infoHash with
    | some infoHash => (c.add infoHash now).1
    | none => c) emptyInfoHashCache

/-- The info hashes that it adds. -/
def loadedFrom (db : Database) : List Bytes :=
  db.torrents.filterMap fun t => Hex.decode t.infoHash

/-- How the two deletions of `ClearCapturedData` end. -/
inductive ClearOutcome where
  | cleared
  | torrentsFail
  | statsFail

/-- `ClearCapturedData`, and whether it returns no error: GORM deletes in a transaction. -/
def clearCapturedData (b : Backend) (outcome : ClearOutcome) (db : Database) : Database × Bool :=
  match outcome, b with
  | .cleared, _ => ({ db with torrents := [] }, true)
  | .torrentsFail, _ => (db, false)
  | .statsFail, .clover => ({ db with torrents := [] }, false)
  | .statsFail, .gorm _ => (db, false)

inductive ClearResponse where
  | badRequest
  | internalServerError
  | seeOther
deriving DecidableEq

def clearDataPost (b : Backend) (confirm : Bytes) (outcome : ClearOutcome) (db : Database) :
    Database × ClearResponse :=
  if confirm ≠ ascii "CLEAR" then (db, .badRequest)
  else
    match clearCapturedData b outcome db with
    | (db, false) => (db, .internalServerError)
    | (db, true) => (db, .seeOther)

/-- The cache refuses the info hashes that it would refuse after a restart. -/
def AgreesWithRestart (c : InfoHashCache) (db : Database) : Prop :=
  ∀ infoHash now start, (c.add infoHash now).2 = ((populate db start).add infoHash now).2

/-! ## A standalone node -/

/-- A crawl, and the call of `IngestMetadata` that it is in. -/
structure NodeCrawl where
  state : CrawlState
  call : Option Call

/-- How info hashes get into the cache and out of it. -/
inductive HashEvent where
  | loaded (infoHash : Bytes)
  | accepted (infoHash : Bytes)
  | removed (infoHash : Bytes)
deriving DecidableEq

/-- All crawls of the process share its cache: the field of that name in their states is the
    node's at each of their steps. `history` records what has happened to the cache. -/
structure NodeState where
  db : Database
  cache : InfoHashCache
  crawls : List NodeCrawl
  history : List HashEvent

inductive NodeAction where
  | startCrawl (cfg : CrawlConfig)
  | crawl (a : CrawlAction)
  | ingest (md : Metadata)
  | statement (c : Call) (a : CallAction)
  | deliver (inserted : Bool)
  | configure
  | clear (confirm : Bytes) (outcome : ClearOutcome)

/-- What a crawl's step does to the cache. -/
def crawlEvents (s : CrawlState) : CrawlAction → List HashEvent
  | .takeResult res now => if (s.cache.add res.infoHash now).2 then [.accepted res.infoHash] else []
  | .remove =>
    match s.pc with
    | .removing infoHash => [.removed infoHash]
    | _ => []
  | .download infoHash .discard => [.removed infoHash]
  | _ => []

/-- The actions of a crawl that are steps of the node as they are: metadata are delivered by
    a call of `IngestMetadata`, and no info hash is acked. -/
def CrawlAction.plain : CrawlAction → Bool
  | .deliver _ => false
  | .expireAfter _ _ _ _ => false
  | _ => true

inductive NodeStep (env : Db.Environment) : NodeState → NodeAction → NodeState → Prop where
  | startCrawl {s : NodeState} {cfg : CrawlConfig} : cfg.hasDatabase = true →
      NodeStep env s (.startCrawl cfg)
        { s with crawls := s.crawls ++ [⟨newCrawl cfg s.cache, none⟩] }
  | crawl {s : NodeState} {pre post : List NodeCrawl} {n : NodeCrawl} {a : CrawlAction}
      {c : CrawlState} : s.crawls = pre ++ n :: post → a.plain = true →
      CrawlStep true { n.state with cache := s.cache } a c →
      NodeStep env s (.crawl a)
        { s with
          cache := c.cache
          crawls := pre ++ ⟨c, n.call⟩ :: post
          history := s.history ++ crawlEvents { n.state with cache := s.cache } a }
  | ingest {s : NodeState} {pre post : List NodeCrawl} {c : CrawlState} {md : Metadata} :
      s.crawls = pre ++ ⟨c, none⟩ :: post → c.pc = .delivering md →
      NodeStep env s (.ingest md) { s with crawls := pre ++ ⟨c, some (.start md)⟩ :: post }
  | statement {s : NodeState} {pre post : List NodeCrawl} {c : CrawlState} {call call' : Call}
      {a : CallAction} {db : Database} : s.crawls = pre ++ ⟨c, some call⟩ :: post →
      CallStep env s.db call a db call' →
      NodeStep env s (.statement call a)
        { s with db := db, crawls := pre ++ ⟨c, some call'⟩ :: post }
  | deliver {s : NodeState} {pre post : List NodeCrawl} {c c' : CrawlState} {call : Call}
      {inserted : Bool} : s.crawls = pre ++ ⟨c, some call⟩ :: post →
      call.pc = .returned inserted →
      CrawlStep true { c with cache := s.cache } (.deliver inserted) c' →
      NodeStep env s (.deliver inserted) { s with crawls := pre ++ ⟨c', none⟩ :: post }
  | configure {s : NodeState} {blacklist : List BlacklistEntry} {watches : List WatchEntry} :
      NodeStep env s .configure
        { s with db := { s.db with blacklist := blacklist, watches := watches } }
  | clear {s : NodeState} {confirm : Bytes} {outcome : ClearOutcome} :
      NodeStep env s (.clear confirm outcome)
        { s with db := (clearDataPost env.backend confirm outcome s.db).1 }

/-- Every run of the process, from its start with some database; the query of all info hashes
    may fail. -/
def nodeSystem (env : Db.Environment) : System NodeState NodeAction where
  init s := s.crawls = [] ∧
    ((∃ now, s.cache = populate s.db now ∧ s.history = (loadedFrom s.db).map .loaded) ∨
      s.cache = emptyInfoHashCache ∧ s.history = [])
  step := NodeStep env

/-! ## The history of the cache -/

/-- The info hash has been loaded or accepted, and not removed since. -/
def Holds (history : List HashEvent) (infoHash : Bytes) : Prop :=
  ∃ pre e post, history = pre ++ e :: post ∧ (e = .loaded infoHash ∨ e = .accepted infoHash) ∧
    .removed infoHash ∉ post

theorem not_holds_nil (infoHash : Bytes) : ¬ Holds [] infoHash := by
  rintro ⟨pre, e, post, h, -⟩
  simp at h

theorem holds_append_singleton {history : List HashEvent} {e : HashEvent} {infoHash : Bytes} :
    Holds (history ++ [e]) infoHash ↔
      (e = .loaded infoHash ∨ e = .accepted infoHash) ∨
        Holds history infoHash ∧ e ≠ .removed infoHash := by
  constructor
  · rintro ⟨pre, e', post, h, htakes, hpost⟩
    rcases List.eq_nil_or_concat post with rfl | ⟨post', last, rfl⟩
    · obtain ⟨-, rfl⟩ := List.append_singleton_inj.1 h
      exact .inl htakes
    · rw [show pre ++ e' :: post'.concat last = (pre ++ e' :: post') ++ [last] by simp] at h
      obtain ⟨rfl, rfl⟩ := List.append_singleton_inj.1 h
      simp only [List.concat_eq_append, List.mem_append, List.mem_singleton, not_or] at hpost
      exact .inr ⟨⟨pre, e', post', rfl, htakes, hpost.1⟩, Ne.symm hpost.2⟩
  · rintro (htakes | ⟨⟨pre, e', post, rfl, htakes, hpost⟩, hne⟩)
    · exact ⟨history, e, [], rfl, htakes, List.not_mem_nil⟩
    · refine ⟨pre, e', post ++ [e], by simp, htakes, ?_⟩
      simp only [List.mem_append, List.mem_singleton, not_or]
      exact ⟨hpost, Ne.symm hne⟩

/-- The cache has no times, and holds what its history says. -/
structure Recorded (c : InfoHashCache) (history : List HashEvent) : Prop where
  untimed : c.infoHashExpiry = ∅
  mem_iff : ∀ infoHash, infoHash ∈ c.infoHashCache ↔ Holds history infoHash

theorem recorded_empty : Recorded emptyInfoHashCache [] :=
  ⟨rfl, fun infoHash => iff_of_false (Finset.notMem_empty _) (not_holds_nil infoHash)⟩

theorem add_of_no_times {c : InfoHashCache} (hc : c.infoHashExpiry = ∅) (infoHash : Bytes)
    (now : Int) : c.add infoHash now =
      ({ c with infoHashCache := insert infoHash c.infoHashCache },
        decide (infoHash ∉ c.infoHashCache)) := by
  simp only [InfoHashCache.add, hc, AList.lookup_empty, decide_not]

theorem Recorded.add_new {c : InfoHashCache} {history : List HashEvent} (hc : Recorded c history)
    (infoHash : Bytes) (now : Int) {e : HashEvent}
    (he : e = .loaded infoHash ∨ e = .accepted infoHash) :
    Recorded (c.add infoHash now).1 (history ++ [e]) := by
  rw [add_of_no_times hc.untimed]
  refine ⟨hc.untimed, fun h => ?_⟩
  rw [holds_append_singleton, Finset.mem_insert, hc.mem_iff]
  rcases he with rfl | rfl
  · simp [eq_comm]
  · simp [eq_comm]

theorem Recorded.remove {c : InfoHashCache} {history : List HashEvent} (hc : Recorded c history)
    (infoHash : Bytes) : Recorded (c.remove infoHash) (history ++ [.removed infoHash]) := by
  refine ⟨?_, fun h => ?_⟩
  · rw [InfoHashCache.remove, hc.untimed]
    rfl
  · rw [holds_append_singleton, InfoHashCache.mem_remove, hc.mem_iff]
    simp [and_comm, eq_comm]

theorem Recorded.crawlStep {s s' : CrawlState} {a : CrawlAction} {history : List HashEvent}
    (hs : Recorded s.cache history) (hstep : CrawlStep true s a s') (ha : a.plain = true) :
    Recorded s'.cache (history ++ crawlEvents s a) := by
  cases hstep with
  | @takeNew res now c _ hadd =>
    have hnew := hs.add_new res.infoHash now (.inr rfl)
    rw [hadd] at hnew
    simpa only [crawlEvents, hadd, if_true] using hnew
  | @takeKnown res now c _ hadd =>
    have hsame := InfoHashCache.add_false hadd
    subst hsame
    simpa [crawlEvents, hadd] using hs
  | @remove infoHash hpc => simpa only [crawlEvents, hpc] using hs.remove infoHash
  | @download infoHash a run hrun =>
    cases a with
    | discard => exact hs.remove infoHash
    | _ => simpa [crawlEvents, cacheAfter] using hs
  | deliver => cases ha
  | expireAfter => cases ha
  | _ => simpa [crawlEvents] using hs

theorem Recorded.populate {c : InfoHashCache} {history : List HashEvent} (hc : Recorded c history)
    (now : Int) (torrents : List Torrent) :
    Recorded (torrents.foldl (fun c t =>
      match Hex.decode t.infoHash with
      | some infoHash => (c.add infoHash now).1
      | none => c) c)
      (history ++ (torrents.filterMap fun t => Hex.decode t.infoHash).map .loaded) := by
  induction torrents generalizing c history with
  | nil => simpa using hc
  | cons t torrents ih =>
    rw [List.foldl_cons, List.filterMap_cons]
    cases Hex.decode t.infoHash with
    | none => exact ih hc
    | some infoHash => simpa using ih (hc.add_new infoHash now (.inl rfl))

theorem NodeStep.recorded {env : Db.Environment} {s s' : NodeState} {a : NodeAction}
    (hstep : NodeStep env s a s') (hs : Recorded s.cache s.history) :
    Recorded s'.cache s'.history := by
  cases hstep with
  | crawl _ ha hcrawl => exact Recorded.crawlStep hs hcrawl ha
  | _ => exact hs

theorem nodeSystem_recorded {env : Db.Environment} {s : NodeState}
    (h : (nodeSystem env).Reachable s) : Recorded s.cache s.history := by
  refine System.invariant (P := fun s : NodeState => Recorded s.cache s.history) ?_
    (fun s a s' _ hs (hstep : NodeStep env s a s') => hstep.recorded hs) h
  rintro s ⟨-, ⟨now, hcache, hhistory⟩ | ⟨hcache, hhistory⟩⟩
  · rw [hcache, hhistory]
    exact recorded_empty.populate now s.db.torrents
  · rw [hcache, hhistory]
    exact recorded_empty

/-! ## Clearing -/

theorem clearDataPost_seeOther {b : Backend} {confirm : Bytes} {outcome : ClearOutcome}
    {db : Database} (h : (clearDataPost b confirm outcome db).2 = .seeOther) :
    (clearDataPost b confirm outcome db).1 = { db with torrents := [] } := by
  unfold clearDataPost at h ⊢
  split at h
  · cases h
  · next hconfirm =>
    rw [if_neg hconfirm]
    cases outcome with
    | cleared => rfl
    | torrentsFail => cases h
    | statsFail => cases b <;> cases h

/-- What clearing should do: the cache refuses what it would refuse after a restart, so that
    every torrent that was stored can be captured again. -/
structure ClearForgets (s s' : NodeState) : Prop where
  restart : AgreesWithRestart s'.cache s'.db
  recapture : ∀ t ∈ s.db.torrents, ∀ infoHash, Hex.decode t.infoHash = some infoHash →
    ∀ now, (s'.cache.add infoHash now).2 = true

theorem Recorded.add_eq_true_iff {c : InfoHashCache} {history : List HashEvent}
    (hc : Recorded c history) (infoHash : Bytes) (now : Int) :
    (c.add infoHash now).2 = true ↔ ¬ Holds history infoHash := by
  rw [add_of_no_times hc.untimed, ← hc.mem_iff]
  exact decide_eq_true_iff

theorem agreesWithRestart_iff {c : InfoHashCache} {history : List HashEvent}
    (hc : Recorded c history) {db : Database} (hdb : db.torrents = []) :
    AgreesWithRestart c db ↔ ∀ infoHash, ¬ Holds history infoHash := by
  have hempty : ∀ start, populate db start = emptyInfoHashCache := fun start => by
    rw [populate, hdb, List.foldl_nil]
  have hnew : ∀ infoHash now, (emptyInfoHashCache.add infoHash now).2 = true := fun _ _ =>
    (recorded_empty.add_eq_true_iff _ _).2 (not_holds_nil _)
  simp only [AgreesWithRestart, hempty, hnew, hc.add_eq_true_iff, forall_const]

/-- A node with SQLite and no filters. -/
def plainNode : Db.Environment := ⟨⟨false, false, 0⟩, .gorm sqlite, fun _ => none, false⟩

/-- The database of a node that has captured some torrents. -/
def capturedDatabase (torrents : List Torrent) : Database := ⟨torrents, 2, [], []⟩

/-- The node when it has loaded them. -/
def startedNode (torrents : List Torrent) : NodeState where
  db := capturedDatabase torrents
  cache := populate (capturedDatabase torrents) 0
  crawls := []
  history := (loadedFrom (capturedDatabase torrents)).map .loaded

theorem startedNode_reachable (torrents : List Torrent) :
    (nodeSystem plainNode).Reachable (startedNode torrents) :=
  .init ⟨rfl, .inl ⟨0, rfl, rfl⟩⟩

end Ui
