-- SUMMARY: Calls of IngestMetadata that run at once, one database statement at a time.
import LazyDhtc.Db.Watch
import LazyDhtc.Lib.Transition

/-!
# Ingesting

The crawler, the puller and the push handler call `IngestMetadata` from goroutines of their
own. A call filters, inserts, prunes and, if it has inserted, notifies and broadcasts. The
statements of one call are steps of their own, so that those of others come in between.
Every statement may fail.
-/

namespace Db

open DhtClient Transition

/-- What stays the same while the process runs. -/
structure Environment where
  cfg : Configuration
  backend : Backend
  compile : Compile
  hasManager : Bool

structure Database where
  torrents : List Torrent
  /-- The ID of the next torrent: no ID is given out twice. -/
  nextID : Nat
  blacklist : List BlacklistEntry
  watches : List WatchEntry

/-- A torrent with this info hash is stored. -/
def Database.stores (db : Database) (md : Metadata) : Bool :=
  db.torrents.any fun t => t.infoHash = encodeToString md.infoHash

/-- Whether an insert succeeds: the table of GORM has a unique index on the info hash. The
    index of the IDs never objects. -/
def Backend.admits (b : Backend) (db : Database) (md : Metadata) : Bool :=
  match b with
  | .clover => true
  | .gorm _ => !db.stores md

/-- A result of selecting the `limit` oldest torrents, with ties broken somehow. -/
structure Oldest (torrents : List Torrent) (limit : Nat) (selected : List Torrent) : Prop where
  subset : selected ⊆ torrents
  nodup : selected.Nodup
  length : selected.length = min limit torrents.length
  sorted : selected.Pairwise fun t u => t.discoveredOn ≤ u.discoveredOn
  oldest : ∀ t ∈ selected, ∀ u ∈ torrents, u ∉ selected → t.discoveredOn ≤ u.discoveredOn

/-- The torrents that are left when some are deleted by their IDs. -/
def deleteByIDs (torrents selected : List Torrent) : List Torrent :=
  torrents.filter fun t => t.id ∉ selected.map Torrent.id

/-! ## One call -/

inductive CallPC where
  | filtering
  | inserting
  | counting
  | selecting (count : Nat)
  | deleting (selected : List Torrent)
  | checkingWatches
  | broadcasting
  | returned (inserted : Bool)
deriving DecidableEq

structure Call where
  md : Metadata
  pc : CallPC
  /-- When the call was decided, its info hash was stored. -/
  repeated : Bool
  notifications : List (WatchEntry × Bytes)
  broadcast : Bool
deriving DecidableEq

def Call.start (md : Metadata) : Call := ⟨md, .filtering, false, [], false⟩

/-- The call is inside `InsertMetadata`. -/
def Call.inserts (c : Call) : Bool :=
  match c.pc with
  | .filtering | .inserting | .counting | .selecting _ | .deleting _ => true
  | .checkingWatches | .broadcasting | .returned _ => false

/-- The torrents that the call is about to delete. -/
def CallPC.selected : CallPC → List Torrent
  | .deleting selected => selected
  | _ => []

inductive CallAction where
  | filter
  | insert
  | refuse
  | count
  | select (selected : List Torrent)
  | delete
  | pruneFails
  | checkWatches
  | broadcast

inductive CallStep (env : Environment) :
    Database → Call → CallAction → Database → Call → Prop where
  | reject {db : Database} {c : Call} : c.pc = .filtering →
      filtered env.cfg env.compile db.blacklist c.md = true →
      CallStep env db c .filter db { c with pc := .returned false, repeated := db.stores c.md }
  | pass {db : Database} {c : Call} : c.pc = .filtering →
      filtered env.cfg env.compile db.blacklist c.md = false →
      CallStep env db c .filter db { c with pc := .inserting }
  | insert {db : Database} {c : Call} {categories : List Bytes} : c.pc = .inserting →
      env.backend.admits db c.md = true → categories.Perm (categorize c.md) →
      CallStep env db c .insert
        { db with
          torrents := db.torrents ++ [.ofMetadata db.nextID c.md categories]
          nextID := db.nextID + 1 }
        { c with pc := .counting, repeated := db.stores c.md }
  | refuse {db : Database} {c : Call} : c.pc = .inserting →
      CallStep env db c .refuse db { c with pc := .returned false, repeated := db.stores c.md }
  | countFew {db : Database} {c : Call} : c.pc = .counting →
      env.cfg.maxSavedTorrents ≤ 0 ∨ (db.torrents.length : Int) ≤ env.cfg.maxSavedTorrents →
      CallStep env db c .count db { c with pc := .checkingWatches }
  | countMany {db : Database} {c : Call} : c.pc = .counting → 0 < env.cfg.maxSavedTorrents →
      env.cfg.maxSavedTorrents < (db.torrents.length : Int) →
      CallStep env db c .count db { c with pc := .selecting db.torrents.length }
  | select {db : Database} {c : Call} {count : Nat} {selected : List Torrent} :
      c.pc = .selecting count →
      Oldest db.torrents (count - env.cfg.maxSavedTorrents.toNat) selected →
      CallStep env db c (.select selected) db { c with pc := .deleting selected }
  /-- GORM deletes with one statement. -/
  | deleteAll {db : Database} {c : Call} {e : SqlEngine} {selected : List Torrent} :
      env.backend = .gorm e → c.pc = .deleting selected →
      CallStep env db c .delete { db with torrents := deleteByIDs db.torrents selected }
        { c with pc := .checkingWatches }
  /-- Clover deletes one torrent after the other. -/
  | deleteOne {db : Database} {c : Call} {t : Torrent} {selected : List Torrent} :
      env.backend = .clover → c.pc = .deleting (t :: selected) →
      CallStep env db c .delete { db with torrents := deleteByIDs db.torrents [t] }
        { c with pc := .deleting selected }
  | deleteDone {db : Database} {c : Call} : env.backend = .clover → c.pc = .deleting [] →
      CallStep env db c .delete db { c with pc := .checkingWatches }
  | countFails {db : Database} {c : Call} : c.pc = .counting →
      CallStep env db c .pruneFails db { c with pc := .checkingWatches }
  | selectFails {db : Database} {c : Call} {count : Nat} : c.pc = .selecting count →
      CallStep env db c .pruneFails db { c with pc := .checkingWatches }
  | deleteAllFails {db : Database} {c : Call} {e : SqlEngine} {selected : List Torrent} :
      env.backend = .gorm e → c.pc = .deleting selected →
      CallStep env db c .pruneFails db { c with pc := .checkingWatches }
  | deleteOneFails {db : Database} {c : Call} {t : Torrent} {selected : List Torrent} :
      env.backend = .clover → c.pc = .deleting (t :: selected) →
      CallStep env db c .pruneFails db { c with pc := .deleting selected }
  | checkWatches {db : Database} {c : Call} : c.pc = .checkingWatches →
      CallStep env db c .checkWatches db { c with
        pc := .broadcasting
        notifications := Db.checkWatches env.hasManager env.backend db.torrents db.watches c.md }
  | broadcast {db : Database} {c : Call} : c.pc = .broadcasting →
      CallStep env db c .broadcast db { c with pc := .returned true, broadcast := true }

/-! ## All calls -/

structure RepositoryState where
  db : Database
  calls : List Call

inductive RepositoryAction where
  | ingest (md : Metadata)
  | call (c : Call) (a : CallAction)
  | configure

inductive RepositoryStep (env : Environment) :
    RepositoryState → RepositoryAction → RepositoryState → Prop where
  | ingest {s : RepositoryState} {md : Metadata} :
      RepositoryStep env s (.ingest md) { s with calls := s.calls ++ [.start md] }
  | call {s : RepositoryState} {pre post : List Call} {c c' : Call} {a : CallAction}
      {db : Database} : s.calls = pre ++ c :: post → CallStep env s.db c a db c' →
      RepositoryStep env s (.call c a) ⟨db, pre ++ c' :: post⟩
  /-- The watch entries and the blacklist are edited. -/
  | configure {s : RepositoryState} {blacklist : List BlacklistEntry} {watches : List WatchEntry} :
      RepositoryStep env s .configure
        { s with db := { s.db with blacklist := blacklist, watches := watches } }

/-- The repository is opened with some torrents, which have distinct IDs. -/
def repositorySystem (env : Environment) (start : List Torrent → Prop) :
    System RepositoryState RepositoryAction where
  init s := (s.db.torrents.map Torrent.id).Nodup ∧ (∀ t ∈ s.db.torrents, t.id < s.db.nextID) ∧
    start s.db.torrents ∧ s.calls = []
  step := RepositoryStep env

/-- The last call does its next statement. -/
theorem RepositoryStep.last {env : Environment} {db db' : Database} {pre : List Call} {c c' : Call}
    {a : CallAction} (h : CallStep env db c a db' c') :
    RepositoryStep env ⟨db, pre ++ [c]⟩ (.call c a) ⟨db', pre ++ [c']⟩ := .call rfl h

/-- The first call does its next statement. -/
theorem RepositoryStep.first {env : Environment} {db db' : Database} {post : List Call} {c c' : Call}
    {a : CallAction} (h : CallStep env db c a db' c') :
    RepositoryStep env ⟨db, c :: post⟩ (.call c a) ⟨db', c' :: post⟩ :=
  @RepositoryStep.call env ⟨db, c :: post⟩ [] post c c' a db' rfl h

/-! ## What a step does to the torrents -/

/-- A statement of a call leaves the torrents alone, appends the new one or deletes some
    that the call has selected. -/
theorem CallStep.torrents {env : Environment} {db db' : Database} {c c' : Call} {a : CallAction}
    (h : CallStep env db c a db' c') :
    (db'.torrents = db.torrents ∧ db'.nextID = db.nextID) ∨
    (∃ categories, a = .insert ∧ c.pc = .inserting ∧ env.backend.admits db c.md = true ∧
      db'.torrents = db.torrents ++ [.ofMetadata db.nextID c.md categories] ∧
      db'.nextID = db.nextID + 1 ∧ c' = { c with pc := .counting, repeated := db.stores c.md }) ∨
    (∃ gone rest, a = .delete ∧ c.pc = .deleting (gone ++ rest) ∧
      db'.torrents = deleteByIDs db.torrents gone ∧ db'.nextID = db.nextID ∧
      (c'.pc = .deleting rest ∨ rest = [] ∧ c'.pc = .checkingWatches)) := by
  cases h with
  | @insert categories hpc hadmits => exact .inr (.inl ⟨categories, rfl, hpc, hadmits, rfl, rfl, rfl⟩)
  | @deleteAll e selected hb hpc =>
    exact .inr (.inr ⟨selected, [], rfl, by rw [List.append_nil]; exact hpc, rfl, rfl,
      .inr ⟨rfl, rfl⟩⟩)
  | @deleteOne t selected hb hpc => exact .inr (.inr ⟨[t], selected, rfl, hpc, rfl, rfl, .inl rfl⟩)
  | _ => exact .inl ⟨rfl, rfl⟩

/-- A property of every call that new calls have, and that the statement of a call keeps
    for it. -/
theorem RepositoryStep.forall_calls {env : Environment} {s s' : RepositoryState}
    {a : RepositoryAction} {P : Call → Prop} (h : RepositoryStep env s a s')
    (hs : ∀ c ∈ s.calls, P c) (hstart : ∀ md, P (.start md))
    (hcall : ∀ c b db c', c ∈ s.calls → a = .call c b → CallStep env s.db c b db c' → P c') :
    ∀ c ∈ s'.calls, P c := by
  intro c hc
  cases h with
  | configure => exact hs c hc
  | @ingest md =>
    obtain hold | hnew := List.mem_append.1 hc
    · exact hs c hold
    · rw [List.mem_singleton.1 hnew]
      exact hstart md
  | @call pre post d d' b db hcalls hstep =>
    rw [hcalls] at hs
    obtain hpre | hcons := List.mem_append.1 hc
    · exact hs c (List.mem_append_left _ hpre)
    · obtain rfl | hpost := List.mem_cons.1 hcons
      · exact hcall d b db c (by rw [hcalls]; simp) rfl hstep
      · exact hs c (List.mem_append_right _ (List.mem_cons_of_mem _ hpost))

end Db
