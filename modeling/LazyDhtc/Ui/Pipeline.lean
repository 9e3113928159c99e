-- SUMMARY: From a worker's queue to the browsers: no record is lost on the way, and with GORM no torrent comes out twice.
import LazyDhtc.Cluster.AtLeastOnce
import LazyDhtc.Ui.Feed

/-!
# The pipeline

A worker sends its records until they are acknowledged, over both channels and more than once.
The master's loops pass each of them to `IngestMetadata` and go on when the call has returned,
while other loops and the crawl of the master do the same. The database refuses what it has,
and the hub tells the browsers of the rest.
-/

namespace Ui

open Cluster Db DhtClient Json Transition

/-- A worker, the master's loops, and what they ingest into. -/
structure Pipeline (κ : Type) where
  cluster : ClusterState
  feed : Feed κ

abbrev Pipeline.db {κ : Type} (p : Pipeline κ) : Database := p.feed.repository.db

inductive PipelineAction (κ : Type) where
  | cluster (a : ClusterAction)
  | feed (a : FeedAction κ)
  | returns (a : FeedAction κ)

/-- The metadata of the call of `IngestMetadata` that returns with this statement. -/
def FeedAction.returned {κ : Type} (env : Db.Environment) (db : Database) :
    FeedAction κ → Option Metadata
  | .broadcast c => some c.md
  | .repository (.call c .refuse) => some c.md
  | .repository (.call c .filter) =>
    if filtered env.cfg env.compile db.blacklist c.md then some c.md else none
  | _ => none

inductive PipelineStep {κ : Type} [DecidableEq κ] (env : Db.Environment) :
    Pipeline κ → PipelineAction κ → Pipeline κ → Prop where
  | cluster {p : Pipeline κ} {a : ClusterAction} {cluster : ClusterState} :
      ClusterStep p.cluster a cluster → cluster.ingested = p.cluster.ingested →
      PipelineStep env p (.cluster a) { p with cluster := cluster }
  | feed {p : Pipeline κ} {a : FeedAction κ} {feed : Feed κ} :
      FeedStep env p.feed a feed → PipelineStep env p (.feed a) { p with feed := feed }
  /-- A loop of the master goes on to its next record. -/
  | returns {p : Pipeline κ} {a : FeedAction κ} {md : Metadata} {cluster : ClusterState}
      {feed : Feed κ} :
      FeedStep env p.feed a feed → a.returned env p.db = some md →
      ClusterStep p.cluster .ingest cluster → cluster.ingested = p.cluster.ingested ++ [md] →
      PipelineStep env p (.returns a) ⟨cluster, feed⟩

def pipelineSystem (κ : Type) [DecidableEq κ] (env : Db.Environment)
    (start : List Torrent → Prop) : System (Pipeline κ) (PipelineAction κ) where
  init p := ClusterInit p.cluster ∧ (feedSystem κ env start).init p.feed
  step := PipelineStep env

variable {κ : Type} [DecidableEq κ]

/-! ## Conditions -/

/-- An insert is refused only for an info hash that is stored. -/
def RefusesStored (s : RepositoryState) : RepositoryAction → Prop
  | .call c .refuse => s.db.stores c.md = true
  | _ => True

/-- A worker process that gives out every ID once, and a database that does not fail. -/
def Orderly (p : Pipeline κ) : PipelineAction κ → Prop
  | .cluster a => OneProcess p.cluster a
  | .feed (.repository a) | .returns (.repository a) => RefusesStored p.feed.repository a
  | _ => True

theorem projects_cluster (env : Db.Environment) (start : List Torrent → Prop) :
    ((pipelineSystem κ env start).restrict Orderly).Projects (clusterSystem.restrict OneProcess)
      Pipeline.cluster where
  init p hp := hp.1
  step p a p' hstep := by
    obtain ⟨hstep, hok⟩ := hstep
    cases hstep with
    | cluster hcluster => exact .single ⟨hcluster, hok⟩
    | feed => exact .refl _
    | returns _ _ hcluster => exact .single ⟨hcluster, trivial, trivial⟩

theorem projects_feed (env : Db.Environment) (start : List Torrent → Prop) :
    (pipelineSystem κ env start).Projects (feedSystem κ env start) Pipeline.feed where
  init p hp := hp.2
  step p a p' hstep := by
    cases hstep with
    | cluster => exact .refl _
    | feed hfeed => exact .single hfeed
    | returns hfeed => exact .single hfeed

/-- Every accepted record is queued or has been handed on. -/
theorem OneProcess.kept {s : ClusterState} (h : (clusterSystem.restrict OneProcess).Reachable s) :
    Kept s := by
  refine System.invariant ?_ ?_ h
  · rintro s ⟨-, -, -, -, -, -, -, -, haccepted⟩
    simp [Kept, haccepted]
  · intro s a s' hreach hkept hstep
    exact hkept.step (OneProcess.ackSafe hreach) (OneProcess.handled hreach) hstep.2.1 hstep.1

/-! ## Nothing is lost -/

/-- The call has inserted its torrent. -/
def PastInsert (c : Call) : Bool :=
  match c.pc with
  | .filtering | .inserting | .returned false => false
  | .counting | .selecting _ | .deleting _ | .checkingWatches | .broadcasting
  | .returned true => true

/-- Only an insert takes a call past the insert. -/
theorem pastInsert_callStep {env : Db.Environment} {db db' : Database} {c c' : Call}
    {a : CallAction} (h : CallStep env db c a db' c') (ha : a ≠ .insert) :
    PastInsert c' = PastInsert c := by
  cases h with
  | insert => exact absurd rfl ha
  | _ => simp_all [PastInsert]

/-- What an insert stores. -/
theorem stores_callStep {env : Db.Environment} {db db' : Database} {c c' : Call}
    (h : CallStep env db c .insert db' c') : db'.stores c'.md = true := by
  cases h with
  | insert => simp [Database.stores, Torrent.ofMetadata]

/-- A call that is past its insert was so before, or has just stored its torrent. -/
theorem pastInsert_repositoryStep {env : Db.Environment} {s s' : RepositoryState}
    {a : RepositoryAction} (h : RepositoryStep env s a s') {c' : Call} (hc' : c' ∈ s'.calls)
    (hpast : PastInsert c' = true) :
    s'.db.stores c'.md = true ∨ ∃ c ∈ s.calls, c.md = c'.md ∧ PastInsert c = true := by
  cases h with
  | configure => exact .inr ⟨c', hc', rfl, hpast⟩
  | ingest =>
    rcases List.mem_append.1 hc' with hold | hnew
    · exact .inr ⟨c', hold, rfl, hpast⟩
    · rw [List.mem_singleton.1 hnew] at hpast
      cases hpast
  | @call pre post c d b db hcalls hcall =>
    rw [hcalls]
    rcases List.mem_append.1 hc' with hpre | hrest
    · exact .inr ⟨c', List.mem_append_left _ hpre, rfl, hpast⟩
    · rcases List.mem_cons.1 hrest with rfl | hpost
      · by_cases hb : b = .insert
        · subst hb
          exact .inl (stores_callStep hcall)
        · rw [pastInsert_callStep hcall hb] at hpast
          exact .inr ⟨c, by simp, (inserted_callStep hcall).2.1.symm, hpast⟩
      · exact .inr ⟨c', by simp [hpost], rfl, hpast⟩

theorem pastInsert_feedStep {env : Db.Environment} {f f' : Feed κ} {a : FeedAction κ}
    (h : FeedStep env f a f') {c' : Call} (hc' : c' ∈ f'.repository.calls)
    (hpast : PastInsert c' = true) : f'.repository.db.stores c'.md = true ∨
      ∃ c ∈ f.repository.calls, c.md = c'.md ∧ PastInsert c = true := by
  cases h with
  | repository _ hr => exact pastInsert_repositoryStep hr hc' hpast
  | broadcast hr => exact pastInsert_repositoryStep hr hc' hpast
  | hub => exact .inr ⟨c', hc', rfl, hpast⟩

/-- Why a call returns: the filters have rejected the torrent, it is stored, or the call is
    past its insert. -/
theorem returned_feedStep {env : Db.Environment} {p : Pipeline κ} {feed : Feed κ}
    {a : FeedAction κ} {md : Metadata} (h : FeedStep env p.feed a feed)
    (hok : Orderly p (.returns a)) (hmd : a.returned env p.db = some md) :
    p.db.stores md = true ∨ filtered env.cfg env.compile p.db.blacklist md = true ∨
      ∃ c ∈ p.feed.repository.calls, c.md = md ∧ PastInsert c = true := by
  cases h with
  | @broadcast c m repository hub hr =>
    cases hmd
    cases hr with
    | call hcalls hcall =>
      cases hcall with
      | broadcast hpc => exact .inr (.inr ⟨c, by simp [hcalls], rfl, by simp [PastInsert, hpc]⟩)
  | hub => cases hmd
  | @repository a repository _ hr =>
    cases hr with
    | ingest | configure => cases hmd
    | @call pre post c c' b db hcalls hcall =>
      cases b with
      | refuse =>
        cases hmd
        exact .inl hok
      | filter =>
        obtain ⟨hfiltered, rfl⟩ : filtered env.cfg env.compile p.db.blacklist c.md = true ∧
            c.md = md := by simpa [FeedAction.returned] using hmd
        exact .inr (.inl hfiltered)
      | _ => cases hmd

/-- By the time `i` the torrent has been stored, or the filters have rejected it. -/
def Settled (env : Db.Environment) (run : Nat → Pipeline κ) (i : Nat) (md : Metadata) : Prop :=
  (∃ j ≤ i, (run j).db.stores md = true) ∨
    ∃ j < i, filtered env.cfg env.compile (run j).db.blacklist md = true

structure Progress (env : Db.Environment) (run : Nat → Pipeline κ) (i : Nat) : Prop where
  inserted : ∀ c ∈ (run i).feed.repository.calls, PastInsert c = true →
    ∃ j ≤ i, (run j).db.stores c.md = true
  ingested : ∀ md ∈ (run i).cluster.ingested, Settled env run i md

theorem Progress.step {env : Db.Environment} {run : Nat → Pipeline κ} {i : Nat}
    {a : PipelineAction κ} (h : Progress env run i)
    (hstep : PipelineStep env (run i) a (run (i + 1))) (hok : Orderly (run i) a) :
    Progress env run (i + 1) := by
  have hsettled : ∀ md, Settled env run i md → Settled env run (i + 1) md := by
    rintro md (⟨j, hj, hstored⟩ | ⟨j, hj, hfiltered⟩)
    · exact .inl ⟨j, Nat.le_succ_of_le hj, hstored⟩
    · exact .inr ⟨j, Nat.lt_succ_of_lt hj, hfiltered⟩
  have hstores : ∀ md, (∃ j ≤ i, (run j).db.stores md = true) →
      ∃ j ≤ i + 1, (run j).db.stores md = true := by
    rintro md ⟨j, hj, hstored⟩
    exact ⟨j, Nat.le_succ_of_le hj, hstored⟩
  have hinserted : ∀ f' b, FeedStep env (run i).feed b f' → (run (i + 1)).feed = f' →
      ∀ c ∈ (run (i + 1)).feed.repository.calls, PastInsert c = true →
        ∃ j ≤ i + 1, (run j).db.stores c.md = true := by
    rintro f' b hfeed rfl c hc hpast
    obtain hstored | ⟨c₀, hc₀, hmd, hpast₀⟩ := pastInsert_feedStep hfeed hc hpast
    · exact ⟨i + 1, Nat.le_refl _, hstored⟩
    · exact hstores _ (hmd ▸ h.inserted c₀ hc₀ hpast₀)
  generalize hp' : run (i + 1) = p' at hstep
  cases hstep with
  | @cluster b cluster _ hsame =>
    refine ⟨?_, ?_⟩
    · rw [hp']
      exact fun c hc hpast => hstores _ (h.inserted c hc hpast)
    · rw [hp', hsame]
      exact fun md hmd => hsettled md (h.ingested md hmd)
  | @feed b f' hfeed =>
    refine ⟨hinserted f' b hfeed (by rw [hp']), ?_⟩
    rw [hp']
    exact fun md hmd => hsettled md (h.ingested md hmd)
  | @returns b md cluster f' hfeed hreturned _ hingested =>
    refine ⟨hinserted f' b hfeed (by rw [hp']), ?_⟩
    rw [hp', hingested]
    intro md' hmd'
    rcases List.mem_append.1 hmd' with hold | hnew
    · exact hsettled md' (h.ingested md' hold)
    · rw [List.mem_singleton.1 hnew]
      obtain hstored | hfiltered | ⟨c, hc, rfl, hpast⟩ := returned_feedStep hfeed hok hreturned
      · exact .inl ⟨i, Nat.le_succ i, hstored⟩
      · exact .inr ⟨i, Nat.lt_succ_self i, hfiltered⟩
      · exact .inl (hstores _ (h.inserted c hc hpast))

/-- A repository without torrents, and no browsers. -/
def emptyFeed : Feed Unit := ⟨⟨⟨[], 1, [], []⟩, []⟩, newHub Unit⟩

theorem init_emptyFeed (env : Db.Environment) : (feedSystem Unit env UniqueHashes).init emptyFeed :=
  ⟨⟨List.nodup_nil, fun _ ht => (List.not_mem_nil ht).elim, List.nodup_nil, rfl⟩, rfl⟩

/-- No torrent is deleted. -/
def DeletesNothing (_ : Feed κ) : FeedAction κ → Prop
  | .repository (.call _ .delete) => False
  | _ => True

/-- The info hashes of the calls that have inserted. -/
def insertedHashes (calls : List Call) : List Bytes :=
  (calls.filter PastInsert).map fun c => encodeToString c.md.infoHash

theorem insertedHashes_append (calls calls' : List Call) :
    insertedHashes (calls ++ calls') = insertedHashes calls ++ insertedHashes calls' := by
  simp [insertedHashes]

theorem insertedHashes_cons (c : Call) (calls : List Call) : insertedHashes (c :: calls) =
    if PastInsert c then encodeToString c.md.infoHash :: insertedHashes calls
    else insertedHashes calls := by
  unfold insertedHashes
  rw [List.filter_cons]
  split_ifs <;> rfl

/-- Stored are the old torrents and those that calls have inserted, one per info hash. -/
structure Ledger (old : List Torrent) (s : RepositoryState) : Prop where
  unique : UniqueHashes s.db.torrents
  hashes : (s.db.torrents.map Torrent.infoHash).Perm
    (old.map Torrent.infoHash ++ insertedHashes s.calls)

theorem Ledger.step {old : List Torrent} {env : Db.Environment} {e : SqlEngine}
    {s s' : RepositoryState} {a : RepositoryAction} (h : Ledger old s)
    (hgorm : env.backend = .gorm e) (hkeep : ∀ c, a ≠ .call c .delete)
    (hstep : RepositoryStep env s a s') : Ledger old s' := by
  cases hstep with
  | configure => exact ⟨h.unique, h.hashes⟩
  | ingest =>
    refine ⟨h.unique, ?_⟩
    rw [insertedHashes_append]
    exact h.hashes.trans (.of_eq (by simp [insertedHashes, PastInsert, Call.start]))
  | @call pre post c c' b db hcalls hcall =>
    refine ⟨hcall.unique h.unique fun _ _ => ⟨e, hgorm⟩, ?_⟩
    have hmd : c'.md = c.md := (inserted_callStep hcall).2.1
    have hhashes := h.hashes
    rw [hcalls, insertedHashes_append, insertedHashes_cons] at hhashes
    rw [insertedHashes_append, insertedHashes_cons, hmd]
    by_cases hb : b = .insert
    · subst hb
      cases hcall with
      | insert hpc =>
        have hnot : PastInsert c = false := by simp [PastInsert, hpc]
        rw [hnot, if_neg Bool.false_ne_true] at hhashes
        show ((s.db.torrents ++ [_]).map Torrent.infoHash).Perm (old.map Torrent.infoHash ++
          (insertedHashes pre ++ encodeToString c.md.infoHash :: insertedHashes post))
        rw [List.map_append]
        refine (hhashes.append_right _).trans ?_
        rw [List.append_assoc, List.append_assoc]
        exact (List.perm_append_comm.append_left _).append_left _
    · rw [pastInsert_callStep hcall hb]
      obtain ⟨hsame, -⟩ | ⟨-, hinsert, -⟩ | ⟨-, -, hdelete, -⟩ := hcall.torrents
      · rw [hsame]
        exact hhashes
      · exact absurd hinsert hb
      · exact absurd (congrArg (RepositoryAction.call c) hdelete) (hkeep c)

theorem ledger_feedStep {old : List Torrent} {env : Db.Environment} {e : SqlEngine}
    {f f' : Feed κ} {a : FeedAction κ} (h : Ledger old f.repository)
    (hgorm : env.backend = .gorm e) (hkeep : DeletesNothing f a) (hstep : FeedStep env f a f') :
    Ledger old f'.repository := by
  cases hstep with
  | hub => exact h
  | broadcast hr => exact h.step hgorm (by simp) hr
  | repository _ hr =>
    refine h.step hgorm ?_ hr
    rintro c rfl
    exact hkeep

theorem pastInsert_of_inserted {c : Call} (h : Inserted c = true) : PastInsert c = true := by
  have hpc : c.pc = .returned true := of_decide_eq_true h
  simp [PastInsert, hpc]

/-- What has been announced was inserted. -/
theorem insertedBy_sublist (calls : List Call) :
    ((insertedBy calls).map fun md => encodeToString md.infoHash).Sublist
      (insertedHashes calls) := by
  unfold insertedBy insertedHashes
  rw [List.map_map]
  exact (List.monotone_filter_right calls fun _ => pastInsert_of_inserted).map _

/-- When no call is running, all that was inserted has been announced. -/
theorem insertedBy_all {calls : List Call} (h : ∀ c ∈ calls, ∃ b, c.pc = .returned b) :
    ((insertedBy calls).map fun md => encodeToString md.infoHash) = insertedHashes calls := by
  unfold insertedBy insertedHashes
  rw [List.map_map]
  refine congrArg (List.map _) (List.filter_congr fun c hc => ?_)
  obtain ⟨b, hpc⟩ := h c hc
  cases b <;> simp [Inserted, PastInsert, hpc]

theorem stores_iff {db : Database} {md : Metadata} : db.stores md = true ↔
    encodeToString md.infoHash ∈ db.torrents.map Torrent.infoHash := by
  rw [← Bool.not_eq_false, Database.stores_eq_false, not_not]

/-- However many calls deliver a torrent, at once or one after the other: as long as GORM
    deletes none, it is announced only if it was not there before, and not twice. When no
    call is running, what was announced is what has been added. -/
theorem announced_once {env : Db.Environment} {e : SqlEngine} (hgorm : env.backend = .gorm e)
    {s₀ s : Feed κ} (hinit : (feedSystem κ env UniqueHashes).init s₀)
    (hrun : ((feedSystem κ env UniqueHashes).restrict DeletesNothing).Steps s₀ s) :
    UniqueHashes s.repository.db.torrents ∧ ∃ mds : List Metadata,
      List.Forall₂ Announces mds s.hub.taken ∧ (mds.map Metadata.infoHash).Nodup ∧
      (∀ md ∈ mds, s₀.repository.db.stores md = false ∧ s.repository.db.stores md = true) ∧
      ((∀ c ∈ s.repository.calls, ∃ b, c.pc = .returned b) →
        (s.repository.db.torrents.map Torrent.infoHash).Perm
          (s₀.repository.db.torrents.map Torrent.infoHash ++
            mds.map fun md => encodeToString md.infoHash)) := by
  obtain ⟨⟨-, -, hunique, hcalls⟩, hhub⟩ := hinit
  have hledger : Ledger s₀.repository.db.torrents s.repository := by
    refine hrun.preserves (P := fun f => Ledger s₀.repository.db.torrents f.repository) ?_
      ⟨hunique, ?_⟩
    · rintro f a f' hf ⟨hstep, hkeep⟩
      exact ledger_feedStep hf hgorm hkeep hstep
    · rw [hcalls]
      exact .of_eq (List.append_nil _).symm
  have hannounced : s.Announced := by
    refine hrun.preserves (P := Feed.Announced) ?_ ⟨[], ?_, ?_⟩
    · rintro f a f' hf ⟨hstep, -⟩
      exact hf.step hstep
    · rw [hcalls]
      exact .refl _
    · rw [show s₀.hub = newHub κ from hhub]
      exact .nil
  obtain ⟨mds, hperm, htaken⟩ := hannounced
  have hnodup := hledger.hashes.nodup_iff.1 hledger.unique
  obtain ⟨-, hinserted, hdisjoint⟩ := List.nodup_append.1 hnodup
  have hhashes := hperm.map fun md => encodeToString md.infoHash
  have hsublist := insertedBy_sublist s.repository.calls
  have hmem : ∀ md ∈ mds, encodeToString md.infoHash ∈ insertedHashes s.repository.calls :=
    fun md hmd => hsublist.subset (hhashes.subset (List.mem_map_of_mem hmd))
  refine ⟨hledger.unique, mds, htaken, ?_, fun md hmd => ⟨?_, ?_⟩, fun hreturned => ?_⟩
  · have hnodup' := hhashes.nodup_iff.2 (hinserted.sublist hsublist)
    rw [show (fun md : Metadata => encodeToString md.infoHash) =
      encodeToString ∘ Metadata.infoHash from rfl, ← List.map_map] at hnodup'
    exact hnodup'.of_map
  · rw [Database.stores_eq_false]
    exact fun hold => hdisjoint _ hold _ (hmem md hmd) rfl
  · rw [stores_iff]
    exact hledger.hashes.symm.subset (List.mem_append_right _ (hmem md hmd))
  · rw [insertedBy_all hreturned] at hhashes
    exact hledger.hashes.trans (hhashes.symm.append_left _)

/-- Two calls deliver a torrent at the same time. The database refuses one of them. -/
theorem announced_once_of_two : ∃ s : Feed Unit, s.repository.calls.length = 2 ∧
    s.hub.taken.length = 1 ∧ UniqueHashes s.repository.db.torrents ∧ ∃ mds : List Metadata,
      List.Forall₂ Announces mds s.hub.taken ∧ (mds.map Metadata.infoHash).Nodup := by
  let env := plainEnvironment (.gorm sqlite)
  let sys := (feedSystem Unit env UniqueHashes).restrict DeletesNothing
  have hingest : ∀ c, RepositoryAction.ingest Db.sampleMetadata ≠ .call c .broadcast := by simp
  have hcalled : sys.Steps emptyFeed _ :=
    .single ⟨@FeedStep.repository _ _ env _ _ _ hingest .ingest, trivial⟩
  have hpassed := hcalled.tail ⟨.last (.pass rfl rfl) (by simp), trivial⟩
  have hagain := hpassed.tail ⟨.repository hingest .ingest, trivial⟩
  have hboth := hagain.tail ⟨.last (.pass rfl rfl) (by simp), trivial⟩
  have hinserted := hboth.tail ⟨.last (.insert rfl rfl (.refl _)) (by simp), trivial⟩
  have hcounted := hinserted.tail
    ⟨.last (.countFew rfl (.inl (Int.le_refl 0))) (by simp), trivial⟩
  have hchecked := hcounted.tail ⟨.last (.checkWatches rfl) (by simp), trivial⟩
  have htaken := hchecked.tail ⟨.broadcast (RepositoryStep.last (.broadcast rfl))
    ⟨_, .refl _, rfl⟩ (.broadcast rfl), trivial⟩
  have hrefused := htaken.tail
    ⟨.repository (by simp) (RepositoryStep.first (.refuse rfl)), trivial⟩
  obtain ⟨hunique, mds, hannounced, hnodup, -⟩ :=
    announced_once rfl (init_emptyFeed env) hrefused
  exact ⟨_, rfl, rfl, hunique, mds, hannounced, hnodup⟩

end Ui
