-- SUMMARY: What browsers are told of: the messages of the calls of IngestMetadata that have inserted, in one order for all of them.
import LazyDhtc.Cluster.Wire
import LazyDhtc.Db.Redelivery
import LazyDhtc.Ui.Hub

/-!
# The feed

A call of `IngestMetadata` that has inserted broadcasts the torrent, and waits until the hub
takes the message. This module puts the calls and the hub together: the last statement of a
call and the hub's receive are one step.
-/

namespace Ui

open Cluster Db DhtClient Json Transition

/-! ## Messages -/

structure TrawlMessage where
  name : Bytes
  infoHashHex : Bytes
  totalSize : UInt64
  discoveredOn : Int64
  files : List File
  categories : List Bytes
  family : Int64

def encodeTrawlMessage (msg : TrawlMessage) : Value :=
  .obj [(ascii "Name", .str msg.name), (ascii "InfoHashHex", .str msg.infoHashHex),
    (ascii "TotalSize", ofUInt64 msg.totalSize), (ascii "DiscoveredOn", ofInt64 msg.discoveredOn),
    (ascii "Files", ofSlice encodeFile msg.files),
    (ascii "Categories", ofSlice Value.str msg.categories), (ascii "Family", ofInt64 msg.family)]

/-- The message of `BroadcastMetadata`, given what `Categorize` has returned. -/
def trawlMessage (md : Metadata) (categories : List Bytes) : TrawlMessage where
  name := md.name
  infoHashHex := encodeToString md.infoHash
  totalSize := md.totalSize
  discoveredOn := md.discoveredOn
  files := md.files
  categories := categories
  family := md.family

/-- The text that `Broadcast` sends for a torrent. `Categorize` returns the categories in
    the order of a map. -/
def Announces (md : Metadata) (m : Bytes) : Prop :=
  ∃ categories : List Bytes, categories.Perm (categorize md) ∧
    m = encode (encodeTrawlMessage (trawlMessage md categories))

theorem depth_encodeTrawlMessage (msg : TrawlMessage) :
    (encodeTrawlMessage msg).depth ≤ maxNestingDepth := by
  have hfiles : (ofSlice encodeFile msg.files).depth ≤ 2 := depth_ofSlice depth_encodeFile _
  have hcategories : (ofSlice Value.str msg.categories).depth ≤ 1 :=
    depth_ofSlice (fun _ => Nat.le_refl 0) _
  have hdepth : (encodeTrawlMessage msg).depth ≤ 3 := by
    refine depth_obj_le ?_
    simp [hfiles, hcategories.trans (Nat.le_succ 1)]
  exact hdepth.trans (by decide)

/-- What a browser parses. -/
theorem Announces.parses {md : Metadata} {m : Bytes} (h : Announces md m) :
    ∃ categories : List Bytes, categories.Perm (categorize md) ∧
      readAll m = some (encodeTrawlMessage (trawlMessage md categories)).coerce := by
  obtain ⟨categories, hperm, rfl⟩ := h
  exact ⟨categories, hperm, readAll_encode (depth_encodeTrawlMessage _)⟩

/-! ## Calls and hub -/

structure Feed (κ : Type) where
  repository : RepositoryState
  hub : Hub κ

inductive FeedAction (κ : Type) where
  | repository (a : RepositoryAction)
  | broadcast (c : Call)
  | hub (a : HubAction κ)

inductive FeedStep {κ : Type} [DecidableEq κ] (env : Db.Environment) :
    Feed κ → FeedAction κ → Feed κ → Prop where
  | repository {s : Feed κ} {a : RepositoryAction} {repository : RepositoryState} :
      (∀ c, a ≠ .call c .broadcast) → RepositoryStep env s.repository a repository →
      FeedStep env s (.repository a) { s with repository := repository }
  | broadcast {s : Feed κ} {c : Call} {m : Bytes} {repository : RepositoryState} {hub : Hub κ} :
      RepositoryStep env s.repository (.call c .broadcast) repository → Announces c.md m →
      HubStep s.hub (.broadcast m) hub → FeedStep env s (.broadcast c) ⟨repository, hub⟩
  | hub {s : Feed κ} {a : HubAction κ} {hub : Hub κ} :
      (∀ m, a ≠ .broadcast m) → HubStep s.hub a hub →
      FeedStep env s (.hub a) { s with hub := hub }

def feedSystem (κ : Type) [DecidableEq κ] (env : Db.Environment) (start : List Torrent → Prop) :
    System (Feed κ) (FeedAction κ) where
  init s := (repositorySystem env start).init s.repository ∧ (hubSystem κ).init s.hub
  step := FeedStep env

variable {κ : Type} [DecidableEq κ]

theorem projects_repository (env : Db.Environment) (start : List Torrent → Prop) :
    (feedSystem κ env start).Projects (repositorySystem env start) Feed.repository where
  init s hs := hs.1
  step s a s' hstep := by
    cases hstep with
    | repository _ hr => exact .single hr
    | broadcast hr => exact .single hr
    | hub => exact .refl _

theorem projects_hub (env : Db.Environment) (start : List Torrent → Prop) :
    (feedSystem κ env start).Projects (hubSystem κ) Feed.hub where
  init s hs := hs.2
  step s a s' hstep := by
    cases hstep with
    | repository => exact .refl _
    | broadcast _ _ hh => exact .single hh
    | hub _ hh => exact .single hh

/-! ## Every insert is announced -/

/-- The call has returned `true`. -/
def Inserted (c : Call) : Bool := c.pc = .returned true

/-- The torrents of the calls that have returned `true`. -/
def insertedBy (calls : List Call) : List Metadata := (calls.filter Inserted).map Call.md

theorem insertedBy_append (calls calls' : List Call) :
    insertedBy (calls ++ calls') = insertedBy calls ++ insertedBy calls' := by
  simp [insertedBy]

/-- Only the broadcast lets a call return `true`. -/
theorem inserted_callStep {env : Db.Environment} {db db' : Database} {c c' : Call} {a : CallAction}
    (h : CallStep env db c a db' c') : Inserted c = false ∧ c'.md = c.md ∧
      (Inserted c' = true ↔ a = .broadcast) := by
  cases h <;> simp_all [Inserted]

theorem taken_hub {h h' : Hub κ} {a : HubAction κ} (hstep : HubStep h a h')
    (ha : ∀ m, a ≠ .broadcast m) : h'.taken = h.taken := by
  cases hstep with
  | broadcast => exact absurd rfl (ha _)
  | unregister =>
    simp only [Hub.unregisters]
    split_ifs <;> rfl
  | write =>
    simp only [Hub.writes]
    split_ifs <;> rfl
  | _ => rfl

/-- The messages that the hub has taken are those of the inserted torrents, in some order. -/
def Feed.Announced (s : Feed κ) : Prop :=
  ∃ mds : List Metadata, mds.Perm (insertedBy s.repository.calls) ∧
    List.Forall₂ Announces mds s.hub.taken

theorem Feed.Announced.step {env : Db.Environment} {s s' : Feed κ} {a : FeedAction κ}
    (hs : s.Announced) (hstep : FeedStep env s a s') : s'.Announced := by
  obtain ⟨mds, hperm, htaken⟩ := hs
  cases hstep with
  | @repository a repository ha hr =>
    refine ⟨mds, ?_, htaken⟩
    refine hperm.trans (List.Perm.of_eq ?_)
    cases hr with
    | configure => rfl
    | ingest =>
      rw [insertedBy_append]
      exact (List.append_nil _).symm
    | @call pre post c c' b db hcalls hcall =>
      obtain ⟨hold, -, hnew⟩ := inserted_callStep hcall
      have hnot : Inserted c' = false := by
        refine Bool.eq_false_iff.2 fun hins => ha c ?_
        rw [hnew.1 hins]
      rw [hcalls, insertedBy_append, insertedBy_append]
      simp [insertedBy, hold, hnot]
  | @broadcast c m repository hub hr hm hh =>
    cases hr with
    | @call pre post _ c' _ db hcalls hcall =>
      cases hh with
      | broadcast =>
        obtain ⟨hold, hmd, hnew⟩ := inserted_callStep hcall
        refine ⟨mds ++ [c.md], ?_, List.rel_append htaken (.cons hm .nil)⟩
        rw [hcalls, insertedBy_append] at hperm
        rw [insertedBy_append]
        have hbefore : insertedBy (c :: post) = insertedBy post := by simp [insertedBy, hold]
        have hafter : insertedBy (c' :: post) = c.md :: insertedBy post := by
          simp [insertedBy, hnew.2 rfl, hmd]
        rw [hbefore] at hperm
        rw [hafter]
        have hswap : (insertedBy post ++ [c.md]).Perm ([c.md] ++ insertedBy post) :=
          List.perm_append_comm
        refine (hperm.append_right [c.md]).trans ?_
        rw [List.append_assoc]
        exact hswap.append_left _
  | hub ha hh =>
    refine ⟨mds, hperm, ?_⟩
    rw [taken_hub hh ha]
    exact htaken

/-- There is one order of the torrents that were inserted such that each connection was
    told of those from some place on, one after the other, and of all of them while it is a
    client and the hub has nothing to write. -/
theorem feed_in_order {env : Db.Environment} {start : List Torrent → Prop} {s : Feed κ}
    (hr : (feedSystem κ env start).Reachable s) : ∃ mds : List Metadata,
      mds.Perm (insertedBy s.repository.calls) ∧ List.Forall₂ Announces mds s.hub.taken ∧
      ∀ c k n, s.hub.conns c = some k → k.joined = some n → ∃ told untold,
        mds.drop n = told ++ untold ∧ List.Forall₂ Announces told k.sent ∧
        (c ∈ s.hub.clients → s.hub.pc = .select → untold = []) := by
  have hannounced : s.Announced := by
    refine System.invariant (P := Feed.Announced) ?_ (fun _ _ _ _ hs hstep => hs.step hstep) hr
    rintro s ⟨⟨-, -, -, hcalls⟩, hhub⟩
    refine ⟨[], ?_, ?_⟩
    · rw [hcalls]
      exact .refl _
    · rw [show s.hub = newHub κ from hhub]
      exact .nil
  obtain ⟨mds, hperm, htaken⟩ := hannounced
  refine ⟨mds, hperm, htaken, ?_⟩
  intro c k n hk hn
  obtain ⟨⟨rest, hsent⟩, hclient⟩ :=
    hub_sends ((projects_hub env start).reachable hr) hk hn
  have hdrop : List.Forall₂ Announces (mds.drop n) (k.sent ++ rest) := by
    rw [hsent]
    exact List.forall₂_drop n htaken
  refine ⟨(mds.drop n).take k.sent.length, (mds.drop n).drop k.sent.length,
    (List.take_append_drop _ _).symm, List.forall₂_take_append _ _ _ hdrop, ?_⟩
  intro hc hpc
  have hall := hclient hc
  rw [pending_select hpc, List.append_nil] at hall
  have hlength := hdrop.length_eq
  rw [hsent, hall] at hlength
  exact List.drop_eq_nil_of_le hlength.le

/-- The last call does a statement that is not its broadcast. -/
theorem FeedStep.last {env : Db.Environment} {db db' : Database} {pre : List Call} {c c' : Call}
    {a : CallAction} {hub : Hub κ} (h : CallStep env db c a db' c') (ha : a ≠ .broadcast) :
    FeedStep env ⟨⟨db, pre ++ [c]⟩, hub⟩ (.repository (.call c a)) ⟨⟨db', pre ++ [c']⟩, hub⟩ :=
  .repository (fun _ heq => ha (by cases heq; rfl)) (RepositoryStep.last h)

/-- A browser was told of the torrent that was stored while it was connected. -/
theorem feed_in_order_one : ∃ s : Feed Unit, s.hub.clients = {()} ∧ s.hub.taken ≠ [] ∧
    ∃ mds : List Metadata, mds.Perm (insertedBy s.repository.calls) ∧
      List.Forall₂ Announces mds s.hub.taken ∧
      ∀ c k n, s.hub.conns c = some k → k.joined = some n → ∃ told untold,
        mds.drop n = told ++ untold ∧ List.Forall₂ Announces told k.sent ∧
        (c ∈ s.hub.clients → s.hub.pc = .select → untold = []) := by
  let env := plainEnvironment .clover
  have hinit : (feedSystem Unit env UniqueHashes).Reachable ⟨sampleRepository, newHub Unit⟩ :=
    .init ⟨init_sampleRepository env, rfl⟩
  have hupgraded := hinit.step (.hub (by simp) (@HubStep.upgrade Unit _ _ () rfl))
  have hregistered := hupgraded.step
    (.hub (by simp) (@HubStep.register Unit _ _ () _ rfl rfl rfl))
  have hingest : ∀ c, RepositoryAction.ingest Db.sampleMetadata ≠ .call c .broadcast := by simp
  have hcall := hregistered.step (.repository hingest .ingest)
  have hpassed := hcall.step (.last (.pass rfl rfl) (by simp))
  have hinserted := hpassed.step (.last (.insert rfl rfl (.refl _)) (by simp))
  have hcounted := hinserted.step (.last (.countFew rfl (.inl (Int.le_refl 0))) (by simp))
  have hchecked := hcounted.step (.last (.checkWatches rfl) (by simp))
  have htaken := hchecked.step (.broadcast (RepositoryStep.last (.broadcast rfl))
    ⟨_, .refl _, rfl⟩ (.broadcast rfl))
  have hwritten := htaken.step (.hub (by simp)
    (@HubStep.write Unit _ _ _ _ () _ true rfl (Finset.mem_insert_self () ∅) rfl))
  exact ⟨_, rfl, List.cons_ne_nil _ _, feed_in_order hwritten⟩

end Ui
