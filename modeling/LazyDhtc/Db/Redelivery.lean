-- SUMMARY: Torrents that are delivered again: when a repository keeps one torrent per info hash and announces none twice.
import LazyDhtc.Db.Ingest

/-!
# Redelivery

A record is delivered again after a lost acknowledgement, by another worker, or by a push
and a pull at once. With GORM the unique index refuses it. A document of Clover is only
unique by its ID, so that nothing but the order of the deliveries keeps it out.
-/

namespace Db

open DhtClient Transition

/-! ## Idempotence -/

/-- A call that was decided while its info hash was stored has returned false, without
    notifications and without a broadcast. -/
def Call.Silent (c : Call) : Prop :=
  c.repeated = true → c.pc = .returned false ∧ c.notifications = [] ∧ c.broadcast = false

/-- At most one torrent per info hash. -/
def UniqueHashes (torrents : List Torrent) : Prop := (torrents.map Torrent.infoHash).Nodup

structure Idempotent (s : RepositoryState) : Prop where
  unique : UniqueHashes s.db.torrents
  silent : ∀ c ∈ s.calls, c.Silent

/-- No insert of Clover finds a torrent with its info hash. -/
def InsertsNew (env : Environment) (s : RepositoryState) : RepositoryAction → Prop
  | .call c .insert => s.db.stores c.md = true → ∃ e, env.backend = .gorm e
  | _ => True

/-! ## The database -/

theorem Database.stores_eq_false {db : Database} {md : Metadata} :
    db.stores md = false ↔ encodeToString md.infoHash ∉ db.torrents.map Torrent.infoHash := by
  simp only [Database.stores, List.any_eq_false, decide_eq_true_eq, List.mem_map, not_exists,
    not_and]

theorem UniqueHashes.append {db : Database} {md : Metadata} (h : UniqueHashes db.torrents)
    (hnew : db.stores md = false) (id : Nat) (categories : List Bytes) :
    UniqueHashes (db.torrents ++ [.ofMetadata id md categories]) := by
  unfold UniqueHashes
  rw [List.map_append]
  refine List.Nodup.append h (List.nodup_singleton _) ?_
  intro hash hin hnewhash
  rw [List.mem_singleton.1 hnewhash] at hin
  exact Database.stores_eq_false.1 hnew hin

theorem UniqueHashes.deleteByIDs {torrents : List Torrent} (h : UniqueHashes torrents)
    (selected : List Torrent) : UniqueHashes (deleteByIDs torrents selected) :=
  h.sublist (List.filter_sublist.map _)

/-! ## Steps -/

/-- What an insert has to find: nothing under its info hash. -/
theorem CallStep.insert_new {env : Environment} {db : Database} {c : Call}
    (hadmits : env.backend.admits db c.md = true)
    (hok : db.stores c.md = true → ∃ e, env.backend = .gorm e) : db.stores c.md = false := by
  cases hstores : db.stores c.md with
  | false => rfl
  | true =>
    obtain ⟨e, he⟩ := hok hstores
    rw [he] at hadmits
    unfold Backend.admits at hadmits
    rw [hstores] at hadmits
    exact hadmits.symm

theorem CallStep.unique {env : Environment} {db db' : Database} {c c' : Call} {a : CallAction}
    (h : CallStep env db c a db' c') (hdb : UniqueHashes db.torrents)
    (hok : a = .insert → db.stores c.md = true → ∃ e, env.backend = .gorm e) :
    UniqueHashes db'.torrents := by
  obtain ⟨heq, -⟩ | ⟨categories, ha, -, hadmits, heq, -⟩ | ⟨gone, rest, -, -, heq, -⟩ := h.torrents
  · rw [heq]
    exact hdb
  · rw [heq]
    exact hdb.append (insert_new hadmits (hok ha)) db.nextID categories
  · rw [heq]
    exact hdb.deleteByIDs gone

/-- A silent call that goes on was not decided before, and nothing speaks for it but the
    steps after its insert. -/
theorem CallStep.silent {env : Environment} {db db' : Database} {c c' : Call} {a : CallAction}
    (h : CallStep env db c a db' c') (hc : c.Silent)
    (hquiet : c.pc = .filtering ∨ c.pc = .inserting → c.notifications = [] ∧ c.broadcast = false)
    (hok : a = .insert → db.stores c.md = true → ∃ e, env.backend = .gorm e) : c'.Silent := by
  have hundecided : (∀ r, c.pc ≠ .returned r) → c.repeated = false := by
    intro hpc
    cases hrepeated : c.repeated with
    | false => rfl
    | true => exact absurd (hc hrepeated).1 (hpc false)
  intro hrepeated
  cases h with
  | reject hpc => exact ⟨rfl, hquiet (.inl hpc)⟩
  | refuse hpc => exact ⟨rfl, hquiet (.inr hpc)⟩
  | insert hpc hadmits =>
    exact absurd hrepeated (by simp only [insert_new hadmits (hok rfl), Bool.false_eq_true,
      not_false_eq_true])
  | pass hpc | countFew hpc | countMany hpc | select hpc | countFails hpc | selectFails hpc
  | checkWatches hpc | broadcast hpc | deleteAll _ hpc | deleteOne _ hpc | deleteDone _ hpc
  | deleteAllFails _ hpc | deleteOneFails _ hpc =>
    have hnot : c.repeated = false := hundecided fun r hr => by
      rw [hpc] at hr
      cases hr
    rw [hnot] at hrepeated
    cases hrepeated

/-- A call that has not inserted yet has said nothing. -/
def Call.Quiet (c : Call) : Prop :=
  c.pc = .filtering ∨ c.pc = .inserting → c.notifications = [] ∧ c.broadcast = false

theorem CallStep.quiet {env : Environment} {db db' : Database} {c c' : Call} {a : CallAction}
    (h : CallStep env db c a db' c') (hc : c.Quiet) : c'.Quiet := by
  intro hpc'
  cases h with
  | pass hpc => exact hc (.inl hpc)
  | _ => obtain hbad | hbad := hpc' <;> cases hbad

/-! ## Runs -/

theorem repository_quiet {env : Environment} {start : List Torrent → Prop} {s : RepositoryState}
    (h : (repositorySystem env start).Reachable s) : ∀ c ∈ s.calls, c.Quiet := by
  refine System.invariant (P := fun s => ∀ c ∈ s.calls, c.Quiet) ?_ ?_ h
  · intro s ⟨_, _, _, hcalls⟩ c hc
    rw [hcalls] at hc
    cases hc
  · intro s a s' _ hquiet hstep
    refine RepositoryStep.forall_calls hstep hquiet (fun md _ => ⟨rfl, rfl⟩) ?_
    intro c b db c' hc _ hcall
    exact hcall.quiet (hquiet c hc)

theorem RepositoryStep.unique {env : Environment} {s s' : RepositoryState} {a : RepositoryAction}
    (h : RepositoryStep env s a s') (hs : UniqueHashes s.db.torrents) (hok : InsertsNew env s a) :
    UniqueHashes s'.db.torrents := by
  cases h with
  | ingest | configure => exact hs
  | call hcalls hcall =>
    refine hcall.unique hs ?_
    rintro rfl
    exact hok

/-- As long as no insert of Clover finds its info hash stored, there is one torrent per
    info hash, and a delivery of a stored torrent is refused and not announced. -/
theorem redelivery_idempotent {env : Environment} {s : RepositoryState}
    (h : ((repositorySystem env UniqueHashes).restrict (InsertsNew env)).Reachable s) :
    UniqueHashes s.db.torrents ∧ ∀ c ∈ s.calls, c.repeated = true →
      c.pc = .returned false ∧ c.notifications = [] ∧ c.broadcast = false := by
  have hinv : Idempotent s := by
    refine System.invariant (P := Idempotent) ?_ ?_ h
    · intro s ⟨_, _, hunique, hcalls⟩
      refine ⟨hunique, fun c hc => ?_⟩
      rw [hcalls] at hc
      cases hc
    · intro s a s' hreach hidem ⟨hstep, hok⟩
      refine ⟨RepositoryStep.unique hstep hidem.unique hok, ?_⟩
      refine RepositoryStep.forall_calls hstep hidem.silent
        (fun md hrepeated => absurd hrepeated Bool.false_ne_true) ?_
      intro c b db c' hc ha hcall
      refine hcall.silent (hidem.silent c hc) (repository_quiet hreach.of_restrict c hc) ?_
      rintro rfl
      rw [ha] at hok
      exact hok
  exact ⟨hinv.unique, hinv.silent⟩

/-! ## A repeated delivery -/

/-- A repository without filters and without pruning. -/
def plainEnvironment (b : Backend) : Environment := ⟨⟨false, false, 0⟩, b, fun _ => none, true⟩

/-- The delivered torrent as it is stored. -/
def sampleRow (id : Nat) : Torrent := .ofMetadata id sampleMetadata [ascii "Audio"]

/-- A repository that has the torrent, with a watch entry that it matches. -/
def sampleRepository : RepositoryState :=
  ⟨⟨[sampleRow 1], 2, [], [⟨ascii "1", ascii "Name", ascii "contains", ascii "quiet"⟩]⟩, []⟩

theorem init_sampleRepository (env : Environment) :
    (repositorySystem env UniqueHashes).init sampleRepository := by
  refine ⟨List.nodup_singleton _, ?_, List.nodup_singleton _, rfl⟩
  intro t ht
  rw [List.mem_singleton.1 ht]
  exact Nat.lt_succ_self 1

/-- GORM refuses a torrent that it has stored. -/
theorem redelivery_idempotent_refused :
    UniqueHashes [sampleRow 1] ∧
    ∀ c ∈ [Call.mk sampleMetadata (.returned false) true [] false], c.repeated = true →
      c.pc = .returned false ∧ c.notifications = [] ∧ c.broadcast = false := by
  let env := plainEnvironment (.gorm sqlite)
  have hinit : ((repositorySystem env UniqueHashes).restrict (InsertsNew env)).Reachable
      sampleRepository := .init (init_sampleRepository env)
  have hcall := hinit.step ⟨@RepositoryStep.ingest env _ sampleMetadata, trivial⟩
  have hpassed := hcall.step ⟨RepositoryStep.last (.pass rfl rfl), trivial⟩
  have hrefused := hpassed.step ⟨RepositoryStep.last (.refuse rfl), trivial⟩
  exact redelivery_idempotent hrefused

/-- Clover stores the torrent a second time, notifies and broadcasts. -/
theorem clover_stores_twice : ∃ s,
    (repositorySystem (plainEnvironment .clover) UniqueHashes).Reachable s ∧
      ¬ UniqueHashes s.db.torrents ∧
      ∃ c ∈ s.calls, c.repeated = true ∧ c.pc = .returned true ∧ c.broadcast = true ∧
        c.notifications ≠ [] := by
  let env := plainEnvironment .clover
  have hinit : (repositorySystem env UniqueHashes).Reachable sampleRepository :=
    .init (init_sampleRepository env)
  have hcall := hinit.step (@RepositoryStep.ingest env _ sampleMetadata)
  have hpassed := hcall.step (RepositoryStep.last (.pass rfl rfl))
  have hinserted := hpassed.step (RepositoryStep.last (.insert rfl rfl (.refl _)))
  have hcounted := hinserted.step (RepositoryStep.last (.countFew rfl (.inl (Int.le_refl 0))))
  have hchecked := hcounted.step (RepositoryStep.last (.checkWatches rfl))
  have hreturned := hchecked.step (RepositoryStep.last (.broadcast rfl))
  refine ⟨_, hreturned, ?_, _, List.mem_singleton_self _, ?_, rfl, rfl, ?_⟩
  · unfold UniqueHashes
    decide +kernel
  · decide +kernel
  · decide +kernel

end Db
